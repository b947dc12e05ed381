/-
This file puts the red-black trees of several heads into one memory and proves that they are
ordered sets over whole runs. What a caller has to keep to is stated on the sets: an element
is inserted only when it is in no other tree, and removed, or asked for the next one, only when
it is in the tree; no call needs more turns of a loop than twice the logarithm of the number of
elements, and `RB_FOREACH` one for each element besides.
-/

import SelftestNet.RbRemove
import SelftestNet.RbWalk
import SelftestNet.Run

namespace SelftestNet

open BinaryTree LinkedTree OrderedSet PartialRun RedBlack TreePath

/-- Several heads, and the entries of all elements in memory. -/
structure RbHeads (Head Address : Type) where
  root : Head → Option Address
  entry : Address → RbEntry Address

namespace RbHeads

variable {Head Address : Type}

/-! ### Calls -/

/-- One head with the memory. -/
def heap (heads : RbHeads Head Address) (head : Head) : RbHeap Address :=
  ⟨heads.root head, heads.entry⟩

variable [DecidableEq Head]

/-- The heads and the memory after a change of one head and of the memory. -/
def put (heads : RbHeads Head Address) (head : Head) (heap : RbHeap Address) :
    RbHeads Head Address :=
  ⟨Function.update heads.root head heap.rbhRoot, heap.entry⟩

variable [DecidableEq Address]

/-- A call of one of the macros. -/
def call (cmp : Address → Address → Int) (turns : Nat) (heads : RbHeads Head Address) :
    Call Head Address → Option (RbHeads Head Address × Answer Address)
  | .init head => some (heads.put head (heads.heap head).init, .nothing)
  | .insert head elm => ((heads.heap head).insert cmp turns elm).map fun result =>
    (heads.put head result.1, .element result.2)
  | .remove head elm => ((heads.heap head).remove turns elm).map fun result =>
    (heads.put head result.1, .element (some result.2))
  | .find head elm => ((heads.heap head).find cmp turns elm).map fun found =>
    (heads, .element found)
  | .next head elm => ((heads.heap head).next turns elm).map fun next => (heads, .element next)
  | .least head => ((heads.heap head).min turns).map fun least => (heads, .element least)
  | .greatest head => ((heads.heap head).max turns).map fun greatest =>
    (heads, .element greatest)
  | .walk head => ((heads.heap head).foreach turns).map fun visited =>
    (heads, .elements visited)

/-- One call after others, with all answers. -/
def step (cmp : Address → Address → Int) (turns : Nat)
    (state : RbHeads Head Address × List (Answer Address)) (next : Call Head Address) :
    Option (RbHeads Head Address × List (Answer Address)) :=
  (state.1.call cmp turns next).map fun result => (result.1, state.2 ++ [result.2])

/-- A call changes no root but that of its head. -/
theorem call_root {cmp : Address → Address → Int} {turns : Nat} {heads after : RbHeads Head Address}
    {next : Call Head Address} {answer : Answer Address}
    (called : heads.call cmp turns next = some (after, answer)) (other : Head)
    (different : other ≠ next.name) : after.root other = heads.root other := by
  have put : ∀ heap, (heads.put next.name heap).root other = heads.root other :=
    fun heap => Function.update_of_ne different ..
  cases next with
  | init head =>
    cases called
    exact put _
  | insert head elm | remove head elm =>
    obtain ⟨result, -, same⟩ := Option.map_eq_some_iff.mp called
    cases same
    exact put _
  | find head elm | next head elm | least head | greatest head | walk head =>
    obtain ⟨result, -, same⟩ := Option.map_eq_some_iff.mp called
    cases same
    rfl

/-! ### The sets of the heads -/

variable {Key : Type} [LinearOrder Key] {key : Address → Key}

/-- The loops have turns for a tree with so many elements. -/
def Enough (turns : Nat) (set : OrderedSet key) : Prop :=
  2 * Nat.log 2 (set.elements.length + 1) < turns

instance (turns : Nat) (set : OrderedSet key) : Decidable (Enough turns set) :=
  inferInstanceAs (Decidable (_ < _))

/-- What a caller may do. -/
def Permitted (turns : Nat) (sets : Head → OrderedSet key) : Call Head Address → Prop
  | .init _ => True
  | .insert head elm =>
    (∀ other ≠ head, elm ∉ (sets other).elements) ∧ Enough turns (sets head)
  | .remove head elm => elm ∈ (sets head).elements ∧ Enough turns (sets head)
  | .find head _ => Enough turns (sets head)
  | .next head elm => elm ∈ (sets head).elements ∧ Enough turns (sets head)
  | .least head => Enough turns (sets head)
  | .greatest head => Enough turns (sets head)
  | .walk head => (sets head).elements.length < turns

/-- The elements whose entries a call may change. -/
def touched (sets : Head → OrderedSet key) : Call Head Address → List Address
  | .insert head elm => elm :: (sets head).elements
  | .remove head _ => (sets head).elements
  | _ => []

/-- Every head has a balanced tree of the elements of its set. -/
def Represents (heads : RbHeads Head Address) (sets : Head → OrderedSet key) : Prop :=
  rbLayout.Forest heads.entry heads.root (fun head => (sets head).elements) fun _ tree =>
    ∃ height, Balanced .black height tree

variable {heads : RbHeads Head Address} {sets : Head → OrderedSet key}

omit [DecidableEq Head] [DecidableEq Address] in
/-- The tree of a head, with as many turns as its height. -/
theorem Represents.exists_treeAt (represents : heads.Represents sets) {head : Head}
    {scope : List Address} (covered : (sets head).elements ⊆ scope) {turns : Nat}
    (enough : Enough turns (sets head)) :
    ∃ tree height, (heads.heap head).TreeAt heads.entry scope (sets head).elements [] tree ∧
      Balanced .black height tree ∧ tree.height < turns := by
  obtain ⟨tree, stands, elements, height, balanced⟩ := represents.trees head
  refine ⟨tree, height, ⟨stands, elements, covered, fun _ _ => rfl⟩, balanced, ?_⟩
  refine Nat.lt_of_le_of_lt balanced.height_le_log ?_
  rwa [← length_inorder, ← List.length_map rbLayout.address, show tree.inorder.map _ = _ from elements]

omit [DecidableEq Address] in
/-- A change of one head that misses the elements of the others. -/
theorem Represents.put (represents : heads.Represents sets) {head : Head} {heap : RbHeap Address}
    {scope : List Address} {set : OrderedSet key} {tree : BinaryTree (Address × Color)}
    {height : Nat} (treeAt : heap.TreeAt heads.entry scope set.elements [] tree)
    (balanced : Balanced .black height tree)
    (others : ∀ other ≠ head, scope.Disjoint (sets other).elements) :
    (heads.put head heap).Represents (Function.update sets head set) := by
  have root : (heads.put head heap).root head = heap.rbhRoot := Function.update_self ..
  have here : (Function.update sets head set head).elements = set.elements :=
    congrArg OrderedSet.elements (Function.update_self ..)
  refine Layout.Forest.put represents (root ▸ treeAt.stands) (treeAt.inorder.trans here.symm)
    ⟨height, balanced⟩ (here ▸ treeAt.covered) treeAt.same others ?_ ?_ fun _ _ _ => id
  · exact fun other different => Function.update_of_ne different ..
  · exact fun other different => congrArg OrderedSet.elements (Function.update_of_ne different ..)

/-- A permitted call ends, answers as the sets do, and changes only what it may change. -/
theorem call_spec {cmp : Address → Address → Int} (compares : Compares cmp key) {turns : Nat}
    (represents : heads.Represents sets) {next : Call Head Address}
    (permitted : Permitted turns sets next) :
    ∃ after, heads.call cmp turns next = some (after, (OrderedSet.call sets next).2) ∧
      after.Represents (OrderedSet.call sets next).1 ∧
        ∀ address ∉ touched sets next, after.entry address = heads.entry address := by
  have apart : ∀ head, ∀ other ≠ head, (sets head).elements.Disjoint (sets other).elements :=
    represents.apart
  cases next with
  | init head =>
    have treeAt : (heads.heap head).init.TreeAt heads.entry [] (OrderedSet.empty key).elements [] .nil :=
      ⟨⟨trivial, rfl, List.nodup_nil⟩, rfl, List.nil_subset _, fun _ _ => rfl⟩
    exact ⟨_, rfl, represents.put treeAt .nil (fun _ _ address member => nomatch member),
      fun _ _ => rfl⟩
  | insert head elm =>
    obtain ⟨fresh, enough⟩ := permitted
    obtain ⟨tree, height, treeAt, balanced, walk⟩ :=
      represents.exists_treeAt (List.subset_cons_self elm _) enough
    obtain ⟨heap, tree, height, inserted, treeAt, balanced⟩ :=
      RbHeap.insert_spec compares treeAt balanced List.mem_cons_self walk
    refine ⟨heads.put head heap, congrArg (Option.map _) inserted,
      represents.put treeAt balanced ?_, treeAt.same⟩
    intro other different address member inside
    rcases List.mem_cons.mp member with rfl | member
    · exact fresh other different inside
    · exact apart head other different member inside
  | remove head elm =>
    obtain ⟨member, enough⟩ := permitted
    obtain ⟨tree, height, treeAt, balanced, walk⟩ :=
      represents.exists_treeAt (List.Subset.refl _) enough
    obtain ⟨heap, tree, height, removed, treeAt, balanced⟩ :=
      RbHeap.remove_spec treeAt balanced member walk
    refine ⟨heads.put head heap, ?_, represents.put treeAt balanced (apart head), treeAt.same⟩
    obtain ⟨lower, upper, elements⟩ := List.append_of_mem member
    rw [OrderedSet.call, OrderedSet.find_of_cut elements]
    exact congrArg (Option.map _) removed
  | find head elm =>
    obtain ⟨tree, height, treeAt, balanced, walk⟩ :=
      represents.exists_treeAt (List.Subset.refl _) permitted
    exact ⟨heads, congrArg (Option.map _) (RbHeap.find_spec compares treeAt elm walk), represents,
      fun _ _ => rfl⟩
  | next head elm =>
    obtain ⟨member, enough⟩ := permitted
    obtain ⟨tree, height, treeAt, balanced, walk⟩ :=
      represents.exists_treeAt (List.Subset.refl _) enough
    exact ⟨heads, congrArg (Option.map _) (RbHeap.next_spec treeAt member walk), represents,
      fun _ _ => rfl⟩
  | least head =>
    obtain ⟨tree, height, treeAt, balanced, walk⟩ :=
      represents.exists_treeAt (List.Subset.refl _) permitted
    exact ⟨heads, congrArg (Option.map _) (RbHeap.min_spec treeAt walk), represents,
      fun _ _ => rfl⟩
  | greatest head =>
    obtain ⟨tree, height, treeAt, balanced, walk⟩ :=
      represents.exists_treeAt (List.Subset.refl _) permitted
    exact ⟨heads, congrArg (Option.map _) (RbHeap.max_spec treeAt walk), represents,
      fun _ _ => rfl⟩
  | walk head =>
    obtain ⟨tree, stands, elements, height, balanced⟩ := represents.trees head
    have treeAt : (heads.heap head).TreeAt heads.entry (sets head).elements (sets head).elements []
        tree := ⟨stands, elements, List.Subset.refl _, fun _ _ => rfl⟩
    exact ⟨heads, congrArg (Option.map _) (RbHeap.foreach_spec treeAt permitted), represents,
      fun _ _ => rfl⟩

/-! ### Runs -/

variable {cmp : Address → Address → Int} {turns : Nat} {calls : List (Call Head Address)}

/-- The calls are permitted, one after the other, from empty sets. -/
def Allowed (key : Address → Key) (turns : Nat) (calls : List (Call Head Address)) : Prop :=
  Each (fun state next => some (OrderedSet.step state next))
    (fun state next => Permitted turns state.1 next) ((fun _ => empty key), []) calls

/-- The trees represent the sets, and the answers are the same. -/
def Matches (state : RbHeads Head Address × List (Answer Address))
    (specified : (Head → OrderedSet key) × List (Answer Address)) : Prop :=
  state.1.Represents specified.1 ∧ state.2 = specified.2

theorem step_spec (compares : Compares cmp key)
    {state : RbHeads Head Address × List (Answer Address)}
    {specified : (Head → OrderedSet key) × List (Answer Address)} {next : Call Head Address}
    (matched : Matches state specified) (permitted : Permitted turns specified.1 next) :
    ∃ after, step cmp turns state next = some after ∧
      Matches after (OrderedSet.step specified next) := by
  obtain ⟨after, called, kept, -⟩ := call_spec compares matched.1 permitted
  refine ⟨_, congrArg (Option.map _) called, kept, ?_⟩
  rw [matched.2]
  rfl

theorem run_spec (compares : Compares cmp key) (none : ∀ head, heads.root head = none)
    (allowed : Allowed key turns calls) :
    ∃ final, run (step cmp turns) (heads, []) calls = some (final, (specified key calls).2) ∧
      final.Represents (specified key calls).1 := by
  have initial : Matches (heads, []) ((fun _ => OrderedSet.empty key), []) :=
    ⟨Layout.forest_empty none fun _ => ⟨0, .nil⟩, rfl⟩
  obtain ⟨⟨final, answers⟩, reached, represents, same⟩ := run_implements Matches OrderedSet.step
    (fun _ _ _ matched permitted => step_spec compares matched permitted) initial allowed
  obtain rfl : answers = _ := same
  exact ⟨final, reached, represents⟩

/-- From empty trees, every run of permitted calls is defined to its end and answers as the ordered
sets do, and the trees have the elements of the sets in order, whatever the order of the calls and
the number of the heads. -/
theorem run_refines_sets (compares : Compares cmp key) (none : ∀ head, heads.root head = none)
    (allowed : Allowed key turns calls) :
    ∃ final, run (step cmp turns) (heads, []) calls = some (final, (specified key calls).2) ∧
      ∀ head, ∃ tree, (final.heap head).Stands [] tree ∧
        rbLayout.addresses tree = ((specified key calls).1 head).elements := by
  obtain ⟨final, reached, represents⟩ := run_spec compares none allowed
  refine ⟨final, reached, fun head => ?_⟩
  obtain ⟨tree, stands, elements, height, balanced⟩ := represents.trees head
  exact ⟨tree, stands, elements⟩

/-- Two heads without elements. -/
def emptyHeads : RbHeads Bool Nat := ⟨fun _ => none, fun _ => ⟨none, none, none, .black⟩⟩

theorem mixedCalls_allowed : Allowed id 9 mixedCalls := by
  simp only [Allowed, mixedCalls, each_some_cons, each_nil, Permitted, Enough, Bool.forall_bool]
  refine ⟨?_, ?_, ?_, ?_, ?_, ?_, ?_, ?_, trivial⟩ <;> decide

theorem run_refines_sets_mixedCalls :
    ∃ final, run (step compareNat 9) (emptyHeads, []) mixedCalls =
        some (final, (specified id mixedCalls).2) ∧
      ∀ head, ∃ tree, (final.heap head).Stands [] tree ∧
        rbLayout.addresses tree = ((specified id mixedCalls).1 head).elements :=
  run_refines_sets compares_compareNat (fun _ => rfl) mixedCalls_allowed

/-- Where a run of permitted calls ends, every tree is balanced and no higher than the comment of
the source says. -/
theorem run_height_le (compares : Compares cmp key) (none : ∀ head, heads.root head = none)
    (allowed : Allowed key turns calls) :
    ∃ final answers, run (step cmp turns) (heads, []) calls = some (final, answers) ∧
      ∀ head, ∃ tree height, (final.heap head).Stands [] tree ∧ Balanced .black height tree ∧
        tree.height ≤ 2 * Nat.log 2 (tree.numNodes + 1) := by
  obtain ⟨final, reached, represents⟩ := run_spec compares none allowed
  refine ⟨final, _, reached, fun head => ?_⟩
  obtain ⟨tree, stands, elements, height, balanced⟩ := represents.trees head
  exact ⟨tree, height, stands, balanced, balanced.height_le_log⟩

theorem run_height_le_mixedCalls :
    ∃ final answers, run (step compareNat 9) (emptyHeads, []) mixedCalls = some (final, answers) ∧
      ∀ head, ∃ tree height, (final.heap head).Stands [] tree ∧ Balanced .black height tree ∧
        tree.height ≤ 2 * Nat.log 2 (tree.numNodes + 1) :=
  run_height_le compares_compareNat (fun _ => rfl) mixedCalls_allowed

/-- Where a run of permitted calls ends, another one leaves all other heads alone, and the entries of
all elements that are neither in the tree of its head nor inserted by it. -/
theorem run_call_frame (compares : Compares cmp key) (none : ∀ head, heads.root head = none)
    (allowed : Allowed key turns calls) {next : Call Head Address}
    (permitted : Permitted turns (specified key calls).1 next) :
    ∃ final answers after answer,
      run (step cmp turns) (heads, []) calls = some (final, answers) ∧
      final.call cmp turns next = some (after, answer) ∧
      (∀ other ≠ next.name, after.root other = final.root other) ∧
      ∀ address ∉ touched (specified key calls).1 next,
        after.entry address = final.entry address := by
  obtain ⟨final, reached, represents⟩ := run_spec compares none allowed
  obtain ⟨after, called, -, same⟩ := call_spec compares represents permitted
  exact ⟨final, _, after, _, reached, called, call_root called, same⟩

theorem run_call_frame_mixedCalls :
    ∃ final answers after answer,
      run (step compareNat 9) (emptyHeads, []) mixedCalls = some (final, answers) ∧
      final.call compareNat 9 (.remove true 4) = some (after, answer) ∧
      (∀ other ≠ true, after.root other = final.root other) ∧
      ∀ address ∉ touched (specified id mixedCalls).1 (.remove true 4),
        after.entry address = final.entry address :=
  run_call_frame compares_compareNat (fun _ => rfl) mixedCalls_allowed
    (show Permitted 9 (specified id mixedCalls).1 (.remove true 4) from ⟨by decide, by decide⟩)

end RbHeads

end SelftestNet
