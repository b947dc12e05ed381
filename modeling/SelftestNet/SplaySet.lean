/-
This file puts the splay trees of several heads into one memory and proves that they are ordered
sets over whole runs. A single call may take as many turns as its tree has elements, but not
every call of a run can: every head has a number of turns for all of its calls together, and what
an access is paid with, about eighteen times the logarithm of the number of elements, suffices.
-/

import Mathlib.Algebra.GroupWithZero.Nat
import SelftestNet.Run
import SelftestNet.SplayCalls

namespace SelftestNet

open BinaryTree LinkedTree OrderedSet PartialRun Splaying TreePath

/-- Several heads, and the entries of all elements in memory. -/
structure SplayHeads (Head Address : Type) where
  root : Head → Option Address
  entry : Address → SplayEntry Address

/-- The heads, the turns that the loops may still take in the calls of each, and all answers. -/
structure SplayRun (Head Address : Type) where
  heads : SplayHeads Head Address
  turns : Head → Nat
  answers : List (Answer Address)

namespace SplayHeads

variable {Head Address : Type}

/-! ### Calls -/

/-- One head with the memory. -/
def heap (heads : SplayHeads Head Address) (head : Head) : SplayHeap Address :=
  ⟨heads.root head, heads.entry⟩

variable [DecidableEq Head]

/-- The heads and the memory after a change of one head and of the memory. -/
def put (heads : SplayHeads Head Address) (head : Head) (heap : SplayHeap Address) :
    SplayHeads Head Address :=
  ⟨Function.update heads.root head heap.sphRoot, heap.entry⟩

variable [DecidableEq Address]

/-- A call of one of the macros, with the head and the memory after it, its answer and the turns
that are left. -/
def call (cmp : Address → Address → Int) (turns : Nat) (heads : SplayHeads Head Address) :
    Call Head Address → Option (SplayHeap Address × Answer Address × Nat)
  | .init head => some ((heads.heap head).init, .nothing, turns)
  | .insert head elm => ((heads.heap head).insert cmp turns elm).map fun (heap, old, left) =>
    (heap, .element old, left)
  | .remove head elm => ((heads.heap head).remove cmp turns elm).map fun (heap, removed, left) =>
    (heap, .element removed, left)
  | .find head elm => ((heads.heap head).find cmp turns elm).map fun (heap, found, left) =>
    (heap, .element found, left)
  | .next head elm => ((heads.heap head).next cmp turns elm).map fun (heap, next, left) =>
    (heap, .element next, left)
  | .least head => ((heads.heap head).min turns).map fun (heap, least, left) =>
    (heap, .element least, left)
  | .greatest head => ((heads.heap head).max turns).map fun (heap, greatest, left) =>
    (heap, .element greatest, left)
  | .walk head => ((heads.heap head).foreach cmp turns).map fun (heap, visited, left) =>
    (heap, .elements visited, left)

/-- One call after others. -/
def step (cmp : Address → Address → Int) (state : SplayRun Head Address)
    (next : Call Head Address) : Option (SplayRun Head Address) :=
  (state.heads.call cmp (state.turns next.name) next).map fun (heap, answer, left) =>
    ⟨state.heads.put next.name heap, Function.update state.turns next.name left,
      state.answers ++ [answer]⟩

/-! ### The sets of the heads -/

variable {Key : Type} [LinearOrder Key] {key : Address → Key}

/-- What a caller may do, when no set has more elements than the bound. -/
def Permitted (bound : Nat) (sets : Head → OrderedSet key) : Call Head Address → Prop
  | .insert head elm =>
    (∀ other ≠ head, elm ∉ (sets other).elements) ∧ (sets head).elements.length < bound
  | .next head elm => elm ∈ (sets head).elements
  | _ => True

/-- The turns that a call is paid with. -/
def price (bound : Nat) : Call Head Address → Nat
  | .init _ => 0
  | .insert _ _ => 2 * SplayHeap.access bound
  | .remove _ _ => 2 * SplayHeap.access bound
  | .find _ _ => SplayHeap.access bound
  | .next _ _ => SplayHeap.access bound + bound
  | .least _ => SplayHeap.access bound
  | .greatest _ => SplayHeap.access bound
  | .walk _ => (bound + 1) * SplayHeap.access bound

/-- What the calls on a head are paid with. -/
def budget (bound : Nat) (head : Head) (calls : List (Call Head Address)) : Nat :=
  ((calls.filter (Call.name · = head)).map (price bound)).sum

/-- The elements whose entries a call may change. -/
def touched (sets : Head → OrderedSet key) : Call Head Address → List Address
  | .init _ => []
  | .insert head elm => elm :: (sets head).elements
  | next => (sets next.name).elements

/-- Every head has a tree of the elements of its set, whose potential is paid for by some of the
turns, with others left. -/
def Represents (bound : Nat) (heads : SplayHeads Head Address) (sets : Head → OrderedSet key)
    (turns more : Head → Nat) : Prop :=
  splayLayout.Forest heads.entry heads.root (fun head => (sets head).elements) fun head tree =>
    tree.numNodes ≤ bound ∧ 6 * potential tree + more head ≤ turns head

variable {heads : SplayHeads Head Address} {sets : Head → OrderedSet key} {bound : Nat}
  {turns more : Head → Nat} {next : Call Head Address} {rest : List (Call Head Address)}

omit [DecidableEq Address] in
theorem budget_cons (head : Head) :
    budget bound head (next :: rest) =
      (if next.name = head then price bound next else 0) + budget bound head rest := by
  rw [budget, List.filter_cons]
  split
  · rename_i here
    rw [if_pos (of_decide_eq_true here), List.map_cons, List.sum_cons]
    rfl
  · rename_i here
    rw [if_neg (here ∘ decide_eq_true), Nat.zero_add]
    rfl

omit [DecidableEq Head] [DecidableEq Address] in
/-- The tree of a head. -/
theorem Represents.exists_treeAt (represents : heads.Represents bound sets turns more) {head : Head}
    {scope : List Address} (covered : (sets head).elements ⊆ scope) :
    ∃ tree, (heads.heap head).TreeAt heads.entry scope tree ∧
      tree.inorder = (sets head).elements ∧ tree.numNodes ≤ bound ∧
      6 * potential tree + more head ≤ turns head := by
  obtain ⟨tree, stands, elements, fits, paid⟩ := represents.trees head
  rw [addresses_splayLayout] at elements
  exact ⟨tree, ⟨stands, elements ▸ covered, fun _ _ => rfl⟩, elements, fits, paid⟩

omit [DecidableEq Address] in
/-- The state after a call that has been paid for and misses the elements of the other heads. -/
theorem Represents.put
    (represents : heads.Represents bound sets turns fun head => budget bound head (next :: rest))
    {heap : SplayHeap Address} {tree : BinaryTree Address} {scope : List Address} {left : Nat}
    (treeAt : heap.TreeAt heads.entry scope tree)
    (elements : tree.inorder = ((OrderedSet.call sets next).1 next.name).elements)
    (size : ((OrderedSet.call sets next).1 next.name).elements.length ≤ bound)
    (paid : 6 * potential tree + budget bound next.name rest ≤ left)
    (others : ∀ other ≠ next.name, scope.Disjoint (sets other).elements) :
    (heads.put next.name heap).Represents bound (OrderedSet.call sets next).1
      (Function.update turns next.name left) fun head => budget bound head rest := by
  have root : (heads.put next.name heap).root next.name = heap.sphRoot := Function.update_self ..
  refine Layout.Forest.put represents (root ▸ treeAt.stands) ?_ ⟨?_, ?_⟩ ?_ treeAt.same others ?_ ?_ ?_
  · rw [addresses_splayLayout, elements]
  · rwa [← length_inorder, elements]
  · rwa [Function.update_self]
  · exact elements ▸ treeAt.covered
  · exact fun other different => Function.update_of_ne different ..
  · exact fun other different => congrArg _ (OrderedSet.call_of_ne sets next different)
  · rintro other different tree ⟨fits, paid⟩
    dsimp only at paid ⊢
    rw [budget_cons, if_neg (Ne.symm different), Nat.zero_add] at paid
    rw [Function.update_of_ne different]
    exact ⟨fits, paid⟩

/-- A permitted call is paid for, answers as the sets do, and changes only what it may change. -/
theorem call_spec {cmp : Address → Address → Int} (compares : Compares cmp key)
    (represents : heads.Represents bound sets turns fun head => budget bound head (next :: rest))
    (permitted : Permitted bound sets next) :
    ∃ heap left,
      heads.call cmp (turns next.name) next = some (heap, (OrderedSet.call sets next).2, left) ∧
      (heads.put next.name heap).Represents bound (OrderedSet.call sets next).1
        (Function.update turns next.name left) (fun head => budget bound head rest) ∧
      ∀ address ∉ touched sets next, heap.entry address = heads.entry address := by
  have apart : ∀ head, ∀ other ≠ head, (sets head).elements.Disjoint (sets other).elements :=
    represents.apart
  have lengths : ∀ head, (sets head).elements.length ≤ bound := by
    intro head
    obtain ⟨tree, -, elements, fits, -⟩ := represents.exists_treeAt (List.Subset.refl (sets head).elements)
    rwa [← elements, length_inorder]
  have ready : ∀ {scope}, (sets next.name).elements ⊆ scope → ∃ tree,
      (heads.heap next.name).TreeAt heads.entry scope tree ∧
      tree.inorder = (sets next.name).elements ∧ tree.numNodes ≤ bound ∧
      6 * potential tree + price bound next + budget bound next.name rest ≤ turns next.name := by
    intro scope covered
    obtain ⟨tree, treeAt, elements, fits, paid⟩ := represents.exists_treeAt covered
    rw [budget_cons, if_pos rfl] at paid
    exact ⟨tree, treeAt, elements, fits, by omega⟩
  cases next with
  | init head =>
    obtain ⟨tree, -, -, -, paid⟩ := ready (List.Subset.refl _)
    have treeAt : (heads.heap head).init.TreeAt heads.entry [] nil :=
      ⟨⟨trivial, rfl, List.nodup_nil⟩, List.nil_subset _, fun _ _ => rfl⟩
    have empty : (OrderedSet.call sets (.init head)).1 head = OrderedSet.empty key :=
      Function.update_self ..
    refine ⟨_, _, rfl, represents.put treeAt ?_ ?_ ?_ fun _ _ => List.disjoint_nil_left _,
      fun _ _ => rfl⟩
    · exact (congrArg OrderedSet.elements empty).symm
    · exact (congrArg (List.length ∘ OrderedSet.elements) empty).trans_le (Nat.zero_le _)
    · simp only [potential]
      omega
  | insert head elm =>
    obtain ⟨fresh, size⟩ := permitted
    obtain ⟨tree, treeAt, elements, -, paid⟩ := ready (List.subset_cons_self elm _)
    have fits : tree.numNodes < bound := by
      rwa [← length_inorder, elements]
    obtain ⟨after, tree, left, called, treeAt, elements, paid⟩ :=
      SplayHeap.insert_spec compares treeAt elements List.mem_cons_self fits paid
    have new : (OrderedSet.call sets (.insert head elm)).1 head = ((sets head).insert elm).1 :=
      Function.update_self ..
    refine ⟨after, left, congrArg (Option.map _) called,
      represents.put treeAt (elements.trans (congrArg OrderedSet.elements new.symm)) ?_ paid ?_,
      treeAt.same⟩
    · exact (congrArg (List.length ∘ OrderedSet.elements) new).trans_le
        (((sets head).length_insert_le elm).trans size)
    · intro other different address member inside
      rcases List.mem_cons.mp member with rfl | member
      · exact fresh other different inside
      · exact apart head other different member inside
  | remove head elm =>
    obtain ⟨tree, treeAt, elements, fits, paid⟩ := ready (List.Subset.refl _)
    obtain ⟨after, tree, left, called, treeAt, elements, paid⟩ :=
      SplayHeap.remove_spec compares treeAt elements elm fits paid
    have new : (OrderedSet.call sets (.remove head elm)).1 head = (sets head).erase (key elm) :=
      Function.update_self ..
    refine ⟨after, left, congrArg (Option.map _) called,
      represents.put treeAt (elements.trans (congrArg OrderedSet.elements new.symm)) ?_ paid
        (apart head), treeAt.same⟩
    exact (congrArg (List.length ∘ OrderedSet.elements) new).trans_le
      (((sets head).length_erase_le _).trans (lengths head))
  | find head elm =>
    obtain ⟨tree, treeAt, elements, fits, paid⟩ := ready (List.Subset.refl _)
    obtain ⟨after, tree, left, called, treeAt, elements, paid⟩ :=
      SplayHeap.find_spec compares treeAt elements elm fits paid
    exact ⟨after, left, congrArg (Option.map _) called,
      represents.put treeAt elements (lengths head) paid (apart head), treeAt.same⟩
  | next head elm =>
    obtain ⟨tree, treeAt, elements, fits, paid⟩ := ready (List.Subset.refl _)
    obtain ⟨after, tree, left, called, treeAt, elements, paid⟩ :=
      SplayHeap.next_spec compares treeAt elements permitted fits paid
    exact ⟨after, left, congrArg (Option.map _) called,
      represents.put treeAt elements (lengths head) paid (apart head), treeAt.same⟩
  | least head =>
    obtain ⟨tree, treeAt, elements, fits, paid⟩ := ready (List.Subset.refl _)
    obtain ⟨after, tree, left, called, treeAt, elements, paid⟩ :=
      SplayHeap.min_spec treeAt elements fits paid
    exact ⟨after, left, congrArg (Option.map _) called,
      represents.put treeAt elements (lengths head) paid (apart head), treeAt.same⟩
  | greatest head =>
    obtain ⟨tree, treeAt, elements, fits, paid⟩ := ready (List.Subset.refl _)
    obtain ⟨after, tree, left, called, treeAt, elements, paid⟩ :=
      SplayHeap.max_spec treeAt elements fits paid
    exact ⟨after, left, congrArg (Option.map _) called,
      represents.put treeAt elements (lengths head) paid (apart head), treeAt.same⟩
  | walk head =>
    obtain ⟨tree, treeAt, elements, fits, paid⟩ := ready (List.Subset.refl _)
    obtain ⟨after, tree, left, called, treeAt, elements, paid⟩ :=
      SplayHeap.foreach_spec compares treeAt elements fits paid
    exact ⟨after, left, congrArg (Option.map _) called,
      represents.put treeAt elements (lengths head) paid (apart head), treeAt.same⟩

/-! ### Runs -/

variable {cmp : Address → Address → Int} {calls later : List (Call Head Address)}

/-- The calls are permitted, one after the other, from empty sets. -/
def Allowed (key : Address → Key) (bound : Nat) (calls : List (Call Head Address)) : Prop :=
  Each (fun state next => some (OrderedSet.step state next))
    (fun state next => Permitted bound state.1 next) ((fun _ => OrderedSet.empty key), []) calls

/-- The trees represent the sets, the calls to come are paid for, and the answers are the same. -/
def Matches (bound : Nat) (calls : List (Call Head Address)) (state : SplayRun Head Address)
    (specified : (Head → OrderedSet key) × List (Answer Address)) : Prop :=
  state.heads.Represents bound specified.1 state.turns (fun head => budget bound head calls) ∧
    state.answers = specified.2

theorem step_spec (compares : Compares cmp key) {state : SplayRun Head Address}
    {specified : (Head → OrderedSet key) × List (Answer Address)}
    (matched : Matches bound (next :: rest) state specified)
    (permitted : Permitted bound specified.1 next) :
    ∃ after, step cmp state next = some after ∧ Matches bound rest after (OrderedSet.step specified next) := by
  obtain ⟨heap, left, called, kept, -⟩ := call_spec compares matched.1 permitted
  refine ⟨_, congrArg (Option.map _) called, kept, ?_⟩
  rw [matched.2]
  rfl

/-- A run of permitted calls, when more of them are to come. -/
theorem run_spec (compares : Compares cmp key) (none : ∀ head, heads.root head = none)
    (allowed : Allowed key bound calls)
    (enough : ∀ head, budget bound head (calls ++ later) ≤ turns head) :
    ∃ final, run (step cmp) ⟨heads, turns, []⟩ calls = some final ∧
      Matches bound later final (specified key calls) := by
  have initial : Matches bound (calls ++ later) ⟨heads, turns, []⟩
      ((fun _ => OrderedSet.empty key), []) := by
    refine ⟨Layout.forest_empty none fun head => ⟨Nat.zero_le _, ?_⟩, rfl⟩
    simp only [potential]
    exact (Nat.zero_add _).trans_le (enough head)
  exact run_implements_ahead (fun rest => Matches bound (rest ++ later)) OrderedSet.step
    (fun _ _ _ _ matched permitted => step_spec compares matched permitted) initial allowed

/-- From empty trees, every run of permitted calls is defined to its end within the turns that its
calls are paid with, and answers as the ordered sets do, and the trees have the elements of the
sets in order. The turns are those of `SPLAY`, of `SPLAY_MINMAX` and of the walks of `SPLAY_NEXT`;
the one that the loop of `SPLAY_FOREACH` itself takes for each element is not charged. -/
theorem run_within_budget (compares : Compares cmp key) (none : ∀ head, heads.root head = none)
    (allowed : Allowed key bound calls) (enough : ∀ head, budget bound head calls ≤ turns head) :
    ∃ final, run (step cmp) ⟨heads, turns, []⟩ calls = some final ∧
      final.answers = (specified key calls).2 ∧
      ∀ head, ∃ tree, splayLayout.Stands final.heads.entry (final.heads.root head) [] tree ∧
        tree.inorder = ((specified key calls).1 head).elements := by
  have all : ∀ head, budget bound head (calls ++ []) ≤ turns head := by
    simpa only [List.append_nil] using enough
  obtain ⟨final, reached, represents, answers⟩ := run_spec compares none allowed all
  refine ⟨final, reached, answers, fun head => ?_⟩
  obtain ⟨tree, stands, elements, -⟩ := represents.trees head
  exact ⟨tree, stands, (addresses_splayLayout tree).symm.trans elements⟩

/-- Two heads without elements. -/
def emptyHeads : SplayHeads Bool Nat := ⟨fun _ => none, fun _ => ⟨none, none⟩⟩

theorem mixedCalls_allowed : Allowed id 4 mixedCalls := by
  simp only [Allowed, mixedCalls, each_some_cons, each_nil, Permitted, Bool.forall_bool]
  refine ⟨?_, ?_, ?_, ?_, ?_, ?_, ?_, ?_, trivial⟩ <;> decide

theorem run_within_budget_mixedCalls :
    ∃ final, run (step compareNat) ⟨emptyHeads, fun _ => 1000, []⟩ mixedCalls = some final ∧
      final.answers = (specified id mixedCalls).2 ∧
      ∀ head, ∃ tree, splayLayout.Stands final.heads.entry (final.heads.root head) [] tree ∧
        tree.inorder = ((specified id mixedCalls).1 head).elements :=
  run_within_budget compares_compareNat (fun _ => rfl) mixedCalls_allowed
    (show ∀ head, budget 4 head mixedCalls ≤ 1000 by decide)

/-- Where a run of permitted calls ends, another one leaves all other heads and their turns alone,
and the entries of all elements that are neither in the tree of its head nor inserted by it, though
even a search changes the tree. -/
theorem run_step_frame (compares : Compares cmp key) (none : ∀ head, heads.root head = none)
    (allowed : Allowed key bound calls) (permitted : Permitted bound (specified key calls).1 next)
    (enough : ∀ head, budget bound head (calls ++ [next]) ≤ turns head) :
    ∃ final after, run (step cmp) ⟨heads, turns, []⟩ calls = some final ∧
      step cmp final next = some after ∧
      (∀ other ≠ next.name, after.heads.root other = final.heads.root other ∧
        after.turns other = final.turns other) ∧
      ∀ address ∉ touched (specified key calls).1 next,
        after.heads.entry address = final.heads.entry address := by
  obtain ⟨final, reached, represents, -⟩ := run_spec compares none allowed enough
  obtain ⟨heap, left, called, -, same⟩ := call_spec compares represents permitted
  refine ⟨final, _, reached, congrArg (Option.map _) called, fun other different => ?_, same⟩
  exact ⟨Function.update_of_ne different .., Function.update_of_ne different ..⟩

theorem run_step_frame_mixedCalls :
    ∃ final after, run (step compareNat) ⟨emptyHeads, fun _ => 1000, []⟩ mixedCalls = some final ∧
      step compareNat final (.find true 4) = some after ∧
      (∀ other ≠ true, after.heads.root other = final.heads.root other ∧
        after.turns other = final.turns other) ∧
      ∀ address ∉ touched (specified id mixedCalls).1 (.find true 4),
        after.heads.entry address = final.heads.entry address :=
  run_step_frame compares_compareNat (fun _ => rfl) mixedCalls_allowed
    (show Permitted 4 (specified id mixedCalls).1 (.find true 4) from trivial)
    (show ∀ head, budget 4 head (mixedCalls ++ [.find true 4]) ≤ 1000 by decide)

end SplayHeads

end SelftestNet
