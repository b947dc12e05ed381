/-
This file proves the operations on a splay tree. Each answers as the ordered set of the elements
does, and is paid for from the turns that are left: six for every unit of the potential of the
tree, and so many for an access, suffice, and the same holds of what is left after it. A call of
`SPLAY_NEXT` is the exception, since its walk to the next element leaves the tree as it is; only
when that element is splayed next, as `SPLAY_FOREACH` does, that pays for the walk.
-/

import SelftestNet.OrderedSet
import SelftestNet.SplayMemory

namespace SelftestNet

open BinaryTree LinkedTree Loop Splaying TreePath

variable {Address : Type} {Key : Type} [LinearOrder Key] {key : Address → Key}
  {cmp : Address → Address → Int}

/-! ### The search for a key -/

namespace SplayState

theorem steer_left_iff (compares : Compares cmp key) (elm other : Address) :
    steer (cmp elm) other = some .left ↔ key elm < key other := by
  have neg := compares.neg_iff elm other
  unfold steer
  grind

theorem steer_right_iff (compares : Compares cmp key) (elm other : Address) :
    steer (cmp elm) other = some .right ↔ key other < key elm := by
  have neg := compares.neg_iff elm other
  have pos := compares.pos_iff elm other
  unfold steer
  grind

theorem steer_self (compares : Compares cmp key) (elm : Address) : steer (cmp elm) elm = none := by
  have neg := compares.neg_iff elm elm
  have pos := compares.pos_iff elm elm
  unfold steer
  grind

theorem guided_steer (compares : Compares cmp key) (elm : Address) {tree : BinaryTree Address}
    (ascending : Ascending key tree.inorder) : Guided (steer (cmp elm)) tree := by
  refine ascending.imp fun {first second} less => ?_
  rw [steer_right_iff compares, steer_left_iff compares]
  exact (lt_or_ge (key first) (key elm)).imp id fun ge => ge.trans_lt less

/-- After the search the elements below the key are on the left of the root, and those above it on
the right. -/
theorem cut_of_splays (compares : Compares cmp key) {elm root : Address} {turns : Nat}
    {tree left right : BinaryTree Address} (ascending : Ascending key tree.inorder)
    (splays : Splays (steer (cmp elm)) tree turns (.node root left right)) :
    Cut key (key elm) left.inorder right.inorder := by
  have ends := splays.toward_child (guided_steer compares elm ascending)
  constructor
  · exact fun other inside => (steer_right_iff compares elm other).mp (ends .left other inside)
  · exact fun other inside => (steer_left_iff compares elm other).mp (ends .right other inside)

end SplayState

variable [DecidableEq Address]

namespace SplayHeap

variable {heap : SplayHeap Address} {memory : Address → SplayEntry Address} {scope : List Address}
  {tree near far left right : BinaryTree Address} {side : Direction} {root elm : Address}
  {set : OrderedSet key} {turns bound more : Nat}

/-! ### Reading the root -/

omit [DecidableEq Address] in
theorem TreeAt.sphRoot_eq (treeAt : heap.TreeAt memory scope tree) :
    heap.sphRoot = splayLayout.pointer tree := treeAt.stands.around

omit [DecidableEq Address] in
theorem TreeAt.nodup (treeAt : heap.TreeAt memory scope tree) : tree.inorder.Nodup := by
  rw [← addresses_splayLayout]
  exact treeAt.stands.distinct

omit [DecidableEq Address] in
theorem TreeAt.entry_eq (treeAt : heap.TreeAt memory scope (join side root near far)) :
    heap.entry root =
      splayLayout.entryOn side root (splayLayout.pointer near) (splayLayout.pointer far) none :=
  (Layout.holds_join.mp treeAt.stands.holds).1

omit [DecidableEq Address] in
theorem TreeAt.child_eq (treeAt : heap.TreeAt memory scope (join side root near far)) :
    heap.child side root = splayLayout.pointer near := by
  rw [SplayHeap.child, treeAt.entry_eq, SplayEntry.child_entryOn]

omit [DecidableEq Address] in
/-- A subtree of the root as a tree of its own; what is outside of it is left alone. -/
theorem TreeAt.below (treeAt : heap.TreeAt memory scope (join side root near far)) :
    ({ heap with sphRoot := splayLayout.pointer near } : SplayHeap Address).TreeAt heap.entry
      near.inorder near := by
  have nodup := (inorder_join_perm side root near far).nodup_iff.mp treeAt.nodup
  refine ⟨⟨(Layout.holds_join.mp treeAt.stands.holds).2.1 |> holds_parent, rfl, ?_⟩,
    List.Subset.refl _, fun _ _ => rfl⟩
  rw [plug_nil, addresses_splayLayout]
  exact (List.nodup_cons.mp nodup).2.of_append_left

/-! ### `SPLAY` -/

/-- What an access is paid with. -/
def access (bound : Nat) : Nat := 18 * Nat.log 2 bound + 3

omit [DecidableEq Address] in
theorem rank_le_log (fits : tree.numNodes ≤ bound) : rank tree ≤ Nat.log 2 bound :=
  Nat.log_mono_right fits

/-- `SPLAY` for an element, with the turns of the search. -/
theorem splay_search (compares : Compares cmp key) (treeAt : heap.TreeAt memory scope tree)
    (present : tree ≠ nil) (elements : tree.inorder = set.elements) (elm : Address)
    (fits : tree.numNodes ≤ bound) (enough : 6 * potential tree + access bound + more ≤ turns) :
    ∃ splayed root left right rest, heap.splay cmp turns elm = some (splayed, rest) ∧
      splayed.TreeAt memory scope (.node root left right) ∧
      set.elements = left.inorder ++ root :: right.inorder ∧
      Cut key (key elm) left.inorder right.inorder ∧
      6 * potential (BinaryTree.node root left right) + more ≤ rest := by
  obtain ⟨spent, after, splays⟩ := exists_splays (SplayState.steer (cmp elm)) tree
  have paid := splays.turns_le
  have rankLe := rank_le_log fits
  rw [access] at enough
  obtain ⟨rest, rfl⟩ : ∃ rest, turns = spent + rest := ⟨turns - spent, by omega⟩
  obtain ⟨splayed, called, treeAt⟩ := treeAt.splay_spec present splays rest
  obtain ⟨root, left, right, rfl⟩ := splays.exists_node present
  refine ⟨splayed, root, left, right, rest, called, treeAt, ?_, ?_, by omega⟩
  · rw [← elements, ← splays.inorder_eq, inorder_node]
  · exact SplayState.cut_of_splays compares (elements ▸ set.ascending) splays

/-! ### `SPLAY_FIND` -/

omit [DecidableEq Address] in
/-- A cut on both sides of an element with another key. -/
theorem exists_cut_of_ne {point : Key} {lower upper : List Address}
    (cut : Cut key point lower upper) (different : key root ≠ point) :
    ∃ first last, lower ++ root :: upper = first ++ last ∧ Cut key point first last := by
  rcases lt_or_gt_of_ne different with less | greater
  · exact ⟨lower ++ [root], upper, List.append_cons .., cut.append_below less⟩
  · exact ⟨lower, root :: upper, rfl, cut.cons_above greater⟩

omit [DecidableEq Address] in
theorem cmp_eq_zero_iff (compares : Compares cmp key) (elm root : Address) :
    cmp elm root = 0 ↔ key root = key elm := by
  have neg := compares.neg_iff elm root
  have pos := compares.pos_iff elm root
  constructor
  · exact fun zero => compares.eq_of_not_lt (by omega) (by omega)
  · intro same
    rw [same] at neg pos
    have notNeg := mt neg.mp (lt_irrefl _)
    have notPos := mt pos.mp (lt_irrefl _)
    omega

theorem find_spec (compares : Compares cmp key) (treeAt : heap.TreeAt memory scope tree)
    (elements : tree.inorder = set.elements) (elm : Address) (fits : tree.numNodes ≤ bound)
    (enough : 6 * potential tree + access bound + more ≤ turns) :
    ∃ after tree left, heap.find cmp turns elm = some (after, set.find (key elm), left) ∧
      after.TreeAt memory scope tree ∧ tree.inorder = set.elements ∧
      6 * potential tree + more ≤ left := by
  cases tree with
  | nil =>
    have none : set.find (key elm) = none := by
      rw [OrderedSet.find, ← elements]
      rfl
    refine ⟨heap, .nil, turns, ?_, treeAt, elements, by omega⟩
    rw [SplayHeap.find, treeAt.sphRoot_eq, none]
    rfl
  | node label first last =>
    obtain ⟨splayed, root, left, right, rest, called, splayedAt, order, cut, paid⟩ :=
      splay_search compares treeAt (node_ne_nil _ _ _) elements elm fits enough
    refine ⟨splayed, _, rest, ?_, splayedAt, order.symm, paid⟩
    rw [SplayHeap.find, treeAt.sphRoot_eq]
    show (heap.splay cmp turns elm).bind _ = _
    rw [called, Option.bind_some]
    dsimp only
    rw [show splayed.sphRoot = some root from splayedAt.sphRoot_eq, Option.bind_eq_bind,
      Option.bind_some]
    by_cases same : key root = key elm
    · rw [if_pos ((cmp_eq_zero_iff compares elm root).mpr same), ← same,
        OrderedSet.find_of_cut order]
      rfl
    · obtain ⟨lower, upper, split, cut⟩ := exists_cut_of_ne cut same
      rw [if_neg (mt (cmp_eq_zero_iff compares elm root).mp same),
        OrderedSet.find_eq_none_of_cut cut (order.trans split)]
      rfl

/-! ### `SPLAY_INSERT` -/

/-- A new element takes the place of the root and has the old root on the other side. -/
theorem TreeAt.putAbove (treeAt : heap.TreeAt memory scope (join side root near far))
    (fresh : elm ∉ (join side root near far).inorder) (inside : elm ∈ scope) :
    (heap.putAbove side elm root).TreeAt memory scope (join side elm near (join side root nil far)) := by
  have entryRoot := treeAt.entry_eq
  obtain ⟨-, holdsNear, holdsFar⟩ := Layout.holds_join.mp treeAt.stands.holds
  have perm := inorder_join_perm side root near far
  have nodup := perm.nodup_iff.mp treeAt.nodup
  obtain ⟨rootFresh, parts⟩ := List.nodup_cons.mp nodup
  rw [perm.mem_iff, List.mem_cons, List.mem_append, not_or, not_or] at fresh
  rw [List.mem_append, not_or] at rootFresh
  obtain ⟨different, notNear, notFar⟩ := fresh
  obtain ⟨rootNear, rootFar⟩ := rootFresh
  have others : ∀ address, elm ≠ address → root ≠ address →
      (heap.putAbove side elm root).entry address = heap.entry address := by
    intro address notElm notRoot
    rw [SplayHeap.putAbove]
    simp only [entry_setChild_of_ne notElm.symm, entry_setChild_of_ne notRoot.symm]
  have frames : ∀ {subtree parent}, elm ∉ subtree.inorder → root ∉ subtree.inorder →
      splayLayout.Holds heap.entry parent subtree →
      ∀ other, splayLayout.Holds (heap.putAbove side elm root).entry other subtree := by
    intro subtree parent notElm notRoot holds other
    refine (holds_parent holds).frame fun address member => ?_
    rw [addresses_splayLayout] at member
    exact others address (ne_of_mem_of_not_mem member notElm).symm
      (ne_of_mem_of_not_mem member notRoot).symm
  have newPerm : (join side elm near (join side root nil far)).inorder.Perm
      (elm :: (join side root near far).inorder) := by
    refine (inorder_join_perm side elm near _).trans (List.Perm.cons _ ?_)
    refine ((inorder_join_perm side root nil far).append_left _).trans ?_
    exact List.perm_middle.trans perm.symm
  have entryElm : (heap.putAbove side elm root).entry elm =
      splayLayout.entryOn side elm (splayLayout.pointer near) (some root) none := by
    rw [SplayHeap.putAbove]
    dsimp only
    rw [entry_setChild_of_ne different, entry_setChild_self, entry_setChild_self, treeAt.child_eq]
    exact SplayEntry.setChild_setChild_other ..
  have entryOld : (heap.putAbove side elm root).entry root =
      splayLayout.entryOn side root none (splayLayout.pointer far) none := by
    rw [SplayHeap.putAbove]
    dsimp only
    rw [entry_setChild_self, entry_setChild_of_ne (Ne.symm different),
      entry_setChild_of_ne (Ne.symm different), entryRoot, SplayEntry.setChild_entryOn]
  refine ⟨⟨Layout.holds_join.mpr ⟨?_, frames notNear rootNear holdsNear _,
    Layout.holds_join.mpr ⟨?_, trivial, frames notFar rootFar holdsFar _⟩⟩, ?_, ?_⟩, ?_, ?_⟩
  · rw [Layout.pointer_join]
    exact entryElm
  · exact entryOld.trans (SplayEntry.entryOn_parent ..)
  · exact (Layout.pointer_join splayLayout ..).symm
  · rw [plug_nil, addresses_splayLayout, newPerm.nodup_iff, List.nodup_cons, perm.mem_iff,
      List.mem_cons, List.mem_append, not_or, not_or]
    exact ⟨⟨different, notNear, notFar⟩, treeAt.nodup⟩
  · intro address member
    rcases List.mem_cons.mp (newPerm.mem_iff.mp member) with rfl | old
    · exact inside
    · exact treeAt.covered old
  · intro address outside
    refine (others address (ne_of_mem_of_not_mem inside outside) ?_).trans (treeAt.same address outside)
    exact ne_of_mem_of_not_mem (treeAt.covered (perm.mem_iff.mpr List.mem_cons_self)) outside

omit [DecidableEq Address] in
theorem potential_putAbove (side : Direction) (elm root : Address) (near far : BinaryTree Address)
    (fits : (join side root near far).numNodes < bound) :
    potential (join side elm near (join side root nil far)) ≤
      potential (join side root near far) + 2 * Nat.log 2 bound := by
  simp only [numNodes_join] at fits
  have whole : rank (join side elm near (join side root nil far)) ≤ Nat.log 2 bound := by
    refine rank_le_log ?_
    simp only [numNodes_join, numNodes]
    omega
  have inner : rank (join side root nil far) ≤ Nat.log 2 bound := by
    refine rank_le_log ?_
    simp only [numNodes_join, numNodes]
    omega
  simp only [potential_join, potential]
  omega

/-- The first element of a tree. -/
theorem insert_nil (cmp : Address → Address → Int) (turns : Nat)
    (treeAt : heap.TreeAt memory scope nil) (inside : elm ∈ scope) :
    ∃ after, heap.insert cmp turns elm = some (after, none, turns) ∧
      after.TreeAt memory scope (.node elm nil nil) := by
  let inserted := (heap.setChild .right elm none).setChild .left elm none
  have entry : inserted.entry elm = ⟨none, none⟩ := by
    rw [entry_setChild_self, entry_setChild_self]
    rfl
  refine ⟨{ inserted with sphRoot := some elm }, ?_, ⟨⟨entry, trivial, trivial⟩, rfl, ?_⟩, ?_, ?_⟩
  · rw [SplayHeap.insert, treeAt.sphRoot_eq]
    rfl
  · exact List.nodup_singleton elm
  · exact List.cons_subset.mpr ⟨inside, List.nil_subset _⟩
  · intro address outside
    have different := (ne_of_mem_of_not_mem inside outside).symm
    have kept : inserted.entry address = heap.entry address := by
      rw [entry_setChild_of_ne different, entry_setChild_of_ne different]
    exact kept.trans (treeAt.same address outside)

theorem insert_spec (compares : Compares cmp key) (treeAt : heap.TreeAt memory scope tree)
    (elements : tree.inorder = set.elements) (inside : elm ∈ scope) (fits : tree.numNodes < bound)
    (enough : 6 * potential tree + 2 * access bound + more ≤ turns) :
    ∃ after tree left, heap.insert cmp turns elm = some (after, (set.insert elm).2, left) ∧
      after.TreeAt memory scope tree ∧ tree.inorder = (set.insert elm).1.elements ∧
      6 * potential tree + more ≤ left := by
  cases tree with
  | nil =>
    obtain ⟨after, inserted, afterAt⟩ := insert_nil cmp turns treeAt inside
    have noCut := Cut.nil key (key elm)
    obtain ⟨new, none⟩ := OrderedSet.insert_of_cut noCut elements.symm
    refine ⟨after, _, turns, ?_, afterAt, new.symm, ?_⟩
    · rw [inserted, none]
    · have rankOne : rank (BinaryTree.node elm nil nil) = 0 := Nat.log_one_right 2
      simp only [potential, rankOne]
      omega
  | node label first last =>
    have searching : 6 * potential (BinaryTree.node label first last) + access bound +
        (access bound + more) ≤ turns := by omega
    obtain ⟨splayed, root, left, right, rest, called, splayedAt, order, cut, paid⟩ :=
      splay_search compares treeAt (node_ne_nil _ _ _) elements elm fits.le searching
    have sizes : (BinaryTree.node root left right).numNodes < bound := by
      rw [← length_inorder] at fits ⊢
      rwa [inorder_node, ← order, ← elements]
    have begun : ∀ result, (if cmp elm root < 0 then some (splayed.putAbove .left elm root, none, rest)
          else if cmp elm root > 0 then some (splayed.putAbove .right elm root, none, rest)
          else some (splayed, some root, rest)) = result → heap.insert cmp turns elm = result := by
      rintro result rfl
      rw [SplayHeap.insert, treeAt.sphRoot_eq]
      show (heap.splay cmp turns elm).bind _ = _
      rw [called, Option.bind_some]
      dsimp only
      rw [show splayed.sphRoot = some root from splayedAt.sphRoot_eq]
      rfl
    -- a new root on the side on which the search has ended
    have put : ∀ side near far, BinaryTree.node root left right = join side root near far →
        elm ∉ set.elements →
        (splayed.putAbove side elm root).TreeAt memory scope
            (join side elm near (join side root nil far)) ∧
          6 * potential (join side elm near (join side root nil far)) + more ≤ rest := by
      intro side near far same fresh
      rw [same] at splayedAt paid sizes
      refine ⟨splayedAt.putAbove ?_ inside, ?_⟩
      · rwa [← same, inorder_node, ← order]
      · have bounded := potential_putAbove side elm root near far sizes
        rw [access] at paid
        omega
    rcases lt_trichotomy (key root) (key elm) with greater | same | less
    · have right := cut.append_below greater
      have elements := order.trans (List.append_cons ..)
      obtain ⟨new, none⟩ := OrderedSet.insert_of_cut right elements
      obtain ⟨afterAt, paid⟩ := put .right _ _ rfl (elements ▸ right.not_mem)
      refine ⟨_, _, rest, begun _ ?_, afterAt, ?_, paid⟩
      · have pos := (compares.pos_iff elm root).mpr greater
        rw [if_neg (by omega), if_pos pos, none]
      · rw [new]
        simp [join]
    · rw [← same] at cut
      have found : set.find (key elm) = some root := same ▸ OrderedSet.find_of_cut order
      rw [OrderedSet.insert_of_find found]
      refine ⟨splayed, _, rest, begun _ ?_, splayedAt, order.symm, by omega⟩
      have zero := (cmp_eq_zero_iff compares elm root).mpr same
      rw [if_neg (by omega), if_neg (by omega)]
    · have left := cut.cons_above less
      obtain ⟨new, none⟩ := OrderedSet.insert_of_cut left order
      obtain ⟨afterAt, paid⟩ := put .left _ _ rfl (order ▸ left.not_mem)
      refine ⟨_, _, rest, begun _ ?_, afterAt, ?_, paid⟩
      · rw [if_pos ((compares.neg_iff elm root).mpr less), none]
      · rw [new]
        simp [join]

/-! ### `SPLAY_REMOVE` -/

omit [DecidableEq Address] in
/-- A tree made of a part of the elements of another one, without a change elsewhere. -/
theorem TreeAt.widen {after : SplayHeap Address} {part : BinaryTree Address} {inner : List Address}
    (treeAt : heap.TreeAt memory scope tree) (within : inner ⊆ tree.inorder)
    (partAt : after.TreeAt heap.entry inner part) : after.TreeAt memory scope part := by
  refine ⟨partAt.stands, fun address inside => treeAt.covered (within (partAt.covered inside)), ?_⟩
  intro address outside
  refine (partAt.same address fun member => outside ?_).trans (treeAt.same address outside)
  exact treeAt.covered (within member)

/-- The right subtree of the old root becomes that of the new one, which has none. -/
theorem TreeAt.setRight (treeAt : heap.TreeAt memory scope (.node root left nil))
    (holds : splayLayout.Holds heap.entry none right)
    (distinct : (BinaryTree.node root left right).inorder.Nodup) (covered : right.inorder ⊆ scope) :
    (heap.setChild .right root (splayLayout.pointer right)).TreeAt memory scope
      (.node root left right) := by
  have asJoin : heap.TreeAt memory scope (join .left root left nil) := treeAt
  have entry := asJoin.entry_eq
  obtain ⟨-, holdsLeft, -⟩ := treeAt.stands.holds
  have fresh := (List.nodup_cons.mp
    ((inorder_join_perm .left root left right).nodup_iff.mp distinct)).1
  rw [List.mem_append, not_or] at fresh
  have frames : ∀ {subtree parent}, root ∉ subtree.inorder →
      splayLayout.Holds heap.entry parent subtree → ∀ other, splayLayout.Holds
        (heap.setChild .right root (splayLayout.pointer right)).entry other subtree := by
    intro subtree parent notRoot holds other
    refine (holds_parent holds).frame fun address member => ?_
    rw [addresses_splayLayout] at member
    exact entry_setChild_of_ne (ne_of_mem_of_not_mem member notRoot) ..
  refine ⟨⟨⟨?_, frames fresh.1 holdsLeft _, frames fresh.2 holds _⟩, treeAt.stands.around, ?_⟩, ?_, ?_⟩
  · rw [address_splayLayout, entry_setChild_self, entry]
    rfl
  · rwa [plug_nil, addresses_splayLayout]
  · intro address member
    rw [inorder_node, List.mem_append, List.mem_cons] at member
    rcases member with inLeft | rfl | inRight
    · exact treeAt.covered (List.mem_append_left _ inLeft)
    · exact treeAt.covered (List.mem_append_right _ List.mem_cons_self)
    · exact covered inRight
  · intro address outside
    have rootIn := treeAt.covered (List.mem_append_right left.inorder List.mem_cons_self)
    rw [entry_setChild_of_ne (ne_of_mem_of_not_mem rootIn outside).symm]
    exact treeAt.same address outside

theorem removeRoot_spec (compares : Compares cmp key)
    (treeAt : heap.TreeAt memory scope (.node root left right))
    (ascending : Ascending key (BinaryTree.node root left right).inorder)
    (same : key root = key elm) (fits : (BinaryTree.node root left right).numNodes ≤ bound)
    (enough : 6 * potential (BinaryTree.node root left right) + access bound + more ≤ turns) :
    ∃ after tree rest, heap.removeRoot cmp turns elm root = some (after, rest) ∧
      after.TreeAt memory scope tree ∧ tree.inorder = left.inorder ++ right.inorder ∧
      6 * potential tree + more ≤ rest := by
  have leftJoin : heap.TreeAt memory scope (join .left root left right) := treeAt
  have rightJoin : heap.TreeAt memory scope (join .right root right left) := treeAt
  have leftChild := leftJoin.child_eq
  have rightChild := rightJoin.child_eq
  have inLeft : left.inorder ⊆ (BinaryTree.node root left right).inorder :=
    List.subset_append_left ..
  have inRight : right.inorder ⊆ (BinaryTree.node root left right).inorder :=
    fun address inside => List.mem_append_right _ (List.mem_cons_of_mem _ inside)
  by_cases empty : left = nil
  · subst empty
    refine ⟨_, right, turns, ?_, treeAt.widen inRight rightJoin.below, rfl, ?_⟩
    · rw [SplayHeap.removeRoot, leftChild, rightChild]
      rfl
    · simp only [potential] at enough
      omega
  · obtain ⟨first, pointed⟩ : ∃ first, splayLayout.pointer left = some first :=
      Option.ne_none_iff_exists'.mp (mt splayLayout.pointer_eq_none_iff.mp empty)
    obtain ⟨ascendingLeft, -, apart⟩ := ascending_append.mp ascending
    let below : OrderedSet key := ⟨left.inorder, ascendingLeft⟩
    have fitsLeft : left.numNodes ≤ bound := by
      simp only [numNodes] at fits
      omega
    simp only [potential] at enough
    have searching : 6 * potential left + access bound +
        (6 * (rank (BinaryTree.node root left right) + potential right) + more) ≤ turns := by omega
    obtain ⟨splayed, top, inner, outer, rest, called, splayedAt, order, cut, paid⟩ :=
      splay_search compares leftJoin.below empty (show left.inorder = below.elements from rfl) elm
        fitsLeft searching
    replace order : left.inorder = inner.inorder ++ top :: outer.inorder := order
    -- nothing in the left subtree is above the key
    obtain rfl : outer = nil := by
      refine inorder_eq_nil_iff.mp (List.eq_nil_iff_forall_not_mem.mpr fun label member => ?_)
      have less := apart label (order ▸ List.mem_append_right _ (List.mem_cons_of_mem _ member)) root
        List.mem_cons_self
      exact less.asymm (same ▸ cut.above label member)
    have disjoint := List.disjoint_of_nodup_append treeAt.nodup
    have holds : splayLayout.Holds splayed.entry none right := by
      refine (holds_parent treeAt.stands.holds.2.2).frame fun address member => ?_
      rw [addresses_splayLayout] at member
      exact splayedAt.same address fun inside => disjoint inside (List.mem_cons_of_mem _ member)
    have elements : (BinaryTree.node top inner right).inorder = left.inorder ++ right.inorder := by
      rw [order, inorder_node, List.append_assoc]
      rfl
    have part : (left.inorder ++ right.inorder).Sublist (BinaryTree.node root left right).inorder :=
      (List.Sublist.refl _).append (List.sublist_cons_self root _)
    have covered := List.Subset.trans inRight treeAt.covered
    refine ⟨_, _, rest, ?_, (treeAt.widen inLeft splayedAt).setRight holds
      (elements ▸ treeAt.nodup.sublist part) covered, elements, ?_⟩
    · rw [SplayHeap.removeRoot, leftChild, pointed, rightChild]
      rw [pointed] at called
      show Option.bind _ _ = _
      rw [called, Option.bind_some]
      dsimp only
      rw [show splayed.sphRoot = some top from splayedAt.sphRoot_eq]
      rfl
    · have smaller : rank (BinaryTree.node top inner right) ≤ rank (BinaryTree.node root left right) := by
        refine rank_le ?_
        rw [← length_inorder, ← length_inorder, elements]
        exact part.length_le
      simp only [potential] at paid ⊢
      omega

theorem remove_spec (compares : Compares cmp key) (treeAt : heap.TreeAt memory scope tree)
    (elements : tree.inorder = set.elements) (elm : Address) (fits : tree.numNodes ≤ bound)
    (enough : 6 * potential tree + 2 * access bound + more ≤ turns) :
    ∃ after tree left,
      heap.remove cmp turns elm = some (after, (set.find (key elm)).map fun _ => elm, left) ∧
      after.TreeAt memory scope tree ∧ tree.inorder = (set.erase (key elm)).elements ∧
      6 * potential tree + more ≤ left := by
  cases tree with
  | nil =>
    have none : set.find (key elm) = none := by
      rw [OrderedSet.find, ← elements]
      rfl
    have noCut := Cut.nil key (key elm)
    refine ⟨heap, .nil, turns, ?_, treeAt, ?_, by omega⟩
    · rw [SplayHeap.remove, treeAt.sphRoot_eq, none]
      rfl
    · rw [OrderedSet.erase_eq_self_of_cut noCut elements.symm, ← elements]
  | node label first last =>
    have searching : 6 * potential (BinaryTree.node label first last) + access bound +
        (access bound + more) ≤ turns := by omega
    obtain ⟨splayed, root, left, right, rest, called, splayedAt, order, cut, paid⟩ :=
      splay_search compares treeAt (node_ne_nil _ _ _) elements elm fits searching
    have sizes : (BinaryTree.node root left right).numNodes ≤ bound := by
      rw [← length_inorder] at fits ⊢
      rwa [inorder_node, ← order, ← elements]
    have begun : ∀ result, (if cmp elm root = 0 then
          (splayed.removeRoot cmp rest elm root).map fun removed => (removed.1, some elm, removed.2)
        else some (splayed, none, rest)) = result → heap.remove cmp turns elm = result := by
      rintro result rfl
      rw [SplayHeap.remove, treeAt.sphRoot_eq]
      show (heap.splay cmp turns elm).bind _ = _
      rw [called, Option.bind_some]
      dsimp only
      rw [show splayed.sphRoot = some root from splayedAt.sphRoot_eq]
      show (if cmp elm root = 0 then _ else _) = _
      split
      · cases splayed.removeRoot cmp rest elm root <;> rfl
      · rfl
    by_cases same : key root = key elm
    · have ascending : Ascending key (BinaryTree.node root left right).inorder := by
        rw [inorder_node, ← order]
        exact set.ascending
      obtain ⟨after, tree, final, removed, afterAt, elements, paid⟩ :=
        removeRoot_spec compares splayedAt ascending same sizes
          (show 6 * potential _ + access bound + more ≤ rest by omega)
      refine ⟨after, tree, final, begun _ ?_, afterAt, ?_, paid⟩
      · rw [if_pos ((cmp_eq_zero_iff compares elm root).mpr same), removed, ← same,
          OrderedSet.find_of_cut order]
        rfl
      · rw [elements, ← same, OrderedSet.erase_of_cut order]
    · obtain ⟨lower, upper, split, cut⟩ := exists_cut_of_ne cut same
      refine ⟨splayed, _, rest, begun _ ?_, splayedAt, ?_, by omega⟩
      · rw [if_neg (mt (cmp_eq_zero_iff compares elm root).mp same),
          OrderedSet.find_eq_none_of_cut cut (order.trans split)]
        rfl
      · rw [OrderedSet.erase_eq_self_of_cut cut (order.trans split), order, inorder_node]

/-! ### `SPLAY_MIN` and `SPLAY_MAX` -/

/-- A search that always goes on to one side ends at an element without a child there. -/
theorem minMax_spec {val : Int} (nonzero : val ≠ 0)
    (which : ∀ root : Address, SplayState.steer (fun _ => val) root = some side)
    (treeAt : heap.TreeAt memory scope tree) (present : tree ≠ nil) (fits : tree.numNodes ≤ bound)
    (enough : 6 * potential tree + access bound + more ≤ turns) :
    ∃ splayed root far rest, heap.minMax turns val = some (splayed, some root, rest) ∧
      splayed.TreeAt memory scope (join side root nil far) ∧
      (join side root nil far).inorder = tree.inorder ∧
      6 * potential (join side root nil far) + more ≤ rest := by
  obtain ⟨spent, after, splays⟩ := exists_splays (SplayState.steer fun _ => val) tree
  have guided : Guided (SplayState.steer fun _ => val) tree := by
    refine List.pairwise_of_forall fun first second => ?_
    cases side with
    | left => exact Or.inr (which second)
    | right => exact Or.inl (which first)
  have ends := splays.toward_child guided side
  have paid := splays.turns_le
  have rankLe := rank_le_log fits
  rw [access] at enough
  obtain ⟨rest, rfl⟩ : ∃ rest, turns = spent + rest := ⟨turns - spent, by omega⟩
  obtain ⟨splayed, called, splayedAt⟩ := treeAt.splayMinmax_spec nonzero present splays rest
  obtain ⟨root, left, right, rfl⟩ := splays.exists_node present
  obtain ⟨near, far, split⟩ := BinaryTree.exists_join side root left right
  rw [split] at splays ends paid splayedAt
  obtain rfl : near = nil := by
    refine inorder_eq_nil_iff.mp (List.eq_nil_iff_forall_not_mem.mpr fun label member => ?_)
    rw [child_join] at ends
    exact Direction.other_ne side (Option.some.inj ((ends label member).symm.trans (which label)))
  refine ⟨splayed, root, far, rest, ?_, splayedAt, splays.inorder_eq, by omega⟩
  rw [minMax, called, Option.bind_eq_bind, Option.bind_some]
  dsimp only
  rw [splayedAt.sphRoot_eq, Layout.pointer_join]
  rfl

theorem min_spec (treeAt : heap.TreeAt memory scope tree) (elements : tree.inorder = set.elements)
    (fits : tree.numNodes ≤ bound) (enough : 6 * potential tree + access bound + more ≤ turns) :
    ∃ after tree left, heap.min turns = some (after, set.least, left) ∧
      after.TreeAt memory scope tree ∧ tree.inorder = set.elements ∧
      6 * potential tree + more ≤ left := by
  by_cases empty : tree = nil
  · subst empty
    refine ⟨heap, nil, turns, ?_, treeAt, elements, by omega⟩
    rw [SplayHeap.min, treeAt.sphRoot_eq, OrderedSet.least, ← elements]
    rfl
  · obtain ⟨splayed, root, far, rest, called, splayedAt, order, paid⟩ := minMax_spec
      (show (-1 : Int) ≠ 0 by decide) (fun _ => rfl) treeAt empty fits enough
    refine ⟨splayed, _, rest, ?_, splayedAt, order.trans elements, paid⟩
    obtain ⟨first, pointed⟩ := Option.ne_none_iff_exists'.mp (mt splayLayout.pointer_eq_none_iff.mp empty)
    rw [SplayHeap.min, treeAt.sphRoot_eq, pointed, OrderedSet.least, ← elements, ← order]
    exact called

theorem max_spec (treeAt : heap.TreeAt memory scope tree) (elements : tree.inorder = set.elements)
    (fits : tree.numNodes ≤ bound) (enough : 6 * potential tree + access bound + more ≤ turns) :
    ∃ after tree left, heap.max turns = some (after, set.greatest, left) ∧
      after.TreeAt memory scope tree ∧ tree.inorder = set.elements ∧
      6 * potential tree + more ≤ left := by
  by_cases empty : tree = nil
  · subst empty
    refine ⟨heap, nil, turns, ?_, treeAt, elements, by omega⟩
    rw [SplayHeap.max, treeAt.sphRoot_eq, OrderedSet.greatest, ← elements]
    rfl
  · obtain ⟨splayed, root, far, rest, called, splayedAt, order, paid⟩ := minMax_spec
      (show (1 : Int) ≠ 0 by decide) (fun _ => rfl) treeAt empty fits enough
    refine ⟨splayed, _, rest, ?_, splayedAt, order.trans elements, paid⟩
    obtain ⟨first, pointed⟩ := Option.ne_none_iff_exists'.mp (mt splayLayout.pointer_eq_none_iff.mp empty)
    rw [SplayHeap.max, treeAt.sphRoot_eq, pointed, OrderedSet.greatest, ← elements, ← order,
      show (join .right root nil far).inorder = far.inorder ++ [root] from rfl,
      List.getLast?_append, List.getLast?_singleton, Option.some_or]
    exact called

/-! ### `SPLAY_NEXT` -/

omit [DecidableEq Address] in
/-- The walk to the first element of a tree takes a turn for every element on the way. -/
theorem leftmost_spec {parent : Option Address} (holds : splayLayout.Holds heap.entry parent tree)
    (pointed : splayLayout.pointer tree = some elm) (rest : Nat) :
    ∃ first, tree.inorder.head? = some first ∧
      spend heap.leftmostTurn (spine tree + rest) elm = some (first, rest) := by
  induction tree generalizing elm parent with
  | nil => cases pointed
  | node label left right leftHypothesis rightHypothesis =>
    obtain rfl : label = elm := Option.some.inj pointed
    obtain ⟨entry, holdsLeft, -⟩ := holds
    have child : heap.child .left label = splayLayout.pointer left :=
      congrArg (SplayEntry.child .left) entry
    rw [spine, Nat.add_right_comm]
    cases below : splayLayout.pointer left with
    | none =>
      obtain rfl := splayLayout.pointer_eq_none_iff.mp below
      have ended : heap.leftmostTurn label = some (.done label) := by
        rw [leftmostTurn, child]
        rfl
      refine ⟨label, rfl, (spend_done ended _).trans ?_⟩
      rw [spine, Nat.zero_add]
    | some start =>
      obtain ⟨first, head, walked⟩ := leftHypothesis holdsLeft below
      refine ⟨first, ?_, (spend_again ?_ _).trans walked⟩
      · rw [inorder_node, List.head?_append, head]
        rfl
      · rw [leftmostTurn, child, below]

omit [DecidableEq Address] in
/-- The search for an element of the tree makes it the root, since no other one has its key. -/
theorem exists_splays_mem (compares : Compares cmp key) (elements : tree.inorder = set.elements)
    (member : elm ∈ set.elements) {spent : Nat} {after : BinaryTree Address}
    (splays : Splays (SplayState.steer (cmp elm)) tree spent after) :
    tree ≠ nil ∧ ∃ left right, after = .node elm left right ∧
      set.elements = left.inorder ++ elm :: right.inorder := by
  have present : tree ≠ nil := by
    rintro rfl
    rw [← elements] at member
    cases member
  obtain ⟨root, left, right, rfl⟩ := splays.exists_node present
  have order : set.elements = left.inorder ++ root :: right.inorder := by
    rw [← elements, ← splays.inorder_eq, inorder_node]
  obtain rfl : elm = root := by
    have notIn := (SplayState.cut_of_splays compares (elements ▸ set.ascending) splays).not_mem
    rw [order, List.mem_append, List.mem_cons] at member
    rw [List.mem_append, not_or] at notIn
    exact (member.resolve_left notIn.1).resolve_right notIn.2
  exact ⟨present, left, right, rfl, order⟩

/-- `SPLAY_NEXT` takes the turns of the search, and those of the walk in the right subtree. -/
theorem next_search (treeAt : heap.TreeAt memory scope tree) (present : tree ≠ nil) {spent : Nat}
    (splays : Splays (SplayState.steer (cmp elm)) tree spent (.node elm left right)) (rest : Nat) :
    ∃ splayed, splayed.TreeAt memory scope (.node elm left right) ∧
      heap.next cmp (spent + (spine right + rest)) elm =
        some (splayed, right.inorder.head?, rest) := by
  obtain ⟨splayed, called, splayedAt⟩ := treeAt.splay_spec present splays (spine right + rest)
  refine ⟨splayed, splayedAt, ?_⟩
  have rightJoin : splayed.TreeAt memory scope (join .right elm right left) := splayedAt
  rw [SplayHeap.next, called, Option.bind_eq_bind, Option.bind_some]
  dsimp only
  rw [rightJoin.child_eq]
  cases pointed : splayLayout.pointer right with
  | none =>
    obtain rfl := splayLayout.pointer_eq_none_iff.mp pointed
    rw [spine, Nat.zero_add]
    rfl
  | some start =>
    obtain ⟨first, head, walked⟩ := leftmost_spec splayedAt.stands.holds.2.2 pointed rest
    dsimp only
    rw [walked, head]
    rfl

theorem next_spec (compares : Compares cmp key) (treeAt : heap.TreeAt memory scope tree)
    (elements : tree.inorder = set.elements) (member : elm ∈ set.elements)
    (fits : tree.numNodes ≤ bound)
    (enough : 6 * potential tree + (access bound + bound) + more ≤ turns) :
    ∃ after tree left, heap.next cmp turns elm = some (after, set.next (key elm), left) ∧
      after.TreeAt memory scope tree ∧ tree.inorder = set.elements ∧
      6 * potential tree + more ≤ left := by
  obtain ⟨spent, after, splays⟩ := exists_splays (SplayState.steer (cmp elm)) tree
  obtain ⟨present, left, right, rfl, order⟩ := exists_splays_mem compares elements member splays
  have paid := splays.turns_le
  have rankLe := rank_le_log fits
  have walk : spine right ≤ bound := by
    have size := splays.numNodes_eq
    have spineLe := spine_le_numNodes right
    simp only [numNodes] at size
    omega
  rw [access] at enough
  obtain ⟨rest, rfl⟩ : ∃ rest, turns = spent + (spine right + rest) :=
    ⟨turns - spent - spine right, by omega⟩
  obtain ⟨splayed, splayedAt, called⟩ := next_search treeAt present splays rest
  refine ⟨splayed, _, rest, ?_, splayedAt, order.symm, by omega⟩
  rw [called, OrderedSet.next_of_cut order]

/-! ### `SPLAY_FOREACH` -/

omit [DecidableEq Address] in
/-- The search for the element after the root pays for the walk to it. -/
theorem exists_splays_next (compares : Compares cmp key) {next : Address} {rest : List Address}
    (ascending : Ascending key (BinaryTree.node root left right).inorder)
    (order : right.inorder = next :: rest) (fits : (BinaryTree.node root left right).numNodes ≤ bound) :
    ∃ spent after, Splays (SplayState.steer (cmp next)) (.node root left right) spent after ∧
      spine right ≤ 2 * spent ∧
      3 * spent + 6 * potential after ≤
        6 * potential (BinaryTree.node root left right) + access bound := by
  obtain ⟨spent, after, splays⟩ :=
    exists_splays (SplayState.steer (cmp next)) (.node root left right)
  have paid := splays.turns_le
  have rankLe := rank_le_log fits
  obtain ⟨-, last, -⟩ := ascending_append.mp ascending
  obtain ⟨above, last⟩ := ascending_cons.mp last
  rw [order] at above last
  have start : SplayState.steer (cmp next) root = some .right :=
    (SplayState.steer_right_iff compares next root).mpr (above next List.mem_cons_self)
  have beyond : ∀ label ∈ rest, SplayState.steer (cmp next) label = some .left := fun label inside =>
    (SplayState.steer_left_iff compares next label).mpr ((ascending_cons.mp last).1 label inside)
  have turned : ∀ lower ∈ right.root, SplayState.steer (cmp next) lower ≠ some .right := by
    intro lower isRoot goes
    have inside : lower ∈ right.inorder := by
      cases right with
      | nil => cases isRoot
      | node label _ _ =>
        obtain rfl := Option.some.inj isRoot
        exact List.mem_append_right _ List.mem_cons_self
    rw [order, List.mem_cons] at inside
    rcases inside with rfl | inside
    · rw [SplayState.steer_self compares] at goes
      cases goes
    · rw [beyond lower inside] at goes
      cases goes
  have asJoin : Splays (SplayState.steer (cmp next)) (join .right root right left) spent after := splays
  obtain ⟨fewer, below, rfl, splaysRight⟩ := asJoin.exists_near start turned
  have walk := splaysRight.spine_le order (SplayState.steer_self compares next) beyond
  refine ⟨_, after, splays, by omega, ?_⟩
  rw [access]
  omega

/-- The loop goes through the rest of the elements in order. What is left when an element is reached
pays for its search, since this takes at least half the turns of the walk that has led there. -/
theorem foreach_loop (compares : Compares cmp key) {walk : Walk Address} {rest : List Address}
    (treeAt : walk.heap.TreeAt memory scope tree) (elements : tree.inorder = set.elements)
    (order : set.elements = walk.visited ++ rest) (current : walk.x = rest.head?)
    (fits : tree.numNodes ≤ bound)
    (enough : ∀ elm ∈ rest.head?, ∃ spent after, Splays (SplayState.steer (cmp elm)) tree spent after ∧
      spent + 6 * potential after + (rest.length - 1) * access bound + more ≤ walk.turns)
    (paid : rest = [] → 6 * potential tree + more ≤ walk.turns) {count : Nat}
    (counted : rest.length < count) :
    ∃ final tree, loop (foreachTurn cmp) count walk = some final ∧ final.visited = set.elements ∧
      final.heap.TreeAt memory scope tree ∧ tree.inorder = set.elements ∧
      6 * potential tree + more ≤ final.turns := by
  induction rest generalizing walk tree count with
  | nil =>
    obtain ⟨count, rfl⟩ := Nat.exists_eq_add_of_le' (Nat.one_le_of_lt counted)
    refine ⟨walk, tree, loop_done ?_ count, ?_, treeAt, elements, paid rfl⟩
    · rw [foreachTurn, current]
      rfl
    · rw [order, List.append_nil]
  | cons elm rest inductionHypothesis =>
    obtain ⟨count, rfl⟩ := Nat.exists_eq_add_of_le' (Nat.one_le_of_lt counted)
    obtain ⟨spent, after, splays, enough⟩ := enough elm rfl
    have member : elm ∈ set.elements := order ▸ List.mem_append_right _ List.mem_cons_self
    obtain ⟨present, left, right, rfl, split⟩ := exists_splays_mem compares elements member splays
    have ascending : Ascending key (BinaryTree.node elm left right).inorder := by
      rw [inorder_node, ← split]
      exact set.ascending
    have sizes : (BinaryTree.node elm left right).numNodes ≤ bound := splays.numNodes_eq ▸ fits
    have upper : right.inorder = rest :=
      (OrderedSet.above_of_cut split).symm.trans (OrderedSet.above_of_cut order)
    -- the walk is paid for by the search for the element that it leads to
    have walked : spent + spine right ≤ walk.turns ∧
        ∀ next ∈ rest.head?, ∃ fewer below,
          Splays (SplayState.steer (cmp next)) (.node elm left right) fewer below ∧
          fewer + 6 * potential below + (rest.length - 1) * access bound + more ≤
            walk.turns - (spent + spine right) := by
      cases rest with
      | nil =>
        obtain rfl := inorder_eq_nil_iff.mp upper
        exact ⟨by rw [spine]; omega, fun next head => absurd head (Option.not_mem_none next)⟩
      | cons next tail =>
        obtain ⟨fewer, below, splaysNext, half, bounded⟩ :=
          exists_splays_next compares ascending upper sizes
        simp only [List.length_cons, Nat.add_sub_cancel, Nat.succ_mul] at enough ⊢
        refine ⟨by omega, fun other head => ?_⟩
        obtain rfl := Option.some.inj head
        exact ⟨fewer, below, splaysNext, by omega⟩
    obtain ⟨remaining, turns⟩ : ∃ remaining, walk.turns = spent + (spine right + remaining) :=
      ⟨walk.turns - (spent + spine right), by omega⟩
    obtain ⟨splayed, splayedAt, called⟩ := next_search treeAt present splays remaining
    have again : foreachTurn cmp walk =
        some (.again ⟨splayed, rest.head?, remaining, walk.visited ++ [elm]⟩) := by
      rw [foreachTurn, current, turns]
      show Option.bind _ _ = _
      rw [called, upper]
      rfl
    rw [loop_again again]
    refine inductionHypothesis splayedAt ?_ ?_ rfl sizes ?_ ?_ (Nat.lt_of_succ_lt_succ counted)
    · rw [inorder_node, split]
    · rw [order, List.append_cons]
    · intro next head
      obtain ⟨fewer, below, splays, left⟩ := walked.2 next head
      exact ⟨fewer, below, splays, show _ ≤ remaining by omega⟩
    · rintro rfl
      obtain rfl := inorder_eq_nil_iff.mp upper
      simp only [spine, List.length_cons, List.length_nil] at turns enough
      show _ ≤ remaining
      omega

/-- The loop gives every element to its body, once and in order, though it splays each of them. -/
theorem foreach_spec (compares : Compares cmp key) (treeAt : heap.TreeAt memory scope tree)
    (elements : tree.inorder = set.elements) (fits : tree.numNodes ≤ bound)
    (enough : 6 * potential tree + (bound + 1) * access bound + more ≤ turns) :
    ∃ after tree left, heap.foreach cmp turns = some (after, set.elements, left) ∧
      after.TreeAt memory scope tree ∧ tree.inorder = set.elements ∧
      6 * potential tree + more ≤ left := by
  have length : set.elements.length ≤ bound := by
    rwa [← elements, length_inorder]
  have positive : bound + 1 ≤ (bound + 1) * access bound :=
    Nat.le_mul_of_pos_right _ (Nat.succ_pos _)
  have accesses : set.elements.length * access bound + access bound ≤ (bound + 1) * access bound := by
    rw [← Nat.succ_mul]
    exact Nat.mul_le_mul_right _ (Nat.succ_le_succ length)
  have searching : 6 * potential tree + access bound +
      (set.elements.length * access bound + more) ≤ turns := by omega
  obtain ⟨first, tree, left, called, firstAt, same, paid⟩ :=
    min_spec treeAt elements fits searching
  have sizes : tree.numNodes ≤ bound := by
    rwa [← length_inorder, same]
  have enough : ∀ elm ∈ set.elements.head?, ∃ spent after,
      Splays (SplayState.steer (cmp elm)) tree spent after ∧
      spent + 6 * potential after + (set.elements.length - 1) * access bound + more ≤ left := by
    intro elm head
    obtain ⟨spent, after, splays⟩ := exists_splays (SplayState.steer (cmp elm)) tree
    have bounded := splays.turns_le
    have rankLe := rank_le_log sizes
    have price : access bound = 18 * Nat.log 2 bound + 3 := rfl
    obtain ⟨fewer, count⟩ : ∃ fewer, set.elements.length = fewer + 1 :=
      Nat.exists_eq_add_of_le' (List.length_pos_of_mem (List.mem_of_mem_head? head))
    rw [count, Nat.succ_mul fewer] at paid
    rw [count, Nat.add_sub_cancel]
    exact ⟨spent, after, splays, by omega⟩
  have paidAll : set.elements = [] → 6 * potential tree + more ≤ left := fun _ => by omega
  obtain ⟨final, tree, walked, visited, finalAt, same, paid⟩ :=
    foreach_loop compares (show SplayHeap.TreeAt (⟨first, set.least, left, []⟩ : Walk Address).heap
      memory scope tree from firstAt) same rfl rfl sizes enough paidAll
      (show set.elements.length < turns + 1 by omega)
  refine ⟨final.heap, tree, final.turns, ?_, finalAt, same, paid⟩
  rw [SplayHeap.foreach, called, Option.bind_eq_bind, Option.bind_some]
  dsimp only
  rw [walked, ← visited]
  rfl

end SplayHeap

end SelftestNet
