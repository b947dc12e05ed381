/-
This file proves what `SPLAY` does to a tree in memory. While its loop runs, the memory holds
three trees: the one below the root of the head, where the search goes on, and on either side a
path of the elements that the search has left, open at its lower end, where the next one is
linked. A turn is then one of the library's turns, and `SPLAY_ASSEMBLE` closes the two paths with
the children of the root.
-/

import SelftestNet.SplayTree

namespace SelftestNet

open BinaryTree LinkedTree Loop Splaying TreePath

variable {Address : Type}

/-! ### Entries of nodes -/

/-- The labels of splay trees are their elements; an entry does not depend on the parent. -/
def splayLayout : Layout Address Address (SplayEntry Address) where
  address := id
  entry _ left right _ := ⟨left, right⟩

@[simp]
theorem addresses_splayLayout (tree : BinaryTree Address) :
    splayLayout.addresses tree = tree.inorder := List.map_id _

@[simp]
theorem beside_splayLayout (path : List (Frame Address)) : splayLayout.beside path = labels path :=
  List.map_id _

@[simp]
theorem address_splayLayout (elm : Address) : splayLayout.address elm = elm := rfl

namespace SplayEntry

variable (side : Direction) (label : Address) (near far parent pointer : Option Address)

@[simp]
theorem child_entryOn : (splayLayout.entryOn side label near far parent).child side = near := by
  cases side <;> rfl

@[simp]
theorem child_other_entryOn :
    (splayLayout.entryOn side label near far parent).child side.other = far := by
  cases side <;> rfl

@[simp]
theorem setChild_entryOn :
    (splayLayout.entryOn side label near far parent).setChild side pointer =
      splayLayout.entryOn side label pointer far parent := by
  cases side <;> rfl

@[simp]
theorem setChild_other_entryOn :
    (splayLayout.entryOn side label near far parent).setChild side.other pointer =
      splayLayout.entryOn side label near pointer parent := by
  cases side <;> rfl

/-- The parent makes no difference. -/
theorem entryOn_parent (other : Option Address) :
    splayLayout.entryOn side label near far parent =
      splayLayout.entryOn side label near far other := by
  cases side <;> rfl

/-- An entry by its child on a side. -/
theorem setChild_eq (entry : SplayEntry Address) (far : Option Address)
    (other : entry.child side.other = far) :
    entry.setChild side pointer = splayLayout.entryOn side label pointer far parent := by
  obtain ⟨left, right⟩ := entry
  cases side <;> (subst other; rfl)

theorem setChild_setChild_other (entry : SplayEntry Address) :
    (entry.setChild side near).setChild side.other far =
      splayLayout.entryOn side label near far parent := by
  cases side <;> rfl

@[simp]
theorem child_setChild (entry : SplayEntry Address) :
    (entry.setChild side pointer).child side = pointer := by
  cases side <;> rfl

@[simp]
theorem child_other_setChild (entry : SplayEntry Address) :
    (entry.setChild side pointer).child side.other = entry.child side.other := by
  cases side <;> rfl

end SplayEntry

theorem holds_parent {memory : Address → SplayEntry Address} {parent other : Option Address}
    {tree : BinaryTree Address} (holds : splayLayout.Holds memory parent tree) :
    splayLayout.Holds memory other tree := by
  cases tree with
  | nil => trivial
  | node label left right => exact holds

variable [DecidableEq Address]

namespace SplayHeap

variable {heap : SplayHeap Address}

@[simp]
theorem entry_setChild_self (side : Direction) (elm : Address) (pointer : Option Address) :
    (heap.setChild side elm pointer).entry elm = (heap.entry elm).setChild side pointer :=
  Function.update_self ..

@[simp]
theorem entry_setChild_of_ne {elm other : Address} (different : other ≠ elm) (side : Direction)
    (pointer : Option Address) : (heap.setChild side elm pointer).entry other = heap.entry other :=
  Function.update_of_ne different ..

omit [DecidableEq Address] in
/-- The head has the tree, whose elements are in the scope, and outside of the scope the memory is
the given one. -/
structure TreeAt (heap : SplayHeap Address) (memory : Address → SplayEntry Address)
    (scope : List Address) (tree : BinaryTree Address) : Prop where
  stands : splayLayout.Stands heap.entry heap.sphRoot [] tree
  covered : tree.inorder ⊆ scope
  same : ∀ address ∉ scope, heap.entry address = memory address

end SplayHeap

namespace SplayState

variable {state : SplayState Address} {memory : Address → SplayEntry Address} {scope : List Address}
  {chains : Direction → List (Frame Address)} {tree near far inner : BinaryTree Address}
  {side : Direction} {label upper lower : Address}

/-! ### Open paths -/

omit [DecidableEq Address] in
/-- The memory has the path below the slot of `__node` for its side, up to the pointer at its lower
end, which the variable for the side leads to. -/
def Hung (memory : Address → SplayEntry Address) (slot : Option Address) (cursor : Cursor Address)
    (side : Direction) : List (Frame Address) → Prop
  | [] => cursor = .node
  | frame :: rest => cursor = .element frame.label ∧ frame.side = side ∧
    (memory frame.label).child side.other = splayLayout.pointer frame.sibling ∧
    splayLayout.Holds memory none frame.sibling ∧
    splayLayout.Around memory slot rest (some frame.label)

omit [DecidableEq Address] in
theorem Hung.frame {other : Address → SplayEntry Address} {slot : Option Address}
    {cursor : Cursor Address} {path : List (Frame Address)} (hung : Hung memory slot cursor side path)
    (same : ∀ address ∈ labels path, other address = memory address) :
    Hung other slot cursor side path := by
  cases path with
  | nil => exact hung
  | cons frame rest =>
    obtain ⟨here, way, sibling, holds, around⟩ := hung
    rw [labels_cons] at same
    refine ⟨here, way, ?_, holds.frame fun address inside => ?_, around.frame fun address inside => ?_⟩
    · rw [same frame.label List.mem_cons_self, sibling]
    · rw [addresses_splayLayout] at inside
      exact same address (List.mem_cons_of_mem _ (List.mem_append_left _ inside))
    · rw [beside_splayLayout] at inside
      exact same address (List.mem_cons_of_mem _ (List.mem_append_right _ inside))

@[simp]
theorem sphRoot_hang (side : Direction) (pointer : Option Address) :
    (state.hang side pointer).heap.sphRoot = state.heap.sphRoot := by
  rw [hang]
  split <;> rfl

@[simp]
theorem cursor_hang (side way : Direction) (pointer : Option Address) :
    (state.hang side pointer).cursor way = state.cursor way := by
  rw [hang]
  split <;> cases way <;> rfl

@[simp]
theorem child_other_node_hang (side : Direction) (pointer : Option Address) :
    (state.hang side pointer).node.child side.other = state.node.child side.other := by
  rw [hang]
  split
  · exact SplayEntry.child_other_setChild ..
  · rfl

/-- Writing at the lower end of an open path closes it. -/
theorem Hung.close {path : List (Frame Address)}
    (hung : Hung state.heap.entry (state.node.child side) (state.cursor side) side path)
    (distinct : (labels path).Nodup) (pointer : Option Address) :
    splayLayout.Around (state.hang side pointer).heap.entry ((state.hang side pointer).node.child side)
        path pointer ∧
      ∀ address ∉ labels path,
        (state.hang side pointer).heap.entry address = state.heap.entry address := by
  cases path with
  | nil =>
    have here : state.cursor side = .node := hung
    rw [hang, here]
    exact ⟨SplayEntry.child_setChild .., fun _ _ => rfl⟩
  | cons frame rest =>
    obtain ⟨here, way, sibling, holds, around⟩ := hung
    rw [labels_cons] at distinct ⊢
    obtain ⟨fresh, -⟩ := List.nodup_cons.mp distinct
    have others : ∀ address, address ≠ frame.label →
        (state.heap.setChild side frame.label pointer).entry address = state.heap.entry address :=
      fun address different => SplayHeap.entry_setChild_of_ne different ..
    rw [hang, here]
    refine ⟨⟨?_, ?_, ?_⟩, fun address outside => others address fun same => ?_⟩
    · rw [address_splayLayout, SplayHeap.entry_setChild_self, way]
      exact SplayEntry.setChild_eq _ _ _ _ _ _ sibling
    · refine (holds_parent holds).frame fun address inside => others address ?_
      rintro rfl
      rw [addresses_splayLayout] at inside
      exact fresh (List.mem_append_left _ inside)
    · refine around.frame fun address inside => others address ?_
      rintro rfl
      rw [beside_splayLayout] at inside
      exact fresh (List.mem_append_right _ inside)
    · exact outside (same ▸ List.mem_cons_self)

/-! ### The three trees -/

omit [DecidableEq Address] in
/-- The memory has the tree below the root and the two open paths. -/
structure Splits (memory : Address → SplayEntry Address) (scope : List Address)
    (state : SplayState Address) (chains : Direction → List (Frame Address))
    (tree : BinaryTree Address) : Prop where
  root : state.heap.sphRoot = splayLayout.pointer tree
  holds : splayLayout.Holds state.heap.entry none tree
  hung : ∀ side,
    Hung state.heap.entry (state.node.child side) (state.cursor side) side (chains side)
  distinct : ∀ side, (tree.inorder ++ (labels (chains side) ++ labels (chains side.other))).Nodup
  covered : ∀ side, tree.inorder ++ (labels (chains side) ++ labels (chains side.other)) ⊆ scope
  same : ∀ address ∉ scope, state.heap.entry address = memory address

omit [DecidableEq Address] in
theorem labels_perm (chains : Direction → List (Frame Address)) (side way : Direction) :
    (labels (chains way) ++ labels (chains way.other)).Perm
      (labels (chains side) ++ labels (chains side.other)) := by
  by_cases same : way = side
  · rw [same]
  · rw [Direction.eq_other_of_ne same, Direction.other_other]
    exact List.perm_append_comm

omit [DecidableEq Address] in
/-- The elements of the tree differ from each other and from those of the paths. -/
theorem Splits.not_mem (splits : Splits memory scope state chains (join side label near far)) :
    label ∉ near.inorder ∧ label ∉ far.inorder ∧ ∀ way, label ∉ labels (chains way) := by
  have nodup := ((inorder_join_perm side label near far).append_right _).nodup_iff.mp
    (splits.distinct .left)
  rw [List.cons_append] at nodup
  have fresh := (List.nodup_cons.mp nodup).1
  simp only [List.mem_append, not_or] at fresh
  refine ⟨fresh.1.1, fresh.1.2, fun way => ?_⟩
  cases way with
  | left => exact fresh.2.1
  | right => exact fresh.2.2

omit [DecidableEq Address] in
theorem Splits.disjoint (splits : Splits memory scope state chains tree) {address : Address}
    (inside : address ∈ tree.inorder) (way : Direction) : address ∉ labels (chains way) := by
  have disjoint := List.disjoint_of_nodup_append (splits.distinct way)
  exact fun member => disjoint inside (List.mem_append_left _ member)

omit [DecidableEq Address] in
theorem Splits.mem_scope (splits : Splits memory scope state chains tree) {address : Address}
    (inside : address ∈ tree.inorder) : address ∈ scope :=
  splits.covered .left (List.mem_append_left _ inside)

/-- A turn up of the lower one of two nodes. -/
theorem Splits.rotate
    (splits : Splits memory scope state chains (join side upper (join side lower near inner) far)) :
    ∃ heap, state.heap.rotate side.other lower = some heap ∧
      Splits memory scope { state with heap := heap } chains
        (join side lower near (join side upper inner far)) := by
  have order := inorder_rotate side lower upper near inner far
  obtain ⟨entryUpper, holdsLower, holdsFar⟩ := Layout.holds_join.mp splits.holds
  obtain ⟨entryLower, holdsNear, holdsInner⟩ := Layout.holds_join.mp holdsLower
  rw [Layout.pointer_join] at entryUpper
  obtain ⟨upperBelow, upperFar, upperPaths⟩ := splits.not_mem
  rw [(inorder_join_perm side lower near inner).mem_iff, List.mem_cons, List.mem_append, not_or,
    not_or] at upperBelow
  obtain ⟨different, upperNear, upperInner⟩ := upperBelow
  have nodup := ((inorder_join_perm side upper _ far).trans
    (((inorder_join_perm side lower near inner).append_right _).cons _)).nodup_iff.mp
      (splits.distinct side).of_append_left
  rw [List.cons_append] at nodup
  have lowerFresh := (List.nodup_cons.mp (List.nodup_cons.mp nodup).2).1
  simp only [List.mem_append, not_or] at lowerFresh
  obtain ⟨⟨lowerNear, lowerInner⟩, lowerFar⟩ := lowerFresh
  have lowerInside : lower ∈ (join side upper (join side lower near inner) far).inorder := by
    rw [order]
    exact (inorder_join_perm side lower _ _).mem_iff.mpr List.mem_cons_self
  have upperInside : upper ∈ (join side upper (join side lower near inner) far).inorder :=
    (inorder_join_perm side upper _ _).mem_iff.mpr List.mem_cons_self
  let turned := (state.heap.setChild side upper (splayLayout.pointer inner)).setChild side.other
    lower (some upper)
  have others : ∀ address, upper ≠ address → lower ≠ address →
      turned.entry address = state.heap.entry address := by
    intro address notUpper notLower
    rw [SplayHeap.entry_setChild_of_ne notLower.symm, SplayHeap.entry_setChild_of_ne notUpper.symm]
  have frames : ∀ {subtree parent}, upper ∉ subtree.inorder → lower ∉ subtree.inorder →
      splayLayout.Holds state.heap.entry parent subtree →
      ∀ other, splayLayout.Holds turned.entry other subtree := by
    intro subtree parent notUpper notLower holds other
    refine (holds_parent holds).frame fun address inside => ?_
    rw [addresses_splayLayout] at inside
    exact others address (ne_of_mem_of_not_mem inside notUpper).symm
      (ne_of_mem_of_not_mem inside notLower).symm
  refine ⟨{ turned with sphRoot := some lower }, ?_, ?_⟩
  · have inside : state.heap.child side.other lower = splayLayout.pointer inner := by
      rw [SplayHeap.child, show state.heap.entry lower = _ from entryLower,
        SplayEntry.child_other_entryOn]
    rw [SplayHeap.rotate, splits.root, Layout.pointer_join, Option.bind_eq_bind, Option.bind_some,
      Direction.other_other, inside]
    rfl
  · constructor
    case root => exact (Layout.pointer_join splayLayout ..).symm
    case holds =>
      refine Layout.holds_join.mpr ⟨?_, frames upperNear lowerNear holdsNear _,
        Layout.holds_join.mpr ⟨?_, frames upperInner lowerInner holdsInner _,
          frames upperFar lowerFar holdsFar _⟩⟩
      · show turned.entry lower = _
        rw [SplayHeap.entry_setChild_self, SplayHeap.entry_setChild_of_ne (Ne.symm different),
          show state.heap.entry lower = _ from entryLower, SplayEntry.setChild_other_entryOn,
          Layout.pointer_join]
        exact SplayEntry.entryOn_parent ..
      · show turned.entry upper = _
        rw [SplayHeap.entry_setChild_of_ne different, SplayHeap.entry_setChild_self,
          show state.heap.entry upper = _ from entryUpper, SplayEntry.setChild_entryOn]
        exact SplayEntry.entryOn_parent ..
    case hung =>
      refine fun way => (splits.hung way).frame fun address inside => others address ?_ ?_
      · exact (ne_of_mem_of_not_mem inside (upperPaths way)).symm
      · exact (ne_of_mem_of_not_mem inside (splits.disjoint lowerInside way)).symm
    case distinct => exact fun way => order ▸ splits.distinct way
    case covered => exact fun way => order ▸ splits.covered way
    case same =>
      refine fun address outside => (others address ?_ ?_).trans (splits.same address outside)
      · exact ne_of_mem_of_not_mem (splits.mem_scope upperInside) outside
      · exact ne_of_mem_of_not_mem (splits.mem_scope lowerInside) outside
omit [DecidableEq Address] in
@[simp]
theorem node_setCursor (side : Direction) (cursor : Cursor Address) :
    (state.setCursor side cursor).node = state.node := by
  cases side <;> rfl

omit [DecidableEq Address] in
@[simp]
theorem heap_setCursor (side : Direction) (cursor : Cursor Address) :
    (state.setCursor side cursor).heap = state.heap := by
  cases side <;> rfl

omit [DecidableEq Address] in
@[simp]
theorem cursor_setCursor_self (side : Direction) (cursor : Cursor Address) :
    (state.setCursor side cursor).cursor side = cursor := by
  cases side <;> rfl

omit [DecidableEq Address] in
@[simp]
theorem cursor_setCursor_other (side : Direction) (cursor : Cursor Address) :
    (state.setCursor side cursor).cursor side.other = state.cursor side.other := by
  cases side <;> rfl

omit [DecidableEq Address] in
theorem link_perm (chains : Direction → List (Frame Address)) (side way : Direction)
    (label : Address) (near far : BinaryTree Address) :
    (near.inorder ++ (labels (Function.update chains side (⟨side, label, far⟩ :: chains side) way) ++
      labels (Function.update chains side (⟨side, label, far⟩ :: chains side) way.other))).Perm
        ((join side label near far).inorder ++ (labels (chains side) ++ labels (chains side.other))) := by
  refine ((labels_perm _ side way).append_left _).trans ?_
  refine List.Perm.trans ?_ ((inorder_join_perm side label near far).append_right _).symm
  rw [Function.update_self, Function.update_of_ne (Direction.other_ne side), labels_cons]
  simp only [List.cons_append, List.append_assoc]
  exact List.perm_middle

/-- The root is left behind, with its subtree on the other side. -/
theorem Splits.link (splits : Splits memory scope state chains (join side label near far)) :
    ∃ after, state.link side = some after ∧
      Splits memory scope after
        (Function.update chains side (⟨side, label, far⟩ :: chains side)) near := by
  obtain ⟨entry, holdsNear, holdsFar⟩ := Layout.holds_join.mp splits.holds
  obtain ⟨notNear, notFar, notPaths⟩ := splits.not_mem
  have nodup := (List.nodup_append.mp (splits.distinct side)).2.1
  obtain ⟨closed, others⟩ := (splits.hung side).close nodup.of_append_left (some label)
  let hanged := state.hang side (some label)
  have whole : ∀ address ∈ (join side label near far).inorder,
      hanged.heap.entry address = state.heap.entry address :=
    fun address inside => others address (splits.disjoint inside side)
  have entryRoot : hanged.heap.entry label = state.heap.entry label :=
    others label (notPaths side)
  have perm := inorder_join_perm side label near far
  have inNear : ∀ address ∈ near.inorder, address ∈ (join side label near far).inorder :=
    fun address inside => perm.mem_iff.mpr (List.mem_cons_of_mem _ (List.mem_append_left _ inside))
  have inFar : ∀ address ∈ far.inorder, address ∈ (join side label near far).inorder :=
    fun address inside => perm.mem_iff.mpr (List.mem_cons_of_mem _ (List.mem_append_right _ inside))
  let after : SplayState Address := { hanged.setCursor side (.element label) with
    heap := { hanged.heap with sphRoot := hanged.heap.child side label } }
  refine ⟨after, ?_, ?_⟩
  · rw [SplayState.link, splits.root, Layout.pointer_join, Option.bind_eq_bind, Option.bind_some]
    simp only [heap_setCursor]
    rfl
  · constructor
    case root =>
      show (hanged.heap.entry label).child side = _
      rw [entryRoot, show state.heap.entry label = _ from entry, SplayEntry.child_entryOn]
    case holds =>
      refine (holds_parent holdsNear).frame fun address inside => whole address (inNear address ?_)
      rwa [addresses_splayLayout] at inside
    case hung =>
      intro way
      by_cases here : way = side
      · subst here
        rw [Function.update_self]
        refine ⟨cursor_setCursor_self .., rfl, ?_, ?_, ?_⟩
        · show (hanged.heap.entry label).child way.other = _
          rw [entryRoot, show state.heap.entry label = _ from entry, SplayEntry.child_other_entryOn]
        · refine (holds_parent holdsFar).frame fun address inside => whole address (inFar address ?_)
          rwa [addresses_splayLayout] at inside
        · show splayLayout.Around hanged.heap.entry ((hanged.setCursor way _).node.child way) _ _
          rw [node_setCursor]
          exact closed
      · obtain rfl := Direction.eq_other_of_ne here
        have apart := List.disjoint_of_nodup_append nodup
        have cursor : after.cursor side.other = state.cursor side.other :=
          (cursor_setCursor_other side _).trans (cursor_hang ..)
        have slot : after.node.child side.other = state.node.child side.other :=
          (congrArg (SplayEntry.child side.other) (node_setCursor ..)).trans
            (child_other_node_hang ..)
        rw [Function.update_of_ne here, cursor, slot]
        exact (splits.hung side.other).frame fun address inside =>
          others address fun member => apart member inside
    case distinct =>
      exact fun way => (link_perm chains side way label near far).nodup_iff.mpr (splits.distinct side)
    case covered =>
      exact fun way address inside =>
        splits.covered side ((link_perm chains side way label near far).mem_iff.mp inside)
    case same =>
      refine fun address outside => (others address fun member => outside ?_).trans
        (splits.same address outside)
      exact splits.covered side (List.mem_append_right _ (List.mem_append_left _ member))

/-- Closing both paths, one after the other. -/
theorem Hung.closeBoth
    (hung : ∀ side,
      Hung state.heap.entry (state.node.child side) (state.cursor side) side (chains side))
    (distinct : (labels (chains .right) ++ labels (chains .left)).Nodup)
    (pointer : Direction → Option Address) :
    let closed := (state.hang .right (pointer .right)).hang .left (pointer .left)
    (∀ way, splayLayout.Around closed.heap.entry (closed.node.child way) (chains way)
        (pointer way)) ∧
      ∀ address, (∀ way, address ∉ labels (chains way)) →
        closed.heap.entry address = state.heap.entry address := by
  have apart : (labels (chains .right)).Disjoint (labels (chains .left)) :=
    List.disjoint_of_nodup_append distinct
  let first := state.hang .right (pointer .right)
  obtain ⟨closedFirst, othersFirst⟩ := (hung .right).close distinct.of_append_left (pointer .right)
  have hungLeft : Hung first.heap.entry (first.node.child .left) (first.cursor .left) .left
      (chains .left) := by
    have slot : first.node.child .left = state.node.child .left := child_other_node_hang .right _
    rw [slot, cursor_hang]
    exact (hung .left).frame fun address inside =>
      othersFirst address fun member => apart member inside
  obtain ⟨closedSecond, othersSecond⟩ := hungLeft.close distinct.of_append_right (pointer .left)
  refine ⟨fun way => ?_, fun address outside => (othersSecond address (outside .left)).trans
    (othersFirst address (outside .right))⟩
  cases way with
  | left => exact closedSecond
  | right =>
    have slot : (first.hang .left (pointer .left)).node.child .right = first.node.child .right :=
      child_other_node_hang .left _
    rw [slot]
    refine closedFirst.frame fun address inside => othersSecond address ?_
    rw [beside_splayLayout] at inside
    exact apart inside

omit [DecidableEq Address] in
/-- Behind a closed path stands the subtree of the root that its pointer leads to. -/
theorem Splits.stands_child (splits : Splits memory scope state chains (.node label near far))
    {entry : Address → SplayEntry Address} {slot : Direction → Option Address}
    (kept : ∀ address, address ≠ label → (∀ way, address ∉ labels (chains way)) →
      entry address = state.heap.entry address)
    (closed : ∀ way, splayLayout.Around entry (slot way) (chains way)
      (splayLayout.pointer ((BinaryTree.node label near far).child way.other)))
    (whole : (wrap chains (.node label near far)).inorder.Nodup) (way : Direction) :
    splayLayout.Stands entry (slot way) []
      (plug (chains way) ((BinaryTree.node label near far).child way.other)) := by
  have asJoin : Splits memory scope state chains (join .left label near far) := splits
  obtain ⟨notNear, notFar, -⟩ := asJoin.not_mem
  obtain ⟨-, holdsNear, holdsFar⟩ := splits.holds
  refine Layout.stands_plug.mpr ⟨?_, closed way, ?_⟩
  · have holds : splayLayout.Holds state.heap.entry (some label)
        ((BinaryTree.node label near far).child way.other) := by
      cases way <;> assumption
    refine (holds_parent holds).frame fun address inside => ?_
    rw [addresses_splayLayout] at inside
    have below : address ∈ (BinaryTree.node label near far).inorder := by
      cases way with
      | left => exact List.mem_append_right _ (List.mem_cons_of_mem _ inside)
      | right => exact List.mem_append_left _ inside
    refine kept address ?_ fun way => splits.disjoint below way
    cases way with
    | left => exact ne_of_mem_of_not_mem inside notFar
    | right => exact ne_of_mem_of_not_mem inside notNear
  · rw [addresses_splayLayout]
    cases way with
    | left => exact whole.of_append_right.of_cons
    | right => exact whole.of_append_left

/-- Closing both paths makes the three trees one. -/
theorem Splits.assemble (splits : Splits memory scope state chains tree) (present : tree ≠ nil) :
    ∃ heap, state.assemble = some heap ∧ heap.TreeAt memory scope (wrap chains tree) := by
  obtain ⟨label, left, right, rfl⟩ : ∃ label left right, tree = .node label left right := by
    cases tree with
    | nil => exact absurd rfl present
    | node label left right => exact ⟨label, left, right, rfl⟩
  have asJoin : Splits memory scope state chains (join .left label left right) := splits
  obtain ⟨-, -, notPaths⟩ := asJoin.not_mem
  have entryRoot : state.heap.entry label =
      ⟨splayLayout.pointer left, splayLayout.pointer right⟩ := splits.holds.1
  have perm := inorder_wrap_perm chains present
  have whole : (wrap chains (.node label left right)).inorder.Nodup :=
    perm.nodup_iff.mpr (splits.distinct .left)
  -- the paths
  have nodup := (List.nodup_append.mp (splits.distinct .right)).2.1
  obtain ⟨closed, kept⟩ := Hung.closeBoth splits.hung nodup fun way =>
    splayLayout.pointer ((BinaryTree.node label left right).child way.other)
  let first := state.hang .right (splayLayout.pointer left)
  let second := first.hang .left (splayLayout.pointer right)
  -- the root
  let heap := (second.heap.setChild .left label (second.node.child .right)).setChild .right label
    (second.node.child .left)
  have others : ∀ address, address ≠ label → heap.entry address = second.heap.entry address := by
    intro address different
    rw [SplayHeap.entry_setChild_of_ne different, SplayHeap.entry_setChild_of_ne different]
  have stands := splits.stands_child
    (fun address different outside => (others address different).trans (kept address outside))
    (fun way => (closed way).frame fun address inside => others address <| by
      rw [beside_splayLayout] at inside
      exact ne_of_mem_of_not_mem inside (notPaths way)) whole
  have children : heap.entry label = ⟨second.node.child .right, second.node.child .left⟩ := by
    have two : ∀ (entry : SplayEntry Address) (left right : Option Address),
        (entry.setChild .left left).setChild .right right = ⟨left, right⟩ := fun _ _ _ => rfl
    rw [SplayHeap.entry_setChild_self, SplayHeap.entry_setChild_self, two]
  refine ⟨heap, ?_, ⟨⟨?_, ?_, ?_⟩, ?_, ?_⟩⟩
  · have below : state.heap.child .left label = splayLayout.pointer left := by
      rw [SplayHeap.child, entryRoot]
      rfl
    have sameRoot : first.heap.entry label = state.heap.entry label :=
      ((splits.hung .right).close nodup.of_append_left _).2 label (notPaths .right)
    have beyond : first.heap.child .right label = splayLayout.pointer right := by
      rw [SplayHeap.child, sameRoot, entryRoot]
      rfl
    rw [SplayState.assemble, splits.root, show splayLayout.pointer _ = some label from rfl,
      Option.bind_eq_bind, Option.bind_some, below]
    dsimp only
    rw [beyond]
    rfl
  · refine ⟨?_, holds_parent (stands .right).holds, holds_parent (stands .left).holds⟩
    rw [address_splayLayout, children]
    exact congrArg₂ SplayEntry.mk (stands .right).around (stands .left).around
  · show second.heap.sphRoot = _
    rw [sphRoot_hang, sphRoot_hang, splits.root]
    rfl
  · rwa [addresses_splayLayout]
  · exact fun address inside => splits.covered .left (perm.mem_iff.mp inside)
  · intro address outside
    refine (others address ?_).trans ((kept address fun way member => outside ?_).trans
      (splits.same address outside))
    · exact (ne_of_mem_of_not_mem
        (splits.mem_scope (List.mem_append_right _ List.mem_cons_self)) outside).symm
    · exact splits.covered way (List.mem_append_right _ (List.mem_append_left _ member))

/-! ### The loop -/

omit [DecidableEq Address] in
/-- Where a comparison tells to go on from an element. -/
def steer (comp : Address → Int) (elm : Address) : Option Direction :=
  if comp elm < 0 then some .left else if comp elm > 0 then some .right else none

variable {comp : Address → Int}

omit [DecidableEq Address] in
theorem goes_iff {elm : Address} : goes side (comp elm) = true ↔ steer comp elm = some side := by
  unfold steer goes
  cases side <;> grind

/-- A turn that leaves one element. -/
theorem Splits.descend_one (splits : Splits memory scope state chains (join side label near far))
    (present : near ≠ nil) (turned : ∀ lower ∈ near.root, steer comp lower ≠ some side) :
    state.descend side comp label = (state.link side).map .again := by
  obtain ⟨entry, -⟩ := Layout.holds_join.mp splits.holds
  have below : state.heap.child side label = splayLayout.pointer near := by
    rw [SplayHeap.child, show state.heap.entry label = _ from entry, SplayEntry.child_entryOn]
  cases near with
  | nil => exact absurd rfl present
  | node lower left right =>
    have stays : ¬goes side (comp lower) = true := fun again => turned lower rfl (goes_iff.mp again)
    rw [descend, below]
    exact if_neg stays

/-- A turn that ends the loop, at an element without a child where it goes on. -/
theorem Splits.descend_nil (splits : Splits memory scope state chains (join side label nil far)) :
    state.descend side comp label = some (.done state) := by
  obtain ⟨entry, -⟩ := Layout.holds_join.mp splits.holds
  have below : state.heap.child side label = none := by
    rw [SplayHeap.child, show state.heap.entry label = _ from entry, SplayEntry.child_entryOn]
    rfl
  rw [descend, below]

/-- A turn that goes on from the child as from the root turns the child up. -/
theorem Splits.descend_two
    (splits : Splits memory scope state chains (join side upper (join side lower near inner) far))
    (again : steer comp lower = some side) :
    ∃ heap, Splits memory scope { state with heap := heap } chains
        (join side lower near (join side upper inner far)) ∧
      state.descend side comp upper =
        if near = nil then some (.done { state with heap := heap })
        else (({ state with heap := heap } : SplayState Address).link side).map .again := by
  obtain ⟨entry, -⟩ := Layout.holds_join.mp splits.holds
  obtain ⟨heap, rotated, after⟩ := splits.rotate
  refine ⟨heap, after, ?_⟩
  have below : state.heap.child side upper = some lower := by
    rw [SplayHeap.child, show state.heap.entry upper = _ from entry, SplayEntry.child_entryOn,
      Layout.pointer_join]
    rfl
  obtain ⟨entry, -⟩ := Layout.holds_join.mp after.holds
  have child : heap.child side lower = splayLayout.pointer near := by
    rw [SplayHeap.child, show heap.entry lower = _ from entry, SplayEntry.child_entryOn]
  have root : heap.sphRoot = some lower := after.root.trans (Layout.pointer_join ..)
  rw [descend, below]
  refine (if_pos (goes_iff.mpr again)).trans ?_
  rw [rotated, Option.bind_eq_bind, Option.bind_some, root, Option.bind_eq_bind, Option.bind_some,
    child]
  by_cases empty : near = nil
  · rw [if_pos empty, if_pos (splayLayout.pointer_eq_none_iff.mpr empty)]
    rfl
  · rw [if_neg empty, if_neg (fun none => empty (splayLayout.pointer_eq_none_iff.mp none))]

/-- The loop takes the turns of the search and leaves its outcome between the two paths. -/
theorem spend_spec
    {body : SplayState Address → Option (Turn (SplayState Address) (SplayState Address))}
    (turn : ∀ state root, state.heap.sphRoot = some root → body state =
      match steer comp root with
      | some side => state.descend side comp root
      | none => some (.done state))
    {after : BinaryTree Address} {turns : Nat} (splays : Splays (steer comp) tree turns after)
    (splits : Splits memory scope state chains tree) (present : tree ≠ nil) (rest : Nat) :
    ∃ final paths bottom, spend body (turns + rest) state = some (final, rest) ∧
      Splits memory scope final paths bottom ∧ bottom ≠ nil ∧ wrap paths bottom = wrap chains after := by
  induction splays generalizing state chains with
  | empty => exact absurd rfl present
  | @here label left right ends =>
    refine ⟨state, chains, _, ?_, splits, present, rfl⟩
    rw [Nat.add_comm]
    refine spend_done ?_ rest
    rw [turn state label splits.root, ends]
  | @one side label near far after turns goes turned splays inductionHypothesis =>
    have called : body state = state.descend side comp label := by
      rw [turn state label (splits.root.trans (Layout.pointer_join ..)), goes]
    rw [Nat.add_right_comm]
    by_cases empty : near = nil
    · subst empty
      obtain ⟨rfl, rfl⟩ := splays_nil splays
      refine ⟨state, chains, _, ?_, splits, present, rfl⟩
      rw [Nat.zero_add]
      exact spend_done (called.trans splits.descend_nil) rest
    · obtain ⟨linked, link, splitsLinked⟩ := splits.link
      obtain ⟨final, paths, bottom, ended, splitsFinal, filled, wrapped⟩ :=
        inductionHypothesis splitsLinked empty
      refine ⟨final, paths, bottom, ?_, splitsFinal, filled, ?_⟩
      · refine (spend_again ?_ _).trans ended
        rw [called, splits.descend_one empty turned, link]
        rfl
      · rw [wrapped, wrap_link _ _ _ _ (splays.ne_nil empty)]
  | @two side upper lower near inner far after turns goes again splays inductionHypothesis =>
    have called : body state = state.descend side comp upper := by
      rw [turn state upper (splits.root.trans (Layout.pointer_join ..)), goes]
    obtain ⟨heap, splitsRotated, descended⟩ := splits.descend_two again
    rw [Nat.add_right_comm]
    by_cases empty : near = nil
    · subst empty
      obtain ⟨rfl, rfl⟩ := splays_nil splays
      refine ⟨_, chains, _, ?_, splitsRotated, join_ne_nil _ _ _ _, rfl⟩
      rw [Nat.zero_add]
      exact spend_done (called.trans (descended.trans (if_pos rfl))) rest
    · obtain ⟨linked, link, splitsLinked⟩ := splitsRotated.link
      obtain ⟨final, paths, bottom, ended, splitsFinal, filled, wrapped⟩ :=
        inductionHypothesis splitsLinked empty
      refine ⟨final, paths, bottom, ?_, splitsFinal, filled, ?_⟩
      · refine (spend_again ?_ _).trans ended
        rw [called, descended, if_neg empty, link]
        rfl
      · rw [wrapped, wrap_link _ _ _ _ (splays.ne_nil empty)]

omit [DecidableEq Address] in
theorem splits_start {heap : SplayHeap Address} (treeAt : heap.TreeAt memory scope tree) :
    Splits memory scope (start heap) (fun _ => []) tree := by
  have distinct : tree.inorder.Nodup := by
    rw [← addresses_splayLayout]
    exact treeAt.stands.distinct
  refine ⟨treeAt.stands.around, treeAt.stands.holds, fun side => ?_, fun _ => ?_, fun _ => ?_,
    treeAt.same⟩
  · cases side <;> rfl
  · exact (List.append_nil tree.inorder).symm ▸ distinct
  · exact (List.append_nil tree.inorder).symm ▸ treeAt.covered

end SplayState

namespace SplayHeap

variable {heap : SplayHeap Address} {memory : Address → SplayEntry Address} {scope : List Address}
  {tree after : BinaryTree Address} {turns : Nat}

/-- `SPLAY` takes the turns of the search for the element, and the tree is splayed. -/
theorem TreeAt.splay_spec {cmp : Address → Address → Int} {elm : Address}
    (treeAt : heap.TreeAt memory scope tree) (present : tree ≠ nil)
    (splays : Splays (SplayState.steer (cmp elm)) tree turns after) (rest : Nat) :
    ∃ splayed, heap.splay cmp (turns + rest) elm = some (splayed, rest) ∧
      splayed.TreeAt memory scope after := by
  have turn : ∀ (state : SplayState Address) root, state.heap.sphRoot = some root →
      SplayState.splayTurn cmp elm state =
        match SplayState.steer (cmp elm) root with
        | some side => state.descend side (cmp elm) root
        | none => some (.done state) := by
    intro state root pointed
    rw [SplayState.splayTurn, pointed, Option.bind_eq_bind, Option.bind_some, SplayState.steer]
    dsimp only
    split
    · rfl
    · split <;> rfl
  obtain ⟨final, paths, bottom, ended, splits, filled, wrapped⟩ :=
    SplayState.spend_spec turn splays (SplayState.splits_start treeAt) present rest
  obtain ⟨splayed, assembled, treeAt⟩ := splits.assemble filled
  rw [wrapped, wrap_empty] at treeAt
  refine ⟨splayed, ?_, treeAt⟩
  rw [splay, ended, Option.bind_eq_bind, Option.bind_some]
  dsimp only
  rw [assembled]
  rfl

/-- `SPLAY_MINMAX` takes the turns of the way to one side. -/
theorem TreeAt.splayMinmax_spec {comp : Int} (treeAt : heap.TreeAt memory scope tree)
    (nonzero : comp ≠ 0) (present : tree ≠ nil)
    (splays : Splays (SplayState.steer fun _ => comp) tree turns after) (rest : Nat) :
    ∃ splayed, heap.splayMinmax (turns + rest) comp = some (splayed, rest) ∧
      splayed.TreeAt memory scope after := by
  have turn : ∀ (state : SplayState Address) root, state.heap.sphRoot = some root →
      SplayState.minmaxTurn comp state =
        match SplayState.steer (fun _ => comp) root with
        | some side => state.descend side (fun _ => comp) root
        | none => some (.done state) := by
    intro state root pointed
    rw [SplayState.minmaxTurn, pointed, Option.bind_eq_bind, Option.bind_some, SplayState.steer]
    split
    · rfl
    · split
      · rfl
      · omega
  obtain ⟨final, paths, bottom, ended, splits, filled, wrapped⟩ :=
    SplayState.spend_spec turn splays (SplayState.splits_start treeAt) present rest
  obtain ⟨splayed, assembled, treeAt⟩ := splits.assemble filled
  rw [wrapped, wrap_empty] at treeAt
  refine ⟨splayed, ?_, treeAt⟩
  rw [splayMinmax, ended, Option.bind_eq_bind, Option.bind_some]
  dsimp only
  rw [assembled]
  rfl

end SplayHeap

end SelftestNet
