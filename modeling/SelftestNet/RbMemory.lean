/-
This file proves what the steps of the red-black trees do to a tree in memory: a rotation, a
change of a color, the insertion of a new element at an empty place, the removal of an element
with at most one child, and the replacement of an element by another. Each turns the tree that
is at the lower end of a path into another one, keeps the path, and leaves alone every entry
outside of the tree.
-/

import SelftestNet.LinkedTree
import SelftestNet.RbTree

namespace SelftestNet

open BinaryTree LinkedTree Loop RedBlack TreePath

variable {Address : Type}

/-! ### Entries of nodes -/

/-- The labels of red-black trees are elements with their colors. -/
def rbLayout : Layout (Address × Color) Address (RbEntry Address) where
  address := Prod.fst
  entry label left right parent := ⟨left, right, parent, label.2⟩

@[simp]
theorem address_rbLayout (label : Address × Color) : rbLayout.address label = label.1 := rfl

section

variable (side : Direction) (label : Address × Color) (near far parent pointer : Option Address)

@[simp]
theorem child_entryOn : (rbLayout.entryOn side label near far parent).child side = near := by
  cases side <;> rfl

@[simp]
theorem child_other_entryOn :
    (rbLayout.entryOn side label near far parent).child side.other = far := by
  cases side <;> rfl

@[simp]
theorem rbeParent_entryOn : (rbLayout.entryOn side label near far parent).rbeParent = parent := by
  cases side <;> rfl

@[simp]
theorem rbeColor_entryOn : (rbLayout.entryOn side label near far parent).rbeColor = label.2 := by
  cases side <;> rfl

@[simp]
theorem setChild_entryOn :
    (rbLayout.entryOn side label near far parent).setChild side pointer =
      rbLayout.entryOn side label pointer far parent := by
  cases side <;> rfl

@[simp]
theorem setChild_other_entryOn :
    (rbLayout.entryOn side label near far parent).setChild side.other pointer =
      rbLayout.entryOn side label near pointer parent := by
  cases side <;> rfl

@[simp]
theorem setParent_entryOn :
    (rbLayout.entryOn side label near far parent).setParent pointer =
      rbLayout.entryOn side label near far pointer := by
  cases side <;> rfl

@[simp]
theorem setColor_entryOn (color : Color) :
    (rbLayout.entryOn side label near far parent).setColor color =
      rbLayout.entryOn side (label.1, color) near far parent := by
  cases side <;> rfl

end

/-- The side on which an element is below its parent, as `replace` tells it. -/
def RbEntry.sideOf [DecidableEq Address] (entry : RbEntry Address) (elm : Address) : Direction :=
  if entry.child .left = some elm then .left else .right

namespace RbHeap

variable [DecidableEq Address] {heap next : RbHeap Address}

/-! ### Reading after a write -/

theorem replace_some (parent elm : Address) (pointer : Option Address) :
    heap.replace (some parent) elm pointer =
      heap.setChild ((heap.entry parent).sideOf elm) parent pointer := by
  unfold replace RbEntry.sideOf child
  dsimp only
  split <;> rfl

@[simp]
theorem rbhRoot_setEntry (elm : Address) (entry : RbEntry Address) :
    (heap.setEntry elm entry).rbhRoot = heap.rbhRoot := rfl

@[simp]
theorem entry_setEntry_self (elm : Address) (entry : RbEntry Address) :
    (heap.setEntry elm entry).entry elm = entry := Function.update_self ..

@[simp]
theorem entry_setEntry_of_ne {elm other : Address} (different : other ≠ elm)
    (entry : RbEntry Address) : (heap.setEntry elm entry).entry other = heap.entry other :=
  Function.update_of_ne different ..

@[simp]
theorem rbhRoot_setParentIf (elm parent : Option Address) :
    (heap.setParentIf elm parent).rbhRoot = heap.rbhRoot := by
  cases elm <;> rfl

@[simp]
theorem entry_setParentIf_of_ne {elm : Option Address} {other : Address}
    (different : elm ≠ some other) (parent : Option Address) :
    (heap.setParentIf elm parent).entry other = heap.entry other := by
  cases elm with
  | none => rfl
  | some elm => exact entry_setEntry_of_ne (fun same => different (congrArg some same.symm)) _

@[simp]
theorem entry_setParentIf_self (elm : Address) (parent : Option Address) :
    (heap.setParentIf (some elm) parent).entry elm = (heap.entry elm).setParent parent :=
  entry_setEntry_self elm _

@[simp]
theorem entry_replace_of_ne {parent : Option Address} {other : Address}
    (different : parent ≠ some other) (elm : Address) (pointer : Option Address) :
    (heap.replace parent elm pointer).entry other = heap.entry other := by
  cases parent with
  | none => rfl
  | some parent =>
    rw [replace_some]
    exact entry_setEntry_of_ne (fun same => different (congrArg some same.symm)) _

/-! ### Subtrees and paths after a write -/

/-- The head has the tree that a path and the tree at its lower end make up. -/
abbrev Stands (heap : RbHeap Address) (path : List (Frame (Address × Color)))
    (tree : BinaryTree (Address × Color)) : Prop :=
  rbLayout.Stands heap.entry heap.rbhRoot path tree

omit [DecidableEq Address] in
/-- A tree whose root has been given another parent. -/
theorem holds_reparent {tree : BinaryTree (Address × Color)} {memory other : Address → RbEntry Address}
    {parent above : Option Address} (holds : rbLayout.Holds memory parent tree)
    (distinct : (rbLayout.addresses tree).Nodup)
    (atRoot : ∀ elm, rbLayout.pointer tree = some elm →
      other elm = (memory elm).setParent above)
    (same : ∀ address ∈ rbLayout.addresses tree, rbLayout.pointer tree ≠ some address →
      other address = memory address) : rbLayout.Holds other above tree := by
  cases tree with
  | nil => trivial
  | node label left right =>
    obtain ⟨entry, holdsLeft, holdsRight⟩ := holds
    rw [show BinaryTree.node label left right = join .left label left right from rfl,
      Layout.nodup_addresses_join, List.nodup_cons, List.mem_append, not_or] at distinct
    have inside : ∀ address, (address = label.1 ∨ address ∈ rbLayout.addresses left ∨
        address ∈ rbLayout.addresses right) → address ∈ rbLayout.addresses (.node label left right) :=
      fun address => rbLayout.mem_addresses_node.mpr
    refine ⟨(atRoot _ rfl).trans (congrArg (RbEntry.setParent above) entry), ?_, ?_⟩
    · refine holdsLeft.frame fun address member =>
        same address (inside _ (Or.inr (Or.inl member))) ?_
      rintro ⟨⟩
      exact distinct.1.1 member
    · refine holdsRight.frame fun address member =>
        same address (inside _ (Or.inr (Or.inr member))) ?_
      rintro ⟨⟩
      exact distinct.1.2 member

omit [DecidableEq Address] in
/-- The lowest element of a path has been given another child in place of the subtree. -/
theorem around_setChild {frame : Frame (Address × Color)} {rest : List (Frame (Address × Color))}
    {pointer other : Option Address}
    (around : rbLayout.Around heap.entry heap.rbhRoot (frame :: rest) pointer)
    (distinct : (rbLayout.beside (frame :: rest)).Nodup) (root : next.rbhRoot = heap.rbhRoot)
    (changed : next.entry frame.label.1 = (heap.entry frame.label.1).setChild frame.side other)
    (same : ∀ address ∈ rbLayout.beside (frame :: rest), address ≠ frame.label.1 →
      next.entry address = heap.entry address) :
    rbLayout.Around next.entry next.rbhRoot (frame :: rest) other := by
  obtain ⟨entry, holds, above⟩ := around
  rw [Layout.beside_cons, List.nodup_cons, List.mem_append, not_or] at distinct
  have inside : ∀ address, (address = frame.label.1 ∨ address ∈ rbLayout.addresses frame.sibling ∨
      address ∈ rbLayout.beside rest) → address ∈ rbLayout.beside (frame :: rest) :=
    fun address => rbLayout.mem_beside_cons.mpr
  refine ⟨by rw [address_rbLayout, changed, ← address_rbLayout, entry, setChild_entryOn], ?_, ?_⟩
  · refine holds.frame fun address member => same address (inside _ (Or.inr (Or.inl member))) ?_
    rintro rfl
    exact distinct.1.1 member
  · rw [root]
    refine above.frame fun address member => same address (inside _ (Or.inr (Or.inr member))) ?_
    rintro rfl
    exact distinct.1.2 member

/-- Another element has been put in the place of one below its parent, or at the root. -/
structure Replaced (heap next : RbHeap Address) (parent : Option Address) (elm : Address)
    (pointer : Option Address) : Prop where
  atRoot : parent = none → next.rbhRoot = pointer
  atParent : ∀ above, parent = some above →
    next.rbhRoot = heap.rbhRoot ∧
      next.entry above = (heap.entry above).setChild ((heap.entry above).sideOf elm) pointer

theorem around_replace {path : List (Frame (Address × Color))} {elm : Address}
    {pointer : Option Address}
    (around : rbLayout.Around heap.entry heap.rbhRoot path (some elm))
    (outside : elm ∉ rbLayout.beside path) (distinct : (rbLayout.beside path).Nodup)
    (replaced : Replaced heap next (rbLayout.above path) elm pointer)
    (same : ∀ address ∈ rbLayout.beside path, rbLayout.above path ≠ some address →
      next.entry address = heap.entry address) :
    rbLayout.Around next.entry next.rbhRoot path pointer := by
  cases path with
  | nil => exact replaced.atRoot rfl
  | cons frame rest =>
    obtain ⟨root, changed⟩ := replaced.atParent _ rfl
    have side : (heap.entry frame.label.1).sideOf elm = frame.side := by
      unfold RbEntry.sideOf
      rw [← address_rbLayout, around.1]
      cases here : frame.side with
      | left => exact if_pos (child_entryOn .left _ _ _ _)
      | right =>
        refine if_neg fun same => outside (rbLayout.mem_beside_cons.mpr (Or.inr (Or.inl ?_)))
        exact rbLayout.mem_addresses_of_pointer
          ((child_other_entryOn .right _ _ _ _).symm.trans same)
    refine around_setChild around distinct root (side ▸ changed) fun address inside other =>
      same address inside ?_
    exact fun here => other (Option.some.inj here).symm

/-! ### A head with its tree -/

/-- The head has the tree that the path and the tree at its lower end make up, its elements are the
given ones in order, and the entries out of the scope are those of the memory. -/
structure TreeAt (heap : RbHeap Address) (memory : Address → RbEntry Address)
    (scope order : List Address) (path : List (Frame (Address × Color)))
    (tree : BinaryTree (Address × Color)) : Prop where
  stands : heap.Stands path tree
  inorder : rbLayout.addresses (plug path tree) = order
  covered : order ⊆ scope
  same : ∀ address ∉ scope, heap.entry address = memory address

variable {memory : Address → RbEntry Address} {scope order : List Address}
  {path : List (Frame (Address × Color))} {tree near far inner : BinaryTree (Address × Color)}
  {side : Direction} {label upper lower : Address × Color}

omit [DecidableEq Address] in
/-- Going down or up a path. -/
theorem treeAt_cons {sibling : BinaryTree (Address × Color)}
    {rest : List (Frame (Address × Color))} :
    heap.TreeAt memory scope order (⟨side, label, sibling⟩ :: rest) tree ↔
      heap.TreeAt memory scope order rest (join side label tree sibling) := by
  constructor
  · rintro ⟨stands, inorder, covered, same⟩
    exact ⟨Layout.stands_cons.mp stands, inorder, covered, same⟩
  · rintro ⟨stands, inorder, covered, same⟩
    exact ⟨Layout.stands_cons.mpr stands, inorder, covered, same⟩

omit [DecidableEq Address] in
theorem treeAt_append {lower upper : List (Frame (Address × Color))} :
    heap.TreeAt memory scope order (lower ++ upper) tree ↔
      heap.TreeAt memory scope order upper (plug lower tree) := by
  induction lower generalizing tree with
  | nil => exact Iff.rfl
  | cons frame rest inductionHypothesis =>
    rw [List.cons_append, treeAt_cons, inductionHypothesis, plug_cons]

omit [DecidableEq Address] in
theorem treeAt_plug :
    heap.TreeAt memory scope order [] (plug path tree) ↔
      heap.TreeAt memory scope order path tree := by
  rw [← treeAt_append, List.append_nil]

omit [DecidableEq Address] in
theorem TreeAt.asJoin {left right : BinaryTree (Address × Color)}
    (treeAt : heap.TreeAt memory scope order path (.node label left right)) :
    heap.TreeAt memory scope order path (join .left label left right) := treeAt

omit [DecidableEq Address] in
theorem TreeAt.order_eq (treeAt : heap.TreeAt memory scope order path tree) :
    order = (before path).map Prod.fst ++ (rbLayout.addresses tree ++ (after path).map Prod.fst) := by
  rw [← treeAt.inorder, Layout.addresses_plug]
  rfl

omit [DecidableEq Address] in
theorem TreeAt.atNear (treeAt : heap.TreeAt memory scope order path (join side label near far)) :
    heap.TreeAt memory scope order (⟨side, label, far⟩ :: path) near :=
  treeAt_cons.mpr treeAt

omit [DecidableEq Address] in
theorem TreeAt.atFar (treeAt : heap.TreeAt memory scope order path (join side label near far)) :
    heap.TreeAt memory scope order (⟨side.other, label, near⟩ :: path) far := by
  rw [treeAt_cons, join_other]
  exact treeAt

omit [DecidableEq Address] in
/-- What changes only the lower end of a path, and keeps the order of the elements there. -/
theorem TreeAt.step {other : BinaryTree (Address × Color)}
    (treeAt : heap.TreeAt memory scope order path tree)
    (inorder : rbLayout.addresses other = rbLayout.addresses tree)
    (holds : rbLayout.Holds next.entry (rbLayout.above path) other)
    (around : rbLayout.Around next.entry next.rbhRoot path (rbLayout.pointer other))
    (same : ∀ address ∉ rbLayout.addresses (plug path tree),
      next.entry address = heap.entry address) :
    next.TreeAt memory scope order path other := by
  have whole : rbLayout.addresses (plug path other) = rbLayout.addresses (plug path tree) :=
    rbLayout.addresses_plug_congr inorder
  refine ⟨⟨holds, around, whole ▸ treeAt.stands.distinct⟩, whole.trans treeAt.inorder,
    treeAt.covered, fun address outside => ?_⟩
  refine (same address fun inside => outside (treeAt.covered ?_)).trans (treeAt.same _ outside)
  rwa [treeAt.inorder] at inside

omit [DecidableEq Address] in
/-- The elements before and after one. -/
theorem TreeAt.order_eq_node {elm : Address} {color : Color} {left right : BinaryTree (Address × Color)}
    (treeAt : heap.TreeAt memory scope order path (join .left (elm, color) left right)) :
    order = ((before path).map Prod.fst ++ rbLayout.addresses left) ++
      elm :: (rbLayout.addresses right ++ (after path).map Prod.fst) := by
  rw [treeAt.order_eq, List.append_assoc]
  exact congrArg _ ((congrArg (· ++ _) (rbLayout.addresses_node _ _ _)).trans
    (List.append_assoc _ _ _))

omit [DecidableEq Address] in
/-- Every element of the tree is at the lower end of a path. -/
theorem TreeAt.exists_at {elm : Address} (treeAt : heap.TreeAt memory scope order [] tree)
    (member : elm ∈ order) :
    ∃ path color left right, tree = plug path (.node (elm, color) left right) ∧
      heap.TreeAt memory scope order path (join .left (elm, color) left right) := by
  rw [← treeAt.inorder] at member
  obtain ⟨⟨item, color⟩, inside, same⟩ := List.mem_map.mp member
  obtain rfl : item = elm := same
  obtain ⟨path, left, right, rfl⟩ := exists_plug_of_mem inside
  exact ⟨path, color, left, right, rfl, treeAt_plug.mp treeAt⟩

/-! ### Reading a node -/

section

variable (treeAt : heap.TreeAt memory scope order path (join side label near far))

include treeAt

omit [DecidableEq Address] in
theorem TreeAt.entry_eq :
    heap.entry label.1 = rbLayout.entryOn side label (rbLayout.pointer near)
      (rbLayout.pointer far) (rbLayout.above path) :=
  (Layout.holds_join.mp treeAt.stands.holds).1

omit [DecidableEq Address] in
theorem TreeAt.child_eq : heap.child side label.1 = rbLayout.pointer near := by
  rw [child, treeAt.entry_eq, child_entryOn]

omit [DecidableEq Address] in
theorem TreeAt.child_other_eq : heap.child side.other label.1 = rbLayout.pointer far := by
  rw [child, treeAt.entry_eq, child_other_entryOn]

omit [DecidableEq Address] in
theorem TreeAt.parent_eq : heap.parent label.1 = rbLayout.above path := by
  rw [parent, treeAt.entry_eq, rbeParent_entryOn]

omit [DecidableEq Address] in
theorem TreeAt.color_eq : heap.color label.1 = label.2 := by
  rw [color, treeAt.entry_eq, rbeColor_entryOn]

end

omit [DecidableEq Address] in
theorem TreeAt.parent_of_pointer {elm : Address}
    (treeAt : heap.TreeAt memory scope order path tree)
    (pointed : rbLayout.pointer tree = some elm) : heap.parent elm = rbLayout.above path := by
  cases tree with
  | nil => cases pointed
  | node label left right =>
    obtain rfl := Option.some.inj pointed
    exact treeAt.asJoin.parent_eq

omit [DecidableEq Address] in
/-- The code tells the side of a subtree below its parent by a comparison of pointers, which is
right unless both subtrees are empty. -/
theorem TreeAt.child_eq_iff {sibling : BinaryTree (Address × Color)}
    {rest : List (Frame (Address × Color))}
    (treeAt : heap.TreeAt memory scope order (⟨side, label, sibling⟩ :: rest) tree)
    (some : tree ≠ .nil ∨ sibling ≠ .nil) (which : Direction) :
    heap.child which label.1 = rbLayout.pointer tree ↔ side = which := by
  have whole := treeAt_cons.mp treeAt
  constructor
  · intro same
    by_contra different
    have opposite : which = side.other := by
      cases which <;> cases side <;> first | rfl | exact absurd rfl different
    rw [opposite, whole.child_other_eq] at same
    have distinct := whole.stands.nodup_join
    simp only [List.nodup_cons, List.nodup_append', List.mem_append, not_or, List.Disjoint]
      at distinct
    -- an element would be on both sides
    cases pointed : rbLayout.pointer tree with
    | none =>
      rw [pointed] at same
      exact some.elim (· (rbLayout.pointer_eq_none_iff.mp pointed))
        (· (rbLayout.pointer_eq_none_iff.mp same))
    | some elm =>
      exact distinct.2.2.2 (rbLayout.mem_addresses_of_pointer pointed)
        (Or.inl (rbLayout.mem_addresses_of_pointer (same.trans pointed)))
  · rintro rfl
    exact whole.child_eq

omit [DecidableEq Address] in
theorem TreeAt.child_eq_some_iff {sibling : BinaryTree (Address × Color)}
    {rest : List (Frame (Address × Color))} {elm : Address}
    (treeAt : heap.TreeAt memory scope order (⟨side, label, sibling⟩ :: rest) tree)
    (pointed : rbLayout.pointer tree = some elm) (which : Direction) :
    heap.child which label.1 = some elm ↔ side = which := by
  rw [← pointed]
  refine treeAt.child_eq_iff (Or.inl ?_) which
  rintro rfl
  cases pointed

omit [DecidableEq Address] in
theorem TreeAt.rbhRoot_eq (treeAt : heap.TreeAt memory scope order path tree) :
    heap.rbhRoot = rbLayout.pointer (plug path tree) := treeAt.stands.root_eq

omit [DecidableEq Address] in
/-- The pointer to a subtree below the root is not that to the root. -/
theorem TreeAt.pointer_ne_rbhRoot {frame : Frame (Address × Color)}
    {rest : List (Frame (Address × Color))}
    (treeAt : heap.TreeAt memory scope order (frame :: rest) tree) :
    rbLayout.pointer tree ≠ heap.rbhRoot := by
  obtain ⟨root, beside, pointed⟩ := rbLayout.exists_pointer_plug frame rest tree
  rw [treeAt.rbhRoot_eq, pointed]
  intro same
  exact (List.nodup_append'.mp treeAt.stands.nodup).2.2 (rbLayout.mem_addresses_of_pointer same)
    beside

omit [DecidableEq Address] in
theorem TreeAt.isRed_iff {color : Color} {height : Nat}
    (treeAt : heap.TreeAt memory scope order path tree) (balanced : Balanced color height tree) :
    heap.isRed (rbLayout.pointer tree) = true ↔ color = .red := by
  cases balanced with
  | nil => exact iff_of_false nofun nofun
  | red left right =>
    have red := treeAt.asJoin.color_eq
    exact iff_of_true (decide_eq_true red) rfl
  | black left right =>
    have black := treeAt.asJoin.color_eq
    refine iff_of_false (fun red => ?_) nofun
    cases black.symm.trans (of_decide_eq_true red)

omit [DecidableEq Address] in
theorem TreeAt.isBlack_iff {color : Color} {height : Nat}
    (treeAt : heap.TreeAt memory scope order path tree) (balanced : Balanced color height tree) :
    heap.isBlack (rbLayout.pointer tree) = true ↔ color = .black := by
  cases balanced with
  | nil => exact iff_of_true rfl rfl
  | red left right =>
    have red := treeAt.asJoin.color_eq
    refine iff_of_false (fun black => ?_) nofun
    cases red.symm.trans (of_decide_eq_true black)
  | black left right =>
    have black := treeAt.asJoin.color_eq
    exact iff_of_true (decide_eq_true black) rfl

/-! ### Colors -/

theorem TreeAt.setColor (treeAt : heap.TreeAt memory scope order path (join side label near far))
    (color : Color) :
    (heap.setColor label.1 color).TreeAt memory scope order path
      (join side (label.1, color) near far) := by
  obtain ⟨entry, holdsNear, holdsFar⟩ := Layout.holds_join.mp treeAt.stands.holds
  have distinct := treeAt.stands.nodup_join
  simp only [List.nodup_cons, List.mem_append, not_or, address_rbLayout] at distinct entry
  have same : ∀ address ≠ label.1,
      (heap.setColor label.1 color).entry address = heap.entry address :=
    fun address other => entry_setEntry_of_ne other _
  have inorder : rbLayout.addresses (join side (label.1, color) near far) =
      rbLayout.addresses (join side label near far) := by
    cases side <;> simp [Layout.addresses, join]
  refine treeAt.step inorder (Layout.holds_join.mpr ⟨?_, ?_, ?_⟩) ?_ ?_
  · rw [address_rbLayout, RbHeap.setColor, entry_setEntry_self, entry, setColor_entryOn]
  · exact holdsNear.frame fun address inside => same address (by grind)
  · exact holdsFar.frame fun address inside => same address (by grind)
  · have around := treeAt.stands.around
    rw [Layout.pointer_join] at around ⊢
    exact around.frame fun address inside => same address (by grind)
  · intro address outside
    refine same address fun here => outside ?_
    rw [here, Layout.mem_addresses_plug, Layout.mem_addresses_join]
    exact Or.inl (Or.inl rfl)

/-- Blackening the root of a subtree, if there is one. -/
theorem TreeAt.blacken (treeAt : heap.TreeAt memory scope order path tree) :
    (heap.setColorIf (rbLayout.pointer tree) .black).TreeAt memory scope order path
      (RedBlack.blacken tree) := by
  cases tree with
  | nil => exact treeAt
  | node label left right => exact treeAt.asJoin.setColor .black

/-! ### Rotations -/

/-- The entries after a rotation, from those of the two nodes. -/
theorem rotate_eq {near inner far parent : Option Address}
    (atUpper : heap.entry upper.1 = rbLayout.entryOn side upper near (some lower.1) parent)
    (atLower : heap.entry lower.1 = rbLayout.entryOn side lower inner far (some upper.1))
    (apart : upper.1 ≠ lower.1) (innerUpper : inner ≠ some upper.1)
    (innerLower : inner ≠ some lower.1) (parentUpper : parent ≠ some upper.1)
    (parentLower : parent ≠ some lower.1)
    (innerParent : ∀ address, inner = some address → parent ≠ some address) :
    ∃ next, heap.rotate side upper.1 = some next ∧
      next.entry upper.1 = rbLayout.entryOn side upper near inner (some lower.1) ∧
      next.entry lower.1 = rbLayout.entryOn side lower (some upper.1) far parent ∧
      (∀ elm, inner = some elm → next.entry elm = (heap.entry elm).setParent (some upper.1)) ∧
      Replaced heap next parent upper.1 (some lower.1) ∧
      ∀ elm, elm ≠ upper.1 → elm ≠ lower.1 → inner ≠ some elm → parent ≠ some elm →
        next.entry elm = heap.entry elm := by
  have tmp : heap.child side.other upper.1 = some lower.1 := by
    rw [child, atUpper, child_other_entryOn]
  have apart' := apart.symm
  rw [rotate, tmp]
  refine ⟨_, rfl, ?_, ?_, ?_, ⟨?_, ?_⟩, ?_⟩
  · simp (disch := assumption) [child, RbHeap.parent, setChild, setParent, atUpper, atLower]
  · simp (disch := assumption) [child, RbHeap.parent, setChild, setParent, atUpper, atLower]
  · rintro elm rfl
    have elmUpper : elm ≠ upper.1 := fun same => innerUpper (congrArg some same)
    have elmLower : elm ≠ lower.1 := fun same => innerLower (congrArg some same)
    have upperElm := elmUpper.symm
    have lowerElm := elmLower.symm
    have parentElm := innerParent elm rfl
    simp (disch := assumption) [child, setParentIf, RbHeap.parent, setChild, setParent, atUpper,
      atLower]
  · rintro rfl
    simp (disch := assumption) [child, replace, RbHeap.parent, setChild, setParent, atUpper,
      atLower]
  · rintro above rfl
    have aboveUpper : above ≠ upper.1 := fun same => parentUpper (congrArg some same)
    have aboveLower : above ≠ lower.1 := fun same => parentLower (congrArg some same)
    have innerAbove : inner ≠ some above := fun same => innerParent above same rfl
    constructor
    · simp (disch := assumption) [child, replace_some, RbHeap.parent, setChild, setParent, atUpper,
        atLower]
    · simp (disch := assumption) [child, replace_some, RbHeap.parent, setChild, setParent, atUpper,
        atLower]
  · intro elm elmUpper elmLower innerElm parentElm
    simp (disch := assumption) [child, RbHeap.parent, setChild, setParent, atUpper, atLower]

/-- A rotation moves the child of the other side up. -/
theorem TreeAt.rotate
    (treeAt : heap.TreeAt memory scope order path (join side upper near (join side lower inner far))) :
    ∃ next, heap.rotate side upper.1 = some next ∧
      next.TreeAt memory scope order path (join side lower (join side upper near inner) far) := by
  obtain ⟨atUpper, holdsNear, below⟩ := Layout.holds_join.mp treeAt.stands.holds
  obtain ⟨atLower, holdsInner, holdsFar⟩ := Layout.holds_join.mp below
  have around := treeAt.stands.around
  rw [Layout.pointer_join] at atUpper around
  have distinct := treeAt.stands.nodup_join
  have lowerDistinct := (List.nodup_append'.mp
    (List.nodup_append'.mp (List.nodup_cons.mp distinct).2).2.1).1
  rw [Layout.nodup_addresses_join] at lowerDistinct
  have inner_mem : ∀ elm, rbLayout.pointer inner = some elm → elm ∈ rbLayout.addresses inner :=
    fun elm => rbLayout.mem_addresses_of_pointer
  have above_mem : ∀ elm, rbLayout.above path = some elm → elm ∈ rbLayout.beside path :=
    fun elm => rbLayout.mem_beside_of_above
  simp only [List.nodup_cons, List.nodup_append', List.mem_append, not_or, List.Disjoint,
    Layout.mem_addresses_join, address_rbLayout] at distinct lowerDistinct atUpper atLower around
  -- the two nodes, the three subtrees and the path are apart
  have upperLower : upper.1 ≠ lower.1 := by grind
  have nearApart : ∀ elm ∈ rbLayout.addresses near, elm ≠ upper.1 ∧ elm ≠ lower.1 ∧
      elm ∉ rbLayout.addresses inner ∧ elm ∉ rbLayout.beside path := by grind
  have farApart : ∀ elm ∈ rbLayout.addresses far, elm ≠ upper.1 ∧ elm ≠ lower.1 ∧
      elm ∉ rbLayout.addresses inner ∧ elm ∉ rbLayout.beside path := by grind
  have innerApart : ∀ elm ∈ rbLayout.addresses inner, elm ≠ upper.1 ∧ elm ≠ lower.1 ∧
      elm ∉ rbLayout.beside path := by grind
  have pathApart : ∀ elm ∈ rbLayout.beside path, elm ≠ upper.1 ∧ elm ≠ lower.1 := by grind
  have innerNodup : (rbLayout.addresses inner).Nodup := by grind
  have pathNodup : (rbLayout.beside path).Nodup := by grind
  have innerUpper : rbLayout.pointer inner ≠ some upper.1 :=
    fun pointed => (innerApart _ (inner_mem _ pointed)).1 rfl
  have innerLower : rbLayout.pointer inner ≠ some lower.1 :=
    fun pointed => (innerApart _ (inner_mem _ pointed)).2.1 rfl
  have aboveUpper : rbLayout.above path ≠ some upper.1 :=
    fun above => (pathApart _ (above_mem _ above)).1 rfl
  have aboveLower : rbLayout.above path ≠ some lower.1 :=
    fun above => (pathApart _ (above_mem _ above)).2 rfl
  have innerAbove : ∀ elm, rbLayout.pointer inner = some elm → rbLayout.above path ≠ some elm :=
    fun elm pointed above => (innerApart elm (inner_mem elm pointed)).2.2 (above_mem elm above)
  obtain ⟨next, rotated, nextUpper, nextLower, nextInner, replaced, same⟩ :=
    rotate_eq atUpper atLower upperLower innerUpper innerLower aboveUpper aboveLower innerAbove
  have elsewhere : ∀ elm, elm ≠ upper.1 ∧ elm ≠ lower.1 ∧ elm ∉ rbLayout.addresses inner ∧
      elm ∉ rbLayout.beside path → next.entry elm = heap.entry elm :=
    fun elm ⟨notUpper, notLower, notInner, notBeside⟩ => same elm notUpper notLower
      (notInner ∘ inner_mem elm) (notBeside ∘ above_mem elm)
  refine ⟨next, rotated, treeAt.step ?_ (Layout.holds_join.mpr
    ⟨?_, Layout.holds_join.mpr ⟨nextUpper, ?_, ?_⟩, ?_⟩) ?_ ?_⟩
  · rw [Layout.addresses, inorder_rotate, Layout.addresses]
  · rw [Layout.pointer_join]
    exact nextLower
  · exact holdsNear.frame fun elm inside => elsewhere elm (nearApart elm inside)
  · refine holds_reparent holdsInner innerNodup nextInner fun elm inside other => ?_
    obtain ⟨notUpper, notLower, notBeside⟩ := innerApart elm inside
    exact same elm notUpper notLower other (notBeside ∘ above_mem elm)
  · exact holdsFar.frame fun elm inside => elsewhere elm (farApart elm inside)
  · rw [Layout.pointer_join]
    refine around_replace around (fun beside => (pathApart _ beside).1 rfl) pathNodup replaced
      fun elm inside other => ?_
    obtain ⟨notUpper, notLower⟩ := pathApart elm inside
    exact same elm notUpper notLower
      (fun pointed => (innerApart elm (inner_mem elm pointed)).2.2 inside) other
  · intro elm outside
    simp only [Layout.mem_addresses_plug, Layout.mem_addresses_join, address_rbLayout,
      not_or] at outside
    obtain ⟨⟨notUpper, -, notLower, notInner, -⟩, notBeside⟩ := outside
    exact elsewhere elm ⟨notUpper, notLower, notInner, notBeside⟩

/-! ### Insertion of an element -/

theorem entry_set_self (elm : Address) (parent : Option Address) :
    (heap.set elm parent).entry elm = ⟨none, none, parent, .red⟩ := by
  simp [set, setParent, RbHeap.setChild, RbHeap.setColor, RbEntry.setChild, RbEntry.setParent,
    RbEntry.setColor]

theorem entry_set_of_ne {elm other : Address} (different : other ≠ elm) (parent : Option Address) :
    (heap.set elm parent).entry other = heap.entry other := by
  simp [set, setParent, RbHeap.setChild, RbHeap.setColor, different]

/-- A new element at an empty place. -/
theorem TreeAt.attach {elm : Address} {comp : Int} (treeAt : heap.TreeAt memory scope order path .nil)
    (fresh : elm ∉ order) (inside : elm ∈ scope)
    (which : ∀ frame ∈ path.head?, comp < 0 ↔ frame.side = .left) :
    (heap.attach elm (rbLayout.above path) comp).TreeAt memory scope
      ((before path).map Prod.fst ++ elm :: (after path).map Prod.fst) path
      (.node (elm, .red) .nil .nil) := by
  have order_eq := treeAt.order_eq
  have apart : elm ∉ rbLayout.beside path := fun beside => fresh (by
    rw [← treeAt.inorder, Layout.mem_addresses_plug]
    exact Or.inr beside)
  have whole : rbLayout.addresses (plug path (.node (elm, .red) .nil .nil)) =
      (before path).map Prod.fst ++ elm :: (after path).map Prod.fst := by
    rw [Layout.addresses_plug, Layout.addresses_node]
    rfl
  have perm : ((before path).map Prod.fst ++ elm :: (after path).map Prod.fst).Perm
      (elm :: order) := by
    rw [order_eq]
    exact List.perm_middle
  -- what the lines do, by whether there is a parent
  obtain ⟨atElm, around, same⟩ :
      (heap.attach elm (rbLayout.above path) comp).entry elm =
          ⟨none, none, rbLayout.above path, .red⟩ ∧
        rbLayout.Around (heap.attach elm (rbLayout.above path) comp).entry
          (heap.attach elm (rbLayout.above path) comp).rbhRoot path (some elm) ∧
        ∀ address ∉ elm :: rbLayout.beside path,
          (heap.attach elm (rbLayout.above path) comp).entry address = heap.entry address := by
    cases path with
    | nil =>
      refine ⟨entry_set_self elm none, rfl, fun address outside => entry_set_of_ne ?_ none⟩
      exact (List.mem_cons.not.mp outside) ∘ Or.inl
    | cons frame rest =>
      have attached : heap.attach elm (rbLayout.above (frame :: rest)) comp =
          (heap.set elm (some frame.label.1)).setChild frame.side frame.label.1 (some elm) := by
        have which := which frame rfl
        unfold RbHeap.attach
        cases here : frame.side with
        | left => exact if_pos (which.mpr here)
        | right => exact if_neg fun neg => nomatch here ▸ which.mp neg
      have other : elm ≠ frame.label.1 := fun same => apart
        (rbLayout.mem_beside_cons.mpr (Or.inl same))
      rw [attached]
      have around := treeAt.stands.around
      refine ⟨?_, around_setChild around ?_ rfl ?_ ?_, ?_⟩
      · rw [RbHeap.setChild, entry_setEntry_of_ne other, entry_set_self]
        rfl
      · exact (List.nodup_append'.mp treeAt.stands.nodup).2.1
      · rw [RbHeap.setChild, entry_setEntry_self, entry_set_of_ne other.symm]
      · intro address beside different
        rw [RbHeap.setChild, entry_setEntry_of_ne different, entry_set_of_ne]
        exact fun here => apart (here ▸ beside)
      · intro address outside
        rw [List.mem_cons, not_or] at outside
        rw [RbHeap.setChild, entry_setEntry_of_ne, entry_set_of_ne outside.1]
        exact fun here => outside.2 (rbLayout.mem_beside_cons.mpr (Or.inl here))
  refine ⟨⟨⟨atElm, trivial, trivial⟩, around, ?_⟩, whole, ?_, fun address outside => ?_⟩
  · rw [whole, perm.nodup_iff, List.nodup_cons, ← treeAt.inorder]
    exact ⟨treeAt.inorder ▸ fresh, treeAt.stands.distinct⟩
  · intro address member
    rcases List.mem_cons.mp (perm.mem_iff.mp member) with rfl | old
    · exact inside
    · exact treeAt.covered old
  · refine (same address ?_).trans (treeAt.same address outside)
    intro member
    rcases List.mem_cons.mp member with rfl | beside
    · exact outside inside
    · refine outside (treeAt.covered ?_)
      rw [← treeAt.inorder, Layout.mem_addresses_plug]
      exact Or.inr beside

/-! ### Removal of an element -/

/-- What `replace` does, after writes elsewhere. -/
theorem replaced_of_replace {mid : RbHeap Address} {parent : Option Address} (elm : Address)
    (pointer : Option Address) (root : mid.rbhRoot = heap.rbhRoot)
    (same : ∀ above, parent = some above → mid.entry above = heap.entry above) :
    Replaced heap (mid.replace parent elm pointer) parent elm pointer := by
  constructor
  · rintro rfl
    rfl
  · rintro above rfl
    rw [replace_some, RbHeap.setChild, rbhRoot_setEntry, entry_setEntry_self, same above rfl]
    exact ⟨root, rfl⟩

/-- The only child of an element in its place. -/
theorem TreeAt.unlink (treeAt : heap.TreeAt memory scope order path (join side label .nil far)) :
    (heap.unlink label.1 (rbLayout.pointer far)).TreeAt memory scope
        (rbLayout.addresses (plug path far)) path far ∧
      (heap.unlink label.1 (rbLayout.pointer far)).entry label.1 = heap.entry label.1 := by
  obtain ⟨-, -, holdsFar⟩ := Layout.holds_join.mp treeAt.stands.holds
  have around := treeAt.stands.around
  have parent := treeAt.parent_eq
  have distinct := treeAt.stands.nodup_join
  have far_mem : ∀ elm, rbLayout.pointer far = some elm → elm ∈ rbLayout.addresses far :=
    fun elm => rbLayout.mem_addresses_of_pointer
  have above_mem : ∀ elm, rbLayout.above path = some elm → elm ∈ rbLayout.beside path :=
    fun elm => rbLayout.mem_beside_of_above
  rw [Layout.pointer_join] at around
  simp only [List.nodup_cons, List.nodup_append', List.mem_append, not_or, List.Disjoint,
    address_rbLayout] at distinct around
  unfold RbHeap.unlink
  dsimp only
  rw [parent]
  have same : ∀ elm, rbLayout.pointer far ≠ some elm → rbLayout.above path ≠ some elm →
      ((heap.setParentIf (rbLayout.pointer far) (rbLayout.above path)).replace
        (rbLayout.above path) label.1 (rbLayout.pointer far)).entry elm = heap.entry elm := by
    intro elm farElm aboveElm
    rw [entry_replace_of_ne aboveElm, entry_setParentIf_of_ne farElm]
  refine ⟨⟨⟨?_, ?_, ?_⟩, rfl, ?_, ?_⟩, same _ (by grind) (by grind)⟩
  · refine holds_reparent holdsFar (by grind) ?_ fun elm inside other =>
      same elm other (by grind)
    intro elm pointed
    rw [entry_replace_of_ne (by grind), pointed, entry_setParentIf_self]
  · refine around_replace around (by grind) (by grind) (replaced_of_replace _ _
      (rbhRoot_setParentIf _ _) fun above here => entry_setParentIf_of_ne (by grind) _) ?_
    exact fun elm inside other => same elm (by grind) other
  · rw [Layout.nodup_addresses_plug, List.nodup_append']
    exact distinct.2.2.1
  · intro elm inside
    refine treeAt.covered ?_
    rw [← treeAt.inorder, Layout.mem_addresses_plug, Layout.mem_addresses_join]
    rw [Layout.mem_addresses_plug] at inside
    exact inside.imp_left fun below => Or.inr (Or.inr below)
  · intro elm outside
    have unaffected : elm ∉ order := outside ∘ fun inside => treeAt.covered inside
    rw [← treeAt.inorder, Layout.mem_addresses_plug, Layout.mem_addresses_join] at unaffected
    refine (same elm ?_ ?_).trans (treeAt.same elm outside)
    · exact fun pointed => unaffected (Or.inl (Or.inr (Or.inr (far_mem elm pointed))))
    · exact fun pointed => unaffected (Or.inr (above_mem elm pointed))

/-- The entries after a substitution, from that of the old element. -/
theorem substitute_eq {old elm left : Address} {right parent : Option Address} {color : Color}
    (atOld : heap.entry old = ⟨some left, right, parent, color⟩) (apart : old ≠ elm)
    (leftOld : left ≠ old) (leftElm : left ≠ elm) (rightOld : right ≠ some old)
    (rightElm : right ≠ some elm) (rightLeft : right ≠ some left)
    (parentOld : parent ≠ some old) (parentElm : parent ≠ some elm)
    (parentLeft : parent ≠ some left)
    (rightParent : ∀ address, right = some address → parent ≠ some address) :
    ∃ next, heap.substitute old elm = some next ∧
      next.entry elm = ⟨some left, right, parent, color⟩ ∧
      next.entry left = (heap.entry left).setParent (some elm) ∧
      (∀ address, right = some address →
        next.entry address = (heap.entry address).setParent (some elm)) ∧
      Replaced heap next parent old (some elm) ∧
      ∀ address, address ≠ elm → address ≠ left → right ≠ some address →
        parent ≠ some address → next.entry address = heap.entry address := by
  have elmOld := apart.symm
  have oldLeft := leftOld.symm
  have elmLeft := leftElm.symm
  have parentHere : (heap.setEntry elm (heap.entry old)).parent old = parent := by
    simp (disch := assumption) [RbHeap.parent, atOld]
  have leftHere : ((heap.setEntry elm (heap.entry old)).replace parent old (some elm)).child .left
      old = some left := by
    simp (disch := assumption) [child, atOld, RbEntry.child]
  unfold RbHeap.substitute
  dsimp only
  rw [parentHere, leftHere]
  refine ⟨_, rfl, ?_, ?_, ?_, ⟨?_, ?_⟩, ?_⟩
  · simp (disch := assumption) [child, setParent, atOld, RbEntry.child]
  · simp (disch := assumption) [child, setParent, atOld, RbEntry.child]
  · rintro address rfl
    have addressElm : address ≠ elm := fun same => rightElm (congrArg some same)
    have addressLeft : address ≠ left := fun same => rightLeft (congrArg some same)
    have parentAddress := rightParent address rfl
    simp (disch := assumption) [child, setParent, atOld, RbEntry.child]
  · rintro rfl
    simp (disch := assumption) [child, replace, setParent, atOld, RbEntry.child]
  · rintro above rfl
    have aboveElm : above ≠ elm := fun same => parentElm (congrArg some same)
    have aboveLeft : above ≠ left := fun same => parentLeft (congrArg some same)
    have oldAbove : old ≠ above := fun same => parentOld (congrArg some same.symm)
    have rightAbove : right ≠ some above := fun same => rightParent above same rfl
    constructor
    · simp (disch := assumption) [child, replace_some, RbHeap.setChild, setParent, atOld,
        RbEntry.child]
    · simp (disch := assumption) [child, replace_some, RbHeap.setChild, setParent, atOld,
        RbEntry.child]
  · intro address addressElm addressLeft rightAddress parentAddress
    simp (disch := assumption) [child, setParent, atOld, RbEntry.child]

omit [DecidableEq Address] in
/-- The elements of a tree at a node: it, those below it and those beside the path. -/
theorem TreeAt.mem_order {label : Address × Color} {left right : BinaryTree (Address × Color)}
    (treeAt : heap.TreeAt memory scope order path (.node label left right)) (address : Address) :
    address ∈ order ↔ (address = label.1 ∨ address ∈ rbLayout.addresses left ∨
      address ∈ rbLayout.addresses right) ∨ address ∈ rbLayout.beside path := by
  rw [← treeAt.inorder, Layout.mem_addresses_plug]
  exact or_congr_left rbLayout.mem_addresses_node

omit [DecidableEq Address] in
/-- An element of the tree and one that is new to it, the two subtrees of the first and the path are
apart. -/
structure NodeApart (old elm : Address) (left right : BinaryTree (Address × Color))
    (path : List (Frame (Address × Color))) : Prop where
  ofElements : old ≠ elm
  ofLeft : ∀ address ∈ rbLayout.addresses left, address ≠ old ∧ address ≠ elm ∧
    address ∉ rbLayout.addresses right ∧ address ∉ rbLayout.beside path
  ofRight : ∀ address ∈ rbLayout.addresses right, address ≠ old ∧ address ≠ elm ∧
    address ∉ rbLayout.addresses left ∧ address ∉ rbLayout.beside path
  ofPath : ∀ address ∈ rbLayout.beside path, address ≠ old ∧ address ≠ elm
  leftNodup : (rbLayout.addresses left).Nodup
  rightNodup : (rbLayout.addresses right).Nodup
  pathNodup : (rbLayout.beside path).Nodup

omit [DecidableEq Address] in
theorem TreeAt.nodeApart {old elm : Address} {color : Color}
    {left right : BinaryTree (Address × Color)}
    (treeAt : heap.TreeAt memory scope order path (.node (old, color) left right))
    (fresh : elm ∉ order) : NodeApart old elm left right path := by
  have distinct := treeAt.stands.nodup_node
  rw [treeAt.mem_order] at fresh
  simp only [List.nodup_cons, List.nodup_append', List.mem_append, not_or, List.Disjoint,
    address_rbLayout] at distinct fresh
  constructor <;> grind

/-- Another element in the place of one with two children. -/
theorem TreeAt.substitute {old elm : Address} {color : Color}
    {left right : BinaryTree (Address × Color)}
    (treeAt : heap.TreeAt memory scope order path (.node (old, color) left right))
    (fresh : elm ∉ order) (inside : elm ∈ scope) (both : left ≠ .nil) :
    ∃ next, heap.substitute old elm = some next ∧
      next.TreeAt memory scope (rbLayout.addresses (plug path (.node (elm, color) left right)))
        path (.node (elm, color) left right) := by
  obtain ⟨atOld, holdsLeft, holdsRight⟩ := treeAt.stands.holds
  have around : rbLayout.Around heap.entry heap.rbhRoot path (some old) := treeAt.stands.around
  have covered := treeAt.covered
  have apart := treeAt.nodeApart fresh
  have right_mem : ∀ elm, rbLayout.pointer right = some elm → elm ∈ rbLayout.addresses right :=
    fun elm => rbLayout.mem_addresses_of_pointer
  have above_mem : ∀ elm, rbLayout.above path = some elm → elm ∈ rbLayout.beside path :=
    fun elm => rbLayout.mem_beside_of_above
  obtain ⟨first, pointed⟩ := Option.ne_none_iff_exists'.mp (both ∘ rbLayout.pointer_eq_none_iff.mp)
  have firstLeft : first ∈ rbLayout.addresses left := rbLayout.mem_addresses_of_pointer pointed
  simp only [address_rbLayout, pointed] at atOld holdsLeft holdsRight
  obtain ⟨firstOld, firstElm, firstRight, firstPath⟩ := apart.ofLeft first firstLeft
  have rightOld : rbLayout.pointer right ≠ some old :=
    fun here => (apart.ofRight _ (right_mem _ here)).1 rfl
  have rightElm : rbLayout.pointer right ≠ some elm :=
    fun here => (apart.ofRight _ (right_mem _ here)).2.1 rfl
  have aboveOld : rbLayout.above path ≠ some old :=
    fun above => (apart.ofPath _ (above_mem _ above)).1 rfl
  have aboveElm : rbLayout.above path ≠ some elm :=
    fun above => (apart.ofPath _ (above_mem _ above)).2 rfl
  have rightAbove : ∀ address, rbLayout.pointer right = some address →
      rbLayout.above path ≠ some address := fun address here above =>
    (apart.ofRight address (right_mem address here)).2.2.2 (above_mem address above)
  obtain ⟨next, substituted, atElm, nextLeft, nextRight, replaced, same⟩ :=
    substitute_eq atOld apart.ofElements firstOld firstElm rightOld rightElm
      (firstRight ∘ right_mem first) aboveOld aboveElm (firstPath ∘ above_mem first) rightAbove
  refine ⟨next, substituted, ⟨⟨⟨?_, ?_, ?_⟩, ?_, ?_⟩, rfl, ?_, ?_⟩⟩
  · rw [pointed]
    exact atElm
  · refine holds_reparent holdsLeft apart.leftNodup ?_ fun address member other => ?_
    · intro address here
      obtain rfl := Option.some.inj (pointed.symm.trans here)
      exact nextLeft
    · obtain ⟨-, notElm, notRight, notPath⟩ := apart.ofLeft address member
      have notFirst : address ≠ first := fun here => other (here ▸ pointed)
      exact same address notElm notFirst (notRight ∘ right_mem address)
        (notPath ∘ above_mem address)
  · refine holds_reparent holdsRight apart.rightNodup nextRight fun address member other => ?_
    obtain ⟨-, notElm, notLeft, notPath⟩ := apart.ofRight address member
    exact same address notElm (ne_of_mem_of_not_mem firstLeft notLeft).symm other
      (notPath ∘ above_mem address)
  · refine around_replace around (fun beside => (apart.ofPath _ beside).1 rfl) apart.pathNodup
      replaced fun address member other => ?_
    obtain ⟨notOld, notElm⟩ := apart.ofPath address member
    have notFirst : address ≠ first := fun here => firstPath (here ▸ member)
    exact same address notElm notFirst
      (fun here => (apart.ofRight address (right_mem address here)).2.2.2 member) other
  · rw [Layout.nodup_addresses_plug, List.nodup_append',
      show BinaryTree.node (elm, color) left right = join .left (elm, color) left right from rfl,
      Layout.nodup_addresses_join]
    simp only [List.nodup_cons, List.nodup_append', List.mem_append, not_or, List.Disjoint,
      Layout.mem_addresses_join, address_rbLayout]
    obtain ⟨-, ofLeft, ofRight, ofPath, leftNodup, rightNodup, pathNodup⟩ := apart
    grind
  · intro address member
    rw [Layout.mem_addresses_plug,
      show BinaryTree.node (elm, color) left right = join .left (elm, color) left right from rfl,
      Layout.mem_addresses_join, address_rbLayout] at member
    have old : address ∈ order → address ∈ scope := fun member => covered member
    rw [treeAt.mem_order] at old
    grind
  · intro address outside
    have unaffected : address ∉ order := outside ∘ fun member => covered member
    have other : address ≠ elm := fun here => outside (here ▸ inside)
    rw [treeAt.mem_order, not_or, not_or, not_or] at unaffected
    obtain ⟨⟨-, notLeft, notRight⟩, notPath⟩ := unaffected
    exact (same address other (ne_of_mem_of_not_mem firstLeft notLeft).symm
      (notRight ∘ right_mem address) (notPath ∘ above_mem address)).trans
        (treeAt.same address outside)

/-! ### Walking along a path -/

omit [DecidableEq Address] in
/-- The loops that go on to the last child on a side end at the outermost element. -/
theorem TreeAt.outermost {start : Address} {turns : Nat}
    (treeAt : heap.TreeAt memory scope order path tree)
    (pointed : rbLayout.pointer tree = some start) (enough : tree.height ≤ turns)
    (side : Direction) :
    ∃ lower label inner, tree = plug lower (join side label .nil inner) ∧ Along side lower ∧
      loop (outermostTurn side heap) turns start = some label.1 := by
  induction tree generalizing path start turns with
  | nil => cases pointed
  | node label left right leftHypothesis rightHypothesis =>
    have step : ∀ near far, (∀ {path start turns}, heap.TreeAt memory scope order path near →
        rbLayout.pointer near = some start → near.height ≤ turns →
        ∃ lower label inner, near = plug lower (join side label .nil inner) ∧ Along side lower ∧
          loop (outermostTurn side heap) turns start = some label.1) →
        heap.TreeAt memory scope order path (join side label near far) → near.height + 1 ≤ turns →
        ∃ lower outer inner, join side label near far = plug lower (join side outer .nil inner) ∧
          Along side lower ∧ loop (outermostTurn side heap) turns label.1 = some outer.1 := by
      intro near far hypothesis treeAt enough
      obtain ⟨turns, rfl⟩ := Nat.exists_eq_add_of_le' enough
      have child := treeAt.child_eq
      cases below : rbLayout.pointer near with
      | none =>
        obtain rfl := rbLayout.pointer_eq_none_iff.mp below
        refine ⟨[], label, far, rfl, (fun frame member => nomatch member), loop_done ?_ _⟩
        rw [outermostTurn, child, below]
      | some start =>
        obtain ⟨lower, outer, inner, rfl, along, ended⟩ :=
          hypothesis treeAt.atNear below (Nat.le_add_left _ turns)
        refine ⟨lower ++ [⟨side, label, far⟩], outer, inner,
          by rw [plug_append, plug_cons, plug_nil], ?_, ?_⟩
        · intro frame member
          rcases List.mem_append.mp member with inside | here
          · exact along frame inside
          · rw [List.mem_singleton.mp here]
        · refine (loop_again ?_ _).trans ended
          rw [outermostTurn, child, below]
    obtain rfl := Option.some.inj pointed
    cases side with
    | left =>
      exact step left right leftHypothesis treeAt
        ((Nat.succ_le_succ (Nat.le_max_left _ _)).trans enough)
    | right =>
      exact step right left rightHypothesis treeAt
        ((Nat.succ_le_succ (Nat.le_max_right _ _)).trans enough)

omit [DecidableEq Address] in
/-- The loop over the ancestors ends at the root. -/
theorem TreeAt.augment {start : Address} {turns : Nat}
    (treeAt : heap.TreeAt memory scope order path tree)
    (above : rbLayout.above path = some start) (enough : path.length ≤ turns) :
    loop (augmentTurn heap) turns start = some () := by
  induction path generalizing tree start turns with
  | nil => cases above
  | cons frame rest inductionHypothesis =>
    obtain ⟨side, label, sibling⟩ := frame
    obtain rfl := Option.some.inj above
    obtain ⟨turns, rfl⟩ := Nat.exists_eq_add_of_le' enough
    have atParent := treeAt_cons.mp treeAt
    have parent := atParent.parent_eq
    cases upper : rbLayout.above rest with
    | none =>
      refine loop_done ?_ _
      rw [augmentTurn, address_rbLayout, parent, upper]
    | some next =>
      refine (loop_again ?_ _).trans (inductionHypothesis atParent upper (Nat.le_add_left _ turns))
      rw [augmentTurn, address_rbLayout, parent, upper]

omit [DecidableEq Address] in
theorem TreeAt.augmentUp {turns : Nat} (treeAt : heap.TreeAt memory scope order path tree)
    (enough : path.length ≤ turns) : heap.augmentUp turns (rbLayout.above path) = some () := by
  cases above : rbLayout.above path with
  | none => rfl
  | some start => exact treeAt.augment above enough

end RbHeap

end SelftestNet
