/-
This file proves the functions that read a red-black tree: `RB_FIND`, which is the descent of
`RB_INSERT` without its end, `RB_NEXT`, `RB_MIN` and `RB_MAX`, and the loop of `RB_FOREACH` over
them. Each answers as the ordered set of the elements does.
-/

import SelftestNet.RbInsert

namespace SelftestNet

open BinaryTree LinkedTree Loop RedBlack TreePath

namespace RbHeap

variable {Address : Type} [DecidableEq Address] {heap : RbHeap Address}
  {memory : Address → RbEntry Address} {scope order : List Address}
  {path : List (Frame (Address × Color))} {tree : BinaryTree (Address × Color)}
  {Key : Type} [LinearOrder Key] {key : Address → Key} {cmp : Address → Address → Int}
  {set : OrderedSet key} {turns : Nat} {elm : Address}

/-! ### `RB_FIND` -/

omit [DecidableEq Address] in
/-- `RB_FIND` is the descent of `RB_INSERT`. -/
theorem find_eq (cmp : Address → Address → Int) (turns : Nat) (heap : RbHeap Address)
    (elm : Address) :
    heap.find cmp turns elm =
      (loop (descend cmp heap elm) turns ⟨heap.rbhRoot, none, 0⟩).map
        (Sum.elim some fun _ => none) := by
  refine loop_map Descent.tmp (Sum.elim some fun _ => none) ?_ turns ⟨heap.rbhRoot, none, 0⟩
  rintro ⟨tmp, parent, comp⟩
  cases tmp with
  | none => rfl
  | some tmp =>
    rw [findTurn, descend]
    dsimp only
    split
    · rfl
    · split <;> rfl

omit [DecidableEq Address] in
theorem find_spec (compares : Compares cmp key)
    (treeAt : heap.TreeAt memory scope set.elements [] tree) (elm : Address)
    (enough : tree.height < turns) : heap.find cmp turns elm = some (set.find (key elm)) := by
  obtain ⟨result, descended, arrived⟩ := descend_spec compares treeAt set.ascending elm enough
  rw [find_eq, descended, Option.map_some]
  cases result with
  | inl found =>
    obtain ⟨member, same⟩ := arrived
    obtain ⟨lower, upper, elements⟩ := List.append_of_mem (treeAt.inorder ▸ member)
    rw [← same, OrderedSet.find_of_cut elements]
    rfl
  | inr descent =>
    obtain ⟨path, rfl, -, -, -, cut, -⟩ := arrived
    have order : set.elements = (before path).map Prod.fst ++ (after path).map Prod.fst :=
      (treeAt_plug.mp treeAt).order_eq
    rw [OrderedSet.find, order, (cut_map.mpr cut).find_eq_none]
    rfl

/-! ### `RB_NEXT` -/

/-- The way up past the parents of which the element is the right child. -/
theorem TreeAt.ascend (treeAt : heap.TreeAt memory scope order path tree)
    (pointed : rbLayout.pointer tree = some elm) (enough : path.length < turns) :
    ∃ top, loop (ascendTurn heap) turns elm = some top ∧
      heap.parent top = ((after path).map Prod.fst).head? := by
  induction path generalizing tree elm turns with
  | nil =>
    obtain ⟨turns, rfl⟩ := Nat.exists_eq_add_of_le' enough
    have parent := treeAt.parent_of_pointer pointed
    refine ⟨elm, loop_done ?_ _, parent⟩
    rw [ascendTurn, parent]
    rfl
  | cons frame rest inductionHypothesis =>
    obtain ⟨turns, rfl⟩ := Nat.exists_eq_add_of_le' (Nat.one_le_of_lt enough)
    obtain ⟨side, label, sibling⟩ := frame
    have parent : heap.parent elm = some label.1 := treeAt.parent_of_pointer pointed
    have which := treeAt.child_eq_some_iff pointed .right
    cases side with
    | left =>
      refine ⟨elm, loop_done ?_ _, parent⟩
      rw [ascendTurn, parent]
      exact if_neg (nofun ∘ which.mp)
    | right =>
      obtain ⟨top, ended, above⟩ := inductionHypothesis (treeAt_cons.mp treeAt)
        (rbLayout.pointer_join _ _ _ _) (Nat.lt_of_succ_lt_succ enough)
      refine ⟨top, (loop_again ?_ _).trans ended, above⟩
      rw [ascendTurn, parent]
      exact if_pos (which.mpr rfl)

theorem next_spec (treeAt : heap.TreeAt memory scope set.elements [] tree)
    (member : elm ∈ set.elements) (enough : tree.height < turns) :
    heap.next turns elm = some (set.next (key elm)) := by
  obtain ⟨path, color, left, right, rfl, atElm⟩ := treeAt.exists_at member
  have short := length_le_height path (join .left (elm, color) left right)
  have bound : (plug path (join .left (elm, color) left right)).height < turns := enough
  rw [height_join] at short
  have rightChild : heap.child .right elm = rbLayout.pointer right := atElm.child_other_eq
  rw [OrderedSet.next_of_cut atElm.order_eq_node, next, rightChild]
  cases pointed : rbLayout.pointer right with
  | some start =>
    obtain ⟨lower, label, inner, rfl, along, ended⟩ :=
      atElm.atFar.outermost pointed (show right.height ≤ turns by omega) .left
    rw [Layout.addresses, inorder_plug_of_along along]
    exact congrArg (Option.map some) ended
  | none =>
    obtain rfl := rbLayout.pointer_eq_none_iff.mp pointed
    have parent : heap.parent elm = rbLayout.above path := atElm.parent_eq
    obtain ⟨top, ended, above⟩ := atElm.ascend (rbLayout.pointer_join _ _ _ _)
      (show path.length < turns by omega)
    have climbed : (loop heap.ascendTurn turns elm).map heap.parent =
        some ((after path).map Prod.fst).head? :=
      (congrArg (Option.map heap.parent) ended).trans (congrArg some above)
    cases path with
    | nil =>
      rw [parent]
      exact climbed
    | cons frame rest =>
      obtain ⟨side, label, sibling⟩ := frame
      have which := atElm.child_eq_some_iff (rbLayout.pointer_join _ _ _ _) .left
      rw [parent]
      cases side with
      | left => exact if_pos (decide_eq_true (which.mpr rfl))
      | right =>
        have below : ¬heap.child .left label.1 = some elm :=
          Direction.other_ne .left ∘ which.mp
        exact (if_neg (below ∘ of_decide_eq_true)).trans climbed

/-! ### `RB_MIN` and `RB_MAX` -/

/-- The end of a list on a side. -/
def endOf (side : Direction) (elements : List Address) : Option Address :=
  match side with
  | .left => elements.head?
  | .right => elements.getLast?

omit [DecidableEq Address] in
theorem endOf_join (side : Direction) (label : Address × Color)
    (near far : BinaryTree (Address × Color)) :
    endOf side (rbLayout.addresses (join side label near far)) =
      (endOf side (rbLayout.addresses near)).or (some label.1) := by
  cases side with
  | left =>
    rw [join, Layout.addresses_node]
    exact List.head?_append
  | right =>
    rw [join, Layout.addresses_node, endOf, endOf, List.getLast?_append, List.getLast?_cons]
    cases (rbLayout.addresses near).getLast? <;> rfl

omit [DecidableEq Address] in
theorem minmaxTurn_some {val : Int} {side : Direction} (which : val < 0 ↔ side = .left)
    (elm : Address) (parent : Option Address) :
    heap.minmaxTurn val (some elm, parent) = some (.again (heap.child side elm, some elm)) := by
  cases side with
  | left => exact if_pos (which.mpr rfl)
  | right => exact if_neg (nofun ∘ which.mp)

omit [DecidableEq Address] in
theorem TreeAt.minmax {val : Int} {side : Direction} (which : val < 0 ↔ side = .left)
    (parent : Option Address) (treeAt : heap.TreeAt memory scope order path tree)
    (enough : tree.height < turns) :
    loop (heap.minmaxTurn val) turns (rbLayout.pointer tree, parent) =
      some ((endOf side (rbLayout.addresses tree)).or parent) := by
  induction tree generalizing path turns parent with
  | nil =>
    obtain ⟨turns, rfl⟩ := Nat.exists_eq_add_of_le' (Nat.one_le_of_lt enough)
    cases side <;> rfl
  | node label left right leftHypothesis rightHypothesis =>
    obtain ⟨turns, rfl⟩ := Nat.exists_eq_add_of_le' (Nat.one_le_of_lt enough)
    have below := Nat.lt_of_succ_lt_succ enough
    have step : ∀ near far, (∀ {path turns} parent, heap.TreeAt memory scope order path near →
        near.height < turns → loop (heap.minmaxTurn val) turns (rbLayout.pointer near, parent) =
          some ((endOf side (rbLayout.addresses near)).or parent)) →
        heap.TreeAt memory scope order path (join side label near far) → near.height < turns →
        loop (heap.minmaxTurn val) (turns + 1) (some label.1, parent) =
          some ((endOf side (rbLayout.addresses (join side label near far))).or parent) := by
      intro near far hypothesis treeAt enough
      rw [loop_again (minmaxTurn_some which label.1 parent), treeAt.child_eq,
        hypothesis _ treeAt.atNear enough, endOf_join]
      cases endOf side (rbLayout.addresses near) <;> rfl
    cases side with
    | left =>
      exact step left right leftHypothesis treeAt
        (Nat.lt_of_le_of_lt (Nat.le_max_left _ _) below)
    | right =>
      exact step right left rightHypothesis treeAt
        (Nat.lt_of_le_of_lt (Nat.le_max_right _ _) below)

omit [DecidableEq Address] in
theorem min_spec (treeAt : heap.TreeAt memory scope set.elements [] tree)
    (enough : tree.height < turns) : heap.min turns = some set.least := by
  have first : (-1 : Int) < 0 ↔ Direction.left = .left := by decide
  have walked := TreeAt.minmax first none treeAt enough
  have elements : rbLayout.addresses tree = set.elements := treeAt.inorder
  rw [RbHeap.min, RbHeap.minmax, treeAt.rbhRoot_eq, plug_nil, walked, elements, Option.or_none]
  rfl

omit [DecidableEq Address] in
theorem max_spec (treeAt : heap.TreeAt memory scope set.elements [] tree)
    (enough : tree.height < turns) : heap.max turns = some set.greatest := by
  have last : (1 : Int) < 0 ↔ Direction.right = .left := by decide
  have walked := TreeAt.minmax last none treeAt enough
  have elements : rbLayout.addresses tree = set.elements := treeAt.inorder
  rw [RbHeap.max, RbHeap.minmax, treeAt.rbhRoot_eq, plug_nil, walked, elements, Option.or_none]
  rfl

/-! ### `RB_FOREACH` -/

/-- The loop goes through the rest of the elements in order. -/
theorem foreach_loop (treeAt : heap.TreeAt memory scope set.elements [] tree)
    (visited : List Address) {rest : List Address} (elements : set.elements = visited ++ rest)
    {count : Nat}
    (enough : rest.length < count) (walk : tree.height < turns) :
    loop (heap.foreachTurn turns) count (rest.head?, visited) = some set.elements := by
  induction rest generalizing visited count with
  | nil =>
    obtain ⟨count, rfl⟩ := Nat.exists_eq_add_of_le' (Nat.one_le_of_lt enough)
    rw [elements, List.append_nil]
    rfl
  | cons elm rest inductionHypothesis =>
    obtain ⟨count, rfl⟩ := Nat.exists_eq_add_of_le' (Nat.one_le_of_lt enough)
    have member : elm ∈ set.elements := elements ▸ List.mem_append_right _ List.mem_cons_self
    have next := next_spec treeAt member walk
    rw [OrderedSet.next_of_cut elements] at next
    refine (loop_again ?_ _).trans (inductionHypothesis (visited ++ [elm]) ?_
      (Nat.lt_of_succ_lt_succ enough))
    · exact congrArg (Option.map fun next => Turn.again (next, visited ++ [elm])) next
    · rw [elements, List.append_assoc, List.singleton_append]

/-- The loop gives every element to its body, once and in order. -/
theorem foreach_spec (treeAt : heap.TreeAt memory scope set.elements [] tree)
    (enough : set.elements.length < turns) : heap.foreach turns = some set.elements := by
  have walk : tree.height < turns := by
    have length : set.elements.length = tree.numNodes := by
      rw [← treeAt.inorder, Layout.addresses, List.length_map, length_inorder, plug_nil]
    exact Nat.lt_of_le_of_lt tree.height_le_numNodes (length ▸ enough)
  rw [RbHeap.foreach, min_spec treeAt walk]
  exact foreach_loop treeAt [] rfl enough walk

end RbHeap

end SelftestNet
