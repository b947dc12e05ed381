/-
This file is the library of paths in binary trees. A path leads from a subtree up to the
root and keeps what it passes: at every node the side it comes from, the label of the node
and the other subtree. Code that walks in a tree, or turns it around a node, works at the
lower end of a path, and what it does to the whole tree is seen from the two lists of labels
that the path has to its left and to its right. Sides are data, so that one statement covers
a node and its mirror image.
-/

import Mathlib.Data.List.Perm.Basic
import Mathlib.Data.Tree.Basic

namespace BinaryTree

/-! ### Sides -/

/-- A side of a node. -/
inductive Direction
  | left
  | right
deriving DecidableEq

/-- The other side. -/
def Direction.other : Direction → Direction
  | left => right
  | right => left

@[simp]
theorem Direction.other_other (side : Direction) : side.other.other = side := by
  cases side <;> rfl

theorem Direction.other_ne (side : Direction) : side.other ≠ side := by
  cases side <;> exact fun same => nomatch same

theorem Direction.eq_other_of_ne {side other : Direction} (different : side ≠ other) :
    side = other.other := by
  cases side <;> cases other <;> first | rfl | exact absurd rfl different

variable {Label : Type}

theorem node_ne_nil (label : Label) (left right : BinaryTree Label) : node label left right ≠ nil :=
  nofun

/-! ### Labels in order -/

/-- The labels from left to right. -/
def inorder : BinaryTree Label → List Label
  | nil => []
  | node label left right => left.inorder ++ label :: right.inorder

@[simp]
theorem inorder_nil : (nil : BinaryTree Label).inorder = [] := rfl

@[simp]
theorem inorder_node (label : Label) (left right : BinaryTree Label) :
    (node label left right).inorder = left.inorder ++ label :: right.inorder := rfl

theorem inorder_eq_nil_iff {tree : BinaryTree Label} : tree.inorder = [] ↔ tree = nil := by
  cases tree with
  | nil => exact iff_of_true rfl rfl
  | node label left right =>
    exact iff_of_false (List.append_ne_nil_of_right_ne_nil _ (List.cons_ne_nil _ _)) nofun

theorem length_inorder (tree : BinaryTree Label) : tree.inorder.length = tree.numNodes := by
  induction tree with
  | nil => rfl
  | node label left right leftHypothesis rightHypothesis =>
    rw [inorder_node, List.length_append, List.length_cons, leftHypothesis, rightHypothesis]
    rfl

/-- The node with one subtree on the given side and the other one on the other side. -/
def join (side : Direction) (label : Label) (near far : BinaryTree Label) : BinaryTree Label :=
  match side with
  | .left => node label near far
  | .right => node label far near

theorem join_other (side : Direction) (label : Label) (near far : BinaryTree Label) :
    join side.other label near far = join side label far near := by
  cases side <;> rfl

theorem join_ne_nil (side : Direction) (label : Label) (near far : BinaryTree Label) :
    join side label near far ≠ nil := by
  cases side <;> exact fun empty => nomatch empty

theorem exists_join (side : Direction) (label : Label) (left right : BinaryTree Label) :
    ∃ near far, node label left right = join side label near far := by
  cases side
  · exact ⟨left, right, rfl⟩
  · exact ⟨right, left, rfl⟩

/-- The labels of a node and of its two subtrees, in whatever order. -/
theorem inorder_join_perm (side : Direction) (label : Label) (near far : BinaryTree Label) :
    (join side label near far).inorder.Perm (label :: (near.inorder ++ far.inorder)) := by
  cases side with
  | left => exact List.perm_middle
  | right => exact List.perm_middle.trans (List.perm_append_comm.cons label)

theorem height_join (side : Direction) (label : Label) (near far : BinaryTree Label) :
    (join side label near far).height = max near.height far.height + 1 := by
  cases side with
  | left => rfl
  | right => exact congrArg Nat.succ (Nat.max_comm far.height near.height)

@[simp]
theorem numNodes_join (side : Direction) (label : Label) (near far : BinaryTree Label) :
    (join side label near far).numNodes = near.numNodes + far.numNodes + 1 := by
  cases side with
  | left => rfl
  | right => exact congrArg Nat.succ (Nat.add_comm far.numNodes near.numNodes)

/-- The subtree on a side. -/
def child : Direction → BinaryTree Label → BinaryTree Label
  | _, nil => nil
  | .left, node _ left _ => left
  | .right, node _ _ right => right

@[simp]
theorem child_join (side : Direction) (label : Label) (near far : BinaryTree Label) :
    (join side label near far).child side = near := by
  cases side <;> rfl

@[simp]
theorem child_other_join (side : Direction) (label : Label) (near far : BinaryTree Label) :
    (join side label near far).child side.other = far := by
  cases side <;> rfl

/-- The label of the root. -/
def root : BinaryTree Label → Option Label
  | nil => none
  | node label _ _ => some label

@[simp]
theorem root_join (side : Direction) (label : Label) (near far : BinaryTree Label) :
    (join side label near far).root = some label := by
  cases side <;> rfl

/-- Turning a tree around a node keeps the order of its labels. -/
theorem inorder_rotate (side : Direction) (upper lower : Label) (near inner far : BinaryTree Label) :
    (join side lower (join side upper near inner) far).inorder =
      (join side upper near (join side lower inner far)).inorder := by
  cases side <;> simp only [join, inorder_node, List.append_assoc, List.cons_append]

end BinaryTree

namespace TreePath

open BinaryTree

variable {Label : Type}

/-! ### Paths -/

/-- A node on a path: the side on which the path goes on below it, its label, and the subtree on
the other side. -/
structure Frame (Label : Type) where
  side : Direction
  label : Label
  sibling : BinaryTree Label

/-- The tree with the given subtree at the lower end of the path. -/
def plug : List (Frame Label) → BinaryTree Label → BinaryTree Label
  | [], tree => tree
  | frame :: rest, tree => plug rest (join frame.side frame.label tree frame.sibling)

/-- The labels to the left of the lower end. -/
def before : List (Frame Label) → List Label
  | [] => []
  | ⟨.left, _, _⟩ :: rest => before rest
  | ⟨.right, label, sibling⟩ :: rest => before rest ++ (sibling.inorder ++ [label])

/-- The labels to the right of the lower end. -/
def after : List (Frame Label) → List Label
  | [] => []
  | ⟨.left, label, sibling⟩ :: rest => label :: (sibling.inorder ++ after rest)
  | ⟨.right, _, _⟩ :: rest => after rest

/-- The labels of the path and of the subtrees beside it. -/
def labels (path : List (Frame Label)) : List Label :=
  path.flatMap fun frame => frame.label :: frame.sibling.inorder

@[simp]
theorem plug_nil (tree : BinaryTree Label) : plug [] tree = tree := rfl

@[simp]
theorem plug_cons (frame : Frame Label) (rest : List (Frame Label)) (tree : BinaryTree Label) :
    plug (frame :: rest) tree = plug rest (join frame.side frame.label tree frame.sibling) := rfl

theorem plug_append (lower upper : List (Frame Label)) (tree : BinaryTree Label) :
    plug (lower ++ upper) tree = plug upper (plug lower tree) := by
  induction lower generalizing tree with
  | nil => rfl
  | cons frame rest inductionHypothesis => exact inductionHypothesis _

theorem plug_ne_nil {path : List (Frame Label)} {tree : BinaryTree Label} (some : tree ≠ nil) :
    plug path tree ≠ nil := by
  induction path generalizing tree with
  | nil => exact some
  | cons frame rest inductionHypothesis => exact inductionHypothesis (join_ne_nil _ _ _ _)

theorem labels_cons (frame : Frame Label) (rest : List (Frame Label)) :
    labels (frame :: rest) = frame.label :: (frame.sibling.inorder ++ labels rest) := rfl

/-- The labels of the whole tree in order. -/
theorem inorder_plug (path : List (Frame Label)) (tree : BinaryTree Label) :
    (plug path tree).inorder = before path ++ (tree.inorder ++ after path) := by
  induction path generalizing tree with
  | nil => exact (List.append_nil _).symm
  | cons frame rest inductionHypothesis =>
    obtain ⟨_ | _, label, sibling⟩ := frame
    · rw [plug, inductionHypothesis, join, inorder_node, before, after, List.append_assoc,
        List.cons_append]
    · rw [plug, inductionHypothesis, join, inorder_node, before, after, List.append_assoc,
        List.append_assoc, List.append_assoc, List.cons_append, List.singleton_append]

/-- The labels of the whole tree, in whatever order. -/
theorem inorder_plug_perm (path : List (Frame Label)) (tree : BinaryTree Label) :
    (plug path tree).inorder.Perm (tree.inorder ++ labels path) := by
  induction path generalizing tree with
  | nil => rw [labels, List.flatMap_nil, List.append_nil, plug]
  | cons frame rest inductionHypothesis =>
    refine (inductionHypothesis _).trans ?_
    rw [labels_cons]
    refine ((inorder_join_perm _ _ _ _).append_right _).trans ?_
    rw [List.cons_append, List.append_assoc]
    exact List.perm_middle.symm

theorem length_le_height (path : List (Frame Label)) (tree : BinaryTree Label) :
    path.length + tree.height ≤ (plug path tree).height := by
  induction path generalizing tree with
  | nil => exact Nat.le_of_eq (Nat.zero_add _)
  | cons frame rest inductionHypothesis =>
    have below := inductionHypothesis (join frame.side frame.label tree frame.sibling)
    rw [height_join] at below
    rw [plug_cons, List.length_cons]
    omega

/-- Every label is at the lower end of a path. -/
theorem exists_plug_of_mem {label : Label} {tree : BinaryTree Label}
    (inside : label ∈ tree.inorder) :
    ∃ path left right, tree = plug path (node label left right) := by
  induction tree with
  | nil => cases inside
  | node here left right leftHypothesis rightHypothesis =>
    rcases List.mem_append.mp inside with below | below
    · obtain ⟨path, near, far, rfl⟩ := leftHypothesis below
      exact ⟨path ++ [⟨.left, here, right⟩], near, far, by rw [plug_append]; rfl⟩
    · rcases List.mem_cons.mp below with rfl | below
      · exact ⟨[], left, right, rfl⟩
      · obtain ⟨path, near, far, rfl⟩ := rightHypothesis below
        exact ⟨path ++ [⟨.right, here, left⟩], near, far, by rw [plug_append]; rfl⟩

/-! ### The ends of a tree -/

/-- The path runs along one side of the tree. -/
def Along (side : Direction) (path : List (Frame Label)) : Prop := ∀ frame ∈ path, frame.side = side

theorem before_of_along {path : List (Frame Label)} (along : Along .left path) :
    before path = [] := by
  induction path with
  | nil => rfl
  | cons frame rest inductionHypothesis =>
    have here := along frame List.mem_cons_self
    have above := inductionHypothesis fun other member => along other (List.mem_cons_of_mem _ member)
    obtain ⟨side, label, sibling⟩ := frame
    obtain rfl : side = .left := here
    exact above

/-- The first label of a tree, and the others. -/
theorem inorder_plug_of_along {path : List (Frame Label)} (along : Along .left path)
    (label : Label) (inner : BinaryTree Label) :
    (plug path (join .left label nil inner)).inorder = label :: (plug path inner).inorder := by
  rw [inorder_plug, inorder_plug, before_of_along along]
  rfl

end TreePath
