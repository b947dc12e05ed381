/-
This file is the library of red-black trees. A subtree is balanced for the color of its root
and its black height, and a path takes such a subtree when the whole tree is balanced with it
in place; a rule for each end of a path (`sound_cons`) moves between the two. Code that
repairs a tree has at any time one subtree that is not what its path takes, and the
constructors say what is missing. The height of a balanced tree is at most twice the logarithm
of its size.
-/

import Mathlib.Algebra.Group.Nat.Defs
import Mathlib.Data.Nat.Log
import SelftestNet.TreePath

namespace RedBlack

open BinaryTree TreePath

variable {Item : Type}

inductive Color
  | black
  | red
deriving DecidableEq

/-! ### Balanced subtrees -/

/-- A subtree whose root has the color, an empty one being black; no red node is below a red one,
and the given number of black nodes is on every way down. -/
inductive Balanced : Color → Nat → BinaryTree (Item × Color) → Prop
  | nil : Balanced .black 0 nil
  | red {height : Nat} {item : Item} {left right : BinaryTree (Item × Color)} :
    Balanced .black height left → Balanced .black height right →
      Balanced .red height (node (item, .red) left right)
  | black {height : Nat} {item : Item} {left right : BinaryTree (Item × Color)}
      {leftColor rightColor : Color} :
    Balanced leftColor height left → Balanced rightColor height right →
      Balanced .black (height + 1) (node (item, .black) left right)

variable {height : Nat} {color : Color} {item : Item} {side : Direction}
  {tree near far : BinaryTree (Item × Color)}

theorem balanced_red_join :
    Balanced color height (join side (item, .red) near far) ↔
      color = .red ∧ Balanced .black height near ∧ Balanced .black height far := by
  cases side with
  | left =>
    constructor
    · rintro (_ | ⟨holdsLeft, holdsRight⟩)
      exact ⟨rfl, holdsLeft, holdsRight⟩
    · rintro ⟨rfl, holdsLeft, holdsRight⟩
      exact .red holdsLeft holdsRight
  | right =>
    constructor
    · rintro (_ | ⟨holdsLeft, holdsRight⟩)
      exact ⟨rfl, holdsRight, holdsLeft⟩
    · rintro ⟨rfl, holdsRight, holdsLeft⟩
      exact .red holdsLeft holdsRight

theorem balanced_black_join :
    Balanced color height (join side (item, .black) near far) ↔
      color = .black ∧ ∃ below nearColor farColor, height = below + 1 ∧
        Balanced nearColor below near ∧ Balanced farColor below far := by
  cases side with
  | left =>
    constructor
    · rintro (_ | _ | ⟨holdsLeft, holdsRight⟩)
      exact ⟨rfl, _, _, _, rfl, holdsLeft, holdsRight⟩
    · rintro ⟨rfl, _, _, _, rfl, holdsLeft, holdsRight⟩
      exact .black holdsLeft holdsRight
  | right =>
    constructor
    · rintro (_ | _ | ⟨holdsLeft, holdsRight⟩)
      exact ⟨rfl, _, _, _, rfl, holdsRight, holdsLeft⟩
    · rintro ⟨rfl, _, _, _, rfl, holdsRight, holdsLeft⟩
      exact .black holdsLeft holdsRight

/-- A subtree with black nodes on every way down is not empty. -/
theorem Balanced.exists_join (balanced : Balanced color (height + 1) tree) (side : Direction) :
    ∃ label near far, tree = join side label near far := by
  cases balanced with
  | red holdsLeft holdsRight => exact ⟨_, BinaryTree.exists_join side _ _ _⟩
  | black holdsLeft holdsRight => exact ⟨_, BinaryTree.exists_join side _ _ _⟩

/-- A subtree with a red root is not empty. -/
theorem Balanced.exists_red_join (balanced : Balanced .red height tree) (side : Direction) :
    ∃ item near far, tree = join side (item, .red) near far := by
  cases balanced with
  | red holdsLeft holdsRight => exact ⟨_, BinaryTree.exists_join side _ _ _⟩

/-- A black subtree with black nodes on every way down has a black root. -/
theorem Balanced.exists_black_join (balanced : Balanced .black (height + 1) tree)
    (side : Direction) :
    ∃ item near far nearColor farColor, tree = join side (item, .black) near far ∧
      Balanced nearColor height near ∧ Balanced farColor height far := by
  cases balanced with
  | @black _ item left right _ _ holdsLeft holdsRight =>
    cases side with
    | left => exact ⟨item, left, right, _, _, rfl, holdsLeft, holdsRight⟩
    | right => exact ⟨item, right, left, _, _, rfl, holdsRight, holdsLeft⟩

/-! ### The height -/

theorem Balanced.height_le (balanced : Balanced color height tree) :
    tree.height ≤ 2 * height + if color = .red then 1 else 0 := by
  induction balanced with
  | nil => exact Nat.le_refl 0
  | red holdsLeft holdsRight leftHypothesis rightHypothesis =>
    rw [if_neg (by decide)] at leftHypothesis rightHypothesis
    rw [if_pos rfl, BinaryTree.height]
    omega
  | black holdsLeft holdsRight leftHypothesis rightHypothesis =>
    rw [if_neg (by decide), BinaryTree.height]
    split at leftHypothesis <;> split at rightHypothesis <;> omega

theorem Balanced.two_pow_le (balanced : Balanced color height tree) :
    2 ^ height ≤ tree.numNodes + 1 := by
  induction balanced with
  | nil => exact Nat.le_refl 1
  | red holdsLeft holdsRight leftHypothesis rightHypothesis =>
    rw [BinaryTree.numNodes]
    omega
  | black holdsLeft holdsRight leftHypothesis rightHypothesis =>
    rw [BinaryTree.numNodes, Nat.pow_succ]
    omega

/-- The height is at most twice the logarithm of the size. -/
theorem Balanced.height_le_log (balanced : Balanced .black height tree) :
    tree.height ≤ 2 * Nat.log 2 (tree.numNodes + 1) := by
  have logarithm : height ≤ Nat.log 2 (tree.numNodes + 1) :=
    Nat.le_log_of_pow_le Nat.one_lt_two balanced.two_pow_le
  have bound := balanced.height_le
  rw [if_neg (by decide)] at bound
  omega

/-! ### Paths -/

/-- The whole tree is balanced and black when a subtree with the color and the black height is at
the lower end of the path. -/
inductive Fits : Color → Nat → List (Frame (Item × Color)) → Prop
  | nil {height : Nat} : Fits .black height []
  | red {height : Nat} {side : Direction} {item : Item} {sibling : BinaryTree (Item × Color)}
      {rest : List (Frame (Item × Color))} :
    Balanced .black height sibling → Fits .red height rest →
      Fits .black height (⟨side, (item, .red), sibling⟩ :: rest)
  | black {height : Nat} {color siblingColor : Color} {side : Direction} {item : Item}
      {sibling : BinaryTree (Item × Color)} {rest : List (Frame (Item × Color))} :
    Balanced siblingColor height sibling → Fits .black (height + 1) rest →
      Fits color height (⟨side, (item, .black), sibling⟩ :: rest)

/-- A path that takes a red subtree takes a black one. -/
theorem Fits.weaken {path : List (Frame (Item × Color))} (fits : Fits .red height path) :
    Fits .black height path := by
  cases fits with
  | black beside above => exact .black beside above

/-- The subtree is balanced, and the path takes it. -/
def Sound (path : List (Frame (Item × Color))) (tree : BinaryTree (Item × Color)) : Prop :=
  ∃ color height, Balanced color height tree ∧ Fits color height path

theorem sound_nil : Sound [] tree ↔ ∃ height, Balanced .black height tree := by
  constructor
  · rintro ⟨color, height, balanced, _ | _⟩
    exact ⟨height, balanced⟩
  · rintro ⟨height, balanced⟩
    exact ⟨.black, height, balanced, .nil⟩

/-- Going down or up a path. -/
theorem sound_cons {frame : Frame (Item × Color)} {rest : List (Frame (Item × Color))} :
    Sound (frame :: rest) tree ↔
      Sound rest (join frame.side frame.label tree frame.sibling) := by
  obtain ⟨side, ⟨item, _ | _⟩, sibling⟩ := frame
  · constructor
    · rintro ⟨color, height, balanced, _ | _ | ⟨beside, above⟩⟩
      exact ⟨.black, height + 1,
        balanced_black_join.mpr ⟨rfl, height, _, _, rfl, balanced, beside⟩, above⟩
    · rintro ⟨color, height, balanced, above⟩
      obtain ⟨rfl, below, nearColor, farColor, rfl, near, far⟩ := balanced_black_join.mp balanced
      exact ⟨nearColor, below, near, .black far above⟩
  · constructor
    · rintro ⟨color, height, balanced, _ | ⟨beside, above⟩⟩
      exact ⟨.red, height, balanced_red_join.mpr ⟨rfl, balanced, beside⟩, above⟩
    · rintro ⟨color, height, balanced, above⟩
      obtain ⟨rfl, near, far⟩ := balanced_red_join.mp balanced
      exact ⟨.black, height, near, .red far above⟩

theorem sound_append {lower upper : List (Frame (Item × Color))} :
    Sound (lower ++ upper) tree ↔ Sound upper (plug lower tree) := by
  induction lower generalizing tree with
  | nil => exact Iff.rfl
  | cons frame rest inductionHypothesis =>
    rw [List.cons_append, sound_cons, inductionHypothesis, plug_cons]

/-- The whole tree is balanced and black. -/
theorem sound_plug {path : List (Frame (Item × Color))} :
    Sound [] (plug path tree) ↔ Sound path tree := by
  rw [← sound_append, List.append_nil]

/-! ### Blackening -/

/-- The tree with a black root. -/
def blacken : BinaryTree (Item × Color) → BinaryTree (Item × Color)
  | .nil => .nil
  | .node label left right => .node (label.1, .black) left right

theorem Balanced.blacken_of_red (balanced : Balanced .red height tree) :
    Balanced .black (height + 1) (blacken tree) := by
  cases balanced with
  | red holdsLeft holdsRight => exact .black holdsLeft holdsRight

theorem Balanced.blacken_of_black (balanced : Balanced .black height tree) :
    blacken tree = tree := by
  cases balanced with
  | nil => rfl
  | black holdsLeft holdsRight => rfl

/-! ### A missing black node -/

/-- A black node is missing in the subtree, unless the root is red and can be black instead. -/
inductive Short : Color → Nat → BinaryTree (Item × Color) → Prop
  | red {height : Nat} {item : Item} {left right : BinaryTree (Item × Color)} :
    Balanced .black (height + 1) (node (item, .black) left right) →
      Short .red height (node (item, .red) left right)
  | black {height : Nat} {tree : BinaryTree (Item × Color)} :
    Balanced .black height tree → Short .black height tree

theorem Balanced.short (balanced : Balanced color height tree) : Short color height tree := by
  cases color with
  | black => exact .black balanced
  | red =>
    cases balanced with
    | red holdsLeft holdsRight => exact .red (.black holdsLeft holdsRight)

/-- The subtree of a node whose only child is in its place, by the color of the node. -/
theorem sound_of_outer {path : List (Frame (Item × Color))} {nodeColor : Color}
    (sound : Sound path (join side (item, nodeColor) .nil far)) :
    (nodeColor = .red → Sound path far) ∧
      (nodeColor = .black → ∃ farColor height, Short farColor height far ∧
        Fits .black (height + 1) path) := by
  obtain ⟨color, height, balanced, fits⟩ := sound
  constructor
  · rintro rfl
    obtain ⟨rfl, -, farBalanced⟩ := balanced_red_join.mp balanced
    exact ⟨.black, height, farBalanced, fits.weaken⟩
  · rintro rfl
    obtain ⟨rfl, below, -, farColor, rfl, -, farBalanced⟩ := balanced_black_join.mp balanced
    exact ⟨farColor, below, farBalanced.short, fits⟩

/-- A black node that is missing on both sides of a node is missing in the subtree of the node. -/
theorem Fits.short {sibling : BinaryTree (Item × Color)} {rest : List (Frame (Item × Color))}
    {nodeColor nearColor farColor : Color}
    (fits : Fits .black (height + 1) (⟨side, (item, nodeColor), sibling⟩ :: rest))
    (holdsNear : Balanced nearColor height near) (holdsFar : Balanced farColor height far) :
    ∃ upper, Short nodeColor upper (join side (item, nodeColor) near far) ∧
      Fits .black (upper + 1) rest := by
  have balanced : Balanced .black (height + 1) (join side (item, .black) near far) :=
    balanced_black_join.mpr ⟨rfl, height, nearColor, farColor, rfl, holdsNear, holdsFar⟩
  cases fits with
  | red beside above =>
    refine ⟨height, ?_, above.weaken⟩
    cases side <;> exact .red balanced
  | black beside above => exact ⟨height + 1, .black balanced, above⟩

/-- The lowest node of a path in the place of another one with its color. -/
theorem Fits.swap {other : Item} {sibling : BinaryTree (Item × Color)}
    {rest : List (Frame (Item × Color))} {nodeColor : Color}
    (fits : Fits .black height (⟨side, (item, nodeColor), sibling⟩ :: rest))
    (balanced : Balanced .black height far) :
    Fits .black height (⟨side, (other, nodeColor), far⟩ :: rest) := by
  cases fits with
  | red beside above => exact .red balanced above
  | black beside above => exact .black balanced above

/-- Another item on a path. -/
theorem Fits.relabel {other : Item} {sibling : BinaryTree (Item × Color)}
    {lower upper : List (Frame (Item × Color))} {nodeColor : Color}
    (fits : Fits color height (lower ++ ⟨side, (item, nodeColor), sibling⟩ :: upper)) :
    Fits color height (lower ++ ⟨side, (other, nodeColor), sibling⟩ :: upper) := by
  induction lower generalizing color height with
  | nil =>
    cases fits with
    | red beside above => exact .red beside above
    | black beside above => exact .black beside above
  | cons frame rest inductionHypothesis =>
    cases fits with
    | red beside above => exact .red beside (inductionHypothesis above)
    | black beside above => exact .black beside (inductionHypothesis above)

theorem Sound.relabel {other : Item} {sibling : BinaryTree (Item × Color)}
    {lower upper : List (Frame (Item × Color))} {nodeColor : Color}
    (sound : Sound (lower ++ ⟨side, (item, nodeColor), sibling⟩ :: upper) tree) :
    Sound (lower ++ ⟨side, (other, nodeColor), sibling⟩ :: upper) tree := by
  obtain ⟨color, height, balanced, fits⟩ := sound
  exact ⟨color, height, balanced, fits.relabel⟩

end RedBlack
