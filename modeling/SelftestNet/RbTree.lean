/-
This file models the red-black trees of `tree.h`: the macros and functions as they are, on
entries that are linked in both directions. What the macros do with a null pointer that they
take for a valid one is undefined. The code has every case twice, once for each side; here a
side is an argument, and `RB_ROTATE_LEFT` and the two halves of the loops are the values at
`left`. Then it proves what a rotation, and what the replacement of a child, do to a tree in
memory.
-/

import SelftestNet.LinkedTree
import SelftestNet.Loop
import SelftestNet.RedBlack

namespace SelftestNet

open BinaryTree LinkedTree Loop RedBlack TreePath

/-! ### Entries -/

/-- `RB_ENTRY`; the colors are `RB_BLACK` and `RB_RED`. -/
structure RbEntry (Address : Type) where
  rbeLeft : Option Address
  rbeRight : Option Address
  rbeParent : Option Address
  rbeColor : Color

namespace RbEntry

variable {Address : Type}

/-- The child on a side. -/
def child (side : Direction) (entry : RbEntry Address) : Option Address :=
  match side with
  | .left => entry.rbeLeft
  | .right => entry.rbeRight

/-- The entry with another child on a side. -/
def setChild (side : Direction) (pointer : Option Address) (entry : RbEntry Address) :
    RbEntry Address :=
  match side with
  | .left => { entry with rbeLeft := pointer }
  | .right => { entry with rbeRight := pointer }

/-- The entry with another parent. -/
def setParent (pointer : Option Address) (entry : RbEntry Address) : RbEntry Address :=
  { entry with rbeParent := pointer }

/-- The entry with another color. -/
def setColor (color : Color) (entry : RbEntry Address) : RbEntry Address :=
  { entry with rbeColor := color }

end RbEntry

/-- `RB_HEAD`, and the entries of the elements in memory. -/
structure RbHeap (Address : Type) where
  rbhRoot : Option Address
  entry : Address → RbEntry Address

namespace RbHeap

variable {Address : Type} [DecidableEq Address]

/-! ### The macros -/

omit [DecidableEq Address] in
/-- `RB_INIT`. -/
def init (heap : RbHeap Address) : RbHeap Address := { heap with rbhRoot := none }

/-- `RB_LEFT` and `RB_RIGHT`. -/
def child (side : Direction) (heap : RbHeap Address) (elm : Address) : Option Address :=
  (heap.entry elm).child side

/-- `RB_PARENT`. -/
def parent (heap : RbHeap Address) (elm : Address) : Option Address := (heap.entry elm).rbeParent

/-- `RB_COLOR`. -/
def color (heap : RbHeap Address) (elm : Address) : Color := (heap.entry elm).rbeColor

/-- Write the entry of an element. -/
def setEntry (heap : RbHeap Address) (elm : Address) (entry : RbEntry Address) : RbHeap Address :=
  { heap with entry := Function.update heap.entry elm entry }

/-- Write `RB_LEFT` or `RB_RIGHT`. -/
def setChild (side : Direction) (heap : RbHeap Address) (elm : Address)
    (pointer : Option Address) : RbHeap Address :=
  heap.setEntry elm ((heap.entry elm).setChild side pointer)

/-- Write `RB_PARENT`. -/
def setParent (heap : RbHeap Address) (elm : Address) (pointer : Option Address) :
    RbHeap Address :=
  heap.setEntry elm ((heap.entry elm).setParent pointer)

/-- Write `RB_COLOR`. -/
def setColor (heap : RbHeap Address) (elm : Address) (color : Color) : RbHeap Address :=
  heap.setEntry elm ((heap.entry elm).setColor color)

/-- Write `RB_PARENT` if there is an element. -/
def setParentIf (heap : RbHeap Address) (elm : Option Address) (pointer : Option Address) :
    RbHeap Address :=
  match elm with
  | some elm => heap.setParent elm pointer
  | none => heap

/-- Write `RB_COLOR` if there is an element. -/
def setColorIf (heap : RbHeap Address) (elm : Option Address) (color : Color) : RbHeap Address :=
  match elm with
  | some elm => heap.setColor elm color
  | none => heap

/-- There is an element, and it is red. -/
def isRed (heap : RbHeap Address) (elm : Option Address) : Bool :=
  elm.any fun elm => heap.color elm = .red

/-- There is no element, or it is black. -/
def isBlack (heap : RbHeap Address) (elm : Option Address) : Bool :=
  elm.all fun elm => heap.color elm = .black

/-- `RB_SET`. -/
def set (heap : RbHeap Address) (elm : Address) (parent : Option Address) : RbHeap Address :=
  (((heap.setParent elm parent).setChild .right elm none).setChild .left elm none).setColor elm .red

/-- `RB_SET_BLACKRED`. -/
def setBlackred (heap : RbHeap Address) (black red : Address) : RbHeap Address :=
  (heap.setColor black .black).setColor red .red

/-- What `RB_ROTATE` and `RB_REMOVE` do to put another element in the place of one below its
parent, or at the root. -/
def replace (heap : RbHeap Address) (parent : Option Address) (elm : Address)
    (pointer : Option Address) : RbHeap Address :=
  match parent with
  | some parent =>
    if heap.child .left parent = some elm then heap.setChild .left parent pointer
    else heap.setChild .right parent pointer
  | none => { heap with rbhRoot := pointer }

/-- The two rotations; `RB_ROTATE_LEFT` moves the right child up. -/
def rotate (side : Direction) (heap : RbHeap Address) (elm : Address) :
    Option (RbHeap Address) := do
  let tmp ← heap.child side.other elm
  let heap := heap.setChild side.other elm (heap.child side tmp)
  let heap := heap.setParentIf (heap.child side tmp) (some elm)
  let heap := heap.setParent tmp (heap.parent elm)
  let heap := heap.replace (heap.parent elm) elm (some tmp)
  let heap := heap.setChild side tmp (some elm)
  return heap.setParent elm (some tmp)

/-- `RB_ROTATE_LEFT`. -/
def rotateLeft (heap : RbHeap Address) (elm : Address) : Option (RbHeap Address) :=
  heap.rotate .left elm

/-- `RB_ROTATE_RIGHT`. -/
def rotateRight (heap : RbHeap Address) (elm : Address) : Option (RbHeap Address) :=
  heap.rotate .right elm

/-! ### `RB_INSERT` -/

/-- The first rotation of a turn of `RB_INSERT_COLOR`, for an inner grandchild: `parent` and `elm`
change roles. -/
def straighten (side : Direction) (heap : RbHeap Address) (elm parent : Address) :
    Option (RbHeap Address × Address × Address) :=
  if heap.child side.other parent = some elm then
    (heap.rotate side parent).map fun heap => (heap, elm, parent)
  else some (heap, parent, elm)

/-- One turn of `RB_INSERT_COLOR` below a grandparent whose child on the given side is the red
parent of `elm`, with the element of the next turn. -/
def insertFix (side : Direction) (heap : RbHeap Address) (elm parent gparent : Address) :
    Option (RbHeap Address × Address) :=
  let tmp := heap.child side.other gparent
  if heap.isRed tmp then
    some ((heap.setColorIf tmp .black).setBlackred parent gparent, gparent)
  else do
    let (heap, parent, elm) ← heap.straighten side elm parent
    let heap ← (heap.setBlackred parent gparent).rotate side.other gparent
    return (heap, elm)

/-- The loop of `RB_INSERT_COLOR`. -/
def insertColorTurn (state : RbHeap Address × Address) :
    Option (Turn (RbHeap Address × Address) (RbHeap Address)) :=
  let (heap, elm) := state
  match heap.parent elm with
  | some parent =>
    if heap.color parent = .red then do
      let gparent ← heap.parent parent
      if heap.child .left gparent = some parent then
        (heap.insertFix .left elm parent gparent).map .again
      else (heap.insertFix .right elm parent gparent).map .again
    else some (.done heap)
  | none => some (.done heap)

/-- `RB_INSERT_COLOR`. -/
def insertColor (turns : Nat) (heap : RbHeap Address) (elm : Address) :
    Option (RbHeap Address) := do
  let heap ← loop insertColorTurn turns (heap, elm)
  let root ← heap.rbhRoot
  return heap.setColor root .black

/-- The variables of the descents: `tmp`, and `parent` and `comp` of `RB_INSERT`. -/
structure Descent (Address : Type) where
  tmp : Option Address
  parent : Option Address
  comp : Int

/-- The loop of `RB_INSERT`: it ends at an element with the key of `elm`, or with the parent and the
comparison for a new one. -/
def descend (cmp : Address → Address → Int) (heap : RbHeap Address) (elm : Address)
    (descent : Descent Address) : Option (Turn (Descent Address) (Address ⊕ Descent Address)) :=
  match descent.tmp with
  | some tmp =>
    let comp := cmp elm tmp
    if comp < 0 then some (.again ⟨heap.child .left tmp, some tmp, comp⟩)
    else if comp > 0 then some (.again ⟨heap.child .right tmp, some tmp, comp⟩)
    else some (.done (.inl tmp))
  | none => some (.done (.inr descent))

/-- The lines of `RB_INSERT` that link a new element below its parent. -/
def attach (heap : RbHeap Address) (elm : Address) (parent : Option Address) (comp : Int) :
    RbHeap Address :=
  let heap := heap.set elm parent
  match parent with
  | some parent =>
    if comp < 0 then heap.setChild .left parent (some elm)
    else heap.setChild .right parent (some elm)
  | none => { heap with rbhRoot := some elm }

/-- `RB_INSERT`; the element returned has the same key, and `elm` is not inserted then. -/
def insert (cmp : Address → Address → Int) (turns : Nat) (heap : RbHeap Address) (elm : Address) :
    Option (RbHeap Address × Option Address) := do
  match ← loop (descend cmp heap elm) turns ⟨heap.rbhRoot, none, 0⟩ with
  | .inl tmp => return (heap, some tmp)
  | .inr ⟨_, parent, comp⟩ =>
    let heap ← (heap.attach elm parent comp).insertColor turns elm
    return (heap, none)

/-! ### `RB_REMOVE` -/

/-- The variables of `RB_REMOVE_COLOR`. -/
structure Removal (Address : Type) where
  heap : RbHeap Address
  parent : Option Address
  elm : Option Address

/-- The first rotation of a turn of `RB_REMOVE_COLOR`, for a red sibling, with the black one. -/
def blackSibling (side : Direction) (heap : RbHeap Address) (parent tmp : Address) :
    Option (RbHeap Address × Address) :=
  if heap.color tmp = .red then do
    let heap ← (heap.setBlackred tmp parent).rotate side parent
    let tmp ← heap.child side.other parent
    return (heap, tmp)
  else some (heap, tmp)

/-- The second rotation, for a sibling whose outer child is black, with the new sibling. -/
def redNephew (side : Direction) (heap : RbHeap Address) (parent tmp : Address) :
    Option (RbHeap Address × Address) :=
  if heap.isBlack (heap.child side.other tmp) then do
    let heap := heap.setColorIf (heap.child side tmp) .black
    let heap ← (heap.setColor tmp .red).rotate side.other tmp
    let tmp ← heap.child side.other parent
    return (heap, tmp)
  else some (heap, tmp)

/-- The last rotation, which makes up for the missing black element. -/
def shareBlack (side : Direction) (heap : RbHeap Address) (parent tmp : Address) :
    Option (RbHeap Address) :=
  let heap := heap.setColor tmp (heap.color parent)
  let heap := heap.setColor parent .black
  let heap := heap.setColorIf (heap.child side.other tmp) .black
  heap.rotate side parent

/-- One turn of `RB_REMOVE_COLOR` below the given parent, whose child on the given side is `elm`. -/
def removeFix (side : Direction) (heap : RbHeap Address) (parent : Address) :
    Option (Turn (Removal Address) (RbHeap Address × Option Address)) := do
  let tmp ← heap.child side.other parent
  let (heap, tmp) ← heap.blackSibling side parent tmp
  if heap.isBlack (heap.child side tmp) && heap.isBlack (heap.child side.other tmp) then
    let heap := heap.setColor tmp .red
    return .again ⟨heap, heap.parent parent, some parent⟩
  else
    let (heap, tmp) ← heap.redNephew side parent tmp
    let heap ← heap.shareBlack side parent tmp
    return .done (heap, heap.rbhRoot)

/-- The loop of `RB_REMOVE_COLOR`. -/
def removeColorTurn (removal : Removal Address) :
    Option (Turn (Removal Address) (RbHeap Address × Option Address)) :=
  let ⟨heap, parent, elm⟩ := removal
  if heap.isBlack elm ∧ elm ≠ heap.rbhRoot then do
    let parent ← parent
    if heap.child .left parent = elm then heap.removeFix .left parent
    else heap.removeFix .right parent
  else some (.done (heap, elm))

/-- `RB_REMOVE_COLOR`. -/
def removeColor (turns : Nat) (heap : RbHeap Address) (parent elm : Option Address) :
    Option (RbHeap Address) := do
  let (heap, elm) ← loop removeColorTurn turns ⟨heap, parent, elm⟩
  return heap.setColorIf elm .black

/-- Put the only child of an element in its place. -/
def unlink (heap : RbHeap Address) (elm : Address) (child : Option Address) : RbHeap Address :=
  let parent := heap.parent elm
  (heap.setParentIf child parent).replace parent elm child

/-- Put an element in the place of one with two children. -/
def substitute (heap : RbHeap Address) (old elm : Address) : Option (RbHeap Address) := do
  let heap := heap.setEntry elm (heap.entry old)
  let heap := heap.replace (heap.parent old) old (some elm)
  let left ← heap.child .left old
  let heap := heap.setParent left (some elm)
  return heap.setParentIf (heap.child .right old) (some elm)

/-- The loops that go on to the last child on a side. -/
def outermostTurn (side : Direction) (heap : RbHeap Address) (elm : Address) :
    Option (Turn Address Address) :=
  match heap.child side elm with
  | some child => some (.again child)
  | none => some (.done elm)

/-- The loop of `RB_REMOVE` over `RB_AUGMENT`, which is empty. -/
def augmentTurn (heap : RbHeap Address) (left : Address) : Option (Turn Address Unit) :=
  match heap.parent left with
  | some parent => some (.again parent)
  | none => some (.done ())

/-- The loop, when there is a parent. -/
def augmentUp (turns : Nat) (heap : RbHeap Address) (parent : Option Address) : Option Unit :=
  match parent with
  | some left => loop (augmentTurn heap) turns left
  | none => some ()

/-- The last lines of `RB_REMOVE`, at the label `color`. -/
def removeEnd (turns : Nat) (heap : RbHeap Address) (color : Color)
    (parent child : Option Address) : Option (RbHeap Address) :=
  if color = .black then heap.removeColor turns parent child else some heap

/-- `RB_REMOVE` of an element with two children, of which `elm` is the right one. -/
def removeInner (turns : Nat) (heap : RbHeap Address) (old elm : Address) :
    Option (RbHeap Address) := do
  let elm ← loop (outermostTurn .left heap) turns elm
  let child := heap.child .right elm
  let parent := heap.parent elm
  let color := heap.color elm
  let heap := heap.unlink elm child
  let parent := if heap.parent elm = some old then some elm else parent
  let heap ← heap.substitute old elm
  heap.augmentUp turns parent
  heap.removeEnd turns color parent child

/-- `RB_REMOVE` of an element whose only child, if any, is the given one. -/
def removeOuter (turns : Nat) (heap : RbHeap Address) (elm : Address) (child : Option Address) :
    Option (RbHeap Address) :=
  (heap.unlink elm child).removeEnd turns (heap.color elm) (heap.parent elm) child

/-- `RB_REMOVE`. -/
def remove (turns : Nat) (heap : RbHeap Address) (elm : Address) :
    Option (RbHeap Address × Address) := do
  let old := elm
  let heap ←
    match heap.child .left elm, heap.child .right elm with
    | none, child => heap.removeOuter turns elm child
    | child, none => heap.removeOuter turns elm child
    | some _, some right => heap.removeInner turns old right
  return (heap, old)

/-! ### Walking in a tree -/

/-- The loop of `RB_FIND`. -/
def findTurn (cmp : Address → Address → Int) (heap : RbHeap Address) (elm : Address)
    (tmp : Option Address) : Option (Turn (Option Address) (Option Address)) :=
  match tmp with
  | some tmp =>
    let comp := cmp elm tmp
    if comp < 0 then some (.again (heap.child .left tmp))
    else if comp > 0 then some (.again (heap.child .right tmp))
    else some (.done (some tmp))
  | none => some (.done none)

/-- `RB_FIND`. -/
def find (cmp : Address → Address → Int) (turns : Nat) (heap : RbHeap Address) (elm : Address) :
    Option (Option Address) :=
  loop (findTurn cmp heap elm) turns heap.rbhRoot

/-- The loop of `RB_NEXT` that goes up past the parents of which `elm` is the right child. -/
def ascendTurn (heap : RbHeap Address) (elm : Address) : Option (Turn Address Address) :=
  match heap.parent elm with
  | some parent =>
    if heap.child .right parent = some elm then some (.again parent) else some (.done elm)
  | none => some (.done elm)

/-- `RB_NEXT`. -/
def next (turns : Nat) (heap : RbHeap Address) (elm : Address) : Option (Option Address) :=
  match heap.child .right elm with
  | some right => (loop (outermostTurn .left heap) turns right).map some
  | none =>
    if (heap.parent elm).any fun parent => heap.child .left parent = some elm then
      some (heap.parent elm)
    else (loop (ascendTurn heap) turns elm).map heap.parent

/-- The loop of `RB_MINMAX`, with `tmp` and `parent`. -/
def minmaxTurn (heap : RbHeap Address) (val : Int) (state : Option Address × Option Address) :
    Option (Turn (Option Address × Option Address) (Option Address)) :=
  match state.1 with
  | some tmp =>
    if val < 0 then some (.again (heap.child .left tmp, some tmp))
    else some (.again (heap.child .right tmp, some tmp))
  | none => some (.done state.2)

/-- `RB_MINMAX`. -/
def minmax (turns : Nat) (heap : RbHeap Address) (val : Int) : Option (Option Address) :=
  loop (heap.minmaxTurn val) turns (heap.rbhRoot, none)

/-- `RB_MIN`, with `RB_NEGINF`. -/
def min (turns : Nat) (heap : RbHeap Address) : Option (Option Address) := heap.minmax turns (-1)

/-- `RB_MAX`, with `RB_INF`. -/
def max (turns : Nat) (heap : RbHeap Address) : Option (Option Address) := heap.minmax turns 1

/-- `RB_FOREACH`, with the elements that it has given to its body. -/
def foreachTurn (turns : Nat) (heap : RbHeap Address) (state : Option Address × List Address) :
    Option (Turn (Option Address × List Address) (List Address)) :=
  match state with
  | (some x, visited) => (heap.next turns x).map fun next => .again (next, visited ++ [x])
  | (none, visited) => some (.done visited)

/-- The elements that `RB_FOREACH` gives to its body, which changes nothing in the tree. -/
def foreach (turns : Nat) (heap : RbHeap Address) : Option (List Address) := do
  let first ← heap.min turns
  loop (heap.foreachTurn turns) turns (first, [])

end RbHeap

end SelftestNet
