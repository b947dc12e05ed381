/-
This file models the splay trees of `tree.h`: the macros and functions as they are, on entries
that are linked downwards only. What the macros do with a null pointer that they take for a
valid one is undefined. All loops take their turns from one number, and a function says how many
it has left, so that the turns of many calls can be counted together. The code has every case
twice, once for each side; here a side is an argument, the one to which a search goes on.
-/

import SelftestNet.LinkedTree
import SelftestNet.Loop
import SelftestNet.Splaying

namespace SelftestNet

open BinaryTree LinkedTree Loop

/-! ### Entries -/

/-- `SPLAY_ENTRY`. -/
structure SplayEntry (Address : Type) where
  speLeft : Option Address
  speRight : Option Address

namespace SplayEntry

variable {Address : Type}

/-- The child on a side. -/
def child (side : Direction) (entry : SplayEntry Address) : Option Address :=
  match side with
  | .left => entry.speLeft
  | .right => entry.speRight

/-- The entry with another child on a side. -/
def setChild (side : Direction) (pointer : Option Address) (entry : SplayEntry Address) :
    SplayEntry Address :=
  match side with
  | .left => { entry with speLeft := pointer }
  | .right => { entry with speRight := pointer }

end SplayEntry

/-- `SPLAY_HEAD`, and the entries of the elements in memory. -/
structure SplayHeap (Address : Type) where
  sphRoot : Option Address
  entry : Address → SplayEntry Address

/-- A pointer to an element or to the local `__node`. -/
inductive Cursor (Address : Type)
  | node
  | element (elm : Address)

/-- The head and the local variables of `SPLAY` and `SPLAY_MINMAX`. -/
structure SplayState (Address : Type) where
  heap : SplayHeap Address
  node : SplayEntry Address
  left : Cursor Address
  right : Cursor Address

variable {Address : Type} [DecidableEq Address]

namespace SplayHeap

/-! ### The macros -/

omit [DecidableEq Address] in
/-- `SPLAY_INIT`. -/
def init (heap : SplayHeap Address) : SplayHeap Address := { heap with sphRoot := none }

/-- `SPLAY_LEFT` and `SPLAY_RIGHT`. -/
def child (side : Direction) (heap : SplayHeap Address) (elm : Address) : Option Address :=
  (heap.entry elm).child side

/-- Write `SPLAY_LEFT` or `SPLAY_RIGHT`. -/
def setChild (side : Direction) (heap : SplayHeap Address) (elm : Address)
    (pointer : Option Address) : SplayHeap Address :=
  { heap with entry := Function.update heap.entry elm ((heap.entry elm).setChild side pointer) }

/-- The two rotations; `SPLAY_ROTATE_LEFT` takes the right child of the root for `tmp`. -/
def rotate (side : Direction) (heap : SplayHeap Address) (tmp : Address) :
    Option (SplayHeap Address) := do
  let root ← heap.sphRoot
  let heap := heap.setChild side.other root (heap.child side tmp)
  let heap := heap.setChild side tmp (some root)
  return { heap with sphRoot := some tmp }

/-- `SPLAY_ROTATE_LEFT`. -/
def rotateLeft (heap : SplayHeap Address) (tmp : Address) : Option (SplayHeap Address) :=
  heap.rotate .left tmp

/-- `SPLAY_ROTATE_RIGHT`. -/
def rotateRight (heap : SplayHeap Address) (tmp : Address) : Option (SplayHeap Address) :=
  heap.rotate .right tmp

end SplayHeap

namespace SplayState

/-- The head when the loop starts. -/
def start (heap : SplayHeap Address) : SplayState Address := ⟨heap, ⟨none, none⟩, .node, .node⟩

/-- Where the next element goes that a search to the given side leaves: `__right` for the left. -/
def cursor (side : Direction) (state : SplayState Address) : Cursor Address :=
  match side with
  | .left => state.right
  | .right => state.left

/-- Another value for the same variable. -/
def setCursor (side : Direction) (state : SplayState Address) (cursor : Cursor Address) :
    SplayState Address :=
  match side with
  | .left => { state with right := cursor }
  | .right => { state with left := cursor }

/-- Write `SPLAY_LEFT` or `SPLAY_RIGHT` of what the variable for the side points to. -/
def hang (side : Direction) (state : SplayState Address) (pointer : Option Address) :
    SplayState Address :=
  match state.cursor side with
  | .node => { state with node := state.node.setChild side pointer }
  | .element elm => { state with heap := state.heap.setChild side elm pointer }

/-- `SPLAY_LINKLEFT` with `__right`, and `SPLAY_LINKRIGHT` with `__left`. -/
def link (side : Direction) (state : SplayState Address) : Option (SplayState Address) := do
  let root ← state.heap.sphRoot
  let state := (state.hang side (some root)).setCursor side (.element root)
  return { state with heap := { state.heap with sphRoot := state.heap.child side root } }

/-- `SPLAY_ASSEMBLE`. -/
def assemble (state : SplayState Address) : Option (SplayHeap Address) := do
  let root ← state.heap.sphRoot
  let state := state.hang .right (state.heap.child .left root)
  let state := state.hang .left (state.heap.child .right root)
  let heap := state.heap.setChild .left root (state.node.child .right)
  return heap.setChild .right root (state.node.child .left)

/-! ### `SPLAY` and `SPLAY_MINMAX` -/

/-- A comparison tells to go on to a side. -/
def goes (side : Direction) (comp : Int) : Bool :=
  match side with
  | .left => comp < 0
  | .right => comp > 0

/-- One half of a turn of the loops, for a root from which the search goes to the given side. The
comparison is with `elm` in `SPLAY` and always `__comp` in `SPLAY_MINMAX`. -/
def descend (side : Direction) (comp : Address → Int) (state : SplayState Address)
    (root : Address) : Option (Turn (SplayState Address) (SplayState Address)) :=
  match state.heap.child side root with
  | none => some (.done state)
  | some tmp =>
    if goes side (comp tmp) then do
      let heap ← state.heap.rotate side.other tmp
      let root ← heap.sphRoot
      if heap.child side root = none then return .done { state with heap := heap }
      else (({ state with heap := heap } : SplayState Address).link side).map .again
    else (state.link side).map .again

/-- The loop of `SPLAY`. -/
def splayTurn (cmp : Address → Address → Int) (elm : Address) (state : SplayState Address) :
    Option (Turn (SplayState Address) (SplayState Address)) := do
  let root ← state.heap.sphRoot
  let comp := cmp elm root
  if comp < 0 then state.descend .left (cmp elm) root
  else if comp > 0 then state.descend .right (cmp elm) root
  else return .done state

/-- The loop of `SPLAY_MINMAX`, which never ends for zero. -/
def minmaxTurn (comp : Int) (state : SplayState Address) :
    Option (Turn (SplayState Address) (SplayState Address)) := do
  let root ← state.heap.sphRoot
  if comp < 0 then state.descend .left (fun _ => comp) root
  else if comp > 0 then state.descend .right (fun _ => comp) root
  else return .again state

end SplayState

namespace SplayHeap

/-- `SPLAY`. -/
def splay (cmp : Address → Address → Int) (turns : Nat) (heap : SplayHeap Address)
    (elm : Address) : Option (SplayHeap Address × Nat) := do
  let (state, turns) ← spend (SplayState.splayTurn cmp elm) turns (.start heap)
  return (← state.assemble, turns)

/-- `SPLAY_MINMAX`. -/
def splayMinmax (turns : Nat) (heap : SplayHeap Address) (comp : Int) :
    Option (SplayHeap Address × Nat) := do
  let (state, turns) ← spend (SplayState.minmaxTurn comp) turns (.start heap)
  return (← state.assemble, turns)

/-! ### The operations -/

/-- The lines of `SPLAY_INSERT` that put a new element above the root, which is on its right when
the comparison goes to the left, and take over the child of the root on the given side. -/
def putAbove (side : Direction) (heap : SplayHeap Address) (elm root : Address) :
    SplayHeap Address :=
  let heap := heap.setChild side elm (heap.child side root)
  let heap := heap.setChild side.other elm (some root)
  let heap := heap.setChild side root none
  { heap with sphRoot := some elm }

/-- `SPLAY_INSERT`; the element returned has the same key, and `elm` is not inserted then. -/
def insert (cmp : Address → Address → Int) (turns : Nat) (heap : SplayHeap Address)
    (elm : Address) : Option (SplayHeap Address × Option Address × Nat) :=
  match heap.sphRoot with
  | none =>
    let heap := (heap.setChild .right elm none).setChild .left elm none
    some ({ heap with sphRoot := some elm }, none, turns)
  | some _ => do
    let (heap, turns) ← heap.splay cmp turns elm
    let root ← heap.sphRoot
    let comp := cmp elm root
    if comp < 0 then return (heap.putAbove .left elm root, none, turns)
    else if comp > 0 then return (heap.putAbove .right elm root, none, turns)
    else return (heap, some root, turns)

/-- The lines of `SPLAY_REMOVE` for a root with the key of `elm`. -/
def removeRoot (cmp : Address → Address → Int) (turns : Nat) (heap : SplayHeap Address)
    (elm root : Address) : Option (SplayHeap Address × Nat) :=
  match heap.child .left root with
  | none => some ({ heap with sphRoot := heap.child .right root }, turns)
  | some left => do
    let tmp := heap.child .right root
    let (heap, turns) ← ({ heap with sphRoot := some left } : SplayHeap Address).splay cmp turns elm
    let root ← heap.sphRoot
    return (heap.setChild .right root tmp, turns)

/-- `SPLAY_REMOVE`; it returns its argument, whatever element with its key it has removed. -/
def remove (cmp : Address → Address → Int) (turns : Nat) (heap : SplayHeap Address)
    (elm : Address) : Option (SplayHeap Address × Option Address × Nat) :=
  match heap.sphRoot with
  | none => some (heap, none, turns)
  | some _ => do
    let (heap, turns) ← heap.splay cmp turns elm
    let root ← heap.sphRoot
    if cmp elm root = 0 then do
      let (heap, turns) ← heap.removeRoot cmp turns elm root
      return (heap, some elm, turns)
    else return (heap, none, turns)

/-- `SPLAY_FIND`. -/
def find (cmp : Address → Address → Int) (turns : Nat) (heap : SplayHeap Address)
    (elm : Address) : Option (SplayHeap Address × Option Address × Nat) :=
  match heap.sphRoot with
  | none => some (heap, none, turns)
  | some _ => do
    let (heap, turns) ← heap.splay cmp turns elm
    let root ← heap.sphRoot
    if cmp elm root = 0 then return (heap, some root, turns) else return (heap, none, turns)

/-- The loop of `SPLAY_NEXT`. -/
def leftmostTurn (heap : SplayHeap Address) (elm : Address) : Option (Turn Address Address) :=
  match heap.child .left elm with
  | some left => some (.again left)
  | none => some (.done elm)

/-- `SPLAY_NEXT`. -/
def next (cmp : Address → Address → Int) (turns : Nat) (heap : SplayHeap Address)
    (elm : Address) : Option (SplayHeap Address × Option Address × Nat) := do
  let (heap, turns) ← heap.splay cmp turns elm
  match heap.child .right elm with
  | some right => do
    let (elm, turns) ← spend heap.leftmostTurn turns right
    return (heap, some elm, turns)
  | none => return (heap, none, turns)

/-- `SPLAY_MIN_MAX`. -/
def minMax (turns : Nat) (heap : SplayHeap Address) (val : Int) :
    Option (SplayHeap Address × Option Address × Nat) := do
  let (heap, turns) ← heap.splayMinmax turns val
  return (heap, heap.sphRoot, turns)

/-- `SPLAY_MIN`, with `SPLAY_NEGINF`. -/
def min (turns : Nat) (heap : SplayHeap Address) :
    Option (SplayHeap Address × Option Address × Nat) :=
  match heap.sphRoot with
  | none => some (heap, none, turns)
  | some _ => heap.minMax turns (-1)

/-- `SPLAY_MAX`, with `SPLAY_INF`. -/
def max (turns : Nat) (heap : SplayHeap Address) :
    Option (SplayHeap Address × Option Address × Nat) :=
  match heap.sphRoot with
  | none => some (heap, none, turns)
  | some _ => heap.minMax turns 1

/-- The variables of `SPLAY_FOREACH`, and the elements that it has given to its body. -/
structure Walk (Address : Type) where
  heap : SplayHeap Address
  x : Option Address
  turns : Nat
  visited : List Address

/-- The loop of `SPLAY_FOREACH`. -/
def foreachTurn (cmp : Address → Address → Int) (walk : Walk Address) :
    Option (Turn (Walk Address) (Walk Address)) :=
  match walk.x with
  | some x => do
    let (heap, next, turns) ← walk.heap.next cmp walk.turns x
    return .again ⟨heap, next, turns, walk.visited ++ [x]⟩
  | none => some (.done walk)

/-- The elements that `SPLAY_FOREACH` gives to its body, which changes nothing in the tree itself.
Every turn of its own loop but the last one splays, so the turns bound that loop as well; only those
of `SPLAY` and of the walks inside are taken from them. -/
def foreach (cmp : Address → Address → Int) (turns : Nat) (heap : SplayHeap Address) :
    Option (SplayHeap Address × List Address × Nat) := do
  let (heap, first, left) ← heap.min turns
  let walk ← loop (foreachTurn cmp) (turns + 1) ⟨heap, first, left, []⟩
  return (walk.heap, walk.visited, walk.turns)

end SplayHeap

end SelftestNet
