/-
This file is the library of doubly linked chains in a heap of cells. A chain is given
by the nodes it runs through, each with its address and its value, and says of every
one of them what the whole cell is; so a change of the heap keeps a chain as soon as
it misses the addresses of the chain (`Chain.frame`). The two results about changes
that do not miss it are appending a cell behind the last one (`Chain.append`) and
giving up the first one (`Chain.tail`).
-/

import Mathlib.Data.List.Nodup
import Mathlib.Logic.Function.Basic

namespace LinkedChain

/-- A cell of a doubly linked chain; `none` is the null pointer. -/
structure Cell (Address Value : Type) where
  next : Option Address
  prev : Option Address
  data : Value

/-- A heap of cells; `none` where nothing is allocated. -/
abbrev Heap (Address Value : Type) := Address → Option (Cell Address Value)

variable {Address Value : Type}

/-! ### Cells and pointers -/

/-- The cell a pointer points to; undefined for the null pointer and for a dangling one. -/
def load (heap : Heap Address Value) (pointer : Option Address) : Option (Cell Address Value) :=
  pointer.bind heap

/-- The pointer reached by following `next` the given number of times. -/
def walk (heap : Heap Address Value) : Nat → Option Address → Option Address
  | 0, pointer => pointer
  | steps + 1, pointer => walk heap steps ((load heap pointer).bind Cell.next)

/-! ### Chains -/

/-- The addresses of some nodes. -/
def addresses (nodes : List (Address × Value)) : List Address := nodes.map Prod.fst

/-- The address in front of a position; null at the first one. -/
def before (nodes : List (Address × Value)) : Nat → Option Address
  | 0 => none
  | position + 1 => (addresses nodes)[position]?

/-- From `head` to `last`, the cells of a heap are linked in both directions through the given
nodes, without meeting one twice. -/
structure Chain (heap : Heap Address Value) (head last : Option Address)
    (nodes : List (Address × Value)) : Prop where
  distinct : (addresses nodes).Nodup
  head : head = (addresses nodes)[0]?
  last : last = before nodes nodes.length
  cells : ∀ (position : Nat) address value, nodes[position]? = some (address, value) →
    heap address = some
      { next := (addresses nodes)[position + 1]?, prev := before nodes position, data := value }

theorem length_addresses (nodes : List (Address × Value)) :
    (addresses nodes).length = nodes.length := List.length_map _

theorem getElem?_addresses (nodes : List (Address × Value)) (position : Nat) :
    (addresses nodes)[position]? = nodes[position]?.map Prod.fst := List.getElem?_map ..

/-- An address of the nodes stands at some position. -/
theorem exists_position {nodes : List (Address × Value)} {address : Address}
    (member : address ∈ addresses nodes) :
    ∃ (position : Nat) (value : Value), nodes[position]? = some (address, value) := by
  obtain ⟨⟨_, value⟩, inside, rfl⟩ := List.mem_map.mp member
  obtain ⟨position, found⟩ := List.mem_iff_getElem?.mp inside
  exact ⟨position, value, found⟩

theorem mem_addresses {nodes : List (Address × Value)} {position : Nat} {address : Address}
    {value : Value} (found : nodes[position]? = some (address, value)) :
    address ∈ addresses nodes :=
  List.mem_map.mpr ⟨(address, value), List.mem_of_getElem? found, rfl⟩

theorem Chain.nil (heap : Heap Address Value) : Chain heap none none [] where
  distinct := List.nodup_nil
  head := rfl
  last := rfl
  cells := fun _ _ _ found => nomatch found

variable {heap other : Heap Address Value} {head last : Option Address}
  {nodes : List (Address × Value)}

theorem Chain.head_eq_none_iff (chain : Chain heap head last nodes) :
    head = none ↔ nodes = [] := by
  rw [chain.head, List.getElem?_eq_none_iff, length_addresses, Nat.le_zero,
    List.length_eq_zero_iff]

theorem Chain.last_eq_none_iff (chain : Chain heap head last nodes) :
    last = none ↔ nodes = [] := by
  rw [chain.last]
  cases nodes with
  | nil => exact iff_of_true rfl rfl
  | cons node rest =>
    refine iff_of_false ?_ (List.cons_ne_nil _ _)
    rw [List.length_cons, before, List.getElem?_eq_none_iff, length_addresses, List.length_cons]
    omega

/-- A change of the heap that misses the addresses of a chain keeps it. -/
theorem Chain.frame (chain : Chain heap head last nodes)
    (same : ∀ address ∈ addresses nodes, other address = heap address) :
    Chain other head last nodes where
  distinct := chain.distinct
  head := chain.head
  last := chain.last
  cells := fun position address value found =>
    (same address (mem_addresses found)).trans (chain.cells position address value found)

/-- Every address of a chain is allocated. -/
theorem Chain.allocated (chain : Chain heap head last nodes) {address : Address}
    (free : heap address = none) : address ∉ addresses nodes := by
  intro member
  obtain ⟨position, value, found⟩ := exists_position member
  rw [chain.cells position address value found] at free
  cases free

theorem Chain.exists_cell (chain : Chain heap head last nodes) {address : Address}
    (member : address ∈ addresses nodes) : ∃ cell, heap address = some cell := by
  obtain ⟨position, value, found⟩ := exists_position member
  exact ⟨_, chain.cells position address value found⟩

theorem Chain.last_mem (chain : Chain heap head last nodes) {address : Address}
    (atEnd : last = some address) : address ∈ addresses nodes := by
  rw [chain.last] at atEnd
  rcases size : nodes.length with _ | length
  · rw [size, before] at atEnd
    cases atEnd
  · rw [size, before] at atEnd
    exact List.mem_of_getElem? atEnd

/-- An address stands at one position of a chain only. -/
theorem Chain.position_eq (chain : Chain heap head last nodes) {first second : Nat}
    {address : Address} (one : (addresses nodes)[first]? = some address)
    (two : (addresses nodes)[second]? = some address) : first = second := by
  obtain ⟨inside, -⟩ := List.getElem?_eq_some_iff.mp one
  exact (List.getElem?_inj inside chain.distinct).mp (one.trans two.symm)

/-- Following `next` from the head of a chain visits its nodes in order and then ends. -/
theorem Chain.walk_eq (chain : Chain heap head last nodes) (steps : Nat) :
    walk heap steps head = (addresses nodes)[steps]? := by
  have from_any : ∀ position, walk heap steps (addresses nodes)[position]? =
      (addresses nodes)[position + steps]? := by
    induction steps with
    | zero => exact fun position => rfl
    | succ steps inductionHypothesis =>
      intro position
      have advanced : (load heap (addresses nodes)[position]?).bind Cell.next =
          (addresses nodes)[position + 1]? := by
        rcases found : nodes[position]? with _ | ⟨address, value⟩
        · rw [getElem?_addresses, found]
          have ended : nodes.length ≤ position + 1 :=
            Nat.le_succ_of_le (List.getElem?_eq_none_iff.mp found)
          exact (List.getElem?_eq_none (length_addresses nodes ▸ ended)).symm
        · rw [getElem?_addresses, found]
          show (heap address).bind Cell.next = _
          rw [chain.cells position address value found]
          rfl
      rw [walk, advanced, inductionHypothesis, Nat.add_right_comm, Nat.add_assoc]
  rw [chain.head, from_any, Nat.zero_add]

/-- In a chain, `next` and `prev` are mutually inverse. -/
theorem Chain.next_iff_prev (chain : Chain heap head last nodes) {address other : Address}
    (member : address ∈ addresses nodes) (memberOther : other ∈ addresses nodes) :
    (heap address).bind Cell.next = some other ↔ (heap other).bind Cell.prev = some address := by
  obtain ⟨position, value, found⟩ := exists_position member
  obtain ⟨positionOther, valueOther, foundOther⟩ := exists_position memberOther
  have here : (addresses nodes)[position]? = some address := by
    rw [getElem?_addresses, found, Option.map_some]
  have there : (addresses nodes)[positionOther]? = some other := by
    rw [getElem?_addresses, foundOther, Option.map_some]
  rw [chain.cells position address value found,
    chain.cells positionOther other valueOther foundOther]
  show (addresses nodes)[position + 1]? = some other ↔ before nodes positionOther = some address
  cases positionOther with
  | zero =>
    refine iff_of_false (fun linked => ?_) (fun linked => nomatch linked)
    exact absurd (chain.position_eq linked there) (Nat.succ_ne_zero _)
  | succ positionOther =>
    constructor
    · intro linked
      rw [before, ← Nat.succ.inj (chain.position_eq linked there), here]
    · intro linked
      rw [chain.position_eq here linked, there]

/-! ### Growing and shrinking a chain -/

theorem addresses_append (nodes more : List (Address × Value)) :
    addresses (nodes ++ more) = addresses nodes ++ addresses more := List.map_append ..

theorem before_append {position : Nat} (inside : position ≤ nodes.length)
    (more : List (Address × Value)) : before (nodes ++ more) position = before nodes position := by
  cases position with
  | zero => rfl
  | succ position =>
    rw [before, before, addresses_append,
      List.getElem?_append_left (length_addresses nodes ▸ inside)]

/-- A chain grows behind its last cell when that cell is linked to a new one, and the new one to
it. An empty chain grows to the new cell. -/
theorem Chain.append (chain : Chain heap head last nodes) (other : Heap Address Value)
    {fresh : Address} (free : heap fresh = none) (value : Value)
    (linked : ∀ address cell, last = some address → heap address = some cell →
      other address = some { cell with next := some fresh })
    (added : other fresh = some { next := none, prev := last, data := value })
    (same : ∀ address ∈ addresses nodes, last ≠ some address → other address = heap address) :
    Chain other (head.or (some fresh)) (some fresh) (nodes ++ [(fresh, value)]) := by
  have grown : addresses (nodes ++ [(fresh, value)]) = addresses nodes ++ [fresh] :=
    addresses_append nodes _
  have size := length_addresses nodes
  refine ⟨?_, ?_, ?_, fun position address valueHere found => ?_⟩
  · rw [grown]
    exact chain.distinct.append (List.nodup_singleton _)
      (List.disjoint_singleton.mpr (chain.allocated free))
  · rw [grown, chain.head]
    cases nodes <;> rfl
  · rw [List.length_append, List.length_singleton, before, grown, ← size,
      List.getElem?_concat_length]
  · rw [grown]
    rcases Nat.lt_trichotomy position nodes.length with inside | rfl | outside
    · rw [List.getElem?_append_left inside] at found
      have cell := chain.cells position address valueHere found
      have here : (addresses nodes)[position]? = some address := by
        rw [getElem?_addresses, found, Option.map_some]
      rw [before_append (Nat.le_of_lt inside)]
      by_cases final : position + 1 = nodes.length
      · have atEnd : last = some address := by
          rw [chain.last, ← final, before, here]
        rw [linked address _ atEnd cell, final, ← size, List.getElem?_concat_length]
      · have inner : last ≠ some address := by
          intro atEnd
          obtain ⟨length, sizeEq⟩ : ∃ length, nodes.length = length + 1 :=
            ⟨nodes.length - 1, by omega⟩
          rw [chain.last, sizeEq, before] at atEnd
          have both := chain.position_eq here atEnd
          omega
        rw [same address (mem_addresses found) inner, cell,
          List.getElem?_append_left (by omega)]
    · rw [List.getElem?_concat_length] at found
      obtain ⟨rfl, rfl⟩ := Prod.mk.inj (Option.some.inj found)
      have ended : (addresses nodes ++ [fresh])[nodes.length + 1]? = none := by
        rw [List.getElem?_eq_none_iff, List.length_append, size]
        exact Nat.le_refl _
      rw [added, before_append (Nat.le_refl _), ← chain.last, ended]
    · obtain ⟨short, -⟩ := List.getElem?_eq_some_iff.mp found
      rw [List.length_append, List.length_singleton] at short
      omega

/-- A chain gives up its first cell when the second one forgets it. -/
theorem Chain.tail {address : Address} {value : Value}
    (chain : Chain heap head last ((address, value) :: nodes)) (other : Heap Address Value)
    (unlinked : ∀ second cell, (addresses nodes)[0]? = some second → heap second = some cell →
      other second = some { cell with prev := none })
    (same : ∀ later ∈ addresses nodes, (addresses nodes)[0]? ≠ some later →
      other later = heap later) :
    Chain other (addresses nodes)[0]? (if nodes = [] then none else last) nodes := by
  refine ⟨(List.nodup_cons.mp chain.distinct).2, rfl, ?_, fun position later valueHere found => ?_⟩
  · cases nodes with
    | nil => rfl
    | cons node rest => exact (if_neg (List.cons_ne_nil _ _)).trans chain.last
  · have cell := chain.cells (position + 1) later valueHere found
    have next : (addresses ((address, value) :: nodes))[position + 1 + 1]? =
        (addresses nodes)[position + 1]? := rfl
    cases position with
    | zero =>
      have first : (addresses nodes)[0]? = some later := by
        rw [getElem?_addresses, found, Option.map_some]
      rw [unlinked later _ first cell, next]
      rfl
    | succ position =>
      have inner : (addresses nodes)[0]? ≠ some later := by
        intro first
        have here : (addresses nodes)[position + 1]? = some later := by
          rw [getElem?_addresses, found, Option.map_some]
        have inside : 0 < (addresses nodes).length := (List.getElem?_eq_some_iff.mp first).1
        exact absurd ((List.getElem?_inj inside (List.nodup_cons.mp chain.distinct).2).mp
          (first.trans here.symm)) (Nat.succ_ne_zero _).symm
      rw [same later (mem_addresses found) inner, cell, next]
      rfl

/-! ### Paths -/

/-- From a pointer, following `next` visits the given nodes in order and then ends. Nothing is said
of `prev`, so paths may share their ends. -/
def Path (heap : Heap Address Value) : Option Address → List (Address × Value) → Prop
  | pointer, [] => pointer = none
  | pointer, (address, value) :: rest =>
    pointer = some address ∧
      ∃ cell, heap address = some cell ∧ cell.data = value ∧ Path heap cell.next rest

theorem Chain.path (chain : Chain heap head last nodes) : Path heap head nodes := by
  have from_any : ∀ (rest : List (Address × Value)) position, nodes.drop position = rest →
      Path heap (addresses nodes)[position]? rest := by
    intro rest
    induction rest with
    | nil =>
      intro position ended
      show (addresses nodes)[position]? = none
      rw [List.getElem?_eq_none_iff, length_addresses]
      exact List.drop_eq_nil_iff.mp ended
    | cons node rest inductionHypothesis =>
      intro position here
      have found : nodes[position]? = some node := by
        have first := congrArg (fun list : List (Address × Value) => list[0]?) here
        rwa [List.getElem?_drop] at first
      refine ⟨?_, _, chain.cells position node.1 node.2 found, rfl, inductionHypothesis _ ?_⟩
      · rw [getElem?_addresses, found, Option.map_some]
      · rw [← List.drop_drop, here, List.drop_one, List.tail_cons]
  rw [chain.head]
  exact from_any nodes 0 rfl

theorem Path.head_eq {pointer : Option Address} (path : Path heap pointer nodes) :
    pointer = (addresses nodes)[0]? := by
  cases nodes with
  | nil => exact path
  | cons node rest => exact path.1

theorem Path.exists_cell {pointer : Option Address} (path : Path heap pointer nodes)
    {address : Address} (member : address ∈ addresses nodes) :
    ∃ cell, heap address = some cell := by
  induction nodes generalizing pointer with
  | nil => exact (List.not_mem_nil member).elim
  | cons node rest inductionHypothesis =>
    obtain ⟨-, cell, found, -, behind⟩ := path
    rcases List.mem_cons.mp member with rfl | later
    · exact ⟨cell, found⟩
    · exact inductionHypothesis behind later

/-- A path is kept by every change that keeps what its cells hold and what they point to next. -/
theorem Path.frame {pointer : Option Address} (path : Path heap pointer nodes)
    (same : ∀ address ∈ addresses nodes, ∀ cell, heap address = some cell →
      ∃ after, other address = some after ∧ after.next = cell.next ∧ after.data = cell.data) :
    Path other pointer nodes := by
  induction nodes generalizing pointer with
  | nil => exact path
  | cons node rest inductionHypothesis =>
    obtain ⟨starts, cell, found, data, behind⟩ := path
    obtain ⟨after, foundAfter, next, dataAfter⟩ := same node.1 List.mem_cons_self cell found
    refine ⟨starts, after, foundAfter, dataAfter.trans data, next ▸ inductionHypothesis behind ?_⟩
    exact fun address member => same address (List.mem_cons_of_mem _ member)

/-- A path grows behind its last cell when that cell is made to point to a new one. -/
theorem Path.append {pointer : Option Address} (path : Path heap pointer nodes)
    (distinct : (addresses nodes).Nodup) {fresh final : Address} {value : Value}
    (atEnd : (addresses nodes).getLast? = some final)
    (linked : ∀ cell, heap final = some cell →
      ∃ after, other final = some after ∧ after.next = some fresh ∧ after.data = cell.data)
    (added : ∃ cell, other fresh = some cell ∧ cell.next = none ∧ cell.data = value)
    (same : ∀ address ∈ addresses nodes, address ≠ final → other address = heap address) :
    Path other pointer (nodes ++ [(fresh, value)]) := by
  induction nodes generalizing pointer with
  | nil => cases atEnd
  | cons node rest inductionHypothesis =>
    obtain ⟨starts, cell, found, data, behind⟩ := path
    rcases rest with _ | ⟨second, rest⟩
    · obtain rfl : node.1 = final := Option.some.inj atEnd
      obtain ⟨after, foundAfter, next, dataAfter⟩ := linked cell found
      obtain ⟨cellFresh, foundFresh, ended, dataFresh⟩ := added
      exact ⟨starts, after, foundAfter, dataAfter.trans data, next, cellFresh, foundFresh,
        dataFresh, ended⟩
    · obtain ⟨outside, distinctRest⟩ := List.nodup_cons.mp distinct
      have atEndRest : (addresses (second :: rest)).getLast? = some final := by
        rw [← atEnd]
        exact (List.getLast?_cons_cons ..).symm
      have inner : node.1 ≠ final := by
        rintro rfl
        exact outside (List.mem_of_getLast? atEndRest)
      refine ⟨starts, cell, (same node.1 List.mem_cons_self inner).trans found, data, ?_⟩
      exact inductionHypothesis behind distinctRest atEndRest
        fun address member => same address (List.mem_cons_of_mem _ member)

/-! ### Changing a heap -/

variable [DecidableEq Address]

/-- The heap with one cell written. -/
def put (heap : Heap Address Value) (address : Address) (cell : Cell Address Value) :
    Heap Address Value := Function.update heap address (some cell)

/-- The heap with one cell given back. -/
def erase (heap : Heap Address Value) (address : Address) : Heap Address Value :=
  Function.update heap address none

/-- A change of the cell a pointer points to; undefined where `load` is. -/
def store (heap : Heap Address Value) (pointer : Option Address)
    (change : Cell Address Value → Cell Address Value) : Option (Heap Address Value) :=
  pointer.bind fun address => (heap address).map fun cell => put heap address (change cell)

@[simp]
theorem put_self (heap : Heap Address Value) (address : Address) (cell : Cell Address Value) :
    put heap address cell address = some cell := Function.update_self ..

theorem put_of_ne (heap : Heap Address Value) {address other : Address}
    (different : other ≠ address) (cell : Cell Address Value) :
    put heap address cell other = heap other := Function.update_of_ne different ..

theorem erase_of_ne (heap : Heap Address Value) {address other : Address}
    (different : other ≠ address) : erase heap address other = heap other :=
  Function.update_of_ne different ..

theorem store_of_some (heap : Heap Address Value) {address : Address}
    {cell : Cell Address Value} (found : heap address = some cell)
    (change : Cell Address Value → Cell Address Value) :
    store heap (some address) change = some (put heap address (change cell)) := by
  rw [store, Option.bind_some, found, Option.map_some]

end LinkedChain
