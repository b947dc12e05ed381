/-
This file embeds `ByteBuffer` and its only instance `t_BufferCmdQueue`, the growing
byte buffer under every queue of a socket, and proves that it is a FIFO queue of
bytes.

The three indices are 32-bit unsigned words, so every sum of the source is a
`Word.add 32`. The vector is a list of bytes, and a `memcpy` that leaves it, or whose
ranges overlap, is undefined. The empty bodies of `checkData` and of the overflow
tests do nothing and are left out.

Growth that wraps shrinks the vector under the data. The refinement therefore comes
in two forms: an operation that is defined always acts as the queue does
(`put_spec`), and an operation whose sums do not wrap is always defined
(`put_defined`).
-/

import Mathlib.Algebra.Order.Group.Nat
import SelftestNet.Memory
import SelftestNet.Run

namespace SelftestNet

/-- The granularity of growth, `trunkSize`. -/
def trunkSize : Nat := 64 * 1024

/-- `ByteBuffer<std::vector<unsigned char>>`. -/
structure ByteBuffer where
  maxSize : Nat
  offPtr : Nat
  currPtr : Nat
  buffer : List UInt8

namespace ByteBuffer

/-! ### The operations of the source -/

/-- The constructor of `t_BufferCmdQueue`. -/
def new : ByteBuffer where
  maxSize := trunkSize
  offPtr := 0
  currPtr := 0
  buffer := List.replicate trunkSize 0

/-- `rd_ready`. -/
def rdReady (queue : ByteBuffer) : Bool := queue.offPtr < queue.currPtr

/-- `rd_size`. -/
def rdSize (queue : ByteBuffer) : Nat := Word.sub 32 queue.currPtr queue.offPtr

/-- `wr_size`. -/
def wrSize (queue : ByteBuffer) : Nat := Word.sub 32 queue.maxSize queue.currPtr

/-- The `addSize` of `wr_reserve`: `size + 8` rounded up to whole trunks. -/
def addSize (size : Nat) : Nat :=
  let trunkCount :=
    Word.sub 32 (Word.add 32 (Word.add 32 size 8) trunkSize) 1 / trunkSize
  Word.mul 32 trunkCount trunkSize

/-- `wr_reserve`. -/
def wrReserve (queue : ByteBuffer) (size : Nat) : ByteBuffer :=
  if queue.wrSize < Word.add 32 size 8 then
    let maxSize := Word.add 32 queue.maxSize (addSize size)
    { queue with maxSize, buffer := Region.resize queue.buffer maxSize 0 }
  else queue

/-- `put`. The size is the length of the bytes. -/
def put (queue : ByteBuffer) (bytes : List UInt8) : Option ByteBuffer :=
  let reserved := queue.wrReserve bytes.length
  (Region.write reserved.buffer reserved.currPtr bytes).map fun buffer =>
    { reserved with buffer, currPtr := Word.add 32 reserved.currPtr bytes.length }

/-- `rd_flip`. -/
def rdFlip (queue : ByteBuffer) (size : Nat) : Option ByteBuffer :=
  let offPtr := Word.add 32 queue.offPtr size
  if offPtr < queue.currPtr then
    let tmp := Word.sub 32 queue.currPtr offPtr
    if tmp ≤ offPtr then
      (Region.move queue.buffer 0 offPtr tmp).map fun buffer =>
        { queue with buffer, offPtr := 0, currPtr := tmp }
    else some { queue with offPtr }
  else some { queue with offPtr := 0, currPtr := 0 }

/-- `wr_flip`. -/
def wrFlip (queue : ByteBuffer) (size : Nat) : ByteBuffer :=
  { queue with currPtr := Word.add 32 queue.currPtr size }

/-- A write of someone else at `wr_buf()`. -/
def fill (queue : ByteBuffer) (bytes : List UInt8) : Option ByteBuffer :=
  (Region.write queue.buffer queue.currPtr bytes).map fun buffer => { queue with buffer }

/-- `reset`. -/
def reset (queue : ByteBuffer) : ByteBuffer := { queue with offPtr := 0, currPtr := 0 }

/-- The bytes written and not yet consumed, `_buffer[_offPtr .. _currPtr)`. -/
def unread (queue : ByteBuffer) : List UInt8 :=
  Region.slice queue.buffer queue.offPtr (queue.currPtr - queue.offPtr)

/-! ### The invariant -/

/-- What every buffer that the operations build satisfies. The last field is the laziness of the
compaction: consumed bytes never outnumber pending ones. -/
structure Consistent (queue : ByteBuffer) : Prop where
  offPtr_le : queue.offPtr ≤ queue.currPtr
  currPtr_le : queue.currPtr ≤ queue.maxSize
  size_eq : queue.buffer.length = queue.maxSize
  fits : queue.maxSize < 2 ^ 32
  compact : 2 * queue.offPtr ≤ queue.currPtr

theorem new_consistent : new.Consistent where
  offPtr_le := Nat.le_refl 0
  currPtr_le := Nat.zero_le _
  size_eq := List.length_replicate
  fits := by decide
  compact := Nat.le_refl 0

@[simp]
theorem new_unread : new.unread = [] := rfl

theorem Consistent.rdSize_eq {queue : ByteBuffer} (consistent : queue.Consistent) :
    queue.rdSize = queue.currPtr - queue.offPtr :=
  Word.sub_of_le consistent.offPtr_le (consistent.currPtr_le.trans_lt consistent.fits)

theorem Consistent.wrSize_eq {queue : ByteBuffer} (consistent : queue.Consistent) :
    queue.wrSize = queue.maxSize - queue.currPtr :=
  Word.sub_of_le consistent.currPtr_le consistent.fits

theorem Consistent.length_unread {queue : ByteBuffer} (consistent : queue.Consistent) :
    queue.unread.length = queue.currPtr - queue.offPtr := by
  have ordered := consistent.offPtr_le
  have inside := consistent.currPtr_le
  refine Region.length_slice ?_
  rw [consistent.size_eq]
  omega

/-- The length of the pending bytes is a 32-bit number. -/
theorem Consistent.length_unread_lt {queue : ByteBuffer} (consistent : queue.Consistent) :
    queue.unread.length < 2 ^ 32 :=
  calc queue.unread.length
      = queue.currPtr - queue.offPtr := consistent.length_unread
    _ ≤ queue.currPtr := Nat.sub_le _ _
    _ ≤ queue.maxSize := consistent.currPtr_le
    _ < 2 ^ 32 := consistent.fits

theorem Consistent.rdSize_eq_length {queue : ByteBuffer} (consistent : queue.Consistent) :
    queue.rdSize = queue.unread.length :=
  consistent.rdSize_eq.trans consistent.length_unread.symm

theorem Consistent.rdReady_iff {queue : ByteBuffer} (consistent : queue.Consistent) :
    queue.rdReady = true ↔ queue.unread ≠ [] := by
  rw [← List.length_pos_iff, consistent.length_unread, rdReady, decide_eq_true_iff]
  omega

theorem Consistent.rdReady_eq_false {queue : ByteBuffer} (consistent : queue.Consistent)
    (nothing : queue.unread = []) : queue.rdReady = false := by
  rw [Bool.eq_false_iff, ne_eq, consistent.rdReady_iff, not_not, nothing]

/-- Reading inside the pending bytes finds a prefix of them. -/
theorem Consistent.read_unread {queue : ByteBuffer} (consistent : queue.Consistent) {count : Nat}
    (short : count ≤ queue.unread.length) :
    Region.read queue.buffer queue.offPtr count = some (queue.unread.take count) := by
  have inside := consistent.currPtr_le
  have ordered := consistent.offPtr_le
  rw [consistent.length_unread] at short
  rw [Region.read_of_le (by rw [consistent.size_eq]; omega), unread, Region.slice_take _ _ short]

/-- Reading inside the pending bytes, behind the first `skipped` of them. -/
theorem Consistent.read_unread_behind {queue : ByteBuffer} (consistent : queue.Consistent)
    {skipped count : Nat} (short : skipped + count ≤ queue.unread.length) :
    Region.read queue.buffer (queue.offPtr + skipped) count =
      some ((queue.unread.drop skipped).take count) := by
  have inside := consistent.currPtr_le
  have ordered := consistent.offPtr_le
  rw [consistent.length_unread] at short
  rw [Region.read_of_le (by rw [consistent.size_eq]; omega), unread, ← Region.slice_drop,
    Region.slice_take _ _ (show count ≤ queue.currPtr - queue.offPtr - skipped by omega)]

/-! ### Growth -/

/-- A number of bytes rounded up to whole trunks. -/
def roundUp (size : Nat) : Nat := (size + trunkSize - 1) / trunkSize * trunkSize

/-- The capacity that `wr_reserve` leaves behind, computed without wrapping. -/
def capacityFor (queue : ByteBuffer) (size : Nat) : Nat :=
  if queue.maxSize - queue.currPtr < size + 8 then queue.maxSize + roundUp (size + 8)
  else queue.maxSize

/-- No sum that `wr_reserve` computes wraps. -/
def NoWrap (queue : ByteBuffer) (size : Nat) : Prop :=
  size + 8 < 2 ^ 32 ∧
    (queue.maxSize - queue.currPtr < size + 8 →
      size + 8 + trunkSize < 2 ^ 32 ∧ queue.maxSize + roundUp (size + 8) < 2 ^ 32)

theorem le_roundUp (size : Nat) : size ≤ roundUp size := by
  simp only [roundUp, trunkSize]
  omega

theorem roundUp_lt (size : Nat) : roundUp size < size + trunkSize := by
  simp only [roundUp, trunkSize]
  omega

theorem addSize_eq {size : Nat} (fits : size + 8 + trunkSize < 2 ^ 32) :
    addSize size = roundUp (size + 8) := by
  have small : roundUp (size + 8) < 2 ^ 32 := (roundUp_lt _).trans fits
  have positive : 1 ≤ size + 8 + trunkSize := by omega
  have inner : Word.add 32 size 8 = size + 8 := Word.add_of_lt (by omega)
  rw [addSize, inner, Word.add_of_lt fits, Word.sub_of_le positive fits]
  exact Word.mul_of_lt small

/-- Growth never adds the last trunk of the address space, wrapped or not. -/
theorem addSize_le (size : Nat) : addSize size ≤ 2 ^ 32 - trunkSize := by
  have bounded : Word.sub 32 (Word.add 32 (Word.add 32 size 8) trunkSize) 1 < 2 ^ 32 :=
    Nat.mod_lt _ (Nat.two_pow_pos 32)
  have count : Word.sub 32 (Word.add 32 (Word.add 32 size 8) trunkSize) 1 / trunkSize ≤ 65535 := by
    simp only [trunkSize] at *
    omega
  rw [addSize, Word.mul_of_lt] <;> simp only [trunkSize] at * <;> omega

/-- Capacity below `2 ^ 32` is growth without wrapping. -/
theorem noWrap_of_capacityFor {queue : ByteBuffer} (consistent : queue.Consistent) (size : Nat)
    (fits : queue.capacityFor size + trunkSize < 2 ^ 32) : queue.NoWrap size := by
  have larger := le_roundUp (size + 8)
  have small := consistent.fits
  unfold capacityFor at fits
  refine ⟨?_, fun grows => ?_⟩
  · split at fits <;> omega
  · rw [if_pos grows] at fits
    omega

/-- A request that finds its room is no growth. -/
theorem capacityFor_of_room {queue : ByteBuffer} {size : Nat}
    (room : queue.currPtr + size + 8 ≤ queue.maxSize) : queue.capacityFor size = queue.maxSize :=
  if_neg (by omega)

theorem Consistent.noWrap_of_room {queue : ByteBuffer} (consistent : queue.Consistent)
    {size : Nat} (room : queue.currPtr + size + 8 ≤ queue.maxSize) : queue.NoWrap size := by
  have small := consistent.fits
  exact ⟨by omega, fun grows => by omega⟩

/-- A new buffer has room for every request that is shorter than a trunk. -/
theorem new_noWrap {size : Nat} (small : size + 8 ≤ trunkSize) : new.NoWrap size :=
  new_consistent.noWrap_of_room (by show 0 + size + 8 ≤ trunkSize; omega)

/-- The laziness of the compaction bounds the write index, so a request beside a short backlog
needs no growth. -/
theorem Consistent.noWrap_of_backlog {queue : ByteBuffer} (consistent : queue.Consistent)
    {size : Nat} (capacity : trunkSize ≤ queue.maxSize)
    (short : 2 * queue.unread.length + size + 8 ≤ trunkSize) : queue.NoWrap size := by
  have lazy := consistent.compact
  have ordered := consistent.offPtr_le
  rw [consistent.length_unread] at short
  exact consistent.noWrap_of_room (by omega)

/-- A larger vector keeps the indices and the pending bytes. -/
theorem Consistent.grow {queue : ByteBuffer} (consistent : queue.Consistent) {size : Nat}
    (larger : queue.maxSize ≤ size) (fits : size < 2 ^ 32) :
    ({ queue with maxSize := size, buffer := Region.resize queue.buffer size 0 } :
      ByteBuffer).Consistent ∧
    ({ queue with maxSize := size, buffer := Region.resize queue.buffer size 0 } :
      ByteBuffer).unread = queue.unread := by
  have ordered := consistent.offPtr_le
  have inside := consistent.currPtr_le
  have window : queue.offPtr + (queue.currPtr - queue.offPtr) ≤ queue.buffer.length := by
    rw [consistent.size_eq]
    omega
  constructor
  · exact ⟨ordered, inside.trans larger, Region.length_resize _ _ _, fits, consistent.compact⟩
  · exact Region.slice_resize 0 window (consistent.size_eq.trans_le larger)

/-- What `wr_reserve` does: it leaves the indices and the pending bytes alone and the capacity
never shrinks, unless the new capacity wraps. -/
theorem wrReserve_cases {queue : ByteBuffer} (consistent : queue.Consistent) (size : Nat) :
    ((queue.wrReserve size).Consistent ∧ (queue.wrReserve size).unread = queue.unread ∧
      queue.maxSize ≤ (queue.wrReserve size).maxSize) ∨
    (queue.maxSize - queue.currPtr < size + 8 ∧ 2 ^ 32 ≤ queue.maxSize + addSize size ∧
      (queue.wrReserve size).buffer.length = queue.maxSize + addSize size - 2 ^ 32) := by
  have ordered := consistent.offPtr_le
  have inside := consistent.currPtr_le
  have fits := consistent.fits
  have added := addSize_le size
  have requested := Word.add_le 32 size 8
  rw [wrReserve, consistent.wrSize_eq]
  split
  · rename_i grows
    rcases Nat.lt_or_ge (queue.maxSize + addSize size) (2 ^ 32) with small | wraps
    · left
      rw [Word.add_of_lt small]
      have larger := Nat.le_add_right queue.maxSize (addSize size)
      obtain ⟨kept, same⟩ := consistent.grow larger small
      exact ⟨kept, same, larger⟩
    · right
      refine ⟨by omega, wraps, (Region.length_resize _ _ _).trans ?_⟩
      rw [Word.add, Nat.mod_eq_sub_mod wraps, Nat.mod_eq_of_lt (by omega)]
  · exact Or.inl ⟨consistent, rfl, Nat.le_refl _⟩

@[simp]
theorem wrReserve_currPtr (queue : ByteBuffer) (size : Nat) :
    (queue.wrReserve size).currPtr = queue.currPtr := by
  unfold wrReserve
  split <;> rfl

/-- Without wrapping, `wr_reserve` ends with the capacity it needs. -/
theorem wrReserve_spec {queue : ByteBuffer} (consistent : queue.Consistent) {size : Nat}
    (noWrap : queue.NoWrap size) :
    (queue.wrReserve size).Consistent ∧ (queue.wrReserve size).unread = queue.unread ∧
      (queue.wrReserve size).maxSize = queue.capacityFor size ∧
      size + 8 ≤ (queue.wrReserve size).wrSize := by
  obtain ⟨requested, growth⟩ := noWrap
  have added := le_roundUp (size + 8)
  have inside := consistent.currPtr_le
  have maxSize : (queue.wrReserve size).maxSize = queue.capacityFor size := by
    rw [wrReserve, capacityFor, consistent.wrSize_eq, Word.add_of_lt requested]
    split
    · rename_i grows
      obtain ⟨small, fits⟩ := growth grows
      exact (congrArg _ (addSize_eq small)).trans (Word.add_of_lt fits)
    · rfl
  rcases wrReserve_cases consistent size with ⟨kept, same, -⟩ | ⟨grows, wraps, -⟩
  · refine ⟨kept, same, maxSize, ?_⟩
    rw [kept.wrSize_eq, maxSize, wrReserve_currPtr, capacityFor]
    split <;> omega
  · obtain ⟨small, fits⟩ := growth grows
    rw [addSize_eq small] at wraps
    omega

/-! ### Writing and consuming -/

/-- Writing behind the pending bytes, inside the vector, and flipping the write index appends. -/
theorem fill_spec {queue filled : ByteBuffer} (consistent : queue.Consistent)
    {bytes : List UInt8} (defined : queue.fill bytes = some filled) :
    (filled.wrFlip bytes.length).Consistent ∧
      (filled.wrFlip bytes.length).unread = queue.unread ++ bytes ∧
      filled.maxSize = queue.maxSize ∧ filled.currPtr = queue.currPtr ∧
      filled.offPtr = queue.offPtr ∧ queue.currPtr + bytes.length ≤ queue.maxSize := by
  have ordered := consistent.offPtr_le
  have fits := consistent.fits
  have compact := consistent.compact
  obtain ⟨buffer, written, rfl⟩ := Option.map_eq_some_iff.mp defined
  obtain ⟨inside, rfl⟩ := Region.write_eq_some_iff.mp written
  have room : queue.currPtr + bytes.length ≤ queue.maxSize := inside.trans_eq consistent.size_eq
  have flipped : Word.add 32 queue.currPtr bytes.length = queue.currPtr + bytes.length :=
    Word.add_of_lt (by omega)
  have start : queue.offPtr + (queue.currPtr - queue.offPtr) = queue.currPtr :=
    Nat.add_sub_cancel' ordered
  refine ⟨⟨?_, ?_, ?_, fits, ?_⟩, ?_, rfl, rfl, rfl, room⟩
  · exact (ordered.trans (Nat.le_add_right _ _)).trans_eq flipped.symm
  · exact flipped.trans_le room
  · exact (Region.length_overwrite inside).trans consistent.size_eq
  · exact (compact.trans (Nat.le_add_right _ _)).trans_eq flipped.symm
  · have window : queue.offPtr + (queue.currPtr - queue.offPtr) ≤ queue.buffer.length := by
      rw [consistent.size_eq]
      omega
    have appended := Region.slice_overwrite bytes window
    rw [start] at appended
    have size : Word.add 32 queue.currPtr bytes.length - queue.offPtr =
        queue.currPtr - queue.offPtr + bytes.length := by
      rw [flipped]
      omega
    exact (congrArg (Region.slice _ queue.offPtr) size).trans appended

/-- A write of nothing leaves the buffer as it is. -/
theorem fill_nil {queue filled : ByteBuffer} (defined : queue.fill [] = some filled) :
    filled = queue := by
  obtain ⟨buffer, written, rfl⟩ := Option.map_eq_some_iff.mp defined
  obtain ⟨-, rfl⟩ := Region.write_eq_some_iff.mp written
  rw [Region.overwrite_nil]

theorem fill_defined {queue : ByteBuffer} (consistent : queue.Consistent) {bytes : List UInt8}
    (room : bytes.length ≤ queue.wrSize) : ∃ filled, queue.fill bytes = some filled := by
  have inside := consistent.currPtr_le
  rw [consistent.wrSize_eq] at room
  refine ⟨_, congrArg (Option.map _) (Region.write_of_le ?_)⟩
  rw [consistent.size_eq]
  omega

/-- A growth that wraps leaves a vector that ends in front of `wr_buf()`: a write there that is
defined says that the growth fits. -/
theorem growth_of_fill {queue filled : ByteBuffer} (consistent : queue.Consistent) {size : Nat}
    {bytes : List UInt8} (requested : size + 8 < 2 ^ 32)
    (behind : addSize size + size + 8 ≤ 2 ^ 32 + bytes.length)
    (defined : (queue.wrReserve size).fill bytes = some filled)
    (grows : queue.maxSize - queue.currPtr < size + 8) :
    queue.maxSize + addSize size < 2 ^ 32 := by
  by_contra wraps
  have added := addSize_le size
  have fits := consistent.fits
  obtain ⟨buffer, stored, -⟩ := Option.map_eq_some_iff.mp defined
  obtain ⟨inside, -⟩ := Region.write_eq_some_iff.mp stored
  have shrunk : (queue.wrReserve size).buffer.length =
      queue.maxSize + addSize size - 2 ^ 32 := by
    rw [wrReserve, consistent.wrSize_eq, Word.add_of_lt requested, if_pos grows]
    refine (Region.length_resize _ _ _).trans ?_
    rw [Word.add, Nat.mod_eq_sub_mod (by omega), Nat.mod_eq_of_lt (by omega)]
  rw [shrunk, wrReserve_currPtr] at inside
  omega

/-- `put` is `wr_reserve`, a write at `wr_buf()` and `wr_flip`. -/
theorem put_eq (queue : ByteBuffer) (bytes : List UInt8) :
    queue.put bytes =
      ((queue.wrReserve bytes.length).fill bytes).map fun filled =>
        filled.wrFlip bytes.length := by
  rw [put, fill, Option.map_map]
  rfl

/-- A `put` that is defined appends: where the capacity wraps, the copy leaves the vector. -/
theorem put_spec {queue next : ByteBuffer} (consistent : queue.Consistent) {bytes : List UInt8}
    (defined : queue.put bytes = some next) :
    next.Consistent ∧ next.unread = queue.unread ++ bytes := by
  rw [put_eq] at defined
  obtain ⟨filled, written, rfl⟩ := Option.map_eq_some_iff.mp defined
  rcases wrReserve_cases consistent bytes.length with ⟨kept, same, -⟩ | ⟨grows, wraps, shrunk⟩
  · obtain ⟨result, appended, -⟩ := fill_spec kept written
    exact ⟨result, by rw [appended, same]⟩
  · obtain ⟨buffer, stored, -⟩ := Option.map_eq_some_iff.mp written
    obtain ⟨inside, -⟩ := Region.write_eq_some_iff.mp stored
    have added := addSize_le bytes.length
    rw [shrunk, wrReserve_currPtr] at inside
    simp only [trunkSize] at added
    omega

/-- A `put` whose sums do not wrap appends, moves the write index by the size and leaves the
capacity that its `wr_reserve` needs. -/
theorem put_grown {queue : ByteBuffer} (consistent : queue.Consistent) {bytes : List UInt8}
    (noWrap : queue.NoWrap bytes.length) :
    ∃ next, queue.put bytes = some next ∧ next.Consistent ∧
      next.unread = queue.unread ++ bytes ∧ next.currPtr = queue.currPtr + bytes.length ∧
      next.maxSize = queue.capacityFor bytes.length := by
  obtain ⟨kept, same, maxSize, room⟩ := wrReserve_spec consistent noWrap
  have inside : bytes.length ≤ (queue.wrReserve bytes.length).wrSize := by omega
  obtain ⟨filled, written⟩ := fill_defined kept inside
  obtain ⟨flipped, appended, capacity, currPtr, -, bound⟩ := fill_spec kept written
  have fits := kept.fits
  refine ⟨_, by rw [put_eq, written]; rfl, flipped, by rw [appended, same], ?_, ?_⟩
  · show Word.add 32 filled.currPtr bytes.length = queue.currPtr + bytes.length
    rw [wrReserve_currPtr] at currPtr bound
    rw [currPtr]
    exact Word.add_of_lt (by omega)
  · exact capacity.trans maxSize

/-- A `put` whose sums do not wrap is defined, and its copy ends inside the vector. -/
theorem put_defined {queue : ByteBuffer} (consistent : queue.Consistent) {bytes : List UInt8}
    (noWrap : queue.NoWrap bytes.length) : ∃ next, queue.put bytes = some next := by
  obtain ⟨next, defined, -⟩ := put_grown consistent noWrap
  exact ⟨next, defined⟩

/-- A `put` of less than a trunk into a new buffer needs no growth. -/
theorem new_put {bytes : List UInt8} (short : bytes.length + 8 ≤ trunkSize) :
    ∃ queue, new.put bytes = some queue ∧ queue.Consistent ∧ queue.unread = bytes ∧
      queue.currPtr = bytes.length ∧ queue.maxSize = trunkSize := by
  obtain ⟨queue, stored, kept, appended, currPtr, maxSize⟩ :=
    put_grown new_consistent (new_noWrap short)
  exact ⟨queue, stored, kept, appended, currPtr.trans (Nat.zero_add _),
    maxSize.trans (capacityFor_of_room (by show 0 + bytes.length + 8 ≤ trunkSize; omega))⟩

/-- Consuming at most what is pending drops it from the front; the compaction, when it happens,
copies between ranges of the vector that do not overlap. -/
theorem rdFlip_spec {queue : ByteBuffer} (consistent : queue.Consistent) {size : Nat}
    (pending : size ≤ queue.unread.length) :
    ∃ next, queue.rdFlip size = some next ∧ next.Consistent ∧
      next.unread = queue.unread.drop size ∧ next.maxSize = queue.maxSize := by
  have ordered := consistent.offPtr_le
  have inside := consistent.currPtr_le
  have fits := consistent.fits
  have full := consistent.size_eq
  rw [consistent.length_unread] at pending
  have consumed : Word.add 32 queue.offPtr size = queue.offPtr + size :=
    Word.add_of_lt (by omega)
  have rest : queue.unread.drop size =
      Region.slice queue.buffer (queue.offPtr + size)
        (queue.currPtr - queue.offPtr - size) := (Region.slice_drop _ _ _ _).symm
  simp only [rdFlip, consumed]
  split
  · rename_i remaining
    have tmp : Word.sub 32 queue.currPtr (queue.offPtr + size) =
        queue.currPtr - queue.offPtr - size :=
      (Word.sub_of_le remaining.le (inside.trans_lt fits)).trans (by omega)
    have window : queue.offPtr + size + (queue.currPtr - queue.offPtr - size) ≤
        queue.buffer.length := by omega
    rw [tmp]
    split
    · rename_i apart
      have moved := Region.length_slice window
      refine ⟨_, congrArg (Option.map _) (Region.move_to_front window apart), ?_, ?_, rfl⟩
      · refine ⟨Nat.zero_le _, ?_, ?_, fits, Nat.zero_le _⟩
        · exact (Nat.sub_le_sub_right (Nat.sub_le _ _) _).trans
            ((Nat.sub_le _ _).trans inside)
        · refine (Region.length_overwrite ?_).trans full
          omega
      · have found := Region.slice_overwrite_zero queue.buffer
          (Region.slice queue.buffer (queue.offPtr + size) (queue.currPtr - queue.offPtr - size))
        rw [moved] at found
        exact found.trans rest.symm
    · rename_i overlapping
      refine ⟨_, rfl, ⟨remaining.le, inside, full, fits, ?_⟩, ?_, rfl⟩
      · show 2 * (queue.offPtr + size) ≤ queue.currPtr
        omega
      · have size_eq : queue.currPtr - (queue.offPtr + size) =
            queue.currPtr - queue.offPtr - size := by omega
        exact (congrArg (Region.slice _ _) size_eq).trans rest.symm
  · rename_i drained
    refine ⟨_, rfl, ⟨Nat.le_refl 0, Nat.zero_le _, full, fits, Nat.le_refl 0⟩, ?_, rfl⟩
    have nothing : queue.currPtr - queue.offPtr - size = 0 := by omega
    rw [rest, nothing]
    rfl

theorem reset_spec {queue : ByteBuffer} (consistent : queue.Consistent) :
    queue.reset.Consistent ∧ queue.reset.unread = [] :=
  ⟨⟨Nat.le_refl 0, Nat.zero_le _, consistent.size_eq, consistent.fits, Nat.le_refl 0⟩, rfl⟩

end ByteBuffer

/-! ### Runs of a buffer -/

/-- One use of a buffer: `put`, `wr_reserve`, a write at `wr_buf()` followed by `wr_flip`,
`rd_flip`, or `reset`. -/
inductive BufferOp
  | put (bytes : List UInt8)
  | wrReserve (size : Nat)
  | write (bytes : List UInt8)
  | rdFlip (size : Nat)
  | reset

namespace BufferOp

/-- What a use of a buffer means for the queue of bytes it stands for. -/
def enact (pending : List UInt8) : BufferOp → List UInt8
  | .put bytes => pending ++ bytes
  | .wrReserve _ => pending
  | .write bytes => pending ++ bytes
  | .rdFlip size => pending.drop size
  | .reset => []

end BufferOp

namespace ByteBuffer

/-- One use of a buffer, as the code runs it. -/
def step (queue : ByteBuffer) : BufferOp → Option ByteBuffer
  | .put bytes => queue.put bytes
  | .wrReserve size => some (queue.wrReserve size)
  | .write bytes => (queue.fill bytes).map fun filled => filled.wrFlip bytes.length
  | .rdFlip size => queue.rdFlip size
  | .reset => some queue.reset

/-- Growth does not wrap, a write at `wr_buf()` keeps to `wr_size()` and `rd_flip` to
`rd_size()`. -/
def Allowed (queue : ByteBuffer) : BufferOp → Prop
  | .put bytes => queue.NoWrap bytes.length
  | .wrReserve size => queue.NoWrap size
  | .write bytes => bytes.length ≤ queue.wrSize
  | .rdFlip size => size ≤ queue.rdSize
  | .reset => True

/-- Every copy that a use of the buffer makes stays inside the vector, and the two ranges of the
compaction have no byte in common. -/
def CopiesInside (queue : ByteBuffer) : BufferOp → Prop
  | .put bytes =>
    queue.currPtr + bytes.length ≤ (queue.wrReserve bytes.length).buffer.length
  | .write bytes => queue.currPtr + bytes.length ≤ queue.buffer.length
  | .rdFlip size =>
    let source := Word.add 32 queue.offPtr size
    let count := Word.sub 32 queue.currPtr source
    source < queue.currPtr → count ≤ source →
      source + count ≤ queue.buffer.length ∧ Region.Disjoint 0 source count
  | .wrReserve _ | .reset => True

/-- One allowed use of a buffer is defined, keeps the invariant and does to the pending bytes
what it means for the queue. -/
theorem step_enacts {queue : ByteBuffer} (op : BufferOp) (consistent : queue.Consistent)
    (allowed : queue.Allowed op) :
    ∃ next, queue.step op = some next ∧ next.Consistent ∧
      next.unread = op.enact queue.unread := by
  cases op with
  | put bytes =>
    obtain ⟨next, defined⟩ := put_defined consistent allowed
    obtain ⟨kept, appended⟩ := put_spec consistent defined
    exact ⟨next, defined, kept, appended⟩
  | wrReserve size =>
    obtain ⟨kept, same, -, -⟩ := wrReserve_spec consistent allowed
    exact ⟨_, rfl, kept, same⟩
  | write bytes =>
    obtain ⟨filled, written⟩ := fill_defined consistent allowed
    obtain ⟨kept, appended, -⟩ := fill_spec consistent written
    exact ⟨_, congrArg (Option.map _) written, kept, appended⟩
  | rdFlip size =>
    obtain ⟨next, defined, kept, dropped, -⟩ :=
      rdFlip_spec consistent (allowed.trans_eq consistent.rdSize_eq_length)
    exact ⟨next, defined, kept, dropped⟩
  | reset =>
    obtain ⟨kept, emptied⟩ := reset_spec consistent
    exact ⟨_, rfl, kept, emptied⟩

theorem copiesInside {queue : ByteBuffer} (consistent : queue.Consistent) (op : BufferOp)
    (allowed : queue.Allowed op) : queue.CopiesInside op := by
  have ordered := consistent.offPtr_le
  have inside := consistent.currPtr_le
  have fits := consistent.fits
  have full := consistent.size_eq
  cases op with
  | put bytes =>
    obtain ⟨kept, -, -, room⟩ := wrReserve_spec consistent allowed
    have reserved := kept.currPtr_le
    rw [kept.wrSize_eq, wrReserve_currPtr] at room
    rw [wrReserve_currPtr] at reserved
    show queue.currPtr + bytes.length ≤ _
    rw [kept.size_eq]
    omega
  | write bytes =>
    have room : bytes.length ≤ queue.maxSize - queue.currPtr :=
      allowed.trans_eq consistent.wrSize_eq
    show queue.currPtr + bytes.length ≤ _
    omega
  | rdFlip size =>
    have pending : size ≤ queue.currPtr - queue.offPtr := allowed.trans_eq consistent.rdSize_eq
    have consumed : Word.add 32 queue.offPtr size = queue.offPtr + size :=
      Word.add_of_lt (by omega)
    intro remaining apart
    have counted := Word.sub_of_le remaining.le (inside.trans_lt fits)
    exact ⟨by omega, Or.inl (by omega)⟩
  | wrReserve size => trivial
  | reset => trivial

/-- A buffer is a FIFO queue of bytes. In every run of uses from the constructor in which nothing
wraps, the run is defined; at every moment the indices are in order and the vector is as large as
they say; the pending bytes are what the queue of the same uses holds; reserving leaves them alone
and makes the room it was asked for; and the next use copies inside the vector only. -/
theorem refines_fifo (ops : List BufferOp)
    (allowed : PartialRun.Each step Allowed new ops) :
    ∃ queue, PartialRun.run step new ops = some queue ∧
      queue.offPtr ≤ queue.currPtr ∧ queue.currPtr ≤ queue.maxSize ∧
      queue.maxSize = queue.buffer.length ∧
      queue.unread = ops.foldl BufferOp.enact [] ∧
      (∀ size, queue.NoWrap size →
        (queue.wrReserve size).unread = queue.unread ∧
          size ≤ (queue.wrReserve size).wrSize) ∧
      ∀ op, queue.Allowed op → queue.CopiesInside op := by
  obtain ⟨queue, reached, consistent, enacted⟩ :=
    PartialRun.run_refines Consistent unread BufferOp.enact id
      (fun queue op consistent allowed => step_enacts op consistent allowed) new_consistent
      allowed
  rw [List.map_id] at enacted
  refine ⟨queue, reached, consistent.offPtr_le, consistent.currPtr_le, consistent.size_eq.symm,
    enacted, fun size noWrap => ?_, copiesInside consistent⟩
  obtain ⟨-, same, -, room⟩ := wrReserve_spec consistent noWrap
  exact ⟨same, by omega⟩

/-- The refinement, run on a write of three bytes and a read of one. -/
theorem refines_fifo_write_read :
    ∃ queue, PartialRun.run step new [.put [1, 2, 3], .rdFlip 1] = some queue ∧
      queue.unread = [2, 3] := by
  obtain ⟨written, stored, kept, appended, -⟩ := @new_put [1, 2, 3] (by decide)
  have readable : 1 ≤ written.rdSize := by
    rw [kept.rdSize_eq_length, appended]
    decide
  have first : new.step (.put [1, 2, 3]) = some written := stored
  obtain ⟨queue, reached, -, -, -, pending, -⟩ := refines_fifo [.put [1, 2, 3], .rdFlip 1]
    ((PartialRun.each_cons_of_step first).mpr
      ⟨new_noWrap (by decide), PartialRun.each_singleton.mpr readable⟩)
  exact ⟨queue, reached, pending⟩

end ByteBuffer

end SelftestNet
