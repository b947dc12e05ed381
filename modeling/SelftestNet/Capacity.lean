/-
This file proves two laws of the growth of a buffer. While nothing wraps, the capacity
stays within the pending bytes and the requests, however long the run is: consumed
bytes never outnumber pending ones, and a growth that ignores them starts from a
vector they leave short. And a `put` that `sendCmd` can pass keeps to the vector
exactly as long as the new capacity fits into 32 bits. The code tests for the
overflow, but the bodies of its tests are empty, so nothing refuses the growth that
shrinks the vector.
-/

import SelftestNet.ByteBuffer

namespace SelftestNet

namespace ByteBuffer

/-! ### The capacity after one use -/

/-- The growth starts from a vector that is too short, so the new capacity is bounded by the write
index and the request. -/
theorem capacityFor_le (queue : ByteBuffer) {size : Nat} {bound : Nat}
    (small : queue.maxSize ≤ bound)
    (grown : queue.currPtr + 2 * size + 16 + trunkSize ≤ bound) :
    queue.capacityFor size ≤ bound := by
  have rounded := roundUp_lt (size + 8)
  unfold capacityFor
  split
  · omega
  · exact small

/-- The number of bytes that a use of the buffer asks `wr_reserve` for. -/
def requested : BufferOp → Nat
  | .put bytes => bytes.length
  | .wrReserve size => size
  | .write _ | .rdFlip _ | .reset => 0

/-- The capacity after an allowed use is the old one, or what a request needs. -/
theorem step_maxSize {queue next : ByteBuffer} (op : BufferOp) (consistent : queue.Consistent)
    (allowed : queue.Allowed op) (stepped : queue.step op = some next) :
    next.maxSize = queue.maxSize ∨ next.maxSize = queue.capacityFor (requested op) := by
  cases op with
  | put bytes =>
    obtain ⟨grown, defined, -, -, -, maxSize⟩ := put_grown consistent allowed
    obtain rfl := Option.some.inj (defined.symm.trans stepped)
    exact Or.inr maxSize
  | wrReserve size =>
    obtain ⟨-, -, maxSize, -⟩ := wrReserve_spec consistent allowed
    obtain rfl := Option.some.inj stepped
    exact Or.inr maxSize
  | write bytes =>
    obtain ⟨filled, written, rfl⟩ := Option.map_eq_some_iff.mp stepped
    obtain ⟨-, -, maxSize, -⟩ := fill_spec consistent written
    exact Or.inl maxSize
  | rdFlip size =>
    obtain ⟨flipped, defined, -, -, maxSize⟩ :=
      rdFlip_spec consistent (allowed.trans_eq consistent.rdSize_eq_length)
    obtain rfl := Option.some.inj (defined.symm.trans stepped)
    exact Or.inl maxSize
  | reset =>
    obtain rfl := Option.some.inj stepped
    exact Or.inl rfl

/-! ### Capacity and pending bytes -/

/-- The use is allowed, asks for at most `request` bytes and leaves at most `backlog` bytes
pending. -/
def Modest (backlog request : Nat) (queue : ByteBuffer) (op : BufferOp) : Prop :=
  queue.Allowed op ∧ requested op ≤ request ∧
    ∀ next, queue.step op = some next → next.rdSize ≤ backlog

theorem modest_of_step {backlog request : Nat} {queue next : ByteBuffer} {op : BufferOp}
    (stepped : queue.step op = some next) (kept : next.Consistent) (allowed : queue.Allowed op)
    (size : requested op ≤ request) (pending : next.unread.length ≤ backlog) :
    queue.Modest backlog request op := by
  refine ⟨allowed, size, fun later reached => ?_⟩
  obtain rfl := Option.some.inj (stepped.symm.trans reached)
  exact kept.rdSize_eq_length.trans_le pending

/-- The bounds on the indices and the capacity of a buffer. -/
structure Bounded (backlog request : Nat) (queue : ByteBuffer) : Prop where
  consistent : queue.Consistent
  pending : queue.rdSize ≤ backlog
  maxSize : queue.maxSize ≤ 2 * backlog + 2 * request + trunkSize + 16

theorem new_bounded (backlog request : Nat) : new.Bounded backlog request where
  consistent := new_consistent
  pending := Nat.zero_le _
  maxSize := by
    show trunkSize ≤ _
    omega

/-- Consumed bytes never outnumber pending ones, so pending bytes bound both indices. -/
theorem Bounded.indices {backlog request : Nat} {queue : ByteBuffer}
    (bounded : queue.Bounded backlog request) :
    queue.offPtr ≤ backlog ∧ queue.currPtr ≤ 2 * backlog := by
  have ordered := bounded.consistent.offPtr_le
  have compact := bounded.consistent.compact
  have pending := bounded.pending
  rw [bounded.consistent.rdSize_eq] at pending
  omega

/-- One modest use keeps the bounds. -/
theorem Bounded.step {backlog request : Nat} {queue : ByteBuffer}
    (bounded : queue.Bounded backlog request) (op : BufferOp)
    (modest : queue.Modest backlog request op) :
    ∃ next, queue.step op = some next ∧ next.Bounded backlog request := by
  obtain ⟨allowed, size, pending⟩ := modest
  obtain ⟨next, stepped, kept, -⟩ := step_enacts op bounded.consistent allowed
  refine ⟨next, stepped, kept, pending next stepped, ?_⟩
  have small := bounded.maxSize
  obtain ⟨-, currPtr⟩ := bounded.indices
  rcases step_maxSize op bounded.consistent allowed stepped with same | grown
  · omega
  · rw [grown]
    exact queue.capacityFor_le small (by omega)

/-- Capacity stays proportional to the pending bytes. In every run of uses from the constructor in
which nothing wraps, at most `backlog` bytes are pending after every use and no use asks for more
than `request` bytes, the run is defined, and at every moment the read index is at most
`backlog`, the write index at most twice that, and the capacity at most twice the backlog and the
request together, and a trunk. -/
theorem capacity_le_pending (backlog request : Nat) (ops : List BufferOp)
    (modest : PartialRun.Each step (Modest backlog request) new ops) :
    ∃ queue, PartialRun.run step new ops = some queue ∧
      queue.offPtr ≤ backlog ∧ queue.currPtr ≤ 2 * backlog ∧
      queue.maxSize ≤ 2 * backlog + 2 * request + trunkSize + 16 := by
  obtain ⟨queue, reached, bounded⟩ := PartialRun.run_defined (Bounded backlog request)
    (fun queue op bounded modest => bounded.step op modest) (new_bounded backlog request) modest
  obtain ⟨offPtr, currPtr⟩ := bounded.indices
  exact ⟨queue, reached, offPtr, currPtr, bounded.maxSize⟩

/-- The bounds, run on a `put`, a read of a part of it and a write behind a reservation. -/
theorem capacity_le_pending_reused :
    ∃ queue, PartialRun.run step new [.put [1, 2, 3], .rdFlip 2, .wrReserve 4, .write [5]] =
        some queue ∧
      queue.offPtr ≤ 3 ∧ queue.currPtr ≤ 2 * 3 ∧
      queue.maxSize ≤ 2 * 3 + 2 * 4 + trunkSize + 16 := by
  obtain ⟨stored, put, kept, pending, -, maxSize⟩ := @new_put [1, 2, 3] (by decide)
  have readable : 2 ≤ stored.unread.length := by
    rw [pending]
    decide
  obtain ⟨flipped, read, keptRead, rest, sameSize⟩ := rdFlip_spec kept readable
  rw [pending] at rest
  have noWrap : flipped.NoWrap 4 := keptRead.noWrap_of_backlog (sameSize.trans maxSize).ge
    (by rw [rest]; decide)
  obtain ⟨keptRoom, same, -, room⟩ := wrReserve_spec keptRead noWrap
  have inside : [(5 : UInt8)].length ≤ (flipped.wrReserve 4).wrSize :=
    (by decide : 1 ≤ 4 + 8).trans room
  obtain ⟨filled, written⟩ := fill_defined keptRoom inside
  obtain ⟨keptWrite, appended, -⟩ := fill_spec keptRoom written
  have first : new.step (.put [1, 2, 3]) = some stored := put
  have second : stored.step (.rdFlip 2) = some flipped := read
  have third : flipped.step (.wrReserve 4) = some (flipped.wrReserve 4) := rfl
  have fourth : (flipped.wrReserve 4).step (.write [5]) =
      some (filled.wrFlip [(5 : UInt8)].length) := congrArg (Option.map _) written
  refine capacity_le_pending 3 4 _ ((PartialRun.each_cons_of_step first).mpr ⟨?_,
    (PartialRun.each_cons_of_step second).mpr ⟨?_, (PartialRun.each_cons_of_step third).mpr ⟨?_,
      PartialRun.each_singleton.mpr ?_⟩⟩⟩)
  · exact modest_of_step first kept (new_noWrap (by decide)) (by decide)
      (by rw [pending]; decide)
  · exact modest_of_step second keptRead (readable.trans_eq kept.rdSize_eq_length.symm)
      (by decide) (by rw [rest]; decide)
  · exact modest_of_step third keptRoom noWrap (by decide) (by rw [same, rest]; decide)
  · exact modest_of_step fourth keptWrite inside (by decide)
      (by rw [appended, same, rest]; decide)

/-! ### Growth at the end of the address space -/

/-- The uses that the sending half of a socket makes of a buffer: `sendCmd` passes lengths that are
positive as an `int`, and what is consumed is pending. -/
def PutOrFlip (queue : ByteBuffer) : BufferOp → Prop
  | .put bytes => 0 < bytes.length ∧ bytes.length < 2 ^ 31
  | .rdFlip size => size ≤ queue.rdSize
  | .wrReserve _ | .write _ | .reset => False

/-- A `put` refuses its bytes and leaves the buffer as it is, or stores all of them inside the
vector, which does not shrink. -/
def StoresOrRefuses (queue : ByteBuffer) : BufferOp → Prop
  | .put bytes => ∃ next, queue.put bytes = some next ∧ (next = queue ∨
      next.unread = queue.unread ++ bytes ∧
        next.currPtr = queue.currPtr + bytes.length ∧ next.currPtr ≤ next.maxSize ∧
        next.maxSize = next.buffer.length ∧ queue.maxSize ≤ next.maxSize)
  | .wrReserve _ | .write _ | .rdFlip _ | .reset => True

/-- A `put` that finds too little room adds a growth to the capacity that fits into 32 bits. -/
def GrowthFits (queue : ByteBuffer) : BufferOp → Prop
  | .put bytes => queue.maxSize - queue.currPtr < bytes.length + 8 →
      queue.maxSize + roundUp (bytes.length + 8) < 2 ^ 32
  | .wrReserve _ | .write _ | .rdFlip _ | .reset => True

/-- For the lengths of `sendCmd`, the growth is the only sum that can wrap. -/
theorem noWrap_of_growthFits {queue : ByteBuffer} {bytes : List UInt8}
    (size : bytes.length < 2 ^ 31) (fits : queue.GrowthFits (.put bytes)) :
    queue.NoWrap bytes.length :=
  ⟨by omega, fun grows => ⟨by simp only [trunkSize]; omega, fits grows⟩⟩

/-- A `put` that is defined has not wrapped. -/
theorem growthFits_of_put {queue next : ByteBuffer} (consistent : queue.Consistent)
    {bytes : List UInt8} (size : bytes.length < 2 ^ 31) (defined : queue.put bytes = some next) :
    queue.GrowthFits (.put bytes) := by
  intro grows
  have added : addSize bytes.length = roundUp (bytes.length + 8) :=
    addSize_eq (by simp only [trunkSize]; omega)
  have bounded := addSize_le bytes.length
  simp only [trunkSize] at bounded
  rw [put_eq] at defined
  obtain ⟨filled, written, -⟩ := Option.map_eq_some_iff.mp defined
  rw [← added]
  exact growth_of_fill consistent (by omega) (by omega) written grows

theorem storesOrRefuses_iff {queue : ByteBuffer} (consistent : queue.Consistent) (op : BufferOp)
    (handed : queue.PutOrFlip op) : queue.StoresOrRefuses op ↔ queue.GrowthFits op := by
  cases op with
  | put bytes =>
    obtain ⟨-, size⟩ := handed
    constructor
    · rintro ⟨next, defined, -⟩
      exact growthFits_of_put consistent size defined
    · intro fits
      obtain ⟨next, defined, kept, appended, currPtr, maxSize⟩ :=
        put_grown consistent (noWrap_of_growthFits size fits)
      refine ⟨next, defined, Or.inr
        ⟨appended, currPtr, kept.currPtr_le, kept.size_eq.symm, ?_⟩⟩
      rw [maxSize, capacityFor]
      split
      · exact Nat.le_add_right _ _
      · exact Nat.le_refl _
  | wrReserve size => exact handed.elim
  | write bytes => exact handed.elim
  | rdFlip size => exact Iff.rfl
  | reset => exact handed.elim

/-- A use that is defined keeps the buffer consistent. -/
theorem consistent_of_putOrFlip {queue next : ByteBuffer} (consistent : queue.Consistent)
    (op : BufferOp) (handed : queue.PutOrFlip op) (stepped : queue.step op = some next) :
    next.Consistent := by
  cases op with
  | put bytes => exact (put_spec consistent stepped).1
  | wrReserve size => exact handed.elim
  | write bytes => exact handed.elim
  | rdFlip size =>
    obtain ⟨flipped, defined, kept, -⟩ :=
      rdFlip_spec consistent (handed.trans_eq consistent.rdSize_eq_length)
    exact Option.some.inj (defined.symm.trans stepped) ▸ kept
  | reset => exact handed.elim

/-- Growth is safe exactly while it does not wrap. In every run of `put` and `rd_flip`, every `put`
stores its bytes inside the vector or refuses them if and only if no `put` needs a capacity that
does not fit into 32 bits. -/
theorem storesOrRefuses_iff_growthFits (ops : List BufferOp)
    (handed : PartialRun.Each step PutOrFlip new ops) :
    PartialRun.Each step StoresOrRefuses new ops ↔ PartialRun.Each step GrowthFits new ops :=
  PartialRun.each_congr_of_each Consistent
    (fun _ op _ consistent handed _ stepped => consistent_of_putOrFlip consistent op handed stepped)
    (fun _ op consistent handed => storesOrRefuses_iff consistent op handed) new_consistent handed

/-- The law of growth, at two `put`s with a read between them. -/
theorem storesOrRefuses_iff_growthFits_reused :
    PartialRun.Each step StoresOrRefuses new [.put [1, 2, 3], .rdFlip 2, .put [4]] ↔
      PartialRun.Each step GrowthFits new [.put [1, 2, 3], .rdFlip 2, .put [4]] := by
  obtain ⟨stored, put, kept, pending, -⟩ := @new_put [1, 2, 3] (by decide)
  have readable : 2 ≤ stored.unread.length := by
    rw [pending]
    decide
  have first : new.step (.put [1, 2, 3]) = some stored := put
  refine storesOrRefuses_iff_growthFits _ ((PartialRun.each_cons_of_step first).mpr
    ⟨⟨by decide, by decide⟩, readable.trans_eq kept.rdSize_eq_length.symm, fun next _ => ?_⟩)
  exact PartialRun.each_singleton.mpr ⟨Nat.one_pos, (by decide : 1 < 2 ^ 31)⟩

/-- Behind a `put` of the longest command, another one does not find room below `2 ^ 32`. -/
theorem not_growthFits_longest {queue : ByteBuffer} {bytes : List UInt8}
    (size : bytes.length = 2 ^ 31 - 1) (stepped : new.step (.put bytes) = some queue) :
    ¬ queue.GrowthFits (.put bytes) := by
  have rounded : roundUp (bytes.length + 8) = 2 ^ 31 + trunkSize := by
    rw [size]
    decide
  have start : new.maxSize = trunkSize ∧ new.currPtr = 0 := ⟨rfl, rfl⟩
  obtain ⟨capacity, index⟩ := start
  have fits : new.GrowthFits (.put bytes) := by
    intro _
    rw [rounded, capacity]
    decide
  obtain ⟨next, defined, -, -, currPtr, maxSize⟩ :=
    put_grown new_consistent (noWrap_of_growthFits (by omega) fits)
  obtain rfl := Option.some.inj (defined.symm.trans stepped)
  rw [capacityFor, capacity, index, rounded, size, if_pos (by decide)] at maxSize
  rw [index, size] at currPtr
  intro another
  have wraps := another (by rw [maxSize, currPtr, size]; decide)
  rw [maxSize, rounded] at wraps
  exact absurd wraps (by decide)

/-- The second of two longest commands neither fits nor is refused. -/
theorem second_longest_put_wraps :
    PartialRun.Each step PutOrFlip new
        [.put (List.replicate (2 ^ 31 - 1) 0), .put (List.replicate (2 ^ 31 - 1) 0)] ∧
      ¬ PartialRun.Each step StoresOrRefuses new
        [.put (List.replicate (2 ^ 31 - 1) 0), .put (List.replicate (2 ^ 31 - 1) 0)] := by
  have size : (List.replicate (2 ^ 31 - 1) (0 : UInt8)).length = 2 ^ 31 - 1 :=
    List.length_replicate
  generalize List.replicate (2 ^ 31 - 1) (0 : UInt8) = bytes at size
  have handed : ∀ queue : ByteBuffer, queue.PutOrFlip (.put bytes) := fun _ =>
    ⟨by omega, by omega⟩
  refine ⟨⟨handed _, fun next _ => ⟨handed next, fun _ _ => trivial⟩⟩, fun stores => ?_⟩
  obtain ⟨next, defined, -⟩ := stores.1
  have kept := (put_spec new_consistent defined).1
  exact not_growthFits_longest size defined
    ((storesOrRefuses_iff kept _ (handed next)).mp (stores.2 next defined).1)

end ByteBuffer

end SelftestNet
