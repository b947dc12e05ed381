/-
This file proves that the receiving half of a socket is the reference parser of its
packet format, cut into calls. The bytes that `recvToBuf_NoPoll` appends and the
packets that `recvToCmd_NoPoll` takes meet in `_rcv_queue`, whose pending bytes are
at every moment the received stream behind the packets taken so far; so neither the
chunks of the stream nor the moments of the calls can be told from the packets.

The second result is about the buffer that a packet is copied into. Nothing compares
the length of the payload with the length of that buffer, so a run keeps inside its
buffers exactly when the packets it takes are short enough.
-/

import Mathlib.Data.Nat.Bitwise
import SelftestNet.Framing
import SelftestNet.Socket

namespace SelftestNet

open Framing

/-! ### The packet format -/

/-- The format of the stream: a little-endian header of four bytes, whose value modulo `65536` is
the number of payload bytes. -/
def packetFormat : Format UInt8 where
  headerLen := phLen
  headerLen_pos := by decide
  payloadLen header := Nat.ofDigits 256 (header.map UInt8.toNat) % 65536

theorem packetFormat_payloadLen_lt (header : List UInt8) :
    packetFormat.payloadLen header < trunkSize := Nat.mod_lt _ (by decide)

/-- The packet in front of the pending bytes, if it is complete, has a payload of at most `length`
bytes. -/
def FrontFits (pending : List UInt8) (length : Nat) : Prop :=
  ∀ payload rest, nextFrame packetFormat pending = some (payload, rest) →
    payload.length ≤ length

namespace ZSocket

theorem packetSize_eq (header : List UInt8) :
    packetSize header = phLen + packetFormat.payloadLen header :=
  congrArg (phLen + ·) (Nat.and_two_pow_sub_one_eq_mod _ 16)

/-! ### One call -/

/-- The two counters of the receiving half agree: `_rcv_raw_size` is the number of pending bytes
of `_rcv_queue`. -/
structure ReceiveConsistent (socket : ZSocket) : Prop where
  queue : socket.rcvQueue.Consistent
  rawSize : socket.rcvRawSize = socket.rcvQueue.unread.length

theorem new_receiveConsistent (sock : Int) : (new sock).ReceiveConsistent where
  queue := ByteBuffer.new_consistent
  rawSize := rfl

/-- The bytes that `recvToBuf_NoPoll` receives when the kernel gives the answer. -/
def incoming (socket : ZSocket) (answer : RecvAnswer) : List UInt8 :=
  answer.bytes socket.reserve.rcvQueue.wrSize

/-- The bytes that `recvToBuf` receives when the kernel gives the answers. -/
def incomingPolled (socket : ZSocket) (io : RecvIo) : List UInt8 :=
  if socket.issetFlag incompleteRead then
    if waitForWrite io.poll = 1 then io.second.bytes socket.rcvQueue.wrSize else []
  else if io.first = .wouldBlock then
    if waitForWrite io.poll = 1 then io.second.bytes socket.reserve.rcvQueue.wrSize else []
  else io.first.bytes socket.reserve.rcvQueue.wrSize

end ZSocket

namespace RecvAnswer

/-- The answer says that nothing will come any more. -/
def Broken (answer : RecvAnswer) : Prop := answer = closed ∨ answer = failed

instance (answer : RecvAnswer) : Decidable answer.Broken := inferInstanceAs (Decidable (_ ∨ _))

theorem length_bytes_le (length : Nat) (answer : RecvAnswer) :
    (answer.bytes length).length ≤ length := by
  cases answer with
  | data first rest =>
    rw [bytes, List.length_take]
    omega
  | wouldBlock | closed | failed => exact Nat.zero_le _

/-- A `::recv` that gives nothing does not return a positive count. -/
theorem retcode_nonpos {length : Nat} {answer : RecvAnswer} (nothing : answer.bytes length = []) :
    answer.retcode length ≤ 0 := by
  cases answer with
  | data first rest =>
    rw [retcode, nothing]
    exact Int.le_refl _
  | wouldBlock | failed => exact Int.neg_nonpos_of_nonneg Int.one_nonneg
  | closed => exact Int.le_refl _

theorem retcode_eq {length : Nat} {answer : RecvAnswer} (some : answer.bytes length ≠ []) :
    answer.retcode length = (answer.bytes length).length := by
  cases answer with
  | data first rest => rfl
  | wouldBlock | closed | failed => exact absurd rfl some

end RecvAnswer

namespace ZSocket

/-- A growth of `_rcv_queue` that wraps leaves no room for `wr_buf()`. -/
theorem reserved_of_fill {queue filled : ByteBuffer} (consistent : queue.Consistent)
    {bytes : List UInt8}
    (defined : (queue.wrReserve maxDataBufferSize).fill bytes = some filled) :
    queue.NoWrap maxDataBufferSize := by
  have grown : ByteBuffer.addSize maxDataBufferSize = 131072 := by decide
  have rounded : ByteBuffer.roundUp (maxDataBufferSize + 8) = 131072 := by decide
  have capacity : maxDataBufferSize = 65535 := rfl
  refine ⟨by decide, fun grows => ⟨by decide, ?_⟩⟩
  have fits := ByteBuffer.growth_of_fill consistent (by decide) (by omega) defined grows
  rwa [rounded, ← grown]

/-- A `::recv` that gives nothing changes nothing. -/
theorem recvInto_nothing {socket filled : ZSocket} {answer : RecvAnswer}
    (nothing : answer.bytes socket.rcvQueue.wrSize = [])
    (written : socket.recvInto answer = some filled) : filled = socket := by
  obtain ⟨rcvQueue, stored, rfl⟩ := Option.map_eq_some_iff.mp written
  rw [nothing] at stored
  obtain rfl := ByteBuffer.fill_nil stored
  rfl

theorem recvInto_defined {socket : ZSocket} (consistent : socket.ReceiveConsistent)
    (answer : RecvAnswer) : ∃ filled, socket.recvInto answer = some filled := by
  obtain ⟨rcvQueue, stored⟩ := ByteBuffer.fill_defined consistent.queue
    (RecvAnswer.length_bytes_le _ answer)
  exact ⟨_, congrArg (Option.map _) stored⟩

/-- Reserving makes room for `MAX_DATABUFFERSIZE` bytes, and eight more, and changes nothing
else. -/
theorem reserve_spec {socket : ZSocket} (consistent : socket.ReceiveConsistent)
    (noWrap : socket.rcvQueue.NoWrap maxDataBufferSize) :
    socket.reserve.ReceiveConsistent ∧
      socket.reserve.rcvQueue.unread = socket.rcvQueue.unread ∧
      socket.reserve.rcvQueue.maxSize = socket.rcvQueue.capacityFor maxDataBufferSize ∧
      maxDataBufferSize + 8 ≤ socket.reserve.rcvQueue.wrSize := by
  obtain ⟨kept, same, maxSize, room⟩ := ByteBuffer.wrReserve_spec consistent.queue noWrap
  exact ⟨⟨kept, consistent.rawSize.trans (congrArg List.length same.symm)⟩, same, maxSize, room⟩

/-- A `::recv` into `_rcv_queue`, with what follows it, appends the bytes that the kernel gives and
counts them. -/
theorem afterRecv_spec {socket filled : ZSocket} {answer : RecvAnswer}
    (consistent : socket.ReceiveConsistent) (written : socket.recvInto answer = some filled) :
    let after := filled.afterRecv (answer.retcode socket.rcvQueue.wrSize)
    after.1.ReceiveConsistent ∧
      after.1.rcvQueue.unread =
        socket.rcvQueue.unread ++ answer.bytes socket.rcvQueue.wrSize ∧
      after.1.rcvQueue.maxSize = socket.rcvQueue.maxSize ∧
      after.1.sndQueue = socket.sndQueue ∧ after.1.encQueue = socket.encQueue := by
  obtain ⟨rcvQueue, stored, rfl⟩ := Option.map_eq_some_iff.mp written
  by_cases nothing : answer.bytes socket.rcvQueue.wrSize = []
  · have stays : ¬ 0 < answer.retcode socket.rcvQueue.wrSize :=
      Int.not_lt.mpr (RecvAnswer.retcode_nonpos nothing)
    rw [nothing] at stored ⊢
    obtain rfl := ByteBuffer.fill_nil stored
    rw [List.append_nil, afterRecv, if_neg stays]
    split <;> exact ⟨consistent, rfl, rfl, rfl, rfl⟩
  · obtain ⟨flipped, appended, maxSize, -, -, -⟩ := ByteBuffer.fill_spec consistent.queue stored
    have pending := congrArg List.length appended
    have total := flipped.length_unread
    have bounded := flipped.currPtr_le
    have fits := flipped.fits
    rw [List.length_append] at pending
    have counted : Word.add 32 socket.rcvRawSize (answer.bytes socket.rcvQueue.wrSize).length =
        socket.rcvQueue.unread.length + (answer.bytes socket.rcvQueue.wrSize).length := by
      rw [consistent.rawSize]
      exact Word.add_of_lt (by omega)
    have positive : (0 : Int) < (answer.bytes socket.rcvQueue.wrSize).length :=
      Int.natCast_pos.mpr (List.length_pos_iff.mpr nothing)
    rw [RecvAnswer.retcode_eq nothing, afterRecv, if_pos positive, Int.toNat_natCast]
    dsimp only
    split <;> exact ⟨⟨flipped, counted.trans pending.symm⟩, appended, maxSize, rfl, rfl⟩

/-- With room, `recvToBuf_NoPoll` and `recvToBuf` return `-1` behind a `::recv` exactly when it met
an error or the end of the stream. -/
theorem afterRecv_retcode (socket : ZSocket) (answer : RecvAnswer) {length : Nat}
    (room : 0 < length) :
    (socket.afterRecv (answer.retcode length)).2 = -1 ↔
      answer.Broken ∨ answer = .wouldBlock := by
  cases answer with
  | data first rest =>
    have positive : 0 < (RecvAnswer.data first rest).retcode length := by
      rw [RecvAnswer.retcode, RecvAnswer.bytes, List.length_take, List.length_cons, intMax]
      omega
    rw [afterRecv, if_pos positive]
    refine iff_of_false (fun returned => ?_) (by rintro ((same | same) | same) <;> cases same)
    change (RecvAnswer.data first rest).retcode length = -1 at returned
    omega
  | wouldBlock => exact iff_of_true rfl (Or.inr rfl)
  | closed => exact iff_of_true rfl (Or.inl (Or.inl rfl))
  | failed => exact iff_of_true rfl (Or.inl (Or.inr rfl))

/-- A defined `::recv` behind a `wr_reserve` says that the capacity did not wrap. -/
theorem noWrap_of_recvInto {socket filled : ZSocket} {answer : RecvAnswer}
    (consistent : socket.ReceiveConsistent)
    (written : socket.reserve.recvInto answer = some filled) :
    socket.rcvQueue.NoWrap maxDataBufferSize := by
  obtain ⟨rcvQueue, stored, -⟩ := Option.map_eq_some_iff.mp written
  exact reserved_of_fill consistent.queue stored

/-- What a defined `recvToBuf_NoPoll` does: it appends what the kernel gives, counts it, and
returns `-1` exactly at the end of the stream or at an error. -/
theorem recvToBufNoPoll_spec {socket next : ZSocket} {answer : RecvAnswer} {retcode : Int}
    (consistent : socket.ReceiveConsistent)
    (defined : socket.recvToBufNoPoll answer = some (next, retcode)) :
    next.ReceiveConsistent ∧
      next.rcvQueue.unread = socket.rcvQueue.unread ++ socket.incoming answer ∧
      (retcode = -1 ↔ answer.Broken) ∧
      next.rcvQueue.maxSize = socket.rcvQueue.capacityFor maxDataBufferSize ∧
      next.sndQueue = socket.sndQueue ∧ next.encQueue = socket.encQueue := by
  obtain ⟨filled, written, result⟩ := Option.map_eq_some_iff.mp defined
  obtain ⟨kept, same, capacity, room⟩ :=
    reserve_spec consistent (noWrap_of_recvInto consistent written)
  obtain ⟨after, appended, maxSize, snd, enc⟩ := afterRecv_spec kept written
  rw [same] at appended
  rw [capacity] at maxSize
  by_cases blocked : answer = .wouldBlock
  · subst blocked
    obtain rfl := recvInto_nothing rfl written
    obtain ⟨rfl, rfl⟩ := Prod.mk.inj result
    exact ⟨after, appended, by decide, maxSize, snd, enc⟩
  · rw [if_neg blocked] at result
    have returned := (filled.afterRecv_retcode answer (Nat.lt_of_lt_of_le (by decide) room)).trans
      (or_iff_left blocked)
    rw [result] at after appended returned maxSize snd enc
    exact ⟨after, appended, returned, maxSize, snd, enc⟩

/-- `recvToBuf_NoPoll` never clears the flag. -/
theorem recvToBufNoPoll_flag {socket next : ZSocket} {answer : RecvAnswer} {retcode : Int}
    (set : socket.issetFlag incompleteRead = true)
    (defined : socket.recvToBufNoPoll answer = some (next, retcode)) :
    next.issetFlag incompleteRead = true := by
  obtain ⟨filled, written, result⟩ := Option.map_eq_some_iff.mp defined
  obtain ⟨rcvQueue, -, rfl⟩ := Option.map_eq_some_iff.mp written
  unfold afterRecv at result
  split at result
  · exact (Prod.mk.inj result).1 ▸ set
  · split at result
    · rw [← (Prod.mk.inj result).1]
      dsimp only
      split
      · exact issetFlag_setFlag _ (by decide)
      · exact set
    · split at result <;> exact (Prod.mk.inj result).1 ▸ set

/-- While the capacity of `_rcv_queue` does not wrap, `recvToBuf_NoPoll` is defined. -/
theorem recvToBufNoPoll_defined {socket : ZSocket} (consistent : socket.ReceiveConsistent)
    (answer : RecvAnswer) (noWrap : socket.rcvQueue.NoWrap maxDataBufferSize) :
    ∃ next retcode, socket.recvToBufNoPoll answer = some (next, retcode) := by
  obtain ⟨filled, written⟩ := recvInto_defined (reserve_spec consistent noWrap).1 answer
  exact ⟨_, _, congrArg (Option.map _) written⟩

/-- What `recvToBuf` does from its label on: it appends what the kernel gives. -/
theorem selectRecv_spec {socket next : ZSocket} {io : RecvIo} {retcode : Int}
    (consistent : socket.ReceiveConsistent)
    (defined : socket.selectRecv io = some (next, retcode)) :
    next.ReceiveConsistent ∧ next.rcvQueue.unread = socket.rcvQueue.unread ++
      if waitForWrite io.poll = 1 then io.second.bytes socket.rcvQueue.wrSize else [] := by
  by_cases ready : waitForWrite io.poll = 1
  · rw [selectRecv, if_pos ready] at defined
    obtain ⟨filled, written, result⟩ := Option.map_eq_some_iff.mp defined
    obtain ⟨after, appended, -⟩ := afterRecv_spec consistent written
    rw [result] at after appended
    exact ⟨after, by rw [if_pos ready]; exact appended⟩
  · rw [selectRecv, if_neg ready] at defined
    obtain ⟨rfl, -⟩ := Prod.mk.inj (Option.some.inj defined)
    exact ⟨consistent, by rw [if_neg ready, List.append_nil]⟩

/-- What a defined `recvToBuf` does: it appends what the kernel gives. -/
theorem recvToBuf_spec {socket next : ZSocket} {io : RecvIo} {retcode : Int}
    (consistent : socket.ReceiveConsistent)
    (defined : socket.recvToBuf io = some (next, retcode)) :
    next.ReceiveConsistent ∧
      next.rcvQueue.unread = socket.rcvQueue.unread ++ socket.incomingPolled io := by
  by_cases flag : socket.issetFlag incompleteRead
  · rw [recvToBuf, if_pos flag] at defined
    rw [incomingPolled, if_pos flag]
    have cleared : (socket.clearFlag incompleteRead).ReceiveConsistent :=
      ⟨consistent.queue, consistent.rawSize⟩
    have polled := selectRecv_spec cleared defined
    exact polled
  · rw [recvToBuf, if_neg flag] at defined
    rw [incomingPolled, if_neg flag]
    obtain ⟨filled, written, result⟩ := Option.bind_eq_some_iff.mp defined
    obtain ⟨kept, same, -, -⟩ := reserve_spec consistent (noWrap_of_recvInto consistent written)
    by_cases blocked : io.first = .wouldBlock
    · rw [if_pos blocked] at result
      rw [if_pos blocked, ← same]
      obtain rfl := recvInto_nothing (by rw [blocked, RecvAnswer.bytes]) written
      exact selectRecv_spec kept result
    · rw [if_neg blocked] at result
      rw [if_neg blocked, ← same]
      obtain ⟨after, appended, -⟩ := afterRecv_spec kept written
      rw [Option.some.inj result] at after appended
      exact ⟨after, appended⟩

/-- Behind a `::recv` the value is the number of bytes it gave, and `-1` when it gave none. -/
theorem afterRecv_value (socket : ZSocket) (answer : RecvAnswer) (length : Nat) :
    (socket.afterRecv (answer.retcode length)).2 =
      if answer.bytes length = [] then -1 else ((answer.bytes length).length : Int) := by
  by_cases nothing : answer.bytes length = []
  · rw [if_pos nothing, afterRecv, if_neg (Int.not_lt.mpr (RecvAnswer.retcode_nonpos nothing))]
    cases answer with
    | data first rest => rw [RecvAnswer.retcode, nothing, List.length_nil, if_pos Int.ofNat_zero]
    | wouldBlock | closed | failed => rfl
  · have positive : (0 : Int) < (answer.bytes length).length :=
      Int.natCast_pos.mpr (List.length_pos_iff.mpr nothing)
    rw [if_neg nothing, RecvAnswer.retcode_eq nothing, afterRecv, if_pos positive]

/-- The value of `recvToBuf` from its label on: the answer of the wait unless it is `1`. -/
theorem selectRecv_value {socket next : ZSocket} {io : RecvIo} {retcode : Int}
    (defined : socket.selectRecv io = some (next, retcode)) :
    retcode = if waitForWrite io.poll = 1 then
        if io.second.bytes socket.rcvQueue.wrSize = [] then -1
        else ((io.second.bytes socket.rcvQueue.wrSize).length : Int)
      else waitForWrite io.poll := by
  by_cases ready : waitForWrite io.poll = 1
  · rw [selectRecv, if_pos ready] at defined
    obtain ⟨filled, -, result⟩ := Option.map_eq_some_iff.mp defined
    rw [if_pos ready, ← filled.afterRecv_value, result]
  · rw [selectRecv, if_neg ready] at defined
    obtain ⟨-, rfl⟩ := Prod.mk.inj (Option.some.inj defined)
    rw [if_neg ready]

/-- The value of `recvToBuf`: the number of bytes it received, if any; otherwise `-1` behind its
last `::recv`, and the answer of the wait where it does not get to that. -/
theorem recvToBuf_value {socket next : ZSocket} {io : RecvIo} {retcode : Int}
    (defined : socket.recvToBuf io = some (next, retcode)) :
    retcode = if socket.incomingPolled io = [] then
        if (socket.issetFlag incompleteRead ∨ io.first = .wouldBlock) ∧
          waitForWrite io.poll ≠ 1 then waitForWrite io.poll else -1
      else ((socket.incomingPolled io).length : Int) := by
  by_cases flag : socket.issetFlag incompleteRead
  · rw [recvToBuf, if_pos flag] at defined
    rw [selectRecv_value defined, incomingPolled, if_pos flag]
    by_cases ready : waitForWrite io.poll = 1
    · rw [if_pos ready, if_pos ready, if_neg (not_and_of_not_right _ (not_not_intro ready))]
      rfl
    · rw [if_neg ready, if_neg ready, if_pos rfl, if_pos ⟨Or.inl flag, ready⟩]
  · rw [recvToBuf, if_neg flag] at defined
    obtain ⟨filled, written, result⟩ := Option.bind_eq_some_iff.mp defined
    rw [incomingPolled, if_neg flag]
    by_cases blocked : io.first = .wouldBlock
    · rw [if_pos blocked] at result
      obtain rfl := recvInto_nothing (by rw [blocked, RecvAnswer.bytes]) written
      rw [selectRecv_value result]
      by_cases ready : waitForWrite io.poll = 1
      · rw [if_pos blocked, if_pos ready, if_pos ready,
          if_neg (not_and_of_not_right _ (not_not_intro ready))]
      · rw [if_pos blocked, if_neg ready, if_neg ready, if_pos rfl, if_pos ⟨Or.inr blocked, ready⟩]
    · rw [if_neg blocked, Option.some.injEq] at result
      have value := filled.afterRecv_value io.first socket.reserve.rcvQueue.wrSize
      rw [result] at value
      have elsewhere : ¬ (socket.issetFlag incompleteRead = true ∨ io.first = .wouldBlock) :=
        not_or_intro flag blocked
      rw [if_neg blocked, if_neg (not_and_of_not_left _ elsewhere)]
      exact value

/-- While the capacity of `_rcv_queue` does not wrap, `recvToBuf` is defined. -/
theorem recvToBuf_defined {socket : ZSocket} (consistent : socket.ReceiveConsistent)
    (io : RecvIo) (noWrap : socket.issetFlag incompleteRead = false →
      socket.rcvQueue.NoWrap maxDataBufferSize) :
    ∃ next retcode, socket.recvToBuf io = some (next, retcode) := by
  have selected : ∀ start : ZSocket, start.ReceiveConsistent →
      ∃ next retcode, start.selectRecv io = some (next, retcode) := by
    intro start sound
    rw [selectRecv]
    split
    · obtain ⟨filled, written⟩ := recvInto_defined sound io.second
      exact ⟨_, _, congrArg (Option.map _) written⟩
    · exact ⟨_, _, rfl⟩
  unfold recvToBuf
  split
  · exact selected _ ⟨consistent.queue, consistent.rawSize⟩
  · obtain ⟨kept, -, -, -⟩ := reserve_spec consistent (noWrap (Bool.eq_false_iff.mpr ‹_›))
    obtain ⟨filled, written⟩ := recvInto_defined kept io.first
    rw [written, Option.bind_some]
    split
    · rename_i blocked
      obtain rfl := recvInto_nothing (by rw [blocked, RecvAnswer.bytes]) written
      exact selected _ kept
    · exact ⟨_, _, rfl⟩

/-- A chunk for which `recvToBuf_NoPoll` always has room arrives whole. -/
theorem incoming_data {socket : ZSocket} (consistent : socket.ReceiveConsistent)
    (noWrap : socket.rcvQueue.NoWrap maxDataBufferSize) (first : UInt8) {rest : List UInt8}
    (short : rest.length < maxDataBufferSize + 8) :
    socket.incoming (.data first rest) = first :: rest := by
  obtain ⟨-, -, -, room⟩ := reserve_spec consistent noWrap
  have capacity : maxDataBufferSize = 65535 := rfl
  refine List.take_of_length_le ?_
  rw [List.length_cons, intMax]
  omega

/-- Without a complete packet in front, `recvToCmd_NoPoll` does nothing and returns nothing. -/
theorem recvToCmdNoPoll_of_none {socket : ZSocket} (consistent : socket.ReceiveConsistent)
    (nCmdLen : Nat) (frame : nextFrame packetFormat socket.rcvQueue.unread = none) :
    socket.recvToCmdNoPoll nCmdLen = some { socket, copied := [], retval := none } := by
  simp only [nextFrame, ite_eq_right_iff, reduceCtorEq, imp_false, not_and] at frame
  simp only [recvToCmdNoPoll, consistent.rawSize, packetMinSize]
  split
  · rename_i headerFits
    have incomplete := frame headerFits
    rw [consistent.queue.read_unread headerFits, Option.bind_some, packetSize_eq, if_neg]
    rw [List.length_drop] at incomplete
    change ¬ packetFormat.payloadLen (socket.rcvQueue.unread.take phLen) ≤
      socket.rcvQueue.unread.length - phLen at incomplete
    omega
  · rfl

/-- With a complete packet in front, `recvToCmd_NoPoll` copies its payload, returns its length and
consumes the packet. -/
theorem recvToCmdNoPoll_of_some {socket : ZSocket} (consistent : socket.ReceiveConsistent)
    (nCmdLen : Nat) {payload rest : List UInt8}
    (frame : nextFrame packetFormat socket.rcvQueue.unread = some (payload, rest)) :
    ∃ rcvQueue,
      socket.recvToCmdNoPoll nCmdLen = some
        { socket := { socket with rcvQueue, rcvRawSize := rest.length }
          copied := payload
          retval := some payload.length } ∧
      ({ socket with rcvQueue, rcvRawSize := rest.length } : ZSocket).ReceiveConsistent ∧
      rcvQueue.unread = rest ∧ rcvQueue.maxSize = socket.rcvQueue.maxSize := by
  have whole := nextFrame_length packetFormat frame
  simp only [nextFrame, Option.ite_none_right_eq_some, Option.some.injEq, Prod.mk.injEq] at frame
  obtain ⟨⟨headerFits, payloadFits⟩, payloadEq, restEq⟩ := frame
  change phLen ≤ socket.rcvQueue.unread.length at headerFits
  change packetFormat.payloadLen (socket.rcvQueue.unread.take phLen) ≤
    (socket.rcvQueue.unread.drop phLen).length at payloadFits
  rw [List.length_drop] at payloadFits
  have size : packetSize (socket.rcvQueue.unread.take phLen) =
      phLen + packetFormat.payloadLen (socket.rcvQueue.unread.take phLen) := packetSize_eq _
  have available : phLen + packetFormat.payloadLen (socket.rcvQueue.unread.take phLen) ≤
      socket.rcvQueue.unread.length := by omega
  obtain ⟨rcvQueue, flipped, kept, dropped, maxSize⟩ :=
    ByteBuffer.rdFlip_spec consistent.queue available
  have behind : rcvQueue.unread = rest := by
    rw [dropped, ← restEq, ← List.drop_drop]
    rfl
  have unpacked : packetUnpack socket.rcvQueue.buffer socket.rcvQueue.offPtr
      (phLen + packetFormat.payloadLen (socket.rcvQueue.unread.take phLen)) = some payload := by
    rw [packetUnpack, Nat.add_sub_cancel_left, consistent.queue.read_unread_behind available]
    exact congrArg some payloadEq
  have remaining : Word.sub 32 socket.rcvQueue.unread.length
      (phLen + packetFormat.payloadLen (socket.rcvQueue.unread.take phLen)) = rest.length := by
    rw [Word.sub_of_le available consistent.queue.length_unread_lt, ← behind, dropped,
      List.length_drop]
  refine ⟨rcvQueue, ?_, ⟨kept, congrArg List.length behind.symm⟩, behind, maxSize⟩
  simp only [recvToCmdNoPoll, consistent.rawSize, packetMinSize, if_pos headerFits]
  rw [consistent.queue.read_unread headerFits, Option.bind_some, size, if_pos available,
    unpacked, Option.bind_some, flipped, Option.map_some, remaining]

/-- `recvToCmd_NoPoll` touches nothing but `_rcv_queue`, which it flips, and `_rcv_raw_size`. -/
theorem recvToCmdNoPoll_frame {socket : ZSocket} {nCmdLen : Nat} {out : Extracted}
    (defined : socket.recvToCmdNoPoll nCmdLen = some out) :
    ∃ rcvQueue rcvRawSize, out.socket = { socket with rcvQueue, rcvRawSize } ∧
      (rcvQueue = socket.rcvQueue ∨ ∃ size, socket.rcvQueue.rdFlip size = some rcvQueue) := by
  unfold recvToCmdNoPoll at defined
  dsimp only at defined
  split at defined
  · obtain ⟨header, -, taken⟩ := Option.bind_eq_some_iff.mp defined
    split at taken
    · obtain ⟨payload, -, flipped⟩ := Option.bind_eq_some_iff.mp taken
      obtain ⟨rcvQueue, consumed, rfl⟩ := Option.map_eq_some_iff.mp flipped
      exact ⟨rcvQueue, _, rfl, Or.inr ⟨_, consumed⟩⟩
    · obtain rfl := Option.some.inj taken
      exact ⟨_, _, rfl, Or.inl rfl⟩
  · obtain rfl := Option.some.inj defined
    exact ⟨_, _, rfl, Or.inl rfl⟩

/-- Nothing but the length of the packet in front bounds what `recvToCmd_NoPoll` copies. -/
theorem ReceiveConsistent.copied_le_iff {socket : ZSocket} (consistent : socket.ReceiveConsistent)
    (nCmdLen bound : Nat) :
    (∀ out, socket.recvToCmdNoPoll nCmdLen = some out → out.copied.length ≤ bound) ↔
      FrontFits socket.rcvQueue.unread bound := by
  unfold FrontFits
  rcases frame : nextFrame packetFormat socket.rcvQueue.unread with _ | ⟨payload, rest⟩
  · rw [recvToCmdNoPoll_of_none consistent nCmdLen frame]
    simp only [Option.some.injEq, forall_eq', List.length_nil, Nat.zero_le, reduceCtorEq,
      false_imp_iff, implies_true]
  · obtain ⟨rcvQueue, taken, -⟩ := recvToCmdNoPoll_of_some consistent nCmdLen frame
    rw [taken]
    simp only [Option.some.injEq, forall_eq', Prod.mk.injEq, and_imp,
      forall_apply_eq_imp_iff]

end ZSocket

/-! ### Runs of the receiving half -/

/-- One call on the receiving half of a socket. -/
inductive RecvCall
  | recvToBufNoPoll (answer : RecvAnswer)
  | recvToBuf (io : RecvIo)
  | recvToCmdNoPoll (nCmdLen : Nat)

/-- A socket with the history of its receiving half: the bytes received so far, and for every
packet taken so far the length of the caller's buffer and the payload copied into it. -/
structure Receiver where
  socket : ZSocket
  received : List UInt8
  copies : List (Nat × List UInt8)

namespace Receiver

/-- The payloads copied out so far. -/
def delivered (receiver : Receiver) : List (List UInt8) := receiver.copies.map Prod.snd

/-- A socket fresh from its constructor. -/
def new (sock : Int) : Receiver where
  socket := ZSocket.new sock
  received := []
  copies := []

/-- One call, recorded in the history. -/
def step (receiver : Receiver) : RecvCall → Option Receiver
  | .recvToBufNoPoll answer =>
    (receiver.socket.recvToBufNoPoll answer).map fun result =>
      { receiver with
        socket := result.1
        received := receiver.received ++ receiver.socket.incoming answer }
  | .recvToBuf io =>
    (receiver.socket.recvToBuf io).map fun result =>
      { receiver with
        socket := result.1
        received := receiver.received ++ receiver.socket.incomingPolled io }
  | .recvToCmdNoPoll nCmdLen =>
    (receiver.socket.recvToCmdNoPoll nCmdLen).map fun out =>
      { receiver with
        socket := out.socket
        copies := if out.retval.isSome then receiver.copies ++ [(nCmdLen, out.copied)]
          else receiver.copies }

/-- The capacity of `_rcv_queue` does not wrap in the call. -/
def Fits (receiver : Receiver) : RecvCall → Prop
  | .recvToBufNoPoll _ => receiver.socket.rcvQueue.NoWrap maxDataBufferSize
  | .recvToBuf _ => receiver.socket.issetFlag incompleteRead = false →
    receiver.socket.rcvQueue.NoWrap maxDataBufferSize
  | .recvToCmdNoPoll _ => True

/-- The history and the receive state agree: the payloads copied out are the first ones of the
stream, and the stream behind their packets is what is pending. -/
structure Sound (receiver : Receiver) : Prop where
  socket : receiver.socket.ReceiveConsistent
  complete : receiver.copies.length ≤ (parse packetFormat receiver.received).length
  delivered : receiver.delivered =
    (parse packetFormat receiver.received).take receiver.copies.length
  pending : receiver.socket.rcvQueue.unread =
    dropFrames packetFormat receiver.copies.length receiver.received

theorem new_sound (sock : Int) : (new sock).Sound where
  socket := ZSocket.new_receiveConsistent sock
  complete := Nat.zero_le _
  delivered := rfl
  pending := rfl

/-- Appending what arrives keeps the agreement. -/
theorem Sound.append {receiver : Receiver} (sound : receiver.Sound) {socket : ZSocket}
    {arrived : List UInt8} (kept : socket.ReceiveConsistent)
    (appended : socket.rcvQueue.unread = receiver.socket.rcvQueue.unread ++ arrived) :
    Sound { receiver with socket, received := receiver.received ++ arrived } := by
  have longer := parse_append packetFormat sound.complete arrived
  have taken : ((parse packetFormat receiver.received).take receiver.copies.length).length =
      receiver.copies.length := List.length_take_of_le sound.complete
  refine ⟨kept, ?_, ?_, ?_⟩
  · show receiver.copies.length ≤ (parse packetFormat (receiver.received ++ arrived)).length
    rw [longer, List.length_append, taken]
    exact Nat.le_add_right _ _
  · show receiver.delivered = (parse packetFormat (receiver.received ++ arrived)).take _
    rw [longer, List.take_left' taken, sound.delivered]
  · show socket.rcvQueue.unread = dropFrames packetFormat _ (receiver.received ++ arrived)
    rw [appended, dropFrames_append packetFormat sound.complete, sound.pending]

/-- Taking a packet, or finding none, keeps the agreement. -/
theorem Sound.recvToCmdNoPoll {receiver next : Receiver} (sound : receiver.Sound)
    {nCmdLen : Nat} (stepped : receiver.step (.recvToCmdNoPoll nCmdLen) = some next) :
    next.Sound := by
  obtain ⟨out, called, rfl⟩ := Option.map_eq_some_iff.mp stepped
  rcases frame : nextFrame packetFormat receiver.socket.rcvQueue.unread with _ | ⟨payload, rest⟩
  · rw [ZSocket.recvToCmdNoPoll_of_none sound.socket nCmdLen frame] at called
    obtain rfl := Option.some.inj called
    exact sound
  · obtain ⟨rcvQueue, taken, kept, behind, -⟩ :=
      ZSocket.recvToCmdNoPoll_of_some sound.socket nCmdLen frame
    obtain rfl := Option.some.inj (taken.symm.trans called)
    rw [sound.pending] at frame
    have found := getElem_parse packetFormat sound.complete
    rw [frame, Option.map_some] at found
    obtain ⟨inside, -⟩ := List.getElem?_eq_some_iff.mp found
    have extended : (parse packetFormat receiver.received).take (receiver.copies.length + 1) =
        receiver.delivered ++ [payload] := by
      rw [List.take_add_one, found, sound.delivered]
      rfl
    refine ⟨kept, ?_, ?_, ?_⟩
    · show (receiver.copies ++ [(nCmdLen, payload)]).length ≤ _
      rw [List.length_append]
      exact inside
    · show (receiver.copies ++ [(nCmdLen, payload)]).map Prod.snd =
        (parse packetFormat receiver.received).take (receiver.copies ++ [(nCmdLen, payload)]).length
      rw [List.map_append, List.length_append]
      exact extended.symm
    · show rcvQueue.unread =
        dropFrames packetFormat (receiver.copies ++ [(nCmdLen, payload)]).length receiver.received
      rw [List.length_append, behind]
      exact (dropFrames_succ packetFormat frame).symm

theorem Sound.step {receiver next : Receiver} (sound : receiver.Sound) (call : RecvCall)
    (stepped : receiver.step call = some next) : next.Sound := by
  cases call with
  | recvToBufNoPoll answer =>
    obtain ⟨⟨socket, retcode⟩, called, rfl⟩ := Option.map_eq_some_iff.mp stepped
    obtain ⟨kept, appended, -⟩ := ZSocket.recvToBufNoPoll_spec sound.socket called
    exact sound.append kept appended
  | recvToBuf io =>
    obtain ⟨⟨socket, retcode⟩, called, rfl⟩ := Option.map_eq_some_iff.mp stepped
    obtain ⟨kept, appended⟩ := ZSocket.recvToBuf_spec sound.socket called
    exact sound.append kept appended
  | recvToCmdNoPoll nCmdLen => exact sound.recvToCmdNoPoll stepped

/-- `recvToCmd_NoPoll` is defined in every sound state. -/
theorem Sound.recvToCmdNoPoll_defined {receiver : Receiver} (sound : receiver.Sound)
    (nCmdLen : Nat) : ∃ out, receiver.socket.recvToCmdNoPoll nCmdLen = some out := by
  rcases frame : nextFrame packetFormat receiver.socket.rcvQueue.unread with _ | ⟨payload, rest⟩
  · exact ⟨_, ZSocket.recvToCmdNoPoll_of_none sound.socket nCmdLen frame⟩
  · obtain ⟨rcvQueue, taken, -⟩ := ZSocket.recvToCmdNoPoll_of_some sound.socket nCmdLen frame
    exact ⟨_, taken⟩

/-- While nothing wraps, every call is defined. -/
theorem Sound.step_defined {receiver : Receiver} (sound : receiver.Sound) (call : RecvCall)
    (fits : receiver.Fits call) : ∃ next, receiver.step call = some next ∧ next.Sound := by
  have defined : ∃ next, receiver.step call = some next := by
    cases call with
    | recvToBufNoPoll answer =>
      obtain ⟨socket, retcode, called⟩ := ZSocket.recvToBufNoPoll_defined sound.socket answer fits
      exact ⟨_, congrArg (Option.map _) called⟩
    | recvToBuf io =>
      obtain ⟨socket, retcode, called⟩ := ZSocket.recvToBuf_defined sound.socket io fits
      exact ⟨_, congrArg (Option.map _) called⟩
    | recvToCmdNoPoll nCmdLen =>
      obtain ⟨out, called⟩ := sound.recvToCmdNoPoll_defined nCmdLen
      exact ⟨_, congrArg (Option.map _) called⟩
  obtain ⟨next, stepped⟩ := defined
  exact ⟨next, stepped, sound.step call stepped⟩

theorem length_delivered (receiver : Receiver) :
    receiver.delivered.length = receiver.copies.length := List.length_map _

/-- The receiving half refines the reference parser. However the stream is cut and the calls are
interleaved, as long as nothing wraps the run is defined, and at every moment the payloads copied
out are the first ones of the stream received so far, what is pending is the stream behind their
packets, and the two counters agree. The next `recvToCmd_NoPoll` takes the next packet and returns
its length when that packet is complete, and changes nothing otherwise. -/
theorem refines_parse (sock : Int) (calls : List RecvCall)
    (fits : PartialRun.Each step Fits (new sock) calls) :
    ∃ receiver, PartialRun.run step (new sock) calls = some receiver ∧
      receiver.delivered =
        (parse packetFormat receiver.received).take receiver.delivered.length ∧
      receiver.socket.rcvQueue.unread =
        dropFrames packetFormat receiver.delivered.length receiver.received ∧
      receiver.socket.rcvRawSize = receiver.socket.rcvQueue.rdSize ∧
      (∀ nCmdLen payload,
        (parse packetFormat receiver.received)[receiver.delivered.length]? = some payload →
          ∃ out, receiver.socket.recvToCmdNoPoll nCmdLen = some out ∧ out.copied = payload ∧
            out.retval = some payload.length ∧
            out.socket.rcvQueue.unread =
              dropFrames packetFormat (receiver.delivered.length + 1) receiver.received) ∧
      ∀ nCmdLen,
        (parse packetFormat receiver.received)[receiver.delivered.length]? = none →
          receiver.socket.recvToCmdNoPoll nCmdLen =
            some { socket := receiver.socket, copied := [], retval := none } := by
  obtain ⟨receiver, reached, sound⟩ := PartialRun.run_defined Sound
    (fun receiver call sound fits => sound.step_defined call fits) (new_sound sock) fits
  have found := getElem_parse packetFormat sound.complete
  rw [← sound.pending] at found
  refine ⟨receiver, reached, ?_⟩
  rw [receiver.length_delivered]
  refine ⟨sound.delivered, sound.pending, ?_, ?_, ?_⟩
  · rw [sound.socket.rawSize, sound.socket.queue.rdSize_eq_length]
  · intro nCmdLen payload next
    rw [found, Option.map_eq_some_iff] at next
    obtain ⟨⟨front, rest⟩, frame, rfl⟩ := next
    obtain ⟨rcvQueue, taken, -, behind, -⟩ :=
      ZSocket.recvToCmdNoPoll_of_some sound.socket nCmdLen frame
    rw [sound.pending] at frame
    exact ⟨_, taken, rfl, rfl,
      behind.trans (dropFrames_succ packetFormat frame).symm⟩
  · intro nCmdLen next
    rw [found, Option.map_eq_none_iff] at next
    exact ZSocket.recvToCmdNoPoll_of_none sound.socket nCmdLen next

theorem new_fits (sock : Int) (answer : RecvAnswer) :
    (new sock).Fits (.recvToBufNoPoll answer) := by
  show ByteBuffer.new.NoWrap maxDataBufferSize
  simp only [ByteBuffer.NoWrap, ByteBuffer.new]
  decide

/-- A chunk that arrives while nothing is pending, unless it is a long one, is all that is pending
then. -/
theorem Sound.receive_idle {receiver : Receiver} (sound : receiver.Sound)
    (noWrap : receiver.socket.rcvQueue.NoWrap maxDataBufferSize)
    (idle : receiver.socket.rcvQueue.unread = []) (first : UInt8) {rest : List UInt8}
    (short : rest.length < maxDataBufferSize + 8) :
    ∃ next, receiver.step (.recvToBufNoPoll (.data first rest)) = some next ∧ next.Sound ∧
      next.received = receiver.received ++ first :: rest ∧ next.copies = receiver.copies ∧
      next.socket.rcvQueue.unread = first :: rest := by
  obtain ⟨next, stepped, kept⟩ := sound.step_defined (.recvToBufNoPoll (.data first rest)) noWrap
  obtain ⟨⟨socket, retcode⟩, called, rfl⟩ := Option.map_eq_some_iff.mp stepped
  obtain ⟨-, appended, -⟩ := ZSocket.recvToBufNoPoll_spec sound.socket called
  have whole := ZSocket.incoming_data sound.socket noWrap first short
  rw [whole, idle, List.nil_append] at appended
  exact ⟨_, stepped, kept, congrArg (receiver.received ++ ·) whole, rfl, appended⟩

/-- The refinement, run on a chunk that ends inside the header of its second packet. -/
theorem refines_parse_cut_header :
    ∃ receiver, PartialRun.run step (new 5)
        [.recvToBufNoPoll (.data 1 [0, 0, 0, 7, 2, 0]), .recvToCmdNoPoll 16,
          .recvToCmdNoPoll 16] = some receiver ∧
      receiver.socket.rcvRawSize = receiver.socket.rcvQueue.rdSize := by
  obtain ⟨receiver, reached, -, -, agree, -⟩ := refines_parse 5
    [.recvToBufNoPoll (.data 1 [0, 0, 0, 7, 2, 0]), .recvToCmdNoPoll 16, .recvToCmdNoPoll 16]
    ⟨new_fits 5 _, fun _ _ => ⟨trivial, fun _ _ => ⟨trivial, fun _ _ => trivial⟩⟩⟩
  exact ⟨receiver, reached, agree⟩

/-! ### The caller's buffer -/

/-- The call copies at most `nCmdLen` bytes through `pstrCmd`. -/
def WritesInside (receiver : Receiver) : RecvCall → Prop
  | .recvToCmdNoPoll nCmdLen =>
    ∀ out, receiver.socket.recvToCmdNoPoll nCmdLen = some out → out.copied.length ≤ nCmdLen
  | .recvToBufNoPoll _ | .recvToBuf _ => True

/-- The packet that the call takes, if there is one, has a payload of at most `nCmdLen` bytes. -/
def ShortEnough (receiver : Receiver) : RecvCall → Prop
  | .recvToCmdNoPoll nCmdLen => FrontFits receiver.socket.rcvQueue.unread nCmdLen
  | .recvToBufNoPoll _ | .recvToBuf _ => True

/-- Every call of a run keeps to the caller's buffer exactly when every packet it takes fits. -/
theorem each_writesInside_iff (sock : Int) (calls : List RecvCall) :
    PartialRun.Each step WritesInside (new sock) calls ↔
      PartialRun.Each step ShortEnough (new sock) calls := by
  refine PartialRun.each_congr Sound (fun _ call _ sound _ stepped => sound.step call stepped)
    (fun receiver call sound => ?_) (new_sound sock)
  cases call with
  | recvToCmdNoPoll nCmdLen => exact sound.socket.copied_le_iff nCmdLen nCmdLen
  | recvToBufNoPoll answer => exact Iff.rfl
  | recvToBuf io => exact Iff.rfl

end Receiver

end SelftestNet
