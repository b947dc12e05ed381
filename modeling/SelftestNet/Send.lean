/-
This file proves what the sending half of a socket does to the stream of commands.
Two routes lead to the kernel. The buffered one goes through `_snd_queue` and
`_enc_queue` and loses nothing: what the kernel accepted, then `_enc_queue`, then
`_snd_queue`, is at every moment the accepted commands in call order. The direct one
goes past both queues, so it keeps the order of the calls only while both are empty.
-/

import SelftestNet.Socket

namespace SelftestNet

namespace SendAnswer

/-- The `size_t` that `::send` makes of an `int` made of a queue size. -/
def offered (size : Nat) : Nat := (Word.toInt 32 size % 2 ^ 64).toNat

/-- A kernel that is willing accepts everything that is offered when it is short enough. -/
theorem count_all {size more : Nat} (enough : size ≤ more + 1) (short : size ≤ intMax) :
    (took more).count (offered size) = size := by
  simp only [count, offered, Word.toInt, intMax] at *
  omega

/-- However the conversions go, the kernel accepts at least one and at most all of the pending
bytes: an `int` that turns negative offers more than a call can transfer. -/
theorem count_took {size : Nat} (positive : 0 < size) (fits : size < 2 ^ 32) (more : Nat) :
    0 < (took more).count (offered size) ∧ (took more).count (offered size) ≤ size := by
  simp only [count, offered, Word.toInt, intMax]
  split <;> omega

theorem count_le {size : Nat} (positive : 0 < size) (fits : size < 2 ^ 32)
    (answer : SendAnswer) : answer.count (offered size) ≤ size := by
  cases answer with
  | took more => exact (count_took positive fits more).2
  | wouldBlock => exact Nat.zero_le _
  | failed => exact Nat.zero_le _

end SendAnswer

namespace ZSocket

/-! ### The buffered route -/

/-- The two queues of the sending half are consistent buffers. -/
structure SendConsistent (socket : ZSocket) : Prop where
  snd : socket.sndQueue.Consistent
  enc : socket.encQueue.Consistent

theorem new_sendConsistent (sock : Int) : (new sock).SendConsistent where
  snd := ByteBuffer.new_consistent
  enc := ByteBuffer.new_consistent

/-- The receiving half is the same. -/
def SameReceive (socket other : ZSocket) : Prop :=
  other.rcvQueue = socket.rcvQueue ∧ other.rcvRawSize = socket.rcvRawSize

/-- What is buffered and not yet handed to the kernel, in the order in which it will be. -/
def pending (socket : ZSocket) : List UInt8 := socket.encQueue.unread ++ socket.sndQueue.unread

/-- Staging moves everything from `_snd_queue` behind `_enc_queue`: `put` has copied the bytes
before `rd_flip` gives them up. -/
theorem stage_spec {socket staged : ZSocket} (consistent : socket.SendConsistent)
    (defined : socket.stage = some staged) :
    staged.SendConsistent ∧ staged.encQueue.unread = socket.pending ∧
      staged.sndQueue.unread = [] ∧ socket.SameReceive staged := by
  unfold stage at defined
  split at defined
  · rw [consistent.snd.rdSize_eq_length, consistent.snd.read_unread (Nat.le_refl _),
      Option.bind_some, List.take_length] at defined
    obtain ⟨encQueue, stored, flipped⟩ := Option.bind_eq_some_iff.mp defined
    obtain ⟨kept, appended⟩ := ByteBuffer.put_spec consistent.enc stored
    obtain ⟨sndQueue, consumed, emptied, dropped, -⟩ :=
      ByteBuffer.rdFlip_spec consistent.snd (Nat.le_refl _)
    rw [consumed, Option.map_some] at flipped
    obtain rfl := Option.some.inj flipped
    exact ⟨⟨emptied, kept⟩, appended, dropped.trans List.drop_length, rfl, rfl⟩
  · rename_i idle
    obtain rfl := Option.some.inj defined
    have nothing : socket.sndQueue.unread = [] :=
      not_not.mp fun some => idle (consistent.snd.rdReady_iff.mpr some)
    exact ⟨consistent, by rw [pending, nothing, List.append_nil], nothing, rfl, rfl⟩

/-- Staging changes nothing but the two queues. -/
theorem stage_frame {socket staged : ZSocket} (defined : socket.stage = some staged) :
    ∃ encQueue sndQueue, staged = { socket with encQueue, sndQueue } := by
  unfold stage at defined
  split at defined
  · obtain ⟨bytes, -, moved⟩ := Option.bind_eq_some_iff.mp defined
    obtain ⟨encQueue, -, flipped⟩ := Option.bind_eq_some_iff.mp moved
    obtain ⟨sndQueue, -, rfl⟩ := Option.map_eq_some_iff.mp flipped
    exact ⟨encQueue, sndQueue, rfl⟩
  · exact ⟨socket.encQueue, socket.sndQueue, (Option.some.inj defined).symm⟩

/-- While the capacity of `_enc_queue` does not wrap, staging is defined. -/
theorem stage_defined {socket : ZSocket} (consistent : socket.SendConsistent)
    (noWrap : socket.sndQueue.unread ≠ [] →
      socket.encQueue.NoWrap socket.sndQueue.unread.length) :
    ∃ staged, socket.stage = some staged := by
  unfold stage
  split
  · rename_i ready
    obtain ⟨encQueue, stored⟩ :=
      ByteBuffer.put_defined consistent.enc (noWrap (consistent.snd.rdReady_iff.mp ready))
    obtain ⟨sndQueue, consumed, -⟩ := ByteBuffer.rdFlip_spec consistent.snd (Nat.le_refl _)
    rw [consistent.snd.rdSize_eq_length, consistent.snd.read_unread (Nat.le_refl _),
      Option.bind_some, List.take_length, stored, Option.bind_some, consumed]
    exact ⟨_, rfl⟩
  · exact ⟨_, rfl⟩

/-- Setting a flag, or not, changes nothing but the flags. -/
theorem flagged (socket : ZSocket) (flag : BitVec 32) (condition : Prop) [Decidable condition] :
    ∃ bitmask, (if condition then socket.setFlag flag else socket) = { socket with bitmask } := by
  split
  · exact ⟨_, rfl⟩
  · exact ⟨socket.bitmask, rfl⟩

/-- One `::send` of memory that holds what the kernel accepts. -/
theorem sendRawDataNoPoll_spec (socket : ZSocket) (memory : List UInt8) (nSize : Int)
    (answer : SendAnswer) (inside : answer.count (nSize % 2 ^ 64).toNat ≤ memory.length) :
    ∃ bitmask, socket.sendRawDataNoPoll memory nSize answer = some
      { socket := { socket with bitmask }
        taken := memory.take (answer.count (nSize % 2 ^ 64).toNat)
        value := if answer = .wouldBlock then 0 else answer.retcode (nSize % 2 ^ 64).toNat } := by
  have found : Region.read memory 0 (answer.count (nSize % 2 ^ 64).toNat) =
      some (memory.take (answer.count (nSize % 2 ^ 64).toNat)) :=
    Region.read_of_le ((Nat.zero_add _).trans_le inside)
  rw [sendRawDataNoPoll]
  rw [found, Option.map_some]
  split
  · exact ⟨socket.bitmask, rfl⟩
  · obtain ⟨bitmask, same⟩ := flagged socket incompleteWrite
      (0 < answer.retcode (nSize % 2 ^ 64).toNat ∧ answer.retcode (nSize % 2 ^ 64).toNat < nSize)
    exact ⟨bitmask, by rw [same]⟩

/-- The `::send` of `sync` takes what the kernel accepts from the front of `_enc_queue`. -/
theorem send_encQueue {socket : ZSocket} (consistent : socket.SendConsistent)
    (ready : socket.encQueue.unread ≠ []) (answer : SendAnswer) :
    ∃ bitmask, socket.sendRawDataNoPoll (socket.encQueue.buffer.drop socket.encQueue.offPtr)
        (Word.toInt 32 socket.encQueue.rdSize) answer = some
      { socket := { socket with bitmask }
        taken := socket.encQueue.unread.take
          (answer.count (SendAnswer.offered socket.encQueue.unread.length))
        value := if answer = .wouldBlock then 0
          else answer.retcode (SendAnswer.offered socket.encQueue.unread.length) } := by
  have full := consistent.enc.size_eq
  have ordered := consistent.enc.offPtr_le
  have inside := consistent.enc.currPtr_le
  have length := consistent.enc.length_unread
  have bounded : answer.count (SendAnswer.offered socket.encQueue.unread.length) ≤
      socket.encQueue.unread.length :=
    SendAnswer.count_le (List.length_pos_iff.mpr ready) consistent.enc.length_unread_lt answer
  have front : (socket.encQueue.buffer.drop socket.encQueue.offPtr).take
      (answer.count (SendAnswer.offered socket.encQueue.unread.length)) =
        socket.encQueue.unread.take
          (answer.count (SendAnswer.offered socket.encQueue.unread.length)) :=
    Region.slice_take _ _ (bounded.trans_eq length)
  obtain ⟨bitmask, called⟩ := socket.sendRawDataNoPoll_spec
    (socket.encQueue.buffer.drop socket.encQueue.offPtr)
    (Word.toInt 32 socket.encQueue.unread.length) answer
    (bounded.trans (by rw [List.length_drop]; omega))
  unfold SendAnswer.offered at front
  refine ⟨bitmask, ?_⟩
  rw [consistent.enc.rdSize_eq_length, called, front, ← SendAnswer.offered]

/-- One `::send` of `_enc_queue` is always defined. It takes what the kernel accepts from the
front and leaves the rest; it returns `false` exactly when something was pending and the kernel
failed, and has no return value otherwise. -/
theorem flush_spec {socket : ZSocket} (consistent : socket.SendConsistent)
    (answer : SendAnswer) :
    ∃ sent, socket.flush answer = some sent ∧ sent.socket.SendConsistent ∧
      sent.taken ++ sent.socket.encQueue.unread = socket.encQueue.unread ∧
      sent.socket.sndQueue = socket.sndQueue ∧ socket.SameReceive sent.socket ∧
      sent.value =
        if socket.encQueue.unread ≠ [] ∧ answer = .failed then some false else none := by
  rw [flush]
  by_cases ready : socket.encQueue.unread = []
  · rw [consistent.enc.rdReady_eq_false ready, ready]
    refine ⟨_, rfl, consistent, ready, rfl, ⟨rfl, rfl⟩, ?_⟩
    rw [if_neg (fun both => both.1 rfl)]
  · obtain ⟨bitmask, called⟩ := send_encQueue consistent ready answer
    rw [if_pos (consistent.enc.rdReady_iff.mpr ready), called, Option.bind_some]
    cases answer with
    | took more =>
      have positive : 0 < socket.encQueue.unread.length := List.length_pos_iff.mpr ready
      obtain ⟨some, all⟩ := SendAnswer.count_took positive consistent.enc.length_unread_lt more
      obtain ⟨encQueue, flipped, kept, dropped, -⟩ := ByteBuffer.rdFlip_spec consistent.enc all
      have accepted : (0 : Int) < (SendAnswer.took more).retcode
          (SendAnswer.offered socket.encQueue.unread.length) := Int.natCast_pos.mpr some
      have counted : ((SendAnswer.took more).retcode
          (SendAnswer.offered socket.encQueue.unread.length)).toNat =
            (SendAnswer.took more).count
              (SendAnswer.offered socket.encQueue.unread.length) := rfl
      simp only [reduceCtorEq, if_false, if_pos accepted, and_false, counted, flipped,
        Option.map_some]
      refine ⟨_, rfl, ⟨consistent.snd, kept⟩, ?_, rfl, ⟨rfl, rfl⟩, rfl⟩
      exact (congrArg (_ ++ ·) dropped).trans (List.take_append_drop _ _)
    | wouldBlock =>
      exact ⟨_, rfl, ⟨consistent.snd, consistent.enc⟩, rfl, rfl, ⟨rfl, rfl⟩,
        (if_neg fun both => by cases both.2).symm⟩
    | failed =>
      exact ⟨_, rfl, ⟨consistent.snd, consistent.enc⟩, rfl, rfl, ⟨rfl, rfl⟩,
        (if_pos ⟨ready, rfl⟩).symm⟩

/-- What the kernel takes of `_enc_queue` is its front. -/
theorem flush_taken {socket : ZSocket} (consistent : socket.SendConsistent)
    (ready : socket.encQueue.unread ≠ []) {more : Nat} {sent : Sent (Option Bool)}
    (flushed : socket.flush (.took more) = some sent) :
    sent.taken = socket.encQueue.unread.take
      ((SendAnswer.took more).count (SendAnswer.offered socket.encQueue.unread.length)) := by
  obtain ⟨bitmask, called⟩ := send_encQueue consistent ready (.took more)
  rw [flush, if_pos (consistent.enc.rdReady_iff.mpr ready)] at flushed
  obtain ⟨raw, handed, finished⟩ := Option.bind_eq_some_iff.mp flushed
  have taken := congrArg Sent.taken (Option.some.inj (handed.symm.trans called))
  split at finished
  · obtain ⟨encQueue, -, rfl⟩ := Option.map_eq_some_iff.mp finished
    exact taken
  · split at finished <;> exact Option.some.inj finished ▸ taken

/-- A `sync` that is defined hands a prefix of what is pending to the kernel and keeps the rest;
it returns `false` exactly when something was pending and the kernel failed. -/
theorem sync_spec {socket : ZSocket} {sent : Sent (Option Bool)} {answer : SendAnswer}
    (consistent : socket.SendConsistent) (defined : socket.sync answer = some sent) :
    sent.socket.SendConsistent ∧ sent.taken ++ sent.socket.pending = socket.pending ∧
      socket.SameReceive sent.socket ∧
      sent.value = if socket.pending ≠ [] ∧ answer = .failed then some false else none := by
  obtain ⟨staged, moved, flushed⟩ := Option.bind_eq_some_iff.mp defined
  obtain ⟨kept, enc, snd, ⟨queue, size⟩⟩ := stage_spec consistent moved
  obtain ⟨result, found, after, conserved, same, ⟨queueLater, sizeLater⟩, value⟩ :=
    flush_spec kept answer
  obtain rfl := Option.some.inj (found.symm.trans flushed)
  rw [enc] at value conserved
  refine ⟨after, ?_, ⟨queueLater.trans queue, sizeLater.trans size⟩, value⟩
  rw [pending, same, snd, List.append_nil, conserved]

/-! ### The direct route -/

/-- A call hands over a prefix of the buffer and counts it, unless it returns `-1`, and changes
nothing but the flags. -/
structure HandsOver (socket : ZSocket) (buffer : List UInt8) (sent : Sent Int) : Prop where
  same : ∃ bitmask, sent.socket = { socket with bitmask }
  result : (sent.value = -1 ∧ sent.taken = []) ∨
    ∃ count ≤ buffer.length, sent.value = (count : Int) ∧ sent.taken = buffer.take count

theorem finishSend_handsOver (socket : ZSocket) (buffer : List UInt8) (answer : SendAnswer) :
    socket.HandsOver buffer (socket.finishSend buffer answer) := by
  refine ⟨flagged socket incompleteWrite _, ?_⟩
  cases answer with
  | took more =>
    refine Or.inr ⟨(SendAnswer.took more).count buffer.length, ?_, rfl, rfl⟩
    rw [SendAnswer.count]
    omega
  | wouldBlock => exact Or.inl ⟨rfl, rfl⟩
  | failed => exact Or.inl ⟨rfl, rfl⟩

theorem doSelect_handsOver (socket : ZSocket) (buffer : List UInt8) (io : SendIo) :
    socket.HandsOver buffer (socket.doSelect buffer io) := by
  unfold doSelect
  cases io.poll with
  | event pollIn pollOut =>
    cases pollOut with
    | true => exact socket.finishSend_handsOver buffer io.second
    | false => exact ⟨⟨socket.bitmask, rfl⟩, Or.inl ⟨rfl, rfl⟩⟩
  | timeout => exact ⟨⟨socket.bitmask, rfl⟩, Or.inr ⟨0, Nat.zero_le _, rfl, rfl⟩⟩
  | failed => exact ⟨⟨socket.bitmask, rfl⟩, Or.inl ⟨rfl, rfl⟩⟩

theorem sendRawData_handsOver (socket : ZSocket) (buffer : List UInt8) (io : SendIo) :
    socket.HandsOver buffer (socket.sendRawData buffer io) := by
  unfold sendRawData
  split
  · obtain ⟨⟨bitmask, same⟩, result⟩ :=
      (socket.clearFlag incompleteWrite).doSelect_handsOver buffer io
    exact ⟨⟨bitmask, same⟩, result⟩
  · split
    · exact socket.doSelect_handsOver buffer io
    · exact socket.finishSend_handsOver buffer io.first

/-- The loop of `sendRawDataIM` from an offset on hands over the buffer from there, in order and
without gaps, as far as it gets, and to its end when it returns `true`. -/
theorem sendLoop_spec (socket : ZSocket) (buffer : List UInt8) {offset : Nat}
    (inside : offset ≤ buffer.length) (ios : List SendIo) :
    (∃ bitmask, (socket.sendLoop buffer offset ios).socket = { socket with bitmask }) ∧
      ∃ count, offset + count ≤ buffer.length ∧
        (socket.sendLoop buffer offset ios).taken = (buffer.drop offset).take count ∧
        ((socket.sendLoop buffer offset ios).value = .returned true →
          offset + count = buffer.length) := by
  induction ios generalizing socket offset with
  | nil =>
    exact ⟨⟨socket.bitmask, rfl⟩, 0, inside, List.take_zero.symm, fun returned => nomatch returned⟩
  | cons io rest inductionHypothesis =>
    obtain ⟨⟨bitmask, same⟩, result⟩ := socket.sendRawData_handsOver (buffer.drop offset) io
    unfold sendLoop
    rcases result with ⟨failed, nothing⟩ | ⟨count, bounded, counted, taken⟩
    · rw [if_pos failed]
      refine ⟨⟨bitmask, same⟩, 0, inside, ?_, fun returned => ?_⟩
      · rw [List.take_zero]
        exact nothing
      · cases returned
    · rw [List.length_drop] at bounded
      have succeeded : (socket.sendRawData (buffer.drop offset) io).value ≠ -1 := by
        rw [counted]
        omega
      have advanced : (socket.sendRawData (buffer.drop offset) io).value.toNat = count := by
        rw [counted, Int.toNat_natCast]
      rw [if_neg succeeded]
      dsimp only
      rw [advanced]
      split
      · obtain ⟨⟨later, sameLater⟩, more, fits, takenLater, whole⟩ := inductionHypothesis
          (socket.sendRawData (buffer.drop offset) io).socket (Nat.le_of_lt ‹_›)
        refine ⟨⟨later, by rw [sameLater, same]⟩, count + more, by omega, ?_, fun returned => ?_⟩
        · rw [takenLater, taken, List.take_add, List.drop_drop]
        · have all := whole returned
          omega
      · exact ⟨⟨bitmask, same⟩, count, by omega, taken, fun _ => by omega⟩

/-- `sendRawDataIM` hands over a prefix of the buffer, and all of it when it returns `true`. -/
theorem sendRawDataIM_spec (socket : ZSocket) (buffer : List UInt8) (ios : List SendIo) :
    (∃ bitmask, (socket.sendRawDataIM buffer ios).socket = { socket with bitmask }) ∧
      (socket.sendRawDataIM buffer ios).taken <+: buffer ∧
      ((socket.sendRawDataIM buffer ios).value = .returned true →
        (socket.sendRawDataIM buffer ios).taken = buffer) := by
  unfold sendRawDataIM
  split
  · rename_i empty
    exact ⟨⟨socket.bitmask, rfl⟩, List.nil_prefix, fun _ => empty.symm⟩
  · obtain ⟨same, count, -, taken, whole⟩ :=
      socket.sendLoop_spec buffer (Nat.zero_le buffer.length) ios
    rw [List.drop_zero] at taken
    refine ⟨same, taken ▸ List.take_prefix _ _, fun returned => ?_⟩
    rw [taken, List.take_of_length_le ((whole returned).symm.trans (Nat.zero_add _)).le]

/-- Sending a command, on either route, keeps the queues consistent and the receiving half as it
is. -/
theorem sendBytes_keeps {socket : ZSocket} {pstrCmd : Option (List UInt8)} {buffer : Bool}
    {ios : List SendIo} {sent : Sent CallStatus} (consistent : socket.SendConsistent)
    (called : socket.sendBytes pstrCmd buffer ios = some sent) :
    sent.socket.SendConsistent ∧ socket.SameReceive sent.socket := by
  rcases pstrCmd with _ | cmd
  · obtain rfl := Option.some.inj called
    exact ⟨consistent, rfl, rfl⟩
  · rw [sendBytes] at called
    split at called
    · obtain rfl := Option.some.inj called
      exact ⟨consistent, rfl, rfl⟩
    · split at called
      · obtain ⟨sndQueue, stored, rfl⟩ := Option.map_eq_some_iff.mp called
        exact ⟨⟨(ByteBuffer.put_spec consistent.snd stored).1, consistent.enc⟩, rfl, rfl⟩
      · obtain rfl := Option.some.inj called
        obtain ⟨⟨bitmask, same⟩, -⟩ := socket.sendRawDataIM_spec cmd ios
        rw [same]
        exact ⟨⟨consistent.snd, consistent.enc⟩, rfl, rfl⟩

end ZSocket

namespace SendIo

/-- No answer is a hard error: no `::send` fails otherwise than by would-block, and `::poll`
reports a timeout or a writable socket. -/
def NoError (io : SendIo) : Prop :=
  io.first ≠ .failed ∧ io.second ≠ .failed ∧ waitForWrite io.poll ≠ -1

/-- The `::send` right behind a `::poll` that reported the socket writable does not block. -/
def Truthful (io : SendIo) : Prop := io.second ≠ .wouldBlock

end SendIo

namespace ZSocket

theorem finishSend_value_ne (socket : ZSocket) (buffer : List UInt8) {answer : SendAnswer}
    (noFailure : answer ≠ .failed) (noBlock : answer ≠ .wouldBlock) :
    (socket.finishSend buffer answer).value ≠ -1 := by
  cases answer with
  | took more => exact Int.noConfusion
  | wouldBlock => exact absurd rfl noBlock
  | failed => exact absurd rfl noFailure

theorem doSelect_value_ne (socket : ZSocket) (buffer : List UInt8) {io : SendIo}
    (noError : io.NoError) (truthful : io.Truthful) :
    (socket.doSelect buffer io).value ≠ -1 := by
  obtain ⟨-, secondHolds, pollHolds⟩ := noError
  rw [doSelect]
  split
  · exact socket.finishSend_value_ne buffer secondHolds truthful
  · exact pollHolds

/-- Without hard errors and with a truthful `::poll`, `sendRawData` does not return `-1`. -/
theorem sendRawData_value_ne (socket : ZSocket) (buffer : List UInt8) {io : SendIo}
    (noError : io.NoError) (truthful : io.Truthful) :
    (socket.sendRawData buffer io).value ≠ -1 := by
  unfold sendRawData
  split
  · exact (socket.clearFlag incompleteWrite).doSelect_value_ne buffer noError truthful
  · split
    · exact socket.doSelect_value_ne buffer noError truthful
    · exact socket.finishSend_value_ne buffer noError.1 ‹_›

/-- Then the loop does not give up either: it has returned `true` or is still waiting. -/
theorem sendLoop_value_ne (socket : ZSocket) (buffer : List UInt8) {offset : Nat}
    (inside : offset ≤ buffer.length) {ios : List SendIo}
    (quiet : ∀ io ∈ ios, io.NoError ∧ io.Truthful) :
    (socket.sendLoop buffer offset ios).value ≠ .returned false := by
  induction ios generalizing socket offset with
  | nil => exact fun returned => nomatch returned
  | cons io rest inductionHypothesis =>
    obtain ⟨noError, truthful⟩ := quiet io List.mem_cons_self
    have succeeded := socket.sendRawData_value_ne (buffer.drop offset) noError truthful
    obtain ⟨-, result⟩ := socket.sendRawData_handsOver (buffer.drop offset) io
    obtain ⟨count, bounded, counted, -⟩ :=
      result.resolve_left fun failed => succeeded failed.1
    rw [List.length_drop] at bounded
    rw [sendLoop, if_neg succeeded]
    dsimp only
    rw [counted, Int.toNat_natCast]
    split
    · exact inductionHypothesis _ (Nat.le_of_lt ‹_›)
        fun other member => quiet other (List.mem_cons_of_mem _ member)
    · have whole : offset + count = buffer.length := by omega
      rw [whole, beq_self_eq_true]
      exact fun returned => by cases returned

end ZSocket

/-! ### Runs of the sending half -/

/-- One call on the sending half of a socket, with the kernel's answers during it. -/
inductive SendCall
  | sendCmd (pstrCmd : Option (List UInt8)) (buffer : Bool) (ios : List SendIo)
  | sendCmdNoPack (pstrCmd : Option (List UInt8)) (buffer : Bool) (ios : List SendIo)
  | sync (answer : SendAnswer)

/-- A socket with the history of its sending half: the bytes the kernel accepted, in order, and
the commands for which a sending call returned `true`, in call order. -/
structure Sender where
  socket : ZSocket
  wire : List UInt8
  accepted : List (List UInt8)

namespace Sender

/-- A socket fresh from its constructor. -/
def new (sock : Int) : Sender where
  socket := ZSocket.new sock
  wire := []
  accepted := []

/-- A `sendCmd` that has returned, recorded in the history; undefined while it has not. -/
def record (sender : Sender) (pstrCmd : Option (List UInt8)) (sent : Sent CallStatus) :
    Option Sender :=
  match sent.value with
  | .returned true => some
      { socket := sent.socket
        wire := sender.wire ++ sent.taken
        accepted := sender.accepted ++ pstrCmd.toList }
  | .returned false => some
      { sender with socket := sent.socket, wire := sender.wire ++ sent.taken }
  | .waiting => none

/-- One call, from its start to its return. -/
def step (sender : Sender) : SendCall → Option Sender
  | .sendCmd pstrCmd buffer ios =>
    (sender.socket.sendCmd pstrCmd buffer ios).bind (sender.record pstrCmd)
  | .sendCmdNoPack pstrCmd buffer ios =>
    (sender.socket.sendCmdNoPack pstrCmd buffer ios).bind (sender.record pstrCmd)
  | .sync answer =>
    (sender.socket.sync answer).map fun sent =>
      { sender with socket := sent.socket, wire := sender.wire ++ sent.taken }

/-! ### What a call does to the history -/

/-- A refused command changes nothing. -/
theorem record_refused (sender : Sender) (pstrCmd : Option (List UInt8)) :
    sender.record pstrCmd { socket := sender.socket, taken := [], value := .returned false } =
      some sender := by
  unfold record
  dsimp only
  rw [List.append_nil]

/-- A command that fits into `_snd_queue` is accepted. -/
theorem sendBytes_buffered (sender : Sender) {cmd : List UInt8} (ios : List SendIo)
    {sndQueue : ByteBuffer} (nonempty : cmd ≠ [])
    (stored : sender.socket.sndQueue.put cmd = some sndQueue) :
    (sender.socket.sendBytes (some cmd) true ios).bind (sender.record (some cmd)) = some
      { socket := { sender.socket with sndQueue, currentCmd := cmd.length }
        wire := sender.wire
        accepted := sender.accepted ++ [cmd] } := by
  rw [ZSocket.sendBytes, if_neg nonempty, if_pos rfl, stored, Option.map_some, Option.bind_some,
    record]
  dsimp only
  rw [List.append_nil, Option.toList_some]

/-- A `sync` moves bytes from the front of what is pending to the wire, whatever the kernel
answers. -/
theorem sync_effect {sender next : Sender} (consistent : sender.socket.SendConsistent)
    {answer : SendAnswer} (stepped : sender.step (.sync answer) = some next) :
    next.socket.SendConsistent ∧ next.accepted = sender.accepted ∧
      next.wire ++ next.socket.pending = sender.wire ++ sender.socket.pending := by
  obtain ⟨sent, called, rfl⟩ := Option.map_eq_some_iff.mp stepped
  obtain ⟨kept, split, -⟩ := ZSocket.sync_spec consistent called
  refine ⟨kept, rfl, ?_⟩
  show sender.wire ++ sent.taken ++ sent.socket.pending = sender.wire ++ sender.socket.pending
  rw [List.append_assoc, split]

/-- A buffered command goes behind what is pending, unless it is refused. -/
theorem buffered_effect {sender next : Sender} (consistent : sender.socket.SendConsistent)
    {pstrCmd : Option (List UInt8)} {ios : List SendIo}
    (stepped : (sender.socket.sendBytes pstrCmd true ios).bind (sender.record pstrCmd) =
      some next) :
    next.socket.SendConsistent ∧ next.wire = sender.wire ∧
      ∃ added : List (List UInt8), next.accepted = sender.accepted ++ added ∧
        next.socket.pending = sender.socket.pending ++ added.flatten := by
  have refused : sender = next → next.socket.SendConsistent ∧ next.wire = sender.wire ∧
      ∃ added : List (List UInt8), next.accepted = sender.accepted ++ added ∧
        next.socket.pending = sender.socket.pending ++ added.flatten := by
    rintro rfl
    exact ⟨consistent, rfl, [], (List.append_nil _).symm, (List.append_nil _).symm⟩
  rcases pstrCmd with _ | cmd
  · rw [ZSocket.sendBytes, Option.bind_some, record_refused] at stepped
    exact refused (Option.some.inj stepped)
  · by_cases empty : cmd = []
    · rw [ZSocket.sendBytes, if_pos empty, Option.bind_some, record_refused] at stepped
      exact refused (Option.some.inj stepped)
    · have put : ∃ sndQueue, sender.socket.sndQueue.put cmd = some sndQueue := by
        rw [ZSocket.sendBytes, if_neg empty, if_pos rfl] at stepped
        obtain ⟨sent, called, -⟩ := Option.bind_eq_some_iff.mp stepped
        obtain ⟨sndQueue, stored, -⟩ := Option.map_eq_some_iff.mp called
        exact ⟨sndQueue, stored⟩
      obtain ⟨sndQueue, stored⟩ := put
      rw [sender.sendBytes_buffered ios empty stored] at stepped
      obtain rfl := Option.some.inj stepped
      obtain ⟨kept, appended⟩ := ByteBuffer.put_spec consistent.snd stored
      refine ⟨⟨kept, consistent.enc⟩, rfl, [cmd], rfl, ?_⟩
      show sender.socket.encQueue.unread ++ sndQueue.unread =
        sender.socket.encQueue.unread ++ sender.socket.sndQueue.unread ++ [cmd].flatten
      rw [appended, List.flatten_singleton, List.append_assoc]

/-- A direct command goes past what is pending, and all of it when it is accepted. -/
theorem direct_effect {sender next : Sender} {cmd : List UInt8} {ios : List SendIo}
    (nonempty : cmd ≠ [])
    (stepped : (sender.socket.sendBytes (some cmd) false ios).bind (sender.record (some cmd)) =
      some next) :
    (∃ bitmask, next.socket = { sender.socket with bitmask }) ∧
      ∃ result, (sender.socket.sendRawDataIM cmd ios).value = .returned result ∧
        (result = true → next.accepted = sender.accepted ++ [cmd] ∧
          next.wire = sender.wire ++ cmd) := by
  obtain ⟨⟨bitmask, same⟩, -, whole⟩ := sender.socket.sendRawDataIM_spec cmd ios
  rw [ZSocket.sendBytes, if_neg nonempty, if_neg Bool.false_ne_true, Option.bind_some,
    record] at stepped
  rcases status : (sender.socket.sendRawDataIM cmd ios).value with result | _
  · rw [status] at stepped
    cases result with
    | false =>
      obtain rfl := Option.some.inj stepped
      exact ⟨⟨bitmask, same⟩, false, rfl, fun returned => nomatch returned⟩
    | true =>
      obtain rfl := Option.some.inj stepped
      exact ⟨⟨bitmask, same⟩, true, rfl, fun _ =>
        ⟨rfl, congrArg (sender.wire ++ ·) (whole status)⟩⟩
  · rw [status] at stepped
    cases stepped

/-! ### Conservation -/

/-- What the kernel accepted, followed by what is pending, is the accepted commands. -/
structure Conserved (sender : Sender) : Prop where
  socket : sender.socket.SendConsistent
  stream : sender.wire ++ sender.socket.pending = sender.accepted.flatten

theorem new_conserved (sock : Int) : (new sock).Conserved where
  socket := ZSocket.new_sendConsistent sock
  stream := rfl

theorem Conserved.sync {sender next : Sender} (conserved : sender.Conserved)
    {answer : SendAnswer} (stepped : sender.step (.sync answer) = some next) :
    next.Conserved := by
  obtain ⟨kept, accepted, stream⟩ := sync_effect conserved.socket stepped
  exact ⟨kept, by rw [stream, accepted, conserved.stream]⟩

theorem Conserved.sendBuffered {sender next : Sender} (conserved : sender.Conserved)
    {pstrCmd : Option (List UInt8)} {ios : List SendIo}
    (stepped : (sender.socket.sendBytes pstrCmd true ios).bind (sender.record pstrCmd) =
      some next) : next.Conserved := by
  obtain ⟨kept, wire, added, accepted, pending⟩ := buffered_effect conserved.socket stepped
  refine ⟨kept, ?_⟩
  rw [wire, pending, accepted, List.flatten_append, ← conserved.stream, List.append_assoc]

/-! ### Buffered sending -/

/-- The call buffers its command, or is a `sync`. -/
def Buffered : SendCall → Prop
  | .sendCmd _ buffer _ => buffer = true
  | .sendCmdNoPack _ buffer _ => buffer = true
  | .sync _ => True

/-- No queue needs a capacity of `2 ^ 31` or more in the call. -/
def Fits (sender : Sender) : SendCall → Prop
  | .sendCmd pstrCmd _ _ | .sendCmdNoPack pstrCmd _ _ =>
    ∀ cmd, pstrCmd = some cmd → cmd ≠ [] →
      sender.socket.sndQueue.capacityFor cmd.length < 2 ^ 31
  | .sync _ => sender.socket.sndQueue.unread ≠ [] →
    sender.socket.encQueue.capacityFor sender.socket.sndQueue.unread.length < 2 ^ 31

theorem Conserved.sendBuffered_defined {sender : Sender} (conserved : sender.Conserved)
    {pstrCmd : Option (List UInt8)} (ios : List SendIo)
    (fits : ∀ cmd, pstrCmd = some cmd → cmd ≠ [] →
      sender.socket.sndQueue.capacityFor cmd.length < 2 ^ 31) :
    ∃ next, (sender.socket.sendBytes pstrCmd true ios).bind (sender.record pstrCmd) =
      some next := by
  rcases pstrCmd with _ | cmd
  · exact ⟨_, sender.record_refused none⟩
  · by_cases empty : cmd = []
    · rw [ZSocket.sendBytes, if_pos empty]
      exact ⟨_, sender.record_refused (some cmd)⟩
    · have small := fits cmd rfl empty
      obtain ⟨sndQueue, stored⟩ := ByteBuffer.put_defined conserved.socket.snd
        (ByteBuffer.noWrap_of_capacityFor conserved.socket.snd cmd.length
          (by simp only [trunkSize]; omega))
      exact ⟨_, sender.sendBytes_buffered ios empty stored⟩

theorem Conserved.sync_defined {sender : Sender} (conserved : sender.Conserved)
    (answer : SendAnswer) (fits : sender.Fits (.sync answer)) :
    ∃ next, sender.step (.sync answer) = some next := by
  obtain ⟨staged, moved⟩ := ZSocket.stage_defined conserved.socket fun some =>
    ByteBuffer.noWrap_of_capacityFor conserved.socket.enc _
      ((Nat.add_lt_add_right (fits some) _).trans (by decide))
  obtain ⟨kept, -⟩ := ZSocket.stage_spec conserved.socket moved
  obtain ⟨sent, flushed, -⟩ := ZSocket.flush_spec kept answer
  have called : sender.socket.sync answer = some sent := by
    rw [ZSocket.sync, moved, Option.bind_some, flushed]
  exact ⟨_, congrArg (Option.map _) called⟩

/-- One buffered call is defined and conserves the stream. -/
theorem Conserved.step_buffered {sender : Sender} (conserved : sender.Conserved)
    (call : SendCall) (allowed : Buffered call ∧ sender.Fits call) :
    ∃ next, sender.step call = some next ∧ next.Conserved := by
  obtain ⟨buffered, fits⟩ := allowed
  cases call with
  | sendCmd pstrCmd buffer ios =>
    obtain rfl : buffer = true := buffered
    obtain ⟨next, stepped⟩ := conserved.sendBuffered_defined ios fits
    exact ⟨next, stepped, conserved.sendBuffered stepped⟩
  | sendCmdNoPack pstrCmd buffer ios =>
    obtain rfl : buffer = true := buffered
    obtain ⟨next, stepped⟩ := conserved.sendBuffered_defined ios fits
    exact ⟨next, stepped, conserved.sendBuffered stepped⟩
  | sync answer =>
    obtain ⟨next, stepped⟩ := conserved.sync_defined answer fits
    exact ⟨next, stepped, conserved.sync stepped⟩

/-- Buffered sending conserves the byte stream. In every run of buffered calls and syncs, whatever
the kernel answers, as long as capacities stay below `2 ^ 31`, the run is defined, and at every
moment the bytes the kernel accepted, then those of `_enc_queue`, then those of `_snd_queue`, are
the accepted commands in call order. -/
theorem buffered_conserves (sock : Int) (calls : List SendCall)
    (allowed : PartialRun.Each step (fun sender call => Buffered call ∧ sender.Fits call)
      (new sock) calls) :
    ∃ sender, PartialRun.run step (new sock) calls = some sender ∧
      sender.wire ++ sender.socket.encQueue.unread ++ sender.socket.sndQueue.unread =
        sender.accepted.flatten := by
  obtain ⟨sender, reached, conserved⟩ := PartialRun.run_defined Conserved
    (fun _ call conserved allowed => conserved.step_buffered call allowed) (new_conserved sock)
    allowed
  refine ⟨sender, reached, ?_⟩
  rw [List.append_assoc]
  exact conserved.stream

/-- A command that finds its room in `_snd_queue` is buffered behind what is there. -/
theorem Conserved.buffer {sender : Sender} (conserved : sender.Conserved) {cmd : List UInt8}
    (nonempty : cmd ≠ [])
    (room : sender.socket.sndQueue.currPtr + cmd.length + 8 ≤ sender.socket.sndQueue.maxSize) :
    ∃ sndQueue, (sender.socket.sendBytes (some cmd) true []).bind (sender.record (some cmd)) = some
        { socket := { sender.socket with sndQueue, currentCmd := cmd.length }
          wire := sender.wire
          accepted := sender.accepted ++ [cmd] } ∧
      sndQueue.unread = sender.socket.sndQueue.unread ++ cmd ∧
      sndQueue.currPtr = sender.socket.sndQueue.currPtr + cmd.length ∧
      sndQueue.maxSize = sender.socket.sndQueue.maxSize := by
  obtain ⟨sndQueue, stored, -, appended, currPtr, maxSize⟩ :=
    ByteBuffer.put_grown conserved.socket.snd (conserved.socket.snd.noWrap_of_room room)
  exact ⟨sndQueue, sender.sendBytes_buffered [] nonempty stored, appended, currPtr,
    maxSize.trans (ByteBuffer.capacityFor_of_room room)⟩

/-- A command that is shorter than a trunk is buffered on a new socket. -/
theorem new_buffers (sock : Int) {cmd : List UInt8} (nonempty : cmd ≠ [])
    (short : cmd.length + 8 ≤ trunkSize) :
    ∃ sender, (new sock).step (.sendCmd (some cmd) true []) = some sender ∧ sender.Conserved ∧
      sender.socket.encQueue = ByteBuffer.new ∧ sender.socket.sndQueue.unread = cmd ∧
      sender.socket.sndQueue.currPtr = cmd.length ∧
      sender.socket.sndQueue.maxSize = trunkSize := by
  have room : 0 + cmd.length + 8 ≤ trunkSize := by omega
  obtain ⟨sndQueue, stepped, appended, currPtr, maxSize⟩ :=
    (new_conserved sock).buffer nonempty room
  exact ⟨_, stepped, (new_conserved sock).sendBuffered stepped, rfl, appended,
    currPtr.trans (Nat.zero_add _), maxSize⟩

theorem fits_of_room {sender : Sender} {cmd : List UInt8} (ios : List SendIo)
    (room : sender.socket.sndQueue.currPtr + cmd.length + 8 ≤ sender.socket.sndQueue.maxSize)
    (small : sender.socket.sndQueue.maxSize = trunkSize) :
    sender.Fits (.sendCmd (some cmd) true ios) := by
  intro sent same _
  obtain rfl := Option.some.inj same
  rw [ByteBuffer.capacityFor_of_room room, small]
  decide

/-- A `sync` that moves less than a trunk into an unused `_enc_queue` needs no growth. -/
theorem sync_fits {sender : Sender} (answer : SendAnswer)
    (unused : sender.socket.encQueue = ByteBuffer.new)
    (short : sender.socket.sndQueue.unread.length + 8 ≤ trunkSize) :
    sender.Fits (.sync answer) := by
  have room : 0 + sender.socket.sndQueue.unread.length + 8 ≤ trunkSize := by omega
  intro _
  have capacity : ByteBuffer.new.capacityFor sender.socket.sndQueue.unread.length = trunkSize :=
    ByteBuffer.capacityFor_of_room room
  rw [unused, capacity]
  decide

/-- The conservation, run on two buffered commands and a `sync` that takes a part of them. -/
theorem buffered_conserves_partial_sync :
    ∃ sender, PartialRun.run step (new 5) [.sendCmd (some [1, 2, 3]) true [],
        .sendCmdNoPack (some [4]) true [], .sync (.took 1)] = some sender ∧
      sender.wire ++ sender.socket.encQueue.unread ++ sender.socket.sndQueue.unread =
        sender.accepted.flatten := by
  obtain ⟨first, sent, conserved, unused, pending, currPtr, maxSize⟩ :=
    new_buffers 5 (List.cons_ne_nil (1 : UInt8) [2, 3]) (by decide)
  have room : first.socket.sndQueue.currPtr + [(4 : UInt8)].length + 8 ≤
      first.socket.sndQueue.maxSize := by
    rw [currPtr, maxSize]
    decide
  obtain ⟨sndQueue, sentNext, pendingNext, -⟩ :=
    conserved.buffer (List.cons_ne_nil (4 : UInt8) []) room
  have second : first.step (.sendCmdNoPack (some [4]) true []) = some _ := sentNext
  refine buffered_conserves 5 _ ((PartialRun.each_cons_of_step sent).mpr
    ⟨⟨rfl, fits_of_room [] (by decide) rfl⟩, (PartialRun.each_cons_of_step second).mpr
      ⟨⟨rfl, fits_of_room [] room maxSize⟩, PartialRun.each_singleton.mpr
        ⟨trivial, sync_fits _ unused ?_⟩⟩⟩)
  show sndQueue.unread.length + 8 ≤ trunkSize
  rw [pendingNext, pending]
  decide

/-! ### Mixed sending -/

/-- The kernel reports no hard error during the call. -/
def NoHardError : SendCall → Prop
  | .sendCmd _ _ ios | .sendCmdNoPack _ _ ios => ∀ io ∈ ios, io.NoError
  | .sync answer => answer ≠ .failed

/-- A command that is sent directly is sent while nothing is pending, and the `::send` behind a
`::poll` that reported the socket writable does not block. -/
def InTurn (sender : Sender) : SendCall → Prop
  | .sendCmd pstrCmd buffer ios | .sendCmdNoPack pstrCmd buffer ios =>
    buffer = false → ∀ cmd, pstrCmd = some cmd → cmd ≠ [] →
      sender.socket.pending = [] ∧ ∀ io ∈ ios, io.Truthful
  | .sync _ => True

/-- A command sent directly in its turn goes behind everything accepted before it. -/
theorem Conserved.sendDirect {sender next : Sender} (conserved : sender.Conserved)
    {pstrCmd : Option (List UInt8)} {ios : List SendIo} (noError : ∀ io ∈ ios, io.NoError)
    (inTurn : ∀ cmd, pstrCmd = some cmd → cmd ≠ [] →
      sender.socket.pending = [] ∧ ∀ io ∈ ios, io.Truthful)
    (stepped : (sender.socket.sendBytes pstrCmd false ios).bind (sender.record pstrCmd) =
      some next) : next.Conserved := by
  rcases pstrCmd with _ | cmd
  · rw [ZSocket.sendBytes, Option.bind_some, record_refused] at stepped
    exact Option.some.inj stepped ▸ conserved
  · by_cases empty : cmd = []
    · rw [ZSocket.sendBytes, if_pos empty, Option.bind_some, record_refused] at stepped
      exact Option.some.inj stepped ▸ conserved
    · obtain ⟨idle, truthful⟩ := inTurn cmd rfl empty
      obtain ⟨⟨bitmask, same⟩, result, status, whole⟩ := direct_effect empty stepped
      have persists : (sender.socket.sendRawDataIM cmd ios).value ≠ .returned false := by
        rw [ZSocket.sendRawDataIM, if_neg empty]
        exact sender.socket.sendLoop_value_ne cmd (Nat.zero_le _)
          fun io member => ⟨noError io member, truthful io member⟩
      have succeeded : result = true :=
        Bool.eq_true_of_not_eq_false fun failed => persists (failed ▸ status)
      obtain ⟨accepted, wire⟩ := whole succeeded
      have pending : next.socket.pending = [] := same ▸ idle
      have stream := conserved.stream
      rw [idle, List.append_nil] at stream
      refine ⟨same ▸ ⟨conserved.socket.snd, conserved.socket.enc⟩, ?_⟩
      rw [pending, List.append_nil, wire, accepted, List.flatten_append, List.flatten_singleton,
        stream]

/-- One call in its turn conserves the stream. -/
theorem Conserved.step_inTurn {sender next : Sender} (conserved : sender.Conserved)
    (call : SendCall) (noError : NoHardError call) (inTurn : sender.InTurn call)
    (stepped : sender.step call = some next) : next.Conserved := by
  cases call with
  | sendCmd pstrCmd buffer ios =>
    cases buffer with
    | true => exact conserved.sendBuffered stepped
    | false => exact conserved.sendDirect noError (inTurn rfl) stepped
  | sendCmdNoPack pstrCmd buffer ios =>
    cases buffer with
    | true => exact conserved.sendBuffered stepped
    | false => exact conserved.sendDirect noError (inTurn rfl) stepped
  | sync answer => exact conserved.sync stepped

/-- Commands are neither torn nor overtaken while direct sends wait for their turn. In every run
without hard errors in which a command is sent directly only while nothing is pending, the bytes
on the wire are a prefix of the accepted commands in call order, after every call and at every
moment of the next direct one. -/
theorem wire_prefix_of_inTurn (sock : Int) (calls : List SendCall) (sender : Sender)
    (inTurn : PartialRun.Each step (fun sender call => NoHardError call ∧ sender.InTurn call)
      (new sock) calls)
    (reached : PartialRun.run step (new sock) calls = some sender) :
    sender.wire <+: sender.accepted.flatten ∧
      ∀ cmd ios, sender.InTurn (.sendCmd (some cmd) false ios) →
        sender.wire ++ (sender.socket.sendRawDataIM cmd ios).taken <+:
          (sender.accepted ++ [cmd]).flatten := by
  have conserved := PartialRun.run_invariant Conserved
    (fun _ call _ conserved allowed stepped =>
      conserved.step_inTurn call allowed.1 allowed.2 stepped)
    (new_conserved sock) inTurn reached
  refine ⟨⟨_, conserved.stream⟩, fun cmd ios turn => ?_⟩
  obtain ⟨-, front, -⟩ := sender.socket.sendRawDataIM_spec cmd ios
  have stream := conserved.stream
  rw [List.flatten_append, List.flatten_singleton]
  by_cases empty : cmd = []
  · rw [empty] at front ⊢
    rw [List.prefix_nil.mp front, List.append_nil, List.append_nil]
    exact ⟨_, stream⟩
  · rw [(turn rfl cmd rfl empty).1, List.append_nil] at stream
    rw [← stream]
    exact (List.prefix_append_right_inj _).mpr front

/-- The kernel's answers to a direct send that accept one byte at once. -/
def takesOne : SendIo := ⟨.took 0, .event false true, .took 0⟩

theorem takesOne_noError : takesOne.NoError :=
  ⟨SendAnswer.noConfusion, SendAnswer.noConfusion, by decide⟩

theorem takesOne_truthful : takesOne.Truthful := SendAnswer.noConfusion

/-- The kernel's answers to a direct send that accept up to the given number of bytes, and one more,
at once. -/
def takes (more : Nat) : SendIo := ⟨.took more, .event false true, .took more⟩

theorem finishSend_takes (socket : ZSocket) {buffer : List UInt8} {more : Nat}
    (enough : buffer.length ≤ more + 1) (short : buffer.length ≤ intMax) :
    socket.finishSend buffer (.took more) =
      { socket, taken := buffer, value := buffer.length } := by
  have count : (SendAnswer.took more).count buffer.length = buffer.length := by
    rw [SendAnswer.count, Nat.min_eq_left short, Nat.min_eq_right enough]
  rw [ZSocket.finishSend, SendAnswer.retcode, count, List.take_length,
    if_neg fun both => Int.lt_irrefl _ both.2]

/-- A direct send that the kernel accepts at once, whatever the flags are. -/
theorem sendBytes_takes (socket : ZSocket) {cmd : List UInt8} {more : Nat} (nonempty : cmd ≠ [])
    (enough : cmd.length ≤ more + 1) (short : cmd.length ≤ intMax) :
    ∃ bitmask, socket.sendBytes (some cmd) false [takes more] = some
      { socket := { socket with bitmask }, taken := cmd, value := .returned true } := by
  have sent : ∃ bitmask, socket.sendRawData cmd (takes more) =
      { socket := { socket with bitmask }, taken := cmd, value := cmd.length } := by
    unfold ZSocket.sendRawData
    split
    · exact ⟨_, finishSend_takes _ enough short⟩
    · exact ⟨socket.bitmask, finishSend_takes _ enough short⟩
  obtain ⟨bitmask, sent⟩ := sent
  have accepted : ¬ (cmd.length : Int) = -1 := by omega
  refine ⟨bitmask, ?_⟩
  rw [ZSocket.sendBytes, if_neg nonempty, if_neg Bool.false_ne_true, ZSocket.sendRawDataIM,
    if_neg nonempty, ZSocket.sendLoop, List.drop_zero, sent]
  dsimp only
  rw [if_neg accepted, Nat.zero_add, Int.toNat_natCast, if_neg (Nat.lt_irrefl _),
    beq_self_eq_true]

theorem step_takes (sender : Sender) {cmd : List UInt8} {more : Nat} (nonempty : cmd ≠ [])
    (enough : cmd.length ≤ more + 1) (short : cmd.length ≤ intMax) :
    ∃ bitmask, sender.step (.sendCmd (some cmd) false [takes more]) = some
      { socket := { sender.socket with bitmask }
        wire := sender.wire ++ cmd
        accepted := sender.accepted ++ [cmd] } := by
  obtain ⟨bitmask, called⟩ := sendBytes_takes sender.socket nonempty enough short
  exact ⟨bitmask, by rw [step, ZSocket.sendCmd, called]; rfl⟩

theorem step_takesOne (sender : Sender) (byte : UInt8) :
    ∃ bitmask, sender.step (.sendCmd (some [byte]) false [takesOne]) = some
      { socket := { sender.socket with bitmask }
        wire := sender.wire ++ [byte]
        accepted := sender.accepted ++ [[byte]] } :=
  sender.step_takes (List.cons_ne_nil byte []) (Nat.le_refl 1) (by rw [List.length_singleton]; decide)

/-- A `sync` of something short that the kernel accepts at once leaves nothing pending. -/
theorem Conserved.step_sync_all {sender : Sender} (conserved : sender.Conserved) {more : Nat}
    (fits : sender.Fits (.sync (.took more))) (backlog : sender.socket.pending ≠ [])
    (enough : sender.socket.pending.length ≤ more + 1)
    (short : sender.socket.pending.length ≤ intMax) :
    ∃ next, sender.step (.sync (.took more)) = some next ∧ next.socket.pending = [] := by
  obtain ⟨next, stepped⟩ := conserved.sync_defined (.took more) fits
  refine ⟨next, stepped, ?_⟩
  obtain ⟨sent, called, rfl⟩ := Option.map_eq_some_iff.mp stepped
  obtain ⟨-, split, -⟩ := ZSocket.sync_spec conserved.socket called
  obtain ⟨staged, moved, flushed⟩ := Option.bind_eq_some_iff.mp called
  obtain ⟨kept, enc, -⟩ := ZSocket.stage_spec conserved.socket moved
  have taken := ZSocket.flush_taken kept (enc.symm ▸ backlog) flushed
  rw [enc, SendAnswer.count_all enough short, List.take_length] at taken
  rw [taken] at split
  exact List.append_right_eq_self.mp split

/-- The prefix property, run on a buffered command, a `sync` and a direct command. -/
theorem wire_prefix_of_inTurn_synced :
    ∃ sender, PartialRun.run step (new 5) [.sendCmd (some [1, 2]) true [], .sync (.took 1),
        .sendCmd (some [9]) false [takesOne]] = some sender ∧
      sender.wire <+: sender.accepted.flatten := by
  obtain ⟨first, sent, conserved, unused, queued, -⟩ :=
    new_buffers 5 (List.cons_ne_nil (1 : UInt8) [2]) (by decide)
  have backlog : first.socket.pending = [1, 2] := by
    rw [ZSocket.pending, unused, queued]
    rfl
  have fits : first.Fits (.sync (.took 1)) := sync_fits _ unused (by rw [queued]; decide)
  obtain ⟨synced, moved, idle⟩ := conserved.step_sync_all fits
    (by rw [backlog]; exact List.cons_ne_nil _ _) (by rw [backlog]; decide)
    (by rw [backlog]; decide)
  obtain ⟨bitmask, direct⟩ := synced.step_takesOne 9
  obtain ⟨sender, reached⟩ : ∃ sender, PartialRun.run step (new 5)
      [.sendCmd (some [1, 2]) true [], .sync (.took 1),
        .sendCmd (some [9]) false [takesOne]] = some sender := by
    rw [PartialRun.run_cons, sent, Option.bind_some, PartialRun.run_cons, moved,
      Option.bind_some, PartialRun.run_singleton, direct]
    exact ⟨_, rfl⟩
  have inTurn : PartialRun.Each step (fun sender call => NoHardError call ∧ sender.InTurn call)
      (new 5) [.sendCmd (some [1, 2]) true [], .sync (.took 1),
        .sendCmd (some [9]) false [takesOne]] := by
    refine (PartialRun.each_cons_of_step sent).mpr
      ⟨⟨fun io member => (List.not_mem_nil member).elim, fun direct => nomatch direct⟩,
        (PartialRun.each_cons_of_step moved).mpr ⟨⟨SendAnswer.noConfusion, trivial⟩,
          PartialRun.each_singleton.mpr
            ⟨fun io member => ?_, fun _ cmd _ _ => ⟨idle, fun io member => ?_⟩⟩⟩⟩
    · exact List.mem_singleton.mp member ▸ takesOne_noError
    · exact List.mem_singleton.mp member ▸ takesOne_truthful
  exact ⟨sender, reached, (wire_prefix_of_inTurn 5 _ _ inTurn reached).1⟩

/-- A command of one byte sent directly behind a buffered one overtakes it. -/
theorem run_overtaken (sender : Sender) {cmd : List UInt8} {sndQueue : ByteBuffer}
    (nonempty : cmd ≠ []) (stored : sender.socket.sndQueue.put cmd = some sndQueue)
    (byte : UInt8) :
    ∃ later, PartialRun.run step sender
        [.sendCmd (some cmd) true [], .sendCmd (some [byte]) false [takesOne]] = some later ∧
      later.wire = sender.wire ++ [byte] ∧ later.accepted = sender.accepted ++ [cmd, [byte]] := by
  have first : sender.step (.sendCmd (some cmd) true []) = some
      { socket := { sender.socket with sndQueue, currentCmd := cmd.length }
        wire := sender.wire
        accepted := sender.accepted ++ [cmd] } := sender.sendBytes_buffered [] nonempty stored
  obtain ⟨bitmask, second⟩ := step_takesOne
    { socket := { sender.socket with sndQueue, currentCmd := cmd.length }
      wire := sender.wire
      accepted := sender.accepted ++ [cmd] } byte
  rw [PartialRun.run_cons, first, Option.bind_some, PartialRun.run_cons, second]
  exact ⟨_, rfl, rfl, List.append_assoc _ _ _⟩

/-- A command sent directly behind a buffered one is on the wire before it. -/
theorem direct_overtakes_buffered :
    ∃ sender, PartialRun.run step (new 5)
        [.sendCmd (some [1, 2]) true [], .sendCmd (some [9]) false [takesOne]] = some sender ∧
      PartialRun.Each step (fun _ call => NoHardError call) (new 5)
        [.sendCmd (some [1, 2]) true [], .sendCmd (some [9]) false [takesOne]] ∧
      sender.wire = [9] ∧ sender.accepted = [[1, 2], [9]] ∧
      ¬ sender.wire <+: sender.accepted.flatten := by
  obtain ⟨sndQueue, stored, -⟩ := @ByteBuffer.new_put [1, 2] (by decide)
  obtain ⟨sender, reached, wire, accepted⟩ :=
    run_overtaken (new 5) (List.cons_ne_nil _ _) stored 9
  refine ⟨sender, reached, ⟨fun io member => (List.not_mem_nil member).elim,
    fun _ _ => ⟨fun io member => ?_, fun _ _ => trivial⟩⟩, wire, accepted, ?_⟩
  · obtain rfl := List.mem_singleton.mp member
    exact takesOne_noError
  · rw [wire, accepted]
    decide

end Sender

end SelftestNet
