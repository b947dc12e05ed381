/-
This file proves when every `::recv` into `_rcv_queue` has room. A `wr_reserve` stands in
front of it on every path but one: `recvToBuf` with `INCOMPLETE_READ` set goes straight to
its second `::recv`, so there the room must come from the flag. The flag is set by a
`::recv` that leaves room behind, and `recvToBuf` clears it, but `recvToBuf_NoPoll` fills the
buffer to its end without a look at it; that is the only way to lose the room.
-/

import SelftestNet.Receive

namespace SelftestNet

namespace ByteBuffer

/-- Consuming does not move the write index forward, so it takes no room. -/
theorem rdFlip_wrSize {queue next : ByteBuffer} (consistent : queue.Consistent) {size : Nat}
    (defined : queue.rdFlip size = some next) : queue.wrSize ≤ next.wrSize := by
  have inside := consistent.currPtr_le
  have fits := consistent.fits
  have moved : next.maxSize = queue.maxSize ∧ next.currPtr ≤ queue.currPtr := by
    unfold rdFlip at defined
    simp only at defined
    split at defined
    · rename_i remaining
      split at defined
      · obtain ⟨buffer, -, rfl⟩ := Option.map_eq_some_iff.mp defined
        exact ⟨rfl, (Word.sub_of_le remaining.le (by omega)).trans_le (Nat.sub_le _ _)⟩
      · obtain rfl := Option.some.inj defined
        exact ⟨rfl, Nat.le_refl _⟩
    · obtain rfl := Option.some.inj defined
      exact ⟨rfl, Nat.zero_le _⟩
  obtain ⟨maxSize, currPtr⟩ := moved
  rw [consistent.wrSize_eq, wrSize, maxSize, Word.sub_of_le (currPtr.trans inside) fits]
  exact Nat.sub_le_sub_left currPtr _

/-- Bytes written behind the write index take their own number of bytes of room, once the index is
flipped behind them. -/
theorem fill_wrSize {queue filled : ByteBuffer} (consistent : queue.Consistent)
    {bytes : List UInt8} (defined : queue.fill bytes = some filled) :
    filled.wrSize = queue.wrSize ∧
      (filled.wrFlip bytes.length).wrSize = queue.wrSize - bytes.length := by
  obtain ⟨flipped, -, maxSize, currPtr, -, bound⟩ := fill_spec consistent defined
  have fits := consistent.fits
  have before := consistent.wrSize_eq
  refine ⟨by rw [wrSize, maxSize, currPtr, wrSize], ?_⟩
  rw [flipped.wrSize_eq]
  show filled.maxSize - Word.add 32 filled.currPtr _ = _
  rw [maxSize, currPtr, Word.add_of_lt (by omega)]
  omega

end ByteBuffer

namespace ZSocket

/-! ### Room -/

/-- Behind `wr_reserve` there is room, even where the capacity wraps. -/
theorem reserve_wrSize_pos {socket : ZSocket} (consistent : socket.ReceiveConsistent) :
    0 < socket.reserve.rcvQueue.wrSize := by
  have inside := consistent.queue.currPtr_le
  have fits := consistent.queue.fits
  have grown : ByteBuffer.addSize maxDataBufferSize = 131072 := by decide
  have requested : Word.add 32 maxDataBufferSize 8 = 65543 := by decide
  show 0 < (socket.rcvQueue.wrReserve maxDataBufferSize).wrSize
  rw [ByteBuffer.wrReserve, consistent.queue.wrSize_eq, requested, grown]
  split
  · show 0 < Word.sub 32 (Word.add 32 socket.rcvQueue.maxSize 131072) socket.rcvQueue.currPtr
    unfold Word.sub Word.add
    omega
  · rw [consistent.queue.wrSize_eq]
    omega

/-- While the flag says that a `::recv` came back short, there is room for another one. -/
def RoomOnFlag (socket : ZSocket) : Prop :=
  socket.issetFlag incompleteRead = true → 0 < socket.rcvQueue.wrSize

theorem roomOnFlag_of_not_flag {socket : ZSocket}
    (clear : socket.issetFlag incompleteRead = false) : socket.RoomOnFlag := by
  intro set
  rw [clear] at set
  cases set

/-- A `::recv` that had room leaves the room that the flag promises, unless it fills the buffer
while the flag is set. -/
theorem roomOnFlag_afterRecv_iff {socket filled : ZSocket} {answer : RecvAnswer}
    (consistent : socket.ReceiveConsistent) (room : 0 < socket.rcvQueue.wrSize)
    (written : socket.recvInto answer = some filled) :
    (filled.afterRecv (answer.retcode socket.rcvQueue.wrSize)).1.RoomOnFlag ↔
      ¬ (socket.issetFlag incompleteRead = true ∧
        (answer.bytes socket.rcvQueue.wrSize).length = socket.rcvQueue.wrSize) := by
  by_cases nothing : answer.bytes socket.rcvQueue.wrSize = []
  · obtain rfl := recvInto_nothing nothing written
    have stays : ¬ 0 < answer.retcode filled.rcvQueue.wrSize :=
      Int.not_lt.mpr (RecvAnswer.retcode_nonpos nothing)
    have same : (filled.afterRecv (answer.retcode filled.rcvQueue.wrSize)).1 = filled := by
      rw [afterRecv, if_neg stays]
      split <;> rfl
    rw [same, nothing]
    exact iff_of_true (fun _ => room) (fun both => Nat.ne_of_lt room both.2)
  · obtain ⟨rcvQueue, stored, rfl⟩ := Option.map_eq_some_iff.mp written
    obtain ⟨sameRoom, left⟩ := ByteBuffer.fill_wrSize consistent.queue stored
    have positive : (0 : Int) < (answer.bytes socket.rcvQueue.wrSize).length :=
      Int.natCast_pos.mpr (List.length_pos_iff.mpr nothing)
    rw [RecvAnswer.retcode_eq nothing, afterRecv, if_pos positive, Int.toNat_natCast]
    dsimp only
    rw [sameRoom]
    split
    · rename_i short
      refine iff_of_true (fun _ => ?_) (fun both => ?_)
      · show 0 < (rcvQueue.wrFlip _).wrSize
        omega
      · omega
    · rename_i whole
      have full := RecvAnswer.length_bytes_le socket.rcvQueue.wrSize answer
      have drained : (rcvQueue.wrFlip (answer.bytes socket.rcvQueue.wrSize).length).wrSize = 0 := by
        omega
      constructor
      · rintro roomy ⟨set, -⟩
        have more : 0 < (rcvQueue.wrFlip (answer.bytes socket.rcvQueue.wrSize).length).wrSize :=
          roomy set
        omega
      · intro notBoth
        refine roomOnFlag_of_not_flag (Bool.eq_false_iff.mpr fun set => notBoth ⟨set, ?_⟩)
        omega

/-- `recvToBuf` from its label on, with the flag cleared and room for its `::recv`. -/
theorem selectRecv_roomOnFlag {socket next : ZSocket} {io : RecvIo} {retcode : Int}
    (consistent : socket.ReceiveConsistent)
    (clear : socket.issetFlag incompleteRead = false) (room : 0 < socket.rcvQueue.wrSize)
    (defined : socket.selectRecv io = some (next, retcode)) : next.RoomOnFlag := by
  by_cases ready : waitForWrite io.poll = 1
  · rw [selectRecv, if_pos ready] at defined
    obtain ⟨filled, written, result⟩ := Option.map_eq_some_iff.mp defined
    have kept := (roomOnFlag_afterRecv_iff consistent room written).mpr fun both =>
      Bool.false_ne_true (clear.symm.trans both.1)
    rw [result] at kept
    exact kept
  · rw [selectRecv, if_neg ready] at defined
    obtain ⟨rfl, -⟩ := Prod.mk.inj (Option.some.inj defined)
    exact roomOnFlag_of_not_flag clear

/-- `recvToBuf` keeps the promise of the flag: it clears the flag before it uses the room. -/
theorem recvToBuf_roomOnFlag {socket next : ZSocket} {io : RecvIo} {retcode : Int}
    (consistent : socket.ReceiveConsistent) (promised : socket.RoomOnFlag)
    (defined : socket.recvToBuf io = some (next, retcode)) : next.RoomOnFlag := by
  by_cases flag : socket.issetFlag incompleteRead
  · rw [recvToBuf, if_pos flag] at defined
    have cleared : (socket.clearFlag incompleteRead).ReceiveConsistent :=
      ⟨consistent.queue, consistent.rawSize⟩
    exact selectRecv_roomOnFlag cleared (socket.issetFlag_clearFlag _) (promised flag) defined
  · have clear : socket.reserve.issetFlag incompleteRead = false := Bool.eq_false_iff.mpr flag
    have room := reserve_wrSize_pos consistent
    rw [recvToBuf, if_neg flag] at defined
    obtain ⟨filled, written, result⟩ := Option.bind_eq_some_iff.mp defined
    obtain ⟨kept, -⟩ := reserve_spec consistent (noWrap_of_recvInto consistent written)
    by_cases blocked : io.first = .wouldBlock
    · rw [if_pos blocked] at result
      obtain rfl := recvInto_nothing (by rw [blocked, RecvAnswer.bytes]) written
      exact selectRecv_roomOnFlag kept clear room result
    · rw [if_neg blocked] at result
      have after := (roomOnFlag_afterRecv_iff kept room written).mpr fun both =>
        Bool.false_ne_true (clear.symm.trans both.1)
      rw [Option.some.inj result] at after
      exact after

/-- `recvToBuf_NoPoll` keeps the promise unless it fills the buffer while the flag is set. -/
theorem recvToBufNoPoll_roomOnFlag_iff {socket next : ZSocket} {answer : RecvAnswer}
    {retcode : Int} (consistent : socket.ReceiveConsistent)
    (defined : socket.recvToBufNoPoll answer = some (next, retcode)) :
    next.RoomOnFlag ↔ ¬ (socket.issetFlag incompleteRead = true ∧
      (answer.bytes socket.reserve.rcvQueue.wrSize).length = socket.reserve.rcvQueue.wrSize) := by
  have room := reserve_wrSize_pos consistent
  obtain ⟨filled, written, result⟩ := Option.map_eq_some_iff.mp defined
  obtain ⟨kept, -⟩ := reserve_spec consistent (noWrap_of_recvInto consistent written)
  by_cases blocked : answer = .wouldBlock
  · subst blocked
    obtain rfl := recvInto_nothing rfl written
    obtain ⟨rfl, -⟩ := Prod.mk.inj result
    exact iff_of_true (fun _ => room) (fun both => Nat.ne_of_lt room both.2)
  · rw [if_neg blocked] at result
    have after := roomOnFlag_afterRecv_iff kept room written
    rw [result] at after
    exact after

/-- Taking a packet takes no room. -/
theorem recvToCmdNoPoll_roomOnFlag {socket : ZSocket} {nCmdLen : Nat} {out : Extracted}
    (consistent : socket.ReceiveConsistent) (promised : socket.RoomOnFlag)
    (defined : socket.recvToCmdNoPoll nCmdLen = some out) : out.socket.RoomOnFlag := by
  obtain ⟨rcvQueue, rcvRawSize, same, rfl | ⟨size, consumed⟩⟩ := recvToCmdNoPoll_frame defined
  · rw [same]
    exact promised
  · rw [same]
    exact fun set => (promised set).trans_le (ByteBuffer.rdFlip_wrSize consistent.queue consumed)

end ZSocket

namespace Receiver

/-! ### Every receive -/

/-- The lengths of the `::recv` calls into `_rcv_queue` that a call makes. -/
def asked (receiver : Receiver) : RecvCall → List Nat
  | .recvToBufNoPoll _ => [receiver.socket.reserve.rcvQueue.wrSize]
  | .recvToBuf io =>
    if receiver.socket.issetFlag incompleteRead then
      if waitForWrite io.poll = 1 then [receiver.socket.rcvQueue.wrSize] else []
    else if io.first = .wouldBlock ∧ waitForWrite io.poll = 1 then
      [receiver.socket.reserve.rcvQueue.wrSize, receiver.socket.reserve.rcvQueue.wrSize]
    else [receiver.socket.reserve.rcvQueue.wrSize]
  | .recvToCmdNoPoll _ => []

/-- Whatever is called next, every `::recv` into `_rcv_queue` asks for something, so that it
returns `0` only at the end of the stream. -/
def HasRoom (receiver : Receiver) : Prop :=
  ∀ call, ∀ length ∈ receiver.asked call,
    0 < length ∧ ∀ answer : RecvAnswer, answer.retcode length = 0 → answer = .closed

/-- The call is a `recvToBuf_NoPoll` that receives as much as it asks for while
`INCOMPLETE_READ` is set. -/
def FillsOnFlag (receiver : Receiver) : RecvCall → Prop
  | .recvToBufNoPoll answer => receiver.socket.issetFlag incompleteRead = true ∧
    (receiver.socket.incoming answer).length = receiver.socket.reserve.rcvQueue.wrSize
  | .recvToBuf _ | .recvToCmdNoPoll _ => False

theorem closed_of_retcode {length : Nat} (room : 0 < length) {answer : RecvAnswer}
    (zero : answer.retcode length = 0) : answer = .closed := by
  cases answer with
  | data first rest =>
    rw [RecvAnswer.retcode, RecvAnswer.bytes, List.length_take, List.length_cons, intMax] at zero
    omega
  | wouldBlock => cases zero
  | closed => rfl
  | failed => cases zero

/-- There is room everywhere exactly when there is as much as the flag promises. -/
theorem hasRoom_iff {receiver : Receiver} (consistent : receiver.socket.ReceiveConsistent) :
    receiver.HasRoom ↔ receiver.socket.RoomOnFlag := by
  have reserved := ZSocket.reserve_wrSize_pos consistent
  constructor
  · intro hasRoom set
    have ready : waitForWrite (.event false true) = 1 := rfl
    refine (hasRoom (.recvToBuf ⟨.wouldBlock, .event false true, .wouldBlock⟩) _ ?_).1
    rw [asked, if_pos set, if_pos ready]
    exact List.mem_singleton_self _
  · intro promised call length member
    have room : 0 < length := by
      cases call with
      | recvToBufNoPoll answer => exact List.mem_singleton.mp member ▸ reserved
      | recvToBuf io =>
        rw [asked] at member
        split at member
        · rename_i set
          split at member
          · exact List.mem_singleton.mp member ▸ promised set
          · cases member
        · split at member
          · rcases List.mem_cons.mp member with rfl | again
            · exact reserved
            · exact List.mem_singleton.mp again ▸ reserved
          · exact List.mem_singleton.mp member ▸ reserved
      | recvToCmdNoPoll nCmdLen => cases member
    exact ⟨room, fun answer zero => closed_of_retcode room zero⟩

theorem new_hasRoom (sock : Int) : (new sock).HasRoom := by
  refine (hasRoom_iff (ZSocket.new_receiveConsistent sock)).mpr fun _ => ?_
  show 0 < ByteBuffer.new.wrSize
  rw [ByteBuffer.new_consistent.wrSize_eq]
  decide

/-- One call leaves room exactly when it does not fill the buffer while the flag is set. -/
theorem hasRoom_step_iff {receiver next : Receiver} (sound : receiver.Sound)
    (hasRoom : receiver.HasRoom) (call : RecvCall) (stepped : receiver.step call = some next) :
    next.HasRoom ↔ ¬ receiver.FillsOnFlag call := by
  have promised := (hasRoom_iff sound.socket).mp hasRoom
  rw [hasRoom_iff (sound.step call stepped).socket]
  cases call with
  | recvToBufNoPoll answer =>
    obtain ⟨⟨socket, retcode⟩, called, rfl⟩ := Option.map_eq_some_iff.mp stepped
    exact ZSocket.recvToBufNoPoll_roomOnFlag_iff sound.socket called
  | recvToBuf io =>
    obtain ⟨⟨socket, retcode⟩, called, rfl⟩ := Option.map_eq_some_iff.mp stepped
    exact iff_of_true (ZSocket.recvToBuf_roomOnFlag sound.socket promised called) id
  | recvToCmdNoPoll nCmdLen =>
    obtain ⟨out, called, rfl⟩ := Option.map_eq_some_iff.mp stepped
    exact iff_of_true (ZSocket.recvToCmdNoPoll_roomOnFlag sound.socket promised called) id

/-- In every state that a run reaches each `::recv` has room exactly when no call of the run fills
the buffer while the flag is set, leaving out the calls that are undefined. -/
theorem reached_hasRoom_iff (sock : Int) (calls : List RecvCall) :
    (∀ first receiver, first <+: calls → PartialRun.run step (new sock) first = some receiver →
        receiver.HasRoom) ↔
      PartialRun.Each step
        (fun receiver call => receiver.FillsOnFlag call → receiver.step call = none)
        (new sock) calls := by
  rw [PartialRun.reached_iff_each, and_iff_right (new_hasRoom sock)]
  refine PartialRun.each_congr (fun receiver => receiver.Sound ∧ receiver.HasRoom)
    (fun receiver call next holds unfilled stepped => ?_) (fun receiver call holds => ?_)
    ⟨new_sound sock, new_hasRoom sock⟩
  · refine ⟨holds.1.step call stepped, (hasRoom_step_iff holds.1 holds.2 call stepped).mpr ?_⟩
    intro fills
    exact Option.some_ne_none next (stepped.symm.trans (unfilled fills))
  · constructor
    · intro kept fills
      refine Option.eq_none_iff_forall_ne_some.mpr fun next stepped => ?_
      exact (hasRoom_step_iff holds.1 holds.2 call stepped).mp (kept next stepped) fills
    · intro unfilled next stepped
      refine (hasRoom_step_iff holds.1 holds.2 call stepped).mpr fun fills => ?_
      exact Option.some_ne_none next (stepped.symm.trans (unfilled fills))

/-- The first `recvToBuf_NoPoll` of a socket loses the room when it receives `196608` bytes, which
is all it asks for: the constructor has set the flag. -/
theorem first_fill_leaves_no_room :
    ¬ ∀ first receiver,
        first <+: [RecvCall.recvToBufNoPoll (.data 0 (List.replicate 196607 0))] →
        PartialRun.run step (new 5) first = some receiver → receiver.HasRoom := by
  intro reached
  obtain ⟨next, stepped, -⟩ := (new_sound 5).step_defined
    (.recvToBufNoPoll (.data 0 (List.replicate 196607 0))) (new_fits 5 _)
  have roomy := reached [_] next (List.prefix_refl _)
    ((PartialRun.run_singleton _ _ _).trans stepped)
  have asked : (new 5).socket.reserve.rcvQueue.wrSize = 196608 := by decide
  have filled : (new 5).FillsOnFlag (.recvToBufNoPoll (.data 0 (List.replicate 196607 0))) := by
    refine ⟨by decide, ?_⟩
    rw [ZSocket.incoming, asked, RecvAnswer.bytes, List.length_take, List.length_cons,
      List.length_replicate]
    rfl
  exact (hasRoom_step_iff (new_sound 5) (new_hasRoom 5) _ stepped).mp roomy filled

end Receiver

end SelftestNet
