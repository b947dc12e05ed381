/-
This file proves when `force_sync` loses nothing. It sends `_enc_queue` with `sendRawDataIM`
and then resets the queue, without a look at the value that came back. So it gives up
whatever the kernel has not accepted by the first answer that makes `sendRawData` return
`-1`, and the whole queue where its length turns into a negative `int`.
-/

import SelftestNet.SendLoop

namespace SelftestNet

/-! ### What the kernel lets through -/

/-- The bytes of the given length that a `::send` accepts, if it does not return `-1`. -/
def SendAnswer.accepts (length : Nat) : SendAnswer → Option Nat
  | took more => some ((took more).count length)
  | wouldBlock | failed => none

namespace SendIo

/-- What the answers behind the label of `sendRawData` come to. -/
def selects (remaining : Nat) (io : SendIo) : Option Nat :=
  match io.poll with
  | .event _ true => io.second.accepts remaining
  | .timeout => some 0
  | .event _ false | .failed => none

/-- What the answers come to for the given number of remaining bytes, with `INCOMPLETE_WRITE` as
given: the number of bytes accepted, unless `sendRawData` returns `-1`. -/
def accepts (flag : Bool) (remaining : Nat) (io : SendIo) : Option Nat :=
  if flag ∨ io.first = .wouldBlock then io.selects remaining else io.first.accepts remaining

/-- No answer makes a `sendRawData` of the remaining bytes return `-1` before all of them are
accepted. -/
def Unbroken (flag : Bool) (remaining : Nat) : List SendIo → Prop
  | [] => True
  | io :: rest =>
    match io.accepts flag remaining with
    | none => False
    | some count =>
      count < remaining → Unbroken (decide (0 < count)) (remaining - count) rest

end SendIo

namespace ZSocket

/-! ### One iteration -/

/-- A `::send` with `INCOMPLETE_WRITE` clear returns what it accepts, and sets the flag when that
is something but not all. -/
theorem finishSend_accepts {socket : ZSocket} (clear : socket.issetFlag incompleteWrite = false)
    (buffer : List UInt8) (answer : SendAnswer) :
    (socket.finishSend buffer answer).value =
        ((answer.accepts buffer.length).map Int.ofNat).getD (-1) ∧
      (socket.finishSend buffer answer).socket.issetFlag incompleteWrite =
        decide (0 < (socket.finishSend buffer answer).value ∧
          (socket.finishSend buffer answer).value < buffer.length) := by
  refine ⟨by cases answer <;> rfl, ?_⟩
  unfold finishSend
  dsimp only
  split
  · rename_i partly
    rw [issetFlag_setFlag socket (by decide), decide_eq_true partly]
  · rename_i whole
    rw [clear, decide_eq_false whole]

theorem doSelect_accepts {socket : ZSocket} (clear : socket.issetFlag incompleteWrite = false)
    (buffer : List UInt8) (io : SendIo) :
    (socket.doSelect buffer io).value = ((io.selects buffer.length).map Int.ofNat).getD (-1) ∧
      (socket.doSelect buffer io).socket.issetFlag incompleteWrite =
        decide (0 < (socket.doSelect buffer io).value ∧
          (socket.doSelect buffer io).value < buffer.length) := by
  unfold doSelect SendIo.selects
  rcases io.poll with ⟨pollIn, _ | _⟩ | _ | _
  · exact ⟨rfl, clear⟩
  · exact finishSend_accepts clear buffer io.second
  · exact ⟨rfl, clear⟩
  · exact ⟨rfl, clear⟩

/-- What a `sendRawData` returns, and where it leaves the flag, as far as the answers say. -/
theorem sendRawData_accepts (socket : ZSocket) (buffer : List UInt8) (io : SendIo) :
    (socket.sendRawData buffer io).value =
        ((io.accepts (socket.issetFlag incompleteWrite) buffer.length).map Int.ofNat).getD (-1) ∧
      (socket.sendRawData buffer io).socket.issetFlag incompleteWrite =
        decide (0 < (socket.sendRawData buffer io).value ∧
          (socket.sendRawData buffer io).value < buffer.length) := by
  by_cases flag : socket.issetFlag incompleteWrite = true
  · rw [sendRawData, if_pos flag, SendIo.accepts, if_pos (Or.inl flag)]
    exact doSelect_accepts (socket.issetFlag_clearFlag incompleteWrite) buffer io
  · have clear := Bool.eq_false_iff.mpr flag
    by_cases blocked : io.first = .wouldBlock
    · rw [sendRawData, if_neg flag, if_pos blocked, SendIo.accepts, if_pos (Or.inr blocked)]
      exact doSelect_accepts clear buffer io
    · rw [sendRawData, if_neg flag, if_neg blocked, SendIo.accepts,
        if_neg (not_or_intro flag blocked)]
      exact finishSend_accepts clear buffer io.first

/-- The loop of `sendRawDataIM` gives up exactly when an answer breaks it. -/
theorem sendLoop_unbroken_iff (socket : ZSocket) (buffer : List UInt8) {offset : Nat}
    (inside : offset < buffer.length) (ios : List SendIo) :
    (socket.sendLoop buffer offset ios).value ≠ .returned false ↔
      SendIo.Unbroken (socket.issetFlag incompleteWrite) (buffer.length - offset) ios := by
  induction ios generalizing socket offset with
  | nil => exact iff_of_true CallStatus.noConfusion trivial
  | cons io rest inductionHypothesis =>
    obtain ⟨-, result⟩ := socket.sendRawData_handsOver (buffer.drop offset) io
    obtain ⟨value, flag⟩ := socket.sendRawData_accepts (buffer.drop offset) io
    rw [List.length_drop] at value flag
    rw [sendLoop, SendIo.Unbroken]
    dsimp only
    rcases accepted : io.accepts (socket.issetFlag incompleteWrite) (buffer.length - offset) with
      _ | count
    · rw [accepted, Option.map_none, Option.getD_none] at value
      rw [if_pos value]
      exact iff_of_false (not_not_intro rfl) id
    · rw [accepted, Option.map_some, Option.getD_some, Int.ofNat_eq_natCast] at value
      have succeeded : (socket.sendRawData (buffer.drop offset) io).value ≠ -1 := by omega
      have bounded : count ≤ buffer.length - offset := by
        obtain ⟨more, fits, same, -⟩ := result.resolve_left fun failed => succeeded failed.1
        rw [List.length_drop] at fits
        omega
      rw [if_neg succeeded, value, Int.toNat_natCast]
      by_cases more : count < buffer.length - offset
      · have partly : (0 < (count : Int) ∧ (count : Int) < ↑(buffer.length - offset)) ↔
            0 < count := by omega
        rw [value, decide_eq_decide.mpr partly] at flag
        rw [if_pos (show offset + count < buffer.length by omega)]
        dsimp only
        rw [imp_iff_right more, ← flag, ← Nat.sub_add_eq]
        exact inductionHypothesis _ (by omega)
      · rw [if_neg (show ¬ offset + count < buffer.length by omega),
          show offset + count = buffer.length by omega, beq_self_eq_true]
        exact iff_of_true (by simp) (fun less => absurd less more)

/-! ### One call -/

/-- `sendRawDataIM` of a buffer hands over all of it exactly when it returns and no answer breaks
it. -/
theorem sendRawDataIM_taken_iff (socket : ZSocket) {buffer : List UInt8} (some : buffer ≠ [])
    {ios : List SendIo} {result : Bool}
    (returned : (socket.sendRawDataIM buffer ios).value = .returned result) :
    (socket.sendRawDataIM buffer ios).taken = buffer ↔
      SendIo.Unbroken (socket.issetFlag incompleteWrite) buffer.length ios := by
  obtain ⟨-, taken, value⟩ := SendLoop.behind_eq socket some ios
  obtain ⟨accepted, inside, -, whole⟩ := SendLoop.behind_sound socket some ios
  have unbroken := socket.sendLoop_unbroken_iff buffer (List.length_pos_iff.mpr some) ios
  rw [Nat.sub_zero] at unbroken
  have finished : (socket.sendRawDataIM buffer ios).taken = buffer ↔
      (SendLoop.behind socket buffer ios).offset = buffer.length := by
    rw [← taken, accepted]
    constructor
    · intro all
      rw [← List.length_take_of_le inside, all]
    · intro all
      rw [all, List.take_length]
  rw [finished, ← whole, value, ← unbroken]
  rw [sendRawDataIM, if_neg some] at returned ⊢
  rw [returned, ne_eq, CallStatus.returned.injEq, CallStatus.returned.injEq, Bool.not_eq_false]

/-- What `force_sync` reads out of `_enc_queue`: everything, unless its length is negative as an
`int`. -/
theorem read_encQueue {socket : ZSocket} (consistent : socket.SendConsistent) :
    Region.read socket.encQueue.buffer socket.encQueue.offPtr
        (Word.toInt 32 socket.encQueue.rdSize).toNat =
      some (if socket.encQueue.unread.length < 2 ^ 31 then socket.encQueue.unread else []) := by
  rw [consistent.enc.rdSize_eq_length, Word.toInt]
  split
  · rename_i short
    rw [Int.toNat_natCast, consistent.enc.read_unread (Nat.le_refl _), List.take_length]
  · have fits := consistent.enc.length_unread_lt
    have negative : ((socket.encQueue.unread.length : Int) - 2 ^ 32).toNat = 0 := by omega
    rw [negative, consistent.enc.read_unread (Nat.zero_le _), List.take_zero]

/-- A `force_sync` that has returned leaves nothing pending, and has sent what was pending exactly
when that was nothing or was short enough and no answer broke the loop. -/
theorem forceSync_spec {socket : ZSocket} {ios : List SendIo} {sent : Sent Bool}
    (consistent : socket.SendConsistent) (defined : socket.forceSync ios = some sent)
    (returned : sent.value = true) :
    sent.socket.encQueue.unread = [] ∧ sent.socket.sndQueue.unread = [] ∧
      (sent.taken = socket.pending ↔ socket.pending = [] ∨
        (socket.pending.length < 2 ^ 31 ∧
          SendIo.Unbroken (socket.issetFlag incompleteWrite) socket.pending.length ios)) := by
  obtain ⟨staged, moved, flushed⟩ := Option.bind_eq_some_iff.mp defined
  obtain ⟨kept, enc, snd, -⟩ := stage_spec consistent moved
  have flag : staged.issetFlag incompleteWrite = socket.issetFlag incompleteWrite := by
    obtain ⟨encQueue, sndQueue, same⟩ := stage_frame moved
    rw [same]
    rfl
  rw [← enc, ← flag]
  rw [forceFlush] at flushed
  by_cases ready : staged.encQueue.unread = []
  · rw [kept.enc.rdReady_eq_false ready] at flushed
    obtain rfl := Option.some.inj flushed
    exact ⟨ready, snd, iff_of_true ready.symm (Or.inl ready)⟩
  · rw [if_pos (kept.enc.rdReady_iff.mpr ready), read_encQueue kept, Option.map_some] at flushed
    have result := Option.some.inj flushed
    set bytes := if staged.encQueue.unread.length < 2 ^ 31 then staged.encQueue.unread else []
      with found
    have reset := ByteBuffer.reset_spec kept.enc
    rw [or_iff_right ready]
    rcases status : (staged.sendRawDataIM bytes ios).value with value | _
    · obtain ⟨⟨bitmask, same⟩, -⟩ := staged.sendRawDataIM_spec bytes ios
      dsimp only at result
      rw [status] at result
      obtain rfl := result
      dsimp only
      rw [same]
      refine ⟨reset.2, snd, ?_⟩
      by_cases short : staged.encQueue.unread.length < 2 ^ 31
      · rw [if_pos short] at found
        rw [and_iff_right short, found]
        exact staged.sendRawDataIM_taken_iff ready (found ▸ status)
      · rw [if_neg short] at found
        rw [found]
        exact iff_of_false (fun all => ready all.symm) (fun both => short both.1)
    · dsimp only at result
      rw [status] at result
      obtain rfl := result
      cases returned

/-- Where staging is defined and the loop returns, `force_sync` returns. -/
theorem forceSync_returns {socket staged : ZSocket} (consistent : socket.SendConsistent)
    (moved : socket.stage = some staged) (some : socket.pending ≠ [])
    (short : socket.pending.length < 2 ^ 31) {ios : List SendIo} {result : Bool}
    (ended : (staged.sendRawDataIM socket.pending ios).value = .returned result) :
    ∃ sent, socket.forceSync ios = .some sent ∧ sent.value = true := by
  obtain ⟨kept, enc, -⟩ := stage_spec consistent moved
  rw [← enc] at some short ended
  rw [forceSync, moved, Option.bind_some, forceFlush, if_pos (kept.enc.rdReady_iff.mpr some),
    read_encQueue kept, if_pos short, Option.map_some]
  dsimp only
  rw [ended]
  exact ⟨_, rfl, rfl⟩

/-- Whatever is buffered, a `force_sync` that returns keeps every byte that the kernel has not
accepted exactly when nothing is left to keep: when nothing was pending, or when what was pending
has a length below `2 ^ 31` and no answer of the kernel makes `sendRawData` return `-1` before all
of it is accepted. -/
theorem forceSync_conserves_iff {socket : ZSocket} {ios : List SendIo} {sent : Sent Bool}
    (consistent : socket.SendConsistent) (defined : socket.forceSync ios = some sent)
    (returned : sent.value = true) :
    sent.taken ++ sent.socket.encQueue.unread ++ sent.socket.sndQueue.unread =
        socket.encQueue.unread ++ socket.sndQueue.unread ↔
      socket.pending = [] ∨ (socket.pending.length < 2 ^ 31 ∧
        SendIo.Unbroken (socket.issetFlag incompleteWrite) socket.pending.length ios) := by
  obtain ⟨enc, snd, sentAll⟩ := forceSync_spec consistent defined returned
  rw [enc, snd, List.append_nil, List.append_nil]
  exact sentAll

/-- The answers to a send that waits and then gets rid of everything. -/
def takesAll : SendIo := ⟨.wouldBlock, .event false true, .took intMax⟩

/-- The answers to a send whose wait fails. -/
def waitFails : SendIo := ⟨.wouldBlock, .failed, .wouldBlock⟩

theorem sendRawDataIM_waitFails {socket : ZSocket}
    (flag : socket.issetFlag incompleteWrite = true) {buffer : List UInt8} (some : buffer ≠ []) :
    (socket.sendRawDataIM buffer [waitFails]).value = .returned false := by
  rw [sendRawDataIM, if_neg some, sendLoop, sendRawData, if_pos flag]
  rfl

theorem sendRawDataIM_takesAll {socket : ZSocket}
    (flag : socket.issetFlag incompleteWrite = true) :
    (socket.sendRawDataIM [1, 2, 3] [takesAll]).value = .returned true := by
  rw [sendRawDataIM, if_neg (List.cons_ne_nil _ _), sendLoop, sendRawData, if_pos flag]
  rfl

/-- A new socket with one command in `_snd_queue`. -/
theorem new_buffered :
    ∃ socket staged, (new 5).sendCmd (some [1, 2, 3]) true [] =
        some { socket, taken := [], value := .returned true } ∧
      socket.SendConsistent ∧ socket.pending = [1, 2, 3] ∧ socket.stage = some staged ∧
      socket.issetFlag incompleteWrite = true ∧ staged.issetFlag incompleteWrite = true := by
  obtain ⟨sndQueue, stored, kept, appended, -⟩ := @ByteBuffer.new_put [1, 2, 3] (by decide)
  have consistent : ({ new 5 with sndQueue, currentCmd := 3 } : ZSocket).SendConsistent :=
    ⟨kept, ByteBuffer.new_consistent⟩
  have length : sndQueue.unread.length = 3 := congrArg List.length appended
  obtain ⟨staged, moved⟩ := stage_defined consistent fun _ =>
    length.symm ▸ ByteBuffer.new_noWrap (by decide)
  have flag : (new 5).issetFlag incompleteWrite = true := by decide
  refine ⟨_, staged, ?_, consistent, appended, moved, flag, ?_⟩
  · rw [sendCmd, sendBytes, if_neg (List.cons_ne_nil _ _), if_pos rfl]
    exact congrArg (Option.map _) stored
  · obtain ⟨encQueue, sndQueue, same⟩ := stage_frame moved
    rw [same]
    exact flag

/-- A buffered command that the kernel takes at once. -/
theorem forceSync_conserves_taken :
    ∃ socket sent, (new 5).sendCmd (some [1, 2, 3]) true [] =
        some { socket, taken := [], value := .returned true } ∧
      socket.forceSync [takesAll] = some sent ∧
      sent.taken ++ sent.socket.encQueue.unread ++ sent.socket.sndQueue.unread =
        socket.encQueue.unread ++ socket.sndQueue.unread := by
  obtain ⟨socket, staged, buffered, consistent, pending, moved, flag, flagStaged⟩ := new_buffered
  have nonempty : socket.pending ≠ [] := pending ▸ List.cons_ne_nil _ _
  have short : socket.pending.length < 2 ^ 31 := by
    rw [pending]
    decide
  have ended : (staged.sendRawDataIM socket.pending [takesAll]).value = .returned true := by
    rw [pending]
    exact sendRawDataIM_takesAll flagStaged
  obtain ⟨sent, defined, returned⟩ := forceSync_returns consistent moved nonempty short ended
  refine ⟨socket, sent, buffered, defined,
    (forceSync_conserves_iff consistent defined returned).mpr (Or.inr ⟨short, ?_⟩)⟩
  rw [flag, pending]
  exact fun less => absurd less (by decide)

/-- A buffered command is gone when the wait fails. -/
theorem forceSync_drops :
    ∃ socket sent, (new 5).sendCmd (some [1, 2, 3]) true [] =
        some { socket, taken := [], value := .returned true } ∧
      socket.forceSync [waitFails] = some sent ∧ sent.value = true ∧
      sent.taken ++ sent.socket.encQueue.unread ++ sent.socket.sndQueue.unread ≠
        socket.encQueue.unread ++ socket.sndQueue.unread := by
  obtain ⟨socket, staged, buffered, consistent, pending, moved, flag, flagStaged⟩ := new_buffered
  have nonempty : socket.pending ≠ [] := pending ▸ List.cons_ne_nil _ _
  have short : socket.pending.length < 2 ^ 31 := by
    rw [pending]
    decide
  obtain ⟨sent, defined, returned⟩ := forceSync_returns consistent moved nonempty short
    (sendRawDataIM_waitFails flagStaged nonempty)
  obtain ⟨enc, snd, sentAll⟩ := forceSync_spec consistent defined returned
  refine ⟨socket, sent, buffered, defined, returned, ?_⟩
  rw [enc, snd, List.append_nil, List.append_nil]
  refine fun all => (sentAll.mp all).elim nonempty fun both => ?_
  rw [flag, pending] at both
  exact both.2

end ZSocket

end SelftestNet
