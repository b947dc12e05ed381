/-
This file proves that `sendRawDataIM` hands its buffer over exactly once. The loop is taken
one `sendRawData` at a time, with a record of every `::send` it issues. Behind each
iteration the bytes that the kernel has accepted are the buffer up to `offset`, and each
`::send` asked for all the bytes that were left then, so the record is the buffer cut into
pieces. An iteration without a timeout ends the loop or moves `offset`, which the length of
the buffer bounds; so only timeouts can keep the loop going.
-/

import SelftestNet.Send

namespace SelftestNet

/-! ### Requests -/

/-- One `::send`: the bytes that it asks for, and the kernel's answer. -/
structure SendRequest where
  asked : List UInt8
  answer : SendAnswer

namespace SendRequest

/-- The bytes that the kernel accepts. -/
def accepted (request : SendRequest) : List UInt8 :=
  request.asked.take (request.answer.count request.asked.length)

/-- Every request asks for exactly what the ones before it left, and something is left then. -/
def InTurn : List UInt8 → List SendRequest → Prop
  | _, [] => True
  | remaining, request :: rest =>
    request.asked = remaining ∧ remaining ≠ [] ∧
      InTurn (remaining.drop request.accepted.length) rest

theorem inTurn_append (remaining : List UInt8) (first second : List SendRequest) :
    InTurn remaining (first ++ second) ↔ InTurn remaining first ∧
      InTurn (remaining.drop (first.flatMap accepted).length) second := by
  induction first generalizing remaining with
  | nil => exact (and_iff_right trivial).symm
  | cons request rest inductionHypothesis =>
    rw [List.cons_append, InTurn, InTurn, inductionHypothesis, List.drop_drop, and_assoc, and_assoc,
      List.flatMap_cons, List.length_append]

end SendRequest

namespace ZSocket

/-- The `::send` of `sendRawData` behind its label. -/
def selectRequests (buffer : List UInt8) (io : SendIo) : List SendRequest :=
  if waitForWrite io.poll = 1 then [⟨buffer, io.second⟩] else []

/-- The `::send` calls of one `sendRawData`. -/
def requests (socket : ZSocket) (buffer : List UInt8) (io : SendIo) : List SendRequest :=
  if socket.issetFlag incompleteWrite then selectRequests buffer io
  else ⟨buffer, io.first⟩ :: if io.first = .wouldBlock then selectRequests buffer io else []

/-- The call gets to its wait, and the wait times out. -/
def TimesOut (socket : ZSocket) (io : SendIo) : Prop :=
  (socket.issetFlag incompleteWrite = true ∨ io.first = .wouldBlock) ∧ io.poll = .timeout

theorem selectRequests_accepted (socket : ZSocket) (buffer : List UInt8) (io : SendIo) :
    (selectRequests buffer io).flatMap SendRequest.accepted =
      (socket.doSelect buffer io).taken := by
  by_cases ready : waitForWrite io.poll = 1
  · rw [selectRequests, doSelect, if_pos ready, if_pos ready]
    exact List.append_nil _
  · rw [selectRequests, doSelect, if_neg ready, if_neg ready]
    rfl

/-- The requests of a `sendRawData` account for what the kernel accepts during it. -/
theorem requests_accepted (socket : ZSocket) (buffer : List UInt8) (io : SendIo) :
    (socket.requests buffer io).flatMap SendRequest.accepted =
      (socket.sendRawData buffer io).taken := by
  unfold requests sendRawData
  split
  · exact selectRequests_accepted _ buffer io
  · split
    · rename_i blocked
      rw [List.flatMap_cons, selectRequests_accepted socket, SendRequest.accepted, blocked]
      rfl
    · exact List.append_nil _

theorem selectRequests_inTurn {buffer : List UInt8} (some : buffer ≠ []) (io : SendIo) :
    SendRequest.InTurn buffer (selectRequests buffer io) := by
  unfold selectRequests
  split
  · exact ⟨rfl, some, trivial⟩
  · trivial

/-- Each `::send` of one `sendRawData` asks for the whole buffer: one that is followed by another
has accepted nothing. -/
theorem requests_inTurn (socket : ZSocket) {buffer : List UInt8} (some : buffer ≠ [])
    (io : SendIo) : SendRequest.InTurn buffer (socket.requests buffer io) := by
  unfold requests
  split
  · exact selectRequests_inTurn some io
  · refine ⟨rfl, some, ?_⟩
    split
    · rename_i blocked
      rw [SendRequest.accepted, blocked]
      exact selectRequests_inTurn some io
    · trivial

theorem finishSend_value_ne_zero (socket : ZSocket) {buffer : List UInt8} (some : buffer ≠ [])
    (answer : SendAnswer) : (socket.finishSend buffer answer).value ≠ 0 := by
  have positive := List.length_pos_iff.mpr some
  cases answer with
  | took more =>
    show ((SendAnswer.took more).count buffer.length : Int) ≠ 0
    rw [SendAnswer.count, intMax]
    omega
  | wouldBlock | failed => exact Int.noConfusion

theorem doSelect_value_eq_zero (socket : ZSocket) {buffer : List UInt8} (some : buffer ≠ [])
    (io : SendIo) : (socket.doSelect buffer io).value = 0 ↔ io.poll = .timeout := by
  unfold doSelect
  rcases io.poll with ⟨pollIn, _ | _⟩ | _ | _
  · exact iff_of_false Int.noConfusion PollAnswer.noConfusion
  · exact iff_of_false (socket.finishSend_value_ne_zero some io.second) PollAnswer.noConfusion
  · exact iff_of_true rfl rfl
  · exact iff_of_false Int.noConfusion PollAnswer.noConfusion

/-- `sendRawData` makes no progress without failing only when its wait times out. -/
theorem sendRawData_value_eq_zero (socket : ZSocket) {buffer : List UInt8} (some : buffer ≠ [])
    (io : SendIo) : (socket.sendRawData buffer io).value = 0 ↔ socket.TimesOut io := by
  unfold sendRawData TimesOut
  split
  · rename_i flag
    rw [doSelect_value_eq_zero _ some, and_iff_right (Or.inl flag)]
  · rename_i clear
    split
    · rename_i blocked
      rw [doSelect_value_eq_zero _ some, and_iff_right (Or.inr blocked)]
    · rename_i notBlocked
      exact iff_of_false (socket.finishSend_value_ne_zero some io.first)
        fun timesOut => timesOut.1.elim clear notBlocked

end ZSocket

/-! ### Iterations -/

/-- Where the loop of `sendRawDataIM` stands, with the `::send` calls issued so far. -/
structure SendLoop where
  socket : ZSocket
  offset : Nat
  requests : List SendRequest
  status : CallStatus

namespace SendLoop

/-- The bytes that the kernel has accepted so far. -/
def accepted (loop : SendLoop) : List UInt8 := loop.requests.flatMap SendRequest.accepted

/-- The loop before its first iteration. -/
def start (socket : ZSocket) : SendLoop where
  socket := socket
  offset := 0
  requests := []
  status := .waiting

/-- One iteration. A loop that has returned stays as it is. -/
def iterate (buffer : List UInt8) (loop : SendLoop) (io : SendIo) : SendLoop :=
  match loop.status with
  | .returned _ => loop
  | .waiting =>
    let sent := loop.socket.sendRawData (buffer.drop loop.offset) io
    let requests := loop.requests ++ loop.socket.requests (buffer.drop loop.offset) io
    if sent.value = -1 then
      { loop with socket := sent.socket, requests, status := .returned false }
    else
      let offset := loop.offset + sent.value.toNat
      { socket := sent.socket
        offset
        requests
        status :=
          if offset < buffer.length then .waiting else .returned (offset == buffer.length) }

/-- The loop behind the iterations that get the given answers. -/
def behind (socket : ZSocket) (buffer : List UInt8) (ios : List SendIo) : SendLoop :=
  ios.foldl (iterate buffer) (start socket)

theorem iterate_waiting (buffer : List UInt8) {loop : SendLoop}
    (waiting : loop.status = .waiting) (io : SendIo) :
    iterate buffer loop io =
      let sent := loop.socket.sendRawData (buffer.drop loop.offset) io
      let requests := loop.requests ++ loop.socket.requests (buffer.drop loop.offset) io
      if sent.value = -1 then
        { loop with socket := sent.socket, requests, status := .returned false }
      else
        { socket := sent.socket
          offset := loop.offset + sent.value.toNat
          requests
          status := if loop.offset + sent.value.toNat < buffer.length then .waiting
            else .returned (loop.offset + sent.value.toNat == buffer.length) } := by
  unfold iterate
  rw [waiting]

theorem foldl_iterate_returned (buffer : List UInt8) {loop : SendLoop} {result : Bool}
    (returned : loop.status = .returned result) (ios : List SendIo) :
    ios.foldl (iterate buffer) loop = loop := by
  induction ios with
  | nil => rfl
  | cons io rest inductionHypothesis =>
    have stays : iterate buffer loop io = loop := by
      unfold iterate
      rw [returned]
    rw [List.foldl_cons, stays, inductionHypothesis]

/-- The requests of one more `sendRawData` hand over what it hands over. -/
theorem accepted_append (loop : SendLoop) (buffer : List UInt8) (io : SendIo) :
    (loop.requests ++ loop.socket.requests buffer io).flatMap SendRequest.accepted =
      loop.accepted ++ (loop.socket.sendRawData buffer io).taken := by
  rw [List.flatMap_append, loop.socket.requests_accepted]
  rfl

/-- The iterations, one after the other, are the loop. -/
theorem foldl_iterate_eq (buffer : List UInt8) (loop : SendLoop)
    (waiting : loop.status = .waiting) (ios : List SendIo) :
    let sent := loop.socket.sendLoop buffer loop.offset ios
    let last := ios.foldl (iterate buffer) loop
    last.socket = sent.socket ∧ last.accepted = loop.accepted ++ sent.taken ∧
      last.status = sent.value := by
  induction ios generalizing loop with
  | nil => exact ⟨rfl, (List.append_nil _).symm, waiting⟩
  | cons io rest inductionHypothesis =>
    have grown := loop.accepted_append (buffer.drop loop.offset) io
    have next := iterate_waiting buffer waiting io
    dsimp only at next
    rw [List.foldl_cons, ZSocket.sendLoop]
    dsimp only
    split
    · rename_i failed
      rw [if_pos failed] at next
      rw [foldl_iterate_returned buffer (congrArg status next), next]
      exact ⟨rfl, grown, rfl⟩
    · rename_i succeeded
      rw [if_neg succeeded] at next
      split
      · rename_i more
        rw [if_pos more] at next
        obtain ⟨socket, later, status⟩ := inductionHypothesis _ (congrArg status next)
        rw [next] at socket later status ⊢
        refine ⟨socket, later.trans ?_, status⟩
        rw [accepted, grown, List.append_assoc]
      · rename_i finished
        rw [if_neg finished] at next
        rw [foldl_iterate_returned buffer (congrArg status next), next]
        exact ⟨rfl, grown, rfl⟩

/-- `sendRawDataIM` of a buffer is its iterations. -/
theorem behind_eq (socket : ZSocket) {buffer : List UInt8} (some : buffer ≠ [])
    (ios : List SendIo) :
    (behind socket buffer ios).socket = (socket.sendRawDataIM buffer ios).socket ∧
      (behind socket buffer ios).accepted = (socket.sendRawDataIM buffer ios).taken ∧
      (behind socket buffer ios).status = (socket.sendRawDataIM buffer ios).value := by
  rw [ZSocket.sendRawDataIM, if_neg some]
  exact foldl_iterate_eq buffer (start socket) rfl ios

/-! ### The invariant of the loop -/

/-- The kernel has accepted the buffer up to `offset`, each request asked for what was left then,
and the loop stops at the end of the buffer, or before it when it has returned `false`. -/
structure Sound (buffer : List UInt8) (loop : SendLoop) : Prop where
  accepted : loop.accepted = buffer.take loop.offset
  offset_le : loop.offset ≤ buffer.length
  inTurn : SendRequest.InTurn buffer loop.requests
  whole : loop.status = .returned true ↔ loop.offset = buffer.length

theorem start_sound (socket : ZSocket) {buffer : List UInt8} (some : buffer ≠ []) :
    (start socket).Sound buffer where
  accepted := List.take_zero.symm
  offset_le := Nat.zero_le _
  inTurn := trivial
  whole := iff_of_false CallStatus.noConfusion (List.length_pos_iff.mpr some).ne

/-- A loop that has not returned has something left to send. -/
theorem Sound.offset_lt {buffer : List UInt8} {loop : SendLoop} (sound : loop.Sound buffer)
    (waiting : loop.status = .waiting) : loop.offset < buffer.length := by
  refine Nat.lt_of_le_of_ne sound.offset_le fun finished => ?_
  rw [← sound.whole, waiting] at finished
  cases finished

theorem Sound.remaining_ne_nil {buffer : List UInt8} {loop : SendLoop} (sound : loop.Sound buffer)
    (waiting : loop.status = .waiting) : buffer.drop loop.offset ≠ [] := by
  rw [Ne, List.drop_eq_nil_iff, Nat.not_le]
  exact sound.offset_lt waiting

/-- One iteration keeps the invariant. -/
theorem Sound.iterate {buffer : List UInt8} {loop : SendLoop} (sound : loop.Sound buffer)
    (io : SendIo) : (iterate buffer loop io).Sound buffer := by
  rcases status : loop.status with result | _
  · unfold SendLoop.iterate
    rwa [status]
  · have inside := sound.offset_lt status
    have length : loop.accepted.length = loop.offset := by
      rw [sound.accepted, List.length_take_of_le sound.offset_le]
    have inTurn : SendRequest.InTurn buffer
        (loop.requests ++ loop.socket.requests (buffer.drop loop.offset) io) := by
      refine (SendRequest.inTurn_append _ _ _).mpr ⟨sound.inTurn, ?_⟩
      show SendRequest.InTurn (buffer.drop loop.accepted.length) _
      rw [length]
      exact loop.socket.requests_inTurn (sound.remaining_ne_nil status) io
    have accepted := loop.accepted_append (buffer.drop loop.offset) io
    rw [sound.accepted] at accepted
    obtain ⟨-, result⟩ := loop.socket.sendRawData_handsOver (buffer.drop loop.offset) io
    rw [iterate_waiting buffer status]
    dsimp only
    rcases result with ⟨failed, nothing⟩ | ⟨count, bounded, counted, taken⟩
    · rw [if_pos failed]
      rw [nothing, List.append_nil] at accepted
      exact ⟨accepted, sound.offset_le, inTurn, iff_of_false (by simp) inside.ne⟩
    · have succeeded : (loop.socket.sendRawData (buffer.drop loop.offset) io).value ≠ -1 := by
        rw [counted]
        omega
      rw [if_neg succeeded, counted, Int.toNat_natCast]
      rw [List.length_drop] at bounded
      rw [taken, ← List.take_add] at accepted
      refine ⟨accepted, ?_, inTurn, ?_⟩
      · show loop.offset + count ≤ buffer.length
        omega
      · show (if loop.offset + count < buffer.length then CallStatus.waiting
          else .returned (loop.offset + count == buffer.length)) = .returned true ↔
            loop.offset + count = buffer.length
        split
        · exact iff_of_false CallStatus.noConfusion (by omega)
        · rw [CallStatus.returned.injEq, beq_iff_eq]

theorem behind_sound (socket : ZSocket) {buffer : List UInt8} (some : buffer ≠ [])
    (ios : List SendIo) : (behind socket buffer ios).Sound buffer :=
  List.foldlRecOn ios (iterate buffer) (start_sound socket some)
    fun _ sound io _ => sound.iterate io

/-! ### Termination -/

/-- An iteration that does not time out moves `offset`, unless it ends the loop. -/
theorem offset_lt_iterate {buffer : List UInt8} {loop : SendLoop} (sound : loop.Sound buffer)
    {io : SendIo} (waiting : loop.status = .waiting)
    (still : (iterate buffer loop io).status = .waiting) (ready : ¬ loop.socket.TimesOut io) :
    loop.offset < (iterate buffer loop io).offset := by
  have remaining := sound.remaining_ne_nil waiting
  obtain ⟨-, result⟩ := loop.socket.sendRawData_handsOver (buffer.drop loop.offset) io
  have moves := mt (loop.socket.sendRawData_value_eq_zero remaining io).mp ready
  have next := iterate_waiting buffer waiting io
  dsimp only at next
  rcases result with ⟨failed, -⟩ | ⟨count, -, counted, -⟩
  · rw [next, if_pos failed] at still
    cases still
  · rw [counted] at next moves
    rw [next, if_neg (by omega)]
    dsimp only
    omega

/-- The loop behind its first iterations on a sequence of answers. -/
def behindFirst (socket : ZSocket) (buffer : List UInt8) (answers : Nat → SendIo)
    (count : Nat) : SendLoop := behind socket buffer ((List.range count).map answers)

theorem behindFirst_succ (socket : ZSocket) (buffer : List UInt8) (answers : Nat → SendIo)
    (count : Nat) :
    behindFirst socket buffer answers (count + 1) =
      iterate buffer (behindFirst socket buffer answers count) (answers count) := by
  unfold behindFirst behind
  rw [List.range_succ, List.map_append, List.foldl_append, List.map_singleton, List.foldl_cons,
    List.foldl_nil]

/-- The loop returns when only finitely many of its waits time out. -/
theorem exists_returned (socket : ZSocket) {buffer : List UInt8} (some : buffer ≠ [])
    (answers : Nat → SendIo) {bound : Nat}
    (ready : ∀ index, bound ≤ index →
      ¬ (behindFirst socket buffer answers index).socket.TimesOut (answers index)) :
    ∃ count, (behindFirst socket buffer answers count).status ≠ .waiting := by
  by_contra never
  have waiting : ∀ count, (behindFirst socket buffer answers count).status = .waiting :=
    fun count => by_contra fun returned => never ⟨count, returned⟩
  have moved : ∀ more, more ≤ (behindFirst socket buffer answers (bound + more)).offset := by
    intro more
    induction more with
    | zero => exact Nat.zero_le _
    | succ more inductionHypothesis =>
      have still := waiting (bound + more + 1)
      rw [behindFirst_succ] at still
      have further := offset_lt_iterate (behind_sound socket some _) (waiting (bound + more)) still
        (ready (bound + more) (Nat.le_add_right _ _))
      rw [← Nat.add_assoc, behindFirst_succ]
      exact Nat.succ_le_of_lt (inductionHypothesis.trans_lt further)
  have beyond := moved (buffer.length + 1)
  have inside := (behind_sound socket some
    ((List.range (bound + (buffer.length + 1))).map answers)).offset_le
  exact absurd (beyond.trans inside) (Nat.not_succ_le_self _)

/-- `sendRawDataIM` hands over its buffer exactly once. Behind every iteration the kernel has
accepted the buffer up to `offset`, and every `::send` asked for all that was left then, which was
something. When the call returns `true` the kernel has accepted the buffer, when it returns `false`
less than that; and it returns when from some iteration on no wait times out. -/
theorem sendRawDataIM_exactlyOnce (socket : ZSocket) {buffer : List UInt8} (some : buffer ≠ []) :
    (∀ ios,
      (behind socket buffer ios).accepted = (socket.sendRawDataIM buffer ios).taken ∧
      (behind socket buffer ios).status = (socket.sendRawDataIM buffer ios).value ∧
      (behind socket buffer ios).accepted = buffer.take (behind socket buffer ios).offset ∧
      (behind socket buffer ios).offset ≤ buffer.length ∧
      SendRequest.InTurn buffer (behind socket buffer ios).requests ∧
      ((socket.sendRawDataIM buffer ios).value = .returned true →
        (socket.sendRawDataIM buffer ios).taken = buffer) ∧
      ((socket.sendRawDataIM buffer ios).value = .returned false →
        (socket.sendRawDataIM buffer ios).taken <+: buffer ∧
          (socket.sendRawDataIM buffer ios).taken ≠ buffer)) ∧
    ∀ answers : Nat → SendIo,
      (∃ bound, ∀ index, bound ≤ index →
        ¬ (behindFirst socket buffer answers index).socket.TimesOut (answers index)) →
      ∃ count,
        (socket.sendRawDataIM buffer ((List.range count).map answers)).value ≠ .waiting := by
  refine ⟨fun ios => ?_, fun answers ⟨bound, ready⟩ => ?_⟩
  · obtain ⟨-, taken, value⟩ := behind_eq socket some ios
    obtain ⟨accepted, inside, inTurn, whole⟩ := behind_sound socket some ios
    refine ⟨taken, value, accepted, inside, inTurn, fun returned => ?_, fun returned => ?_⟩
    · rw [← taken, accepted, whole.mp (value.trans returned), List.take_length]
    · rw [← taken, accepted]
      refine ⟨List.take_prefix _ _, fun all => ?_⟩
      have length := congrArg List.length all
      rw [List.length_take_of_le inside] at length
      have finished := whole.mpr length
      rw [value, returned] at finished
      cases finished
  · obtain ⟨count, returned⟩ := exists_returned socket some answers ready
    rw [behindFirst, (behind_eq socket some _).2.2] at returned
    exact ⟨count, returned⟩

/-- A buffer of three bytes that goes in two pieces, behind a wait that times out. -/
theorem sendRawDataIM_exactlyOnce_pieces :
    ((ZSocket.new 5).sendRawDataIM [1, 2, 3]
      [⟨.wouldBlock, .timeout, .wouldBlock⟩, ⟨.took 0, .event false true, .took 0⟩,
        ⟨.took 0, .event false true, .took 5⟩]).taken = [1, 2, 3] :=
  ((sendRawDataIM_exactlyOnce (ZSocket.new 5) (List.cons_ne_nil 1 [2, 3])).1
    [⟨.wouldBlock, .timeout, .wouldBlock⟩, ⟨.took 0, .event false true, .took 0⟩,
      ⟨.took 0, .event false true, .took 5⟩]).2.2.2.2.2.1 (by decide)

end SendLoop

end SelftestNet
