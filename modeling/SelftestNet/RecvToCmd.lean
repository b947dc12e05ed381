/-
This file proves what becomes of the packets that `recvToCmd` takes. The function takes
the packet in front, receives, and takes the packet in front again; it drops the value of
both extractions, the second writes over what the first copied, and the last path has no
`return`. So a packet is safe only in a call that finds none at its start or that gets past
its receive and then finds no second one, and even there the value is whatever the missing
`return` leaves.
-/

import SelftestNet.Receive

namespace SelftestNet

open Framing

/-- A complete packet is in front of the pending bytes. -/
def PacketReady (pending : List UInt8) : Prop := nextFrame packetFormat pending ≠ none

namespace ZSocket

/-! ### One extraction -/

/-- What a `recvToCmd_NoPoll` does: nothing without a complete packet in front; otherwise it takes
that packet. -/
theorem recvToCmdNoPoll_cases {socket : ZSocket} {nCmdLen : Nat} {out : Extracted}
    (consistent : socket.ReceiveConsistent) (defined : socket.recvToCmdNoPoll nCmdLen = some out) :
    (¬ PacketReady socket.rcvQueue.unread ∧ out.socket = socket ∧ out.removed = [] ∧
        ∀ memory, out.overwrite memory = some memory) ∨
      (PacketReady socket.rcvQueue.unread ∧ out.socket.ReceiveConsistent ∧
        ∃ payload, out.removed = [payload] ∧
          ∀ memory written, out.overwrite memory = some written → payload <+: written) := by
  rcases frame : nextFrame packetFormat socket.rcvQueue.unread with _ | ⟨payload, rest⟩
  · rw [recvToCmdNoPoll_of_none consistent nCmdLen frame] at defined
    obtain rfl := Option.some.inj defined
    refine Or.inl ⟨not_not_intro frame, rfl, rfl, fun memory => ?_⟩
    exact (Region.write_of_le (Nat.zero_le _)).trans
      (congrArg some (Region.overwrite_nil memory 0))
  · obtain ⟨rcvQueue, taken, kept, -⟩ := recvToCmdNoPoll_of_some consistent nCmdLen frame
    obtain rfl := Option.some.inj (taken.symm.trans defined)
    refine Or.inr ⟨?_, kept, payload, rfl, fun memory written inside => ?_⟩
    · rw [PacketReady, frame]
      exact Option.some_ne_none _
    · rw [(Region.write_eq_some_iff.mp inside).2, Region.overwrite, List.take_zero,
        List.nil_append]
      exact List.prefix_append _ _

theorem recvToCmdNoPoll_consistent {socket : ZSocket} {nCmdLen : Nat} {out : Extracted}
    (consistent : socket.ReceiveConsistent) (defined : socket.recvToCmdNoPoll nCmdLen = some out) :
    out.socket.ReceiveConsistent := by
  rcases recvToCmdNoPoll_cases consistent defined with ⟨-, same, -⟩ | ⟨-, kept, -⟩
  · exact same ▸ consistent
  · exact kept

/-! ### One call -/

/-- The socket at the receive of a `recvToCmd`. -/
def atReceive (socket : ZSocket) (nCmdLen : Nat) : ZSocket :=
  ((socket.recvToCmdNoPoll nCmdLen).map Extracted.socket).getD socket

theorem atReceive_eq {socket : ZSocket} {nCmdLen : Nat} {first : Extracted}
    (extracted : socket.recvToCmdNoPoll nCmdLen = some first) :
    socket.atReceive nCmdLen = first.socket := by
  rw [atReceive, extracted, Option.map_some, Option.getD_some]

/-- The kernel's answers let a `recvToCmd` get past its receive: it receives something, or it waits,
the wait times out and the caller has asked to go on. -/
def Passes (socket : ZSocket) (wait : Bool) (io : RecvIo) : Prop :=
  socket.incomingPolled io ≠ [] ∨
    (wait = true ∧ (socket.issetFlag incompleteRead = true ∨ io.first = .wouldBlock) ∧
      io.poll = .timeout)

theorem waitForWrite_eq_zero (poll : PollAnswer) : waitForWrite poll = 0 ↔ poll = .timeout := by
  rcases poll with ⟨pollIn, _ | _⟩ | _ | _ <;> decide +revert

theorem waitForWrite_cases (poll : PollAnswer) :
    waitForWrite poll = 1 ∨ waitForWrite poll = 0 ∨ waitForWrite poll = -1 := by
  rcases poll with ⟨pollIn, _ | _⟩ | _ | _ <;> decide +revert

/-- A `recvToCmd` returns behind its receive exactly when the answers do not let it pass. -/
theorem passes_iff {socket next : ZSocket} {io : RecvIo} {retval : Int}
    (called : socket.recvToBuf io = some (next, retval)) (wait : Bool) :
    socket.Passes wait io ↔ ¬ (retval = -1 ∨ (retval = 0 ∧ wait = false)) := by
  have value := recvToBuf_value called
  unfold Passes
  by_cases nothing : socket.incomingPolled io = []
  · rw [if_pos nothing] at value
    rw [or_iff_right (not_not_intro nothing), ← waitForWrite_eq_zero]
    split at value
    · rename_i waited
      subst value
      have answers := waitForWrite_cases io.poll
      rw [and_iff_right waited.1]
      cases wait <;> simp <;> omega
    · rename_i elsewhere
      subst value
      refine iff_of_false (fun passed => elsewhere ⟨passed.2.1, ?_⟩) (fun not => not (Or.inl rfl))
      rw [passed.2.2]
      decide
  · rw [if_neg nothing] at value
    have some := List.length_pos_iff.mpr nothing
    exact iff_of_true (Or.inl nothing) (by omega)

/-- The answers let the call pass its receive, and a complete packet is in front then. -/
def FindsBehind (socket : ZSocket) (wait : Bool) (io : RecvIo) : Prop :=
  socket.Passes wait io ∧ PacketReady (socket.rcvQueue.unread ++ socket.incomingPolled io)

/-- The call is safe for the packets: a packet that is complete at its start is the only one that
it meets, and it gets past its receive then; and if it meets one at all, then `value`, which the
missing `return` leaves, is neither `0` nor `-1`. -/
def Keeps (socket : ZSocket) (value : Int) (nCmdLen : Nat) (wait : Bool) (io : RecvIo) : Prop :=
  (PacketReady socket.rcvQueue.unread →
    (socket.atReceive nCmdLen).Passes wait io ∧
      ¬ (socket.atReceive nCmdLen).FindsBehind wait io) ∧
  (PacketReady socket.rcvQueue.unread ∨ (socket.atReceive nCmdLen).FindsBehind wait io →
    value ≠ 0 ∧ value ≠ -1)

end ZSocket

/-- A `recvToCmd` loses no packet: it takes one at most, and if it takes one then `pstrCmd` holds
its payload and the caller does not read `0` or `-1`, where `value` is read behind the missing
`return`. -/
def Fetched.Lossless (value : Int) (out : Fetched) : Prop :=
  out.removed.length ≤ 1 ∧
    ∀ payload ∈ out.removed,
      payload <+: out.pstrCmd ∧ out.retval.getD value ≠ 0 ∧ out.retval.getD value ≠ -1

namespace ZSocket

/-- What a defined `recvToCmd` does: it extracts and receives, and either returns what the receive
came to or extracts again. -/
theorem recvToCmd_cases {socket : ZSocket} {pstrCmd : List UInt8} {nCmdLen : Nat} {wait : Bool}
    {io : RecvIo} {out : Fetched}
    (defined : socket.recvToCmd pstrCmd nCmdLen wait io = some out) :
    ∃ first written polled retval, socket.recvToCmdNoPoll nCmdLen = some first ∧
      first.overwrite pstrCmd = some written ∧
      first.socket.recvToBuf io = some (polled, retval) ∧
      (((retval = -1 ∨ (retval = 0 ∧ wait = false)) ∧
          out = ⟨polled, first.removed, written, some retval⟩) ∨
        (¬ (retval = -1 ∨ (retval = 0 ∧ wait = false)) ∧
          ∃ second rewritten, polled.recvToCmdNoPoll nCmdLen = some second ∧
            second.overwrite written = some rewritten ∧
            out = ⟨second.socket, first.removed ++ second.removed, rewritten, none⟩)) := by
  obtain ⟨first, extracted, rest⟩ := Option.bind_eq_some_iff.mp defined
  obtain ⟨written, inside, rest⟩ := Option.bind_eq_some_iff.mp rest
  obtain ⟨⟨polled, retval⟩, received, result⟩ := Option.bind_eq_some_iff.mp rest
  refine ⟨first, written, polled, retval, extracted, inside, received, ?_⟩
  by_cases returned : retval = -1 ∨ (retval = 0 ∧ wait = false)
  · rw [if_pos returned, Option.some.injEq] at result
    exact Or.inl ⟨returned, result.symm⟩
  · rw [if_neg returned] at result
    obtain ⟨second, again, copied⟩ := Option.bind_eq_some_iff.mp result
    obtain ⟨rewritten, insideAgain, same⟩ := Option.map_eq_some_iff.mp copied
    exact Or.inr ⟨returned, second, rewritten, again, insideAgain, same.symm⟩

/-- One `recvToCmd` loses no packet exactly when it is safe. -/
theorem lossless_iff {socket : ZSocket} {pstrCmd : List UInt8} {nCmdLen : Nat} {wait : Bool}
    {io : RecvIo} {out : Fetched} (consistent : socket.ReceiveConsistent) (value : Int)
    (defined : socket.recvToCmd pstrCmd nCmdLen wait io = some out) :
    out.Lossless value ↔ socket.Keeps value nCmdLen wait io := by
  obtain ⟨first, written, polled, retval, extracted, inside, received, ended⟩ :=
    recvToCmd_cases defined
  have kept := recvToCmdNoPoll_consistent consistent extracted
  obtain ⟨after, appended⟩ := recvToBuf_spec kept received
  have passes := passes_iff received wait
  rw [Keeps, atReceive_eq extracted]
  rcases ended with ⟨returned, rfl⟩ | ⟨goesOn, second, rewritten, again, insideAgain, rfl⟩
  · have stopped : ¬ first.socket.Passes wait io := mt passes.mp (not_not_intro returned)
    have reported : retval = 0 ∨ retval = -1 := returned.symm.imp_left And.left
    rcases recvToCmdNoPoll_cases consistent extracted with ⟨idle, -, removed, -⟩ |
      ⟨ready, -, payload, removed, -⟩
    · refine iff_of_true ?_ ⟨fun ready => absurd ready idle, ?_⟩
      · rw [Fetched.Lossless, removed]
        exact ⟨Nat.zero_le 1, fun payload member => absurd member List.not_mem_nil⟩
      · rintro (ready | found)
        · exact absurd ready idle
        · exact absurd found.1 stopped
    · refine iff_of_false (fun lossless => ?_) (fun safe => stopped (safe.1 ready).1)
      rw [Fetched.Lossless, removed] at lossless
      have unreported := (lossless.2 payload (List.mem_singleton_self _)).2
      exact reported.elim unreported.1 unreported.2
  · have passed := passes.mpr goesOn
    have found : first.socket.FindsBehind wait io ↔ PacketReady polled.rcvQueue.unread := by
      rw [FindsBehind, and_iff_right passed, ← appended]
    rw [found, and_iff_right passed]
    rcases recvToCmdNoPoll_cases consistent extracted with ⟨idle, -, removed, -⟩ |
        ⟨ready, -, payload, removed, copied⟩ <;>
      rcases recvToCmdNoPoll_cases after again with ⟨behind, -, removedBehind, overwritten⟩ |
        ⟨readyBehind, -, payloadBehind, removedBehind, copiedBehind⟩ <;>
      rw [Fetched.Lossless, removed, removedBehind]
    · simp [idle, behind]
    · simp [idle, readyBehind, copiedBehind _ _ insideAgain]
    · obtain rfl := Option.some.inj ((overwritten written).symm.trans insideAgain)
      simp [ready, behind, copied _ _ inside]
    · simp [ready, readyBehind]

/-- With the flag set, a wait that times out receives nothing and clears the flag. -/
theorem recvToBuf_timeout {socket : ZSocket} (flag : socket.issetFlag incompleteRead = true)
    {nCmdLen : Nat} {taken : Extracted} (extracted : socket.recvToCmdNoPoll nCmdLen = some taken)
    (first second : RecvAnswer) :
    taken.socket.recvToBuf ⟨first, .timeout, second⟩ =
      some (taken.socket.clearFlag incompleteRead, 0) := by
  have stays : taken.socket.issetFlag incompleteRead = true := by
    obtain ⟨rcvQueue, rcvRawSize, same, -⟩ := recvToCmdNoPoll_frame extracted
    rw [same]
    exact flag
  rw [recvToBuf, if_pos stays]
  rfl

/-- A call that does not wait returns `0` when its wait times out, whatever it has taken before. -/
theorem recvToCmd_timeout {socket : ZSocket} (flag : socket.issetFlag incompleteRead = true)
    {pstrCmd written : List UInt8} {nCmdLen : Nat} (first second : RecvAnswer) {taken : Extracted}
    (extracted : socket.recvToCmdNoPoll nCmdLen = some taken)
    (inside : taken.overwrite pstrCmd = some written) :
    socket.recvToCmd pstrCmd nCmdLen false ⟨first, .timeout, second⟩ = some
      { socket := taken.socket.clearFlag incompleteRead
        removed := taken.removed
        pstrCmd := written
        retval := some 0 } := by
  rw [recvToCmd, extracted, Option.bind_some, inside, Option.bind_some,
    recvToBuf_timeout flag extracted, Option.bind_some]
  rfl

/-- One that waits goes on then, and leaves what it has taken when nothing is pending behind it. -/
theorem recvToCmd_waits {socket : ZSocket} (flag : socket.issetFlag incompleteRead = true)
    {pstrCmd written : List UInt8} {nCmdLen : Nat} (first second : RecvAnswer) {taken : Extracted}
    (extracted : socket.recvToCmdNoPoll nCmdLen = some taken)
    (inside : taken.overwrite pstrCmd = some written) (kept : taken.socket.ReceiveConsistent)
    (idle : nextFrame packetFormat taken.socket.rcvQueue.unread = none) :
    socket.recvToCmd pstrCmd nCmdLen true ⟨first, .timeout, second⟩ = some
      { socket := taken.socket.clearFlag incompleteRead
        removed := taken.removed
        pstrCmd := written
        retval := none } := by
  have cleared : (taken.socket.clearFlag incompleteRead).ReceiveConsistent :=
    ⟨kept.queue, kept.rawSize⟩
  have nothing : Region.write written 0 [] = some written :=
    (Region.write_of_le (Nat.zero_le _)).trans (congrArg some (Region.overwrite_nil written 0))
  rw [recvToCmd, extracted, Option.bind_some, inside, Option.bind_some,
    recvToBuf_timeout flag extracted, Option.bind_some]
  dsimp only
  rw [if_neg (by decide), recvToCmdNoPoll_of_none cleared nCmdLen idle, Option.bind_some,
    Extracted.overwrite, nothing, Option.map_some]
  exact congrArg (fun removed => some (Fetched.mk _ removed written none))
    (List.append_nil taken.removed)

/-- What `recvToCmd` returns itself is `0` or `-1`. -/
theorem recvToCmd_retval {socket : ZSocket} {pstrCmd : List UInt8} {nCmdLen : Nat} {wait : Bool}
    {io : RecvIo} {out : Fetched}
    (defined : socket.recvToCmd pstrCmd nCmdLen wait io = some out) :
    out.retval = none ∨ out.retval = some 0 ∨ out.retval = some (-1) := by
  obtain ⟨first, written, polled, retval, -, -, -,
    ⟨returned, rfl⟩ | ⟨-, second, rewritten, -, -, rfl⟩⟩ := recvToCmd_cases defined
  · exact Or.inr (returned.symm.imp (congrArg some ·.1) (congrArg some))
  · exact Or.inl rfl

end ZSocket

/-! ### Runs of calls -/

/-- What the caller finds in `pstrCmd` behind a call that takes a packet and is not reported as
nothing or as a failure. -/
def Fetched.reported (out : Fetched) : List (List UInt8) :=
  match out.retval, out.removed.getLast? with
  | none, some payload => [out.pstrCmd.take payload.length]
  | _, _ => []

theorem Fetched.Lossless.reported_eq {value : Int} {out : Fetched} (lossless : out.Lossless value)
    (retval : out.retval = none ∨ out.retval = some 0 ∨ out.retval = some (-1)) :
    out.reported = out.removed := by
  obtain ⟨one, held⟩ := lossless
  unfold reported
  match removed : out.removed with
  | [] => simp
  | [payload] =>
    obtain ⟨copied, nonzero, noFailure⟩ := held payload (removed ▸ List.mem_singleton_self _)
    rcases retval with open' | zero | failure
    · rw [open', List.getLast?_singleton, List.prefix_iff_eq_take.mp copied]
      simp
    · exact absurd (congrArg (Option.getD · value) zero) nonzero
    · exact absurd (congrArg (Option.getD · value) failure) noFailure
  | _ :: _ :: _ =>
    rw [removed] at one
    simp at one

/-- The arguments of one `recvToCmd`, with what the caller's memory at `pstrCmd` holds before it, the
kernel's answers, and the value that the missing `return` leaves. -/
structure CommandCall where
  pstrCmd : List UInt8
  nCmdLen : Nat
  wait : Bool
  io : RecvIo
  stray : Int

/-- The receiving half of a socket under `recvToCmd`, with the payloads that reached the caller. -/
structure CommandReader where
  receiver : Receiver
  delivered : List (List UInt8)

namespace Receiver

theorem step_recvToCmdNoPoll (receiver : Receiver) (nCmdLen : Nat) :
    receiver.step (.recvToCmdNoPoll nCmdLen) =
      (receiver.socket.recvToCmdNoPoll nCmdLen).map fun out =>
        { receiver with
          socket := out.socket
          copies := receiver.copies ++ out.removed.map (nCmdLen, ·) } := by
  refine congrArg (Option.map · _) (funext fun out => ?_)
  unfold Extracted.removed
  split
  · rfl
  · rw [List.map_nil, List.append_nil]

theorem recvToBufNoPoll_flag {receiver next : Receiver} {answer : RecvAnswer}
    (set : receiver.socket.issetFlag incompleteRead = true)
    (stepped : receiver.step (.recvToBufNoPoll answer) = some next) :
    next.socket.issetFlag incompleteRead = true := by
  obtain ⟨⟨socket, retcode⟩, called, rfl⟩ := Option.map_eq_some_iff.mp stepped
  exact ZSocket.recvToBufNoPoll_flag set called

/-- `recvToCmd` is a `recvToCmd_NoPoll`, a `recvToBuf` and, where it does not return before, another
`recvToCmd_NoPoll`. -/
theorem Sound.recvToCmd {receiver : Receiver} (sound : receiver.Sound) {call : CommandCall}
    {out : Fetched}
    (defined : receiver.socket.recvToCmd call.pstrCmd call.nCmdLen call.wait call.io = some out) :
    Sound
      { socket := out.socket
        received := receiver.received ++
          (receiver.socket.atReceive call.nCmdLen).incomingPolled call.io
        copies := receiver.copies ++ out.removed.map (call.nCmdLen, ·) } := by
  obtain ⟨first, written, polled, retval, extracted, -, received, ended⟩ :=
    ZSocket.recvToCmd_cases defined
  rw [ZSocket.atReceive_eq extracted]
  have behindFirst := sound.recvToCmdNoPoll
    ((receiver.step_recvToCmdNoPoll call.nCmdLen).trans (congrArg _ extracted))
  have behindReceive := behindFirst.step (.recvToBuf call.io) (congrArg (Option.map _) received)
  rcases ended with ⟨-, rfl⟩ | ⟨-, second, rewritten, again, -, rfl⟩
  · exact behindReceive
  · have behindSecond := behindReceive.recvToCmdNoPoll
      ((step_recvToCmdNoPoll _ call.nCmdLen).trans (congrArg _ again))
    rw [List.map_append, ← List.append_assoc]
    exact behindSecond

end Receiver

namespace CommandReader

/-- A socket whose pending bytes are the beginning of the stream. -/
def start (socket : ZSocket) : CommandReader where
  receiver := { socket, received := socket.rcvQueue.unread, copies := [] }
  delivered := []

/-- One `recvToCmd`, recorded in the history. -/
def step (reader : CommandReader) (call : CommandCall) : Option CommandReader :=
  (reader.receiver.socket.recvToCmd call.pstrCmd call.nCmdLen call.wait call.io).map fun out =>
    { receiver :=
        { socket := out.socket
          received := reader.receiver.received ++
            (reader.receiver.socket.atReceive call.nCmdLen).incomingPolled call.io
          copies := reader.receiver.copies ++ out.removed.map (call.nCmdLen, ·) }
      delivered := reader.delivered ++ out.reported }

/-- The call loses no packet. -/
def Fetches (reader : CommandReader) (call : CommandCall) : Prop :=
  ∀ out, reader.receiver.socket.recvToCmd call.pstrCmd call.nCmdLen call.wait call.io = some out →
    out.Lossless call.stray

/-- The call is defined only if it is safe for the packets. -/
def Safe (reader : CommandReader) (call : CommandCall) : Prop :=
  reader.step call ≠ none →
    reader.receiver.socket.Keeps call.stray call.nCmdLen call.wait call.io

/-- The call loses no packet, whatever the missing `return` leaves. -/
def FetchesAnyway (reader : CommandReader) (call : CommandCall) : Prop :=
  ∀ stray, reader.Fetches { call with stray }

/-- The call is defined only if it meets no packet, neither at its start nor behind its receive. -/
def MeetsNone (reader : CommandReader) (call : CommandCall) : Prop :=
  reader.step call ≠ none →
    ¬ PacketReady reader.receiver.socket.rcvQueue.unread ∧
      ¬ (reader.receiver.socket.atReceive call.nCmdLen).FindsBehind call.wait call.io

theorem start_sound {socket : ZSocket} (consistent : socket.ReceiveConsistent) :
    (start socket).receiver.Sound where
  socket := consistent
  complete := Nat.zero_le _
  delivered := rfl
  pending := rfl

theorem step_sound {reader next : CommandReader} {call : CommandCall}
    (sound : reader.receiver.Sound) (stepped : reader.step call = some next) :
    next.receiver.Sound := by
  obtain ⟨out, called, rfl⟩ := Option.map_eq_some_iff.mp stepped
  exact sound.recvToCmd called

theorem fetches_iff {reader : CommandReader} (sound : reader.receiver.Sound)
    (call : CommandCall) : reader.Fetches call ↔ reader.Safe call := by
  unfold Fetches Safe step
  rw [Ne, Option.map_eq_none_iff]
  rcases called : reader.receiver.socket.recvToCmd call.pstrCmd call.nCmdLen call.wait call.io with
    _ | out
  · simp
  · simp [ZSocket.lossless_iff sound.socket call.stray called]

theorem fetchesAnyway_iff {reader : CommandReader} (sound : reader.receiver.Sound)
    (call : CommandCall) : reader.FetchesAnyway call ↔ reader.MeetsNone call := by
  refine (forall_congr' fun stray => fetches_iff sound { call with stray }).trans ⟨?_, ?_⟩
  · intro safe defined
    exact not_or.mp fun meets => ((safe 0 defined).2 meets).1 rfl
  · rintro meetsNone stray defined
    obtain ⟨idle, nothing⟩ := meetsNone defined
    exact ⟨fun ready => absurd ready idle, fun meets => (meets.elim idle nothing).elim⟩

/-- A safe call brings its caller every packet that it takes. -/
theorem delivered_step {reader next : CommandReader} {call : CommandCall}
    (sound : reader.receiver.Sound) (same : reader.delivered = reader.receiver.delivered)
    (safe : reader.Safe call) (stepped : reader.step call = some next) :
    next.delivered = next.receiver.delivered := by
  have fetches := (fetches_iff sound call).mpr safe
  obtain ⟨out, called, rfl⟩ := Option.map_eq_some_iff.mp stepped
  show reader.delivered ++ out.reported = List.map Prod.snd (_ ++ _)
  rw [(fetches out called).reported_eq (ZSocket.recvToCmd_retval called), same, List.map_append,
    List.map_map]
  exact congrArg _ (List.map_id _).symm

/-- From every state of the receive queue: a run of calls loses no packet exactly when all of them
are safe, and it loses none whatever the missing `return` of each leaves exactly when they meet no
packet at all. Behind a run of safe calls, the payloads that reached the caller are the first ones
of the stream, and the stream behind their packets is pending. -/
theorem each_fetches_iff {socket : ZSocket} (consistent : socket.ReceiveConsistent)
    (calls : List CommandCall) :
    (PartialRun.Each step Fetches (start socket) calls ↔
      PartialRun.Each step Safe (start socket) calls) ∧
    (PartialRun.Each step FetchesAnyway (start socket) calls ↔
      PartialRun.Each step MeetsNone (start socket) calls) ∧
    ∀ reader, PartialRun.Each step Safe (start socket) calls →
      PartialRun.run step (start socket) calls = some reader →
        reader.delivered =
          (parse packetFormat reader.receiver.received).take reader.delivered.length ∧
        reader.receiver.socket.rcvQueue.unread =
          dropFrames packetFormat reader.delivered.length reader.receiver.received := by
  refine ⟨?_, ?_, fun reader safe reached => ?_⟩
  · exact PartialRun.each_congr (fun reader => reader.receiver.Sound)
      (fun _ _ _ sound _ stepped => step_sound sound stepped)
      (fun _ call sound => fetches_iff sound call) (start_sound consistent)
  · exact PartialRun.each_congr (fun reader => reader.receiver.Sound)
      (fun _ _ _ sound _ stepped => step_sound sound stepped)
      (fun _ call sound => fetchesAnyway_iff sound call) (start_sound consistent)
  · obtain ⟨sound, same⟩ := PartialRun.run_invariant
      (fun reader => reader.receiver.Sound ∧ reader.delivered = reader.receiver.delivered)
      (fun reader call next holds safe stepped =>
        ⟨step_sound holds.1 stepped, delivered_step holds.1 holds.2 safe stepped⟩)
      ⟨start_sound consistent, rfl⟩ safe reached
    rw [same, reader.receiver.length_delivered]
    exact ⟨sound.delivered, sound.pending⟩

/-- A new socket that has received one packet of one byte. -/
theorem exists_pending :
    ∃ receiver taken,
      PartialRun.run Receiver.step (Receiver.new 5) [.recvToBufNoPoll (.data 1 [0, 0, 0, 7])] =
        some receiver ∧
      receiver.socket.ReceiveConsistent ∧ PacketReady receiver.socket.rcvQueue.unread ∧
      receiver.socket.issetFlag incompleteRead = true ∧
      receiver.socket.recvToCmdNoPoll 2 = some taken ∧ taken.removed = [[7]] ∧
      taken.overwrite [0, 0] = some [7, 0] ∧ taken.socket.ReceiveConsistent ∧
      taken.socket.issetFlag incompleteRead = true ∧ taken.socket.rcvQueue.unread = [] := by
  obtain ⟨receiver, stepped, sound, -, -, pending⟩ :=
    (Receiver.new_sound 5).receive_idle (Receiver.new_fits 5 (.data 1 [0, 0, 0, 7])) rfl 1
      (show [0, 0, 0, 7].length < maxDataBufferSize + 8 by decide)
  have set : (ZSocket.new 5).issetFlag incompleteRead = true := by decide
  have flag := Receiver.recvToBufNoPoll_flag set stepped
  have frame : nextFrame packetFormat receiver.socket.rcvQueue.unread = some ([7], []) := by
    rw [pending]
    decide
  obtain ⟨rcvQueue, taken, kept, behind, -⟩ :=
    ZSocket.recvToCmdNoPoll_of_some sound.socket 2 frame
  refine ⟨receiver, _, (PartialRun.run_singleton _ _ _).trans stepped, sound.socket, ?_, flag,
    taken, rfl, rfl, kept, flag, behind⟩
  rw [PacketReady, frame]
  exact Option.some_ne_none _

/-- The only packet is pending, the caller waits, and nothing more arrives: `recvToCmd` brings it. -/
theorem each_fetches_pending :
    ∃ receiver reader,
      PartialRun.run Receiver.step (Receiver.new 5) [.recvToBufNoPoll (.data 1 [0, 0, 0, 7])] =
        some receiver ∧
      PartialRun.run step (start receiver.socket)
        [⟨[0, 0], 2, true, ⟨.wouldBlock, .timeout, .wouldBlock⟩, 1⟩] = some reader ∧
      reader.delivered = [[7]] ∧
      PartialRun.Each step Fetches (start receiver.socket)
        [⟨[0, 0], 2, true, ⟨.wouldBlock, .timeout, .wouldBlock⟩, 1⟩] := by
  obtain ⟨receiver, taken, reached, consistent, ready, flag, extracted, removed, inside, kept,
    stays, idle⟩ := exists_pending
  have nothing : nextFrame packetFormat taken.socket.rcvQueue.unread = none := by
    rw [idle]
    rfl
  have called := ZSocket.recvToCmd_waits flag .wouldBlock .wouldBlock extracted inside kept nothing
  have polled : taken.socket.incomingPolled ⟨.wouldBlock, .timeout, .wouldBlock⟩ = [] := by
    rw [ZSocket.incomingPolled, if_pos stays]
    rfl
  have safe : (start receiver.socket).Safe
      ⟨[0, 0], 2, true, ⟨.wouldBlock, .timeout, .wouldBlock⟩, 1⟩ := by
    intro defined
    show receiver.socket.Keeps _ _ _ _
    rw [ZSocket.Keeps, ZSocket.atReceive_eq extracted]
    refine ⟨fun _ => ⟨Or.inr ⟨rfl, Or.inl stays, rfl⟩, fun found => found.2 ?_⟩,
      fun _ => by decide⟩
    rw [polled, List.append_nil]
    exact nothing
  refine ⟨receiver, _, reached, (PartialRun.run_singleton _ _ _).trans
    (congrArg (Option.map _) called), ?_,
    (each_fetches_iff consistent _).1.mpr (PartialRun.each_singleton.mpr safe)⟩
  show [] ++ Fetched.reported _ = _
  rw [List.nil_append, Fetched.reported]
  dsimp only
  rw [removed]
  rfl

/-- A packet is pending, nothing more arrives and the caller does not wait: `recvToCmd` takes the
packet and returns `0`. -/
theorem pending_packet_returns_nothing :
    ∃ receiver,
      PartialRun.run Receiver.step (Receiver.new 5) [.recvToBufNoPoll (.data 1 [0, 0, 0, 7])] =
        some receiver ∧
      ∀ stray, ¬ PartialRun.Each step Fetches (start receiver.socket)
        [⟨[0, 0], 2, false, ⟨.wouldBlock, .timeout, .wouldBlock⟩, stray⟩] := by
  obtain ⟨receiver, taken, reached, -, -, flag, extracted, removed, inside, -⟩ := exists_pending
  refine ⟨receiver, reached, fun stray each => ?_⟩
  have lossless := PartialRun.each_singleton.mp each _
    (ZSocket.recvToCmd_timeout flag .wouldBlock .wouldBlock extracted inside)
  exact (lossless.2 [7] (removed ▸ List.mem_singleton_self _)).2.1 rfl

end CommandReader

end SelftestNet
