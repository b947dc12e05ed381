/-
This file embeds `zTcpTask` and proves what its receive handler does over a run of
events. `ListeningRecv` receives once and takes one packet, so it hands over
everything that has arrived only as long as no event completes more than one
packet; what is left behind by one that does waits for bytes that need not come. The
packet is copied into a buffer of `MAX_DATASIZE` bytes, four less than the longest
payload of the format, and where no packet is complete the length that `msgParse` is
told is whatever `recvToCmd_NoPoll` leaves behind.
-/

import SelftestNet.Receive

namespace SelftestNet

open Framing

/-! ### The task -/

/-- `zTcpTask`. Its constructor does not initialise `bufferd`. -/
structure ZTcpTask where
  sock : ZSocket
  bufferd : Bool

/-- A call of `msgParse`: the bytes copied to the front of `pstrCmd`, and `nLen`. Behind those
bytes `pstrCmd` is uninitialised. -/
structure MsgParse where
  copied : List UInt8
  nLen : Int
  deriving DecidableEq

/-- The payload is not empty, so that `msgParse` is to see it. -/
def present (payload : List UInt8) : Bool := !payload.isEmpty

namespace MsgParse

/-- The length that `msgParse` is told is that of the bytes copied. -/
def proper (call : MsgParse) : Bool := call.nLen = call.copied.length

/-- The calls of `msgParse` that packets are to lead to: one for each payload that is not empty,
with all of it and its length. -/
def ofPackets (payloads : List (List UInt8)) : List MsgParse :=
  (payloads.filter present).map fun payload => { copied := payload, nLen := payload.length }

@[simp]
theorem ofPackets_nil : ofPackets [] = [] := rfl

@[simp]
theorem ofPackets_append (first second : List (List UInt8)) :
    ofPackets (first ++ second) = ofPackets first ++ ofPackets second := by
  rw [ofPackets, List.filter_append, List.map_append, ofPackets, ofPackets]

theorem ofPackets_singleton (payload : List UInt8) :
    ofPackets [payload] = if payload = [] then []
      else [{ copied := payload, nLen := payload.length }] := by
  cases payload <;> rfl

theorem proper_of_mem_ofPackets {payloads : List (List UInt8)} {call : MsgParse}
    (member : call ∈ ofPackets payloads) : call.proper = true := by
  obtain ⟨payload, -, rfl⟩ := List.mem_map.mp member
  exact decide_eq_true rfl

end MsgParse

/-- What `ListeningRecv` does: the task it leaves, its call of `msgParse` and the value it
returns. -/
structure Listened where
  task : ZTcpTask
  parsed : Option MsgParse
  retval : Option Bool

namespace ZTcpTask

/-- The first half of `ListeningRecv`, with the value of `retcode`. -/
def receive (task : ZTcpTask) (needRecv : Bool) (answer : RecvAnswer) : Option (ZSocket × Int) :=
  if needRecv then task.sock.recvToBufNoPoll answer else some (task.sock, 0)

/-- `ListeningRecv`, which has no `return`. `stray` is the value that `nLen` takes when
`recvToCmd_NoPoll` returns none. A payload longer than `pstrCmd` is written behind the end of that
array, which C leaves undefined. -/
def listeningRecv (task : ZTcpTask) (needRecv : Bool) (answer : RecvAnswer) (stray : Int) :
    Option Listened :=
  (task.receive needRecv answer).bind fun (sock, retcode) =>
    if retcode = -1 then some { task := { task with sock }, parsed := none, retval := none }
    else
      (sock.recvToCmdNoPoll maxDataSize).bind fun out =>
        if out.copied.length ≤ maxDataSize then
          let nLen := out.retval.getD stray
          some
            { task := { task with sock := out.socket }
              parsed := if 0 < nLen then some { copied := out.copied, nLen } else none
              retval := none }
        else none

/-- The bytes that `ListeningRecv` writes from the start of `pstrCmd` on, inside the array or
not. -/
def copies (task : ZTcpTask) (needRecv : Bool) (answer : RecvAnswer) : Option (List UInt8) :=
  (task.receive needRecv answer).bind fun (sock, retcode) =>
    if retcode = -1 then some [] else (sock.recvToCmdNoPoll maxDataSize).map Extracted.copied

/-- `ListeningSend`. -/
def listeningSend (task : ZTcpTask) (answer : SendAnswer) : Option (Sent (Option Bool)) :=
  task.sock.sync answer

/-- `sendCmd`. It has no `return` for the value of the socket's. -/
def sendCmd (task : ZTcpTask) (pstrCmd : Option (List UInt8)) (ios : List SendIo) :
    Option (Sent CallStatus) := task.sock.sendCmd pstrCmd task.bufferd ios

/-! ### One event -/

/-- The bytes that `ListeningRecv` receives. -/
def arrived (task : ZTcpTask) (needRecv : Bool) (answer : RecvAnswer) : List UInt8 :=
  if needRecv then task.sock.incoming answer else []

/-- The bytes that `ListeningRecv` finds: those that are pending and those that it receives. -/
def found (task : ZTcpTask) (needRecv : Bool) (answer : RecvAnswer) : List UInt8 :=
  task.sock.rcvQueue.unread ++ task.arrived needRecv answer

/-- The receive of `ListeningRecv` fails. -/
def Fails (needRecv : Bool) (answer : RecvAnswer) : Prop := needRecv = true ∧ answer.Broken

/-- `_rcv_queue` can make room for what the call may receive. -/
def Fits (task : ZTcpTask) (needRecv : Bool) : Prop :=
  needRecv = true → task.sock.rcvQueue.NoWrap maxDataBufferSize

/-- What `ListeningRecv` needs to be defined: room for what it may receive, and a `pstrCmd` that
can hold the packet it takes, if it takes one. -/
structure Runs (task : ZTcpTask) (needRecv : Bool) (answer : RecvAnswer) : Prop where
  fits : task.Fits needRecv
  short : ¬ Fails needRecv answer → FrontFits (task.found needRecv answer) maxDataSize

/-- `nLen` is positive only where `recvToCmd_NoPoll` returns it. -/
def Determined (task : ZTcpTask) (needRecv : Bool) (answer : RecvAnswer) (stray : Int) : Prop :=
  ¬ Fails needRecv answer → nextFrame packetFormat (task.found needRecv answer) = none → stray ≤ 0

/-- What the receive handler does not touch, or only lets grow. -/
structure Keeps (task : ZTcpTask) (needRecv : Bool) (sock : ZSocket) : Prop where
  consistent : sock.ReceiveConsistent
  maxSize : sock.rcvQueue.maxSize =
    if needRecv then task.sock.rcvQueue.capacityFor maxDataBufferSize
    else task.sock.rcvQueue.maxSize
  snd : sock.sndQueue = task.sock.sndQueue
  enc : sock.encQueue = task.sock.encQueue

theorem receive_spec {task : ZTcpTask} {sock : ZSocket} {needRecv : Bool} {answer : RecvAnswer}
    {retcode : Int} (consistent : task.sock.ReceiveConsistent)
    (defined : task.receive needRecv answer = some (sock, retcode)) :
    task.Keeps needRecv sock ∧ sock.rcvQueue.unread = task.found needRecv answer ∧
      (retcode = -1 ↔ Fails needRecv answer) := by
  cases needRecv with
  | true =>
    obtain ⟨kept, appended, returned, maxSize, snd, enc⟩ :=
      ZSocket.recvToBufNoPoll_spec consistent defined
    exact ⟨⟨kept, maxSize, snd, enc⟩, appended, returned.trans (and_iff_right rfl).symm⟩
  | false =>
    obtain ⟨rfl, rfl⟩ := Prod.mk.inj (Option.some.inj defined)
    refine ⟨⟨consistent, rfl, rfl, rfl⟩, (List.append_nil _).symm, iff_of_false (by decide) ?_⟩
    exact fun failed => Bool.noConfusion failed.1

theorem fits_of_receive {task : ZTcpTask} {sock : ZSocket} {needRecv : Bool}
    {answer : RecvAnswer} {retcode : Int} (consistent : task.sock.ReceiveConsistent)
    (defined : task.receive needRecv answer = some (sock, retcode)) : task.Fits needRecv := by
  rintro rfl
  obtain ⟨filled, written, -⟩ := Option.map_eq_some_iff.mp defined
  exact ZSocket.noWrap_of_recvInto consistent written

theorem receive_defined {task : ZTcpTask} {needRecv : Bool}
    (consistent : task.sock.ReceiveConsistent) (fits : task.Fits needRecv)
    (answer : RecvAnswer) :
    ∃ sock retcode, task.receive needRecv answer = some (sock, retcode) := by
  cases needRecv with
  | true => exact ZSocket.recvToBufNoPoll_defined consistent answer (fits rfl)
  | false => exact ⟨_, _, rfl⟩

/-- What a `ListeningRecv` comes to that finds the given bytes. It stops when the receive fails;
without a complete packet it calls `msgParse` when the indeterminate `nLen` is positive; with one
it takes it, and calls `msgParse` with it unless it is empty. -/
inductive Outcome (failed : Prop) (stray : Int) (found : List UInt8) (out : Listened) : Prop
  | fails (fails : failed) (pending : out.task.sock.rcvQueue.unread = found)
    (parsed : out.parsed = none)
  | waits (succeeds : ¬ failed) (frame : nextFrame packetFormat found = none)
    (pending : out.task.sock.rcvQueue.unread = found)
    (parsed : out.parsed = if 0 < stray then some { copied := [], nLen := stray } else none)
  | takes (succeeds : ¬ failed) (payload rest : List UInt8)
    (frame : nextFrame packetFormat found = some (payload, rest))
    (pending : out.task.sock.rcvQueue.unread = rest)
    (parsed : out.parsed.toList = MsgParse.ofPackets [payload])

/-- A call of `msgParse` for which nothing was copied is told a wrong length. -/
theorem not_proper_of_stray {stray : Int} (positive : 0 < stray) :
    MsgParse.proper { copied := [], nLen := stray } = false :=
  decide_eq_false (Int.ne_of_gt positive)

/-- A `ListeningRecv` whose receive succeeds hands over the first packet of what it finds, unless it
is empty, and leaves what follows it. -/
theorem Outcome.of_succeeds {failed : Prop} {stray : Int} {found : List UInt8} {out : Listened}
    (outcome : Outcome failed stray found out) (succeeds : ¬ failed) :
    out.parsed.toList.filter MsgParse.proper =
        MsgParse.ofPackets ((parse packetFormat found).take 1) ∧
      out.task.sock.rcvQueue.unread = dropFrames packetFormat 1 found := by
  cases outcome with
  | fails fails => exact absurd fails succeeds
  | waits _ frame pending parsed =>
    rw [parsed, parse_of_none packetFormat frame, pending]
    refine ⟨?_, by simp only [dropFrames, frame]⟩
    split
    · rename_i positive
      exact List.filter_cons_of_neg (by rw [not_proper_of_stray positive]; decide)
    · rfl
  | takes _ payload rest frame pending parsed =>
    rw [parsed, parse_of_some packetFormat frame, pending, dropFrames_of_some packetFormat frame]
    exact ⟨List.filter_eq_self.mpr fun _ => MsgParse.proper_of_mem_ofPackets, rfl⟩

/-- `msgParse` is told a wrong length exactly when an indeterminate `nLen` is positive. -/
theorem Outcome.proper_iff {failed : Prop} {stray : Int} {found : List UInt8} {out : Listened}
    (outcome : Outcome failed stray found out) :
    (∀ call ∈ out.parsed.toList, call.proper = true) ↔
      (¬ failed → nextFrame packetFormat found = none → stray ≤ 0) := by
  cases outcome with
  | fails fails _ parsed =>
    rw [parsed]
    exact iff_of_true (fun call member => absurd member List.not_mem_nil)
      fun succeeds => absurd fails succeeds
  | waits succeeds frame _ parsed =>
    rw [parsed]
    refine Iff.trans ?_ (forall_prop_of_true succeeds |>.trans (forall_prop_of_true frame)).symm
    split
    · rename_i positive
      refine iff_of_false (fun proper => ?_) (Int.not_le.mpr positive)
      have wrong := proper _ (List.mem_singleton_self _)
      rw [not_proper_of_stray positive] at wrong
      cases wrong
    · rename_i silent
      exact iff_of_true (fun call member => absurd member List.not_mem_nil) (Int.not_lt.mp silent)
  | takes _ payload rest frame _ parsed =>
    rw [parsed, frame]
    exact iff_of_true (fun _ => MsgParse.proper_of_mem_ofPackets)
      fun _ nothing => absurd nothing (Option.some_ne_none _)

/-- A `ListeningRecv` whose receive fails leaves what it finds. -/
theorem Outcome.of_fails {failed : Prop} {stray : Int} {found : List UInt8} {out : Listened}
    (outcome : Outcome failed stray found out) (fails : failed) :
    out.parsed = none ∧ out.task.sock.rcvQueue.unread = found := by
  cases outcome with
  | fails _ pending parsed => exact ⟨parsed, pending⟩
  | waits succeeds => exact absurd fails succeeds
  | takes succeeds => exact absurd fails succeeds

/-- A receive that fails receives nothing. -/
theorem arrived_of_fails (task : ZTcpTask) {needRecv : Bool} {answer : RecvAnswer}
    (fails : Fails needRecv answer) : task.arrived needRecv answer = [] := by
  obtain ⟨rfl, rfl | rfl⟩ := fails <;> rfl

/-- What is written through `pstrCmd` is as long as the packet that `ListeningRecv` takes. -/
theorem copies_le_iff {task : ZTcpTask} {needRecv : Bool} {answer : RecvAnswer}
    (consistent : task.sock.ReceiveConsistent) (bound : Nat) :
    (∀ copied, task.copies needRecv answer = some copied → copied.length ≤ bound) ↔
      (task.Fits needRecv → ¬ Fails needRecv answer →
        FrontFits (task.found needRecv answer) bound) := by
  rcases received : task.receive needRecv answer with _ | ⟨sock, retcode⟩
  · refine iff_of_true (fun copied written => ?_) fun fits => ?_
    · rw [copies, received] at written
      cases written
    · obtain ⟨sock, retcode, defined⟩ := receive_defined consistent fits answer
      exact absurd (received.symm.trans defined) (Option.some_ne_none _).symm
  · obtain ⟨kept, pending, returned⟩ := receive_spec consistent received
    rw [forall_prop_of_true (fits_of_receive consistent received), copies, received,
      Option.bind_some]
    dsimp only
    by_cases fails : retcode = -1
    · rw [if_pos fails]
      refine iff_of_true (fun copied nothing => ?_) fun succeeds => ?_
      · rw [← Option.some.inj nothing]
        exact Nat.zero_le bound
      · exact absurd (returned.mp fails) succeeds
    · rw [if_neg fails, forall_prop_of_true (returned.not.mp fails), ← pending,
        ← kept.consistent.copied_le_iff maxDataSize bound]
      simp only [Option.map_eq_some_iff, forall_exists_index, and_imp, forall_apply_eq_imp_iff₂]

/-- `ListeningRecv` is defined when its receive is and the packet it takes is short enough; then it
never returns a value, and comes to one of the three outcomes. -/
theorem listeningRecv_of_receive {task : ZTcpTask} {sock : ZSocket} {needRecv : Bool}
    {answer : RecvAnswer} {retcode : Int} (consistent : task.sock.ReceiveConsistent)
    (received : task.receive needRecv answer = some (sock, retcode))
    (short : ¬ Fails needRecv answer → FrontFits (task.found needRecv answer) maxDataSize)
    (stray : Int) :
    ∃ out, task.listeningRecv needRecv answer stray = some out ∧ out.retval = none ∧
      out.task.bufferd = task.bufferd ∧ task.Keeps needRecv out.task.sock ∧
      Outcome (Fails needRecv answer) stray (task.found needRecv answer) out := by
  obtain ⟨kept, pending, returned⟩ := receive_spec consistent received
  rw [listeningRecv, received, Option.bind_some]
  dsimp only
  by_cases fails : retcode = -1
  · rw [if_pos fails]
    exact ⟨_, rfl, rfl, rfl, kept, .fails (returned.mp fails) pending rfl⟩
  · have succeeds := returned.not.mp fails
    rw [if_neg fails]
    rcases frame : nextFrame packetFormat sock.rcvQueue.unread with _ | ⟨payload, rest⟩
    · have nothing : ([] : List UInt8).length ≤ maxDataSize := Nat.zero_le maxDataSize
      rw [ZSocket.recvToCmdNoPoll_of_none kept.consistent maxDataSize frame, Option.bind_some]
      dsimp only
      rw [if_pos nothing]
      rw [pending] at frame
      exact ⟨_, rfl, rfl, rfl, kept, .waits succeeds frame pending rfl⟩
    · obtain ⟨rcvQueue, taken, after, behind, maxSize⟩ :=
        ZSocket.recvToCmdNoPoll_of_some kept.consistent maxDataSize frame
      rw [pending] at frame
      rw [taken, Option.bind_some]
      dsimp only
      rw [if_pos (short succeeds payload rest frame)]
      refine ⟨_, rfl, rfl, rfl, ⟨after, maxSize.trans kept.maxSize, kept.snd, kept.enc⟩,
        .takes succeeds payload rest frame behind ?_⟩
      rw [MsgParse.ofPackets_singleton]
      by_cases empty : payload = []
      · rw [empty]
        rfl
      · rw [if_neg empty]
        exact congrArg Option.toList
          (if_pos (Int.natCast_pos.mpr (List.length_pos_iff.mpr empty)))

theorem listeningRecv_defined {task : ZTcpTask} {needRecv : Bool} {answer : RecvAnswer}
    (consistent : task.sock.ReceiveConsistent) (runs : task.Runs needRecv answer)
    (stray : Int) : ∃ out, task.listeningRecv needRecv answer stray = some out := by
  obtain ⟨sock, retcode, received⟩ := receive_defined consistent runs.fits answer
  obtain ⟨out, called, -⟩ := listeningRecv_of_receive consistent received runs.short stray
  exact ⟨out, called⟩

/-- Without a receive, a `ListeningRecv` that finds nothing is defined. -/
theorem runs_of_idle {task : ZTcpTask} (idle : task.sock.rcvQueue.unread = [])
    (answer : RecvAnswer) : task.Runs false answer where
  fits needed := nomatch needed
  short _ payload rest frame := by
    rw [found, idle, arrived, if_neg Bool.false_ne_true, List.append_nil, nextFrame_nil] at frame
    cases frame

theorem runs_of_listeningRecv {task : ZTcpTask} {needRecv : Bool} {answer : RecvAnswer}
    {stray : Int} {out : Listened} (consistent : task.sock.ReceiveConsistent)
    (called : task.listeningRecv needRecv answer stray = some out) :
    task.Runs needRecv answer := by
  obtain ⟨⟨sock, retcode⟩, received, taken⟩ := Option.bind_eq_some_iff.mp called
  have fits := fits_of_receive consistent received
  refine ⟨fits, (copies_le_iff consistent maxDataSize).mp (fun copied written => ?_) fits⟩
  rw [copies, received, Option.bind_some] at written
  dsimp only at written taken
  split at written
  · rw [← Option.some.inj written]
    exact Nat.zero_le maxDataSize
  · rename_i succeeds
    rw [if_neg succeeds] at taken
    obtain ⟨extracted, unpacked, inside⟩ := Option.bind_eq_some_iff.mp taken
    obtain ⟨other, same, rfl⟩ := Option.map_eq_some_iff.mp written
    obtain rfl := Option.some.inj (unpacked.symm.trans same)
    by_contra long
    rw [if_neg long] at inside
    cases inside

/-- What a defined `ListeningRecv` does. -/
theorem listeningRecv_spec {task : ZTcpTask} {needRecv : Bool} {answer : RecvAnswer}
    {stray : Int} {out : Listened} (consistent : task.sock.ReceiveConsistent)
    (called : task.listeningRecv needRecv answer stray = some out) :
    task.Runs needRecv answer ∧ out.retval = none ∧ out.task.bufferd = task.bufferd ∧
      task.Keeps needRecv out.task.sock ∧
      Outcome (Fails needRecv answer) stray (task.found needRecv answer) out := by
  obtain ⟨⟨sock, retcode⟩, received, -⟩ := Option.bind_eq_some_iff.mp called
  have runs := runs_of_listeningRecv consistent called
  obtain ⟨same, calledSame, rest⟩ := listeningRecv_of_receive consistent received runs.short stray
  obtain rfl := Option.some.inj (calledSame.symm.trans called)
  exact ⟨runs, rest⟩

end ZTcpTask

/-- What `recvToCmd_NoPoll` copies is nothing, or a packet whose length it returns. -/
theorem ZSocket.ReceiveConsistent.retval_eq {socket : ZSocket}
    (consistent : socket.ReceiveConsistent) {nCmdLen : Nat} {out : Extracted}
    (called : socket.recvToCmdNoPoll nCmdLen = some out) :
    (out.retval = none ∧ out.copied = []) ∨ out.retval = some (out.copied.length : Int) := by
  rcases frame : nextFrame packetFormat socket.rcvQueue.unread with _ | ⟨payload, rest⟩
  · rw [recvToCmdNoPoll_of_none consistent nCmdLen frame] at called
    exact Or.inl (Option.some.inj called ▸ ⟨rfl, rfl⟩)
  · obtain ⟨rcvQueue, taken, -⟩ := recvToCmdNoPoll_of_some consistent nCmdLen frame
    rw [taken] at called
    exact Or.inr (Option.some.inj called ▸ rfl)

/-! ### Runs of the receive handler -/

/-- One event for the receive handler, with the kernel's answer. -/
structure Listening where
  needRecv : Bool
  answer : RecvAnswer
  stray : Int

/-- The receive of the event fails. -/
def Listening.Fails (event : Listening) : Prop := ZTcpTask.Fails event.needRecv event.answer

/-- A task with the history of its receive handler: the bytes received, and the calls of
`msgParse`. -/
structure Listener where
  task : ZTcpTask
  received : List UInt8
  parsed : List MsgParse

namespace Listener

/-- A task fresh from its constructor. -/
def new (sock : Int) (bufferd : Bool) : Listener where
  task := { sock := ZSocket.new sock, bufferd }
  received := []
  parsed := []

/-- One event, recorded in the history. -/
def step (listener : Listener) (event : Listening) : Option Listener :=
  (listener.task.listeningRecv event.needRecv event.answer event.stray).map fun out =>
    { task := out.task
      received := listener.received ++ listener.task.arrived event.needRecv event.answer
      parsed := listener.parsed ++ out.parsed.toList }

/-- The bytes that the event finds. -/
def found (listener : Listener) (event : Listening) : List UInt8 :=
  listener.task.found event.needRecv event.answer

/-- The event does not need a capacity of `_rcv_queue` that wraps. -/
def Fits (listener : Listener) (event : Listening) : Prop := listener.task.Fits event.needRecv

/-- The receive counters are in step. -/
def Consistent (listener : Listener) : Prop := listener.task.sock.ReceiveConsistent

theorem new_consistent (sock : Int) (bufferd : Bool) : (new sock bufferd).Consistent :=
  ZSocket.new_receiveConsistent sock

theorem Consistent.step {listener next : Listener} (consistent : listener.Consistent)
    (event : Listening) (stepped : listener.step event = some next) : next.Consistent := by
  obtain ⟨out, called, rfl⟩ := Option.map_eq_some_iff.mp stepped
  obtain ⟨-, -, -, kept, -⟩ := ZTcpTask.listeningRecv_spec consistent called
  exact kept.consistent

/-! ### What is handed over -/

/-- The receiving half of the task, with the packets taken so far. -/
def receiver (listener : Listener) (copies : List (Nat × List UInt8)) : Receiver where
  socket := listener.task.sock
  received := listener.received
  copies := copies

/-- The receiving half agrees with the history for some packets taken, and where `msgParse` was told
the length of what was copied, it was called for the non-empty ones of these, in order. -/
def Serves (listener : Listener) : Prop :=
  ∃ copies, (listener.receiver copies).Sound ∧
    listener.parsed.filter MsgParse.proper = MsgParse.ofPackets (copies.map Prod.snd)

theorem new_serves (sock : Int) (bufferd : Bool) : (new sock bufferd).Serves :=
  ⟨[], Receiver.new_sound sock, rfl⟩

theorem Serves.consistent {listener : Listener} (serves : listener.Serves) :
    listener.Consistent := by
  obtain ⟨copies, sound, -⟩ := serves
  exact sound.socket

/-- The receive of a `ListeningRecv` is one of its receiving half, or none. -/
theorem receive_sound {listener : Listener} {copies : List (Nat × List UInt8)}
    (sound : (listener.receiver copies).Sound) {needRecv : Bool} {answer : RecvAnswer}
    {sock : ZSocket} {retcode : Int}
    (received : listener.task.receive needRecv answer = some (sock, retcode)) :
    Receiver.Sound
      ⟨sock, listener.received ++ listener.task.arrived needRecv answer, copies⟩ := by
  cases needRecv with
  | true =>
    refine sound.step (.recvToBufNoPoll answer) ?_
    exact congrArg (Option.map _) received
  | false =>
    obtain ⟨rfl, -⟩ := Prod.mk.inj (Option.some.inj received)
    show Receiver.Sound ⟨_, listener.received ++ [], copies⟩
    rw [List.append_nil]
    exact sound

/-- The proper calls of `msgParse` that an extraction leads to are those for what it takes. -/
theorem proper_append {socket : ZSocket} (consistent : socket.ReceiveConsistent)
    {out : Extracted} (taken : socket.recvToCmdNoPoll maxDataSize = some out) (stray : Int)
    {parsed : List MsgParse} {copies : List (Nat × List UInt8)}
    (proper : parsed.filter MsgParse.proper = MsgParse.ofPackets (copies.map Prod.snd)) :
    let nLen := out.retval.getD stray
    (parsed ++ (if 0 < nLen then some { copied := out.copied, nLen : MsgParse }
        else none).toList).filter MsgParse.proper =
      MsgParse.ofPackets ((if out.retval.isSome then copies ++ [(maxDataSize, out.copied)]
        else copies).map Prod.snd) := by
  dsimp only
  rw [List.filter_append, proper]
  rcases consistent.retval_eq taken with ⟨retval, copied⟩ | retval
  · rw [retval, copied, Option.getD_none, Option.isSome_none, if_neg Bool.false_ne_true]
    split
    · rename_i positive
      rw [Option.toList_some, List.filter_cons_of_neg
        (by rw [ZTcpTask.not_proper_of_stray positive]; decide)]
      exact List.append_nil _
    · exact List.append_nil _
  · rw [retval, Option.getD_some, Option.isSome_some, if_pos rfl, List.map_append,
      MsgParse.ofPackets_append, List.map_singleton, MsgParse.ofPackets_singleton]
    by_cases empty : out.copied = []
    · rw [empty]
      rfl
    · rw [if_pos (Int.natCast_pos.mpr (List.length_pos_iff.mpr empty)), if_neg empty]
      exact congrArg (_ ++ ·) (List.filter_eq_self.mpr fun call member => by
        rw [List.mem_singleton.mp member]
        exact decide_eq_true rfl)

/-- An event takes at most one packet, and hands over what it takes unless it is empty. -/
theorem Serves.step {listener next : Listener} (serves : listener.Serves) {event : Listening}
    (stepped : listener.step event = some next) : next.Serves := by
  obtain ⟨copies, sound, proper⟩ := serves
  obtain ⟨out, called, rfl⟩ := Option.map_eq_some_iff.mp stepped
  obtain ⟨⟨sock, retcode⟩, received, taken⟩ := Option.bind_eq_some_iff.mp called
  have between := receive_sound sound received
  dsimp only at taken
  split at taken
  · obtain rfl := Option.some.inj taken
    refine ⟨copies, between, ?_⟩
    show (listener.parsed ++ []).filter _ = _
    rw [List.append_nil]
    exact proper
  · obtain ⟨extracted, unpacked, inside⟩ := Option.bind_eq_some_iff.mp taken
    rw [Option.ite_none_right_eq_some] at inside
    obtain ⟨-, same⟩ := inside
    obtain rfl := Option.some.inj same
    have after := between.step (.recvToCmdNoPoll maxDataSize) (congrArg (Option.map _) unpacked)
    exact ⟨_, after, proper_append between.socket unpacked event.stray proper⟩

/-- `msgParse` is told nothing but the lengths of packets as long as no indeterminate `nLen` is
positive. -/
theorem Consistent.proper_iff {listener next : Listener} (consistent : listener.Consistent)
    {event : Listening} (stepped : listener.step event = some next) :
    (∀ call ∈ next.parsed, call.proper = true) ↔
      (∀ call ∈ listener.parsed, call.proper = true) ∧
        listener.task.Determined event.needRecv event.answer event.stray := by
  obtain ⟨out, called, rfl⟩ := Option.map_eq_some_iff.mp stepped
  obtain ⟨-, -, -, -, outcome⟩ := ZTcpTask.listeningRecv_spec consistent called
  exact List.forall_mem_append.trans (and_congr_right fun _ => outcome.proper_iff)

/-! ### The command buffer -/

/-- The event writes at most `MAX_DATASIZE` bytes through `pstrCmd`. -/
def WritesInside (listener : Listener) (event : Listening) : Prop :=
  ∀ copied, listener.task.copies event.needRecv event.answer = some copied →
    copied.length ≤ maxDataSize

/-- The packet that the event takes, if there is one, has a payload of at most `MAX_DATASIZE`
bytes. -/
def ShortEnough (listener : Listener) (event : Listening) : Prop :=
  listener.Fits event → ¬ event.Fails → FrontFits (listener.found event) maxDataSize

theorem Consistent.writesInside_iff {listener : Listener} (consistent : listener.Consistent)
    (event : Listening) : listener.WritesInside event ↔ listener.ShortEnough event :=
  ZTcpTask.copies_le_iff consistent maxDataSize

/-- No packet overruns the buffer of its caller exactly when every packet taken is short enough for
it. This holds of every run of the receiving half of a socket, whatever buffers its callers
bring, and of every run of a receive handler, whose buffer has `MAX_DATASIZE` bytes. -/
theorem writesInside_iff_shortEnough (sock : Int) (bufferd : Bool) :
    (∀ calls, PartialRun.Each Receiver.step Receiver.WritesInside (.new sock) calls ↔
      PartialRun.Each Receiver.step Receiver.ShortEnough (.new sock) calls) ∧
    ∀ events, PartialRun.Each step WritesInside (new sock bufferd) events ↔
      PartialRun.Each step ShortEnough (new sock bufferd) events :=
  ⟨Receiver.each_writesInside_iff sock, fun _ => PartialRun.each_congr Consistent
    (fun _ event _ consistent _ stepped => consistent.step event stepped)
    (fun _ event consistent => consistent.writesInside_iff event) (new_consistent sock bufferd)⟩

/-- An idle task finds a chunk whole for which there is always room. -/
theorem found_of_idle {listener : Listener} (consistent : listener.Consistent)
    (noWrap : listener.task.sock.rcvQueue.NoWrap maxDataBufferSize)
    (idle : listener.task.sock.rcvQueue.unread = []) (first : UInt8) {rest : List UInt8}
    (short : rest.length < maxDataBufferSize + 8) (stray : Int) :
    listener.found ⟨true, .data first rest, stray⟩ = first :: rest := by
  show listener.task.sock.rcvQueue.unread ++ listener.task.sock.incoming (.data first rest) = _
  rw [idle, ZSocket.incoming_data consistent noWrap first short, List.nil_append]

/-- The longest packet of the format, with whatever payload. -/
theorem nextFrame_longest {payload : List UInt8} (size : payload.length = 65535) :
    nextFrame packetFormat (255 :: 255 :: 0 :: 0 :: payload) = some (payload, []) := by
  refine (nextFrame_eq_some_iff _ _ _ _).mpr ⟨[255, 255, 0, 0], rfl, ?_, ?_⟩
  · rw [size]
    decide
  · rw [List.append_nil]
    rfl

/-- An idle task with room that receives the longest packet writes behind the end of `pstrCmd`. -/
theorem Consistent.not_writesInside {listener : Listener} (consistent : listener.Consistent)
    (noWrap : listener.task.sock.rcvQueue.NoWrap maxDataBufferSize)
    (idle : listener.task.sock.rcvQueue.unread = []) {payload : List UInt8}
    (size : payload.length = 65535) (stray : Int) :
    ¬ listener.WritesInside ⟨true, .data 255 (255 :: 0 :: 0 :: payload), stray⟩ := by
  intro inside
  have succeeds : ¬ Listening.Fails ⟨true, .data 255 (255 :: 0 :: 0 :: payload), stray⟩ := by
    rintro ⟨-, failed | failed⟩ <;> cases failed
  have fits : listener.Fits ⟨true, .data 255 (255 :: 0 :: 0 :: payload), stray⟩ := fun _ => noWrap
  have whole : (255 :: 0 :: 0 :: payload).length < maxDataBufferSize + 8 := by
    simp only [List.length_cons, size]
    decide
  have short := (consistent.writesInside_iff _).mp inside fits succeeds payload []
  rw [found_of_idle consistent noWrap idle 255 whole] at short
  have bounded := short (nextFrame_longest size)
  rw [size] at bounded
  exact absurd bounded (by decide)

/-- A packet whose header says `65535` is longer than the command buffer. -/
theorem longest_packet_overruns :
    ¬ PartialRun.Each step WritesInside (new 5 false)
      [⟨true, .data 255 (255 :: 0 :: 0 :: List.replicate 65535 0), 0⟩] := fun inside =>
  (new_consistent 5 false).not_writesInside (Receiver.new_fits 5 .wouldBlock)
    ByteBuffer.new_unread List.length_replicate 0 inside.1

/-! ### The backlog -/

/-- Unless its receive fails, the event leaves every non-empty packet received completely so far
handed to `msgParse`, once, in order, whole and with its length, nothing else handed to it, and
less than one packet behind. -/
def Drains (listener : Listener) (event : Listening) : Prop :=
  ∃ next, listener.step event = some next ∧
    (¬ event.Fails →
      next.parsed = MsgParse.ofPackets (parse packetFormat next.received) ∧
        nextFrame packetFormat next.task.sock.rcvQueue.unread = none ∧
        next.task.sock.rcvQueue.unread.length < phLen + trunkSize)

/-- Unless its receive fails, the event finds at most one complete packet, which `pstrCmd` can hold;
and where it finds none, the value that `recvToCmd_NoPoll` leaves is not positive. -/
structure Orderly (listener : Listener) (event : Listening) : Prop where
  atMostOne : ¬ event.Fails → (parse packetFormat (listener.found event)).length ≤ 1
  shortEnough : listener.ShortEnough event
  determined : listener.task.Determined event.needRecv event.answer event.stray

/-- Nothing is left behind that could be handed over, and the queue has stayed small. -/
structure Drained (listener : Listener) : Prop where
  consistent : listener.Consistent
  parsed : listener.parsed = MsgParse.ofPackets (parse packetFormat listener.received)
  pending : listener.task.sock.rcvQueue.unread = remainder packetFormat listener.received
  capacity : listener.task.sock.rcvQueue.maxSize ≤ 2 ^ 19

theorem new_drained (sock : Int) (bufferd : Bool) : (new sock bufferd).Drained where
  consistent := new_consistent sock bufferd
  parsed := rfl
  pending := rfl
  capacity := (by decide : trunkSize ≤ 2 ^ 19)

/-- A remainder is shorter than the longest packet. -/
theorem length_lt_of_waits {pending : List UInt8} (frame : nextFrame packetFormat pending = none) :
    pending.length < phLen + trunkSize :=
  (length_lt_of_nextFrame_none packetFormat frame
    (Nat.le_of_lt (packetFormat_payloadLen_lt _))).trans_eq rfl

theorem Drained.idle {listener : Listener} (drained : listener.Drained) :
    nextFrame packetFormat listener.task.sock.rcvQueue.unread = none := by
  rw [← parse_eq_nil_iff, drained.pending]
  exact parse_remainder packetFormat listener.received

/-- Compaction keeps the capacity of a queue with a short content within its bound. -/
theorem Drained.capacityFor_le {listener : Listener} (drained : listener.Drained) :
    listener.task.sock.rcvQueue.capacityFor maxDataBufferSize ≤ 2 ^ 19 := by
  have short := length_lt_of_waits drained.idle
  have bounded := drained.capacity
  have length := drained.consistent.queue.length_unread
  have compact := drained.consistent.queue.compact
  have rounded : ByteBuffer.roundUp (maxDataBufferSize + 8) = 131072 := by decide
  have requested : maxDataBufferSize = 65535 := rfl
  simp only [phLen, trunkSize] at short
  rw [ByteBuffer.capacityFor, rounded]
  split <;> omega

theorem Drained.fits {listener : Listener} (drained : listener.Drained) (event : Listening) :
    listener.Fits event := fun _ =>
  ByteBuffer.noWrap_of_capacityFor drained.consistent.queue _
    ((Nat.add_le_add_right drained.capacityFor_le _).trans_lt (by decide))

/-- While the packet in front is short enough, an event that finds the system drained is defined. -/
theorem Drained.step_defined {listener : Listener} (drained : listener.Drained)
    {event : Listening} (short : listener.ShortEnough event) :
    ∃ next, listener.step event = some next := by
  have fits := drained.fits event
  obtain ⟨out, called⟩ :=
    ZTcpTask.listeningRecv_defined drained.consistent ⟨fits, short fits⟩ event.stray
  exact ⟨_, congrArg (Option.map _) called⟩

/-- What a defined event does that finds the system drained. -/
theorem Drained.step_spec {listener next : Listener} (drained : listener.Drained)
    {event : Listening} (stepped : listener.step event = some next) :
    listener.ShortEnough event ∧ next.Consistent ∧
      next.task.sock.rcvQueue.maxSize ≤ 2 ^ 19 ∧
      (event.Fails → next.received = listener.received ∧ next.parsed = listener.parsed ∧
        next.task.sock.rcvQueue.unread = listener.task.sock.rcvQueue.unread) ∧
      (¬ event.Fails →
        parse packetFormat next.received =
          parse packetFormat listener.received ++ parse packetFormat (listener.found event) ∧
        remainder packetFormat next.received =
          remainder packetFormat (listener.found event) ∧
        (next.parsed = listener.parsed ++
            MsgParse.ofPackets ((parse packetFormat (listener.found event)).take 1) ↔
          listener.task.Determined event.needRecv event.answer event.stray) ∧
        next.task.sock.rcvQueue.unread = dropFrames packetFormat 1 (listener.found event)) := by
  obtain ⟨out, called, rfl⟩ := Option.map_eq_some_iff.mp stepped
  obtain ⟨runs, -, -, kept, outcome⟩ := ZTcpTask.listeningRecv_spec drained.consistent called
  have capacity : out.task.sock.rcvQueue.maxSize ≤ 2 ^ 19 := by
    rw [kept.maxSize]
    split
    · exact drained.capacityFor_le
    · exact drained.capacity
  refine ⟨fun _ => runs.short, kept.consistent, capacity, fun failed => ?_, fun succeeds => ?_⟩
  · obtain ⟨nothing, pending⟩ := outcome.of_fails failed
    have none := listener.task.arrived_of_fails failed
    refine ⟨?_, ?_, ?_⟩
    · show listener.received ++ listener.task.arrived event.needRecv event.answer = _
      rw [none, List.append_nil]
    · show listener.parsed ++ out.parsed.toList = _
      rw [nothing]
      exact List.append_nil _
    · rw [pending, ZTcpTask.found, none, List.append_nil]
  · obtain ⟨taken, pending⟩ := outcome.of_succeeds succeeds
    have found : listener.found event =
        remainder packetFormat listener.received ++
          listener.task.arrived event.needRecv event.answer := by
      rw [← drained.pending]
      rfl
    refine ⟨?_, ?_, ?_, pending⟩
    · rw [found]
      exact parse_append_remainder packetFormat _ _
    · rw [found]
      exact remainder_append packetFormat _ _
    · show listener.parsed ++ out.parsed.toList = _ ↔ _
      refine Iff.trans ?_ outcome.proper_iff
      rw [List.append_cancel_left_eq, ← List.filter_eq_self, taken]
      exact eq_comm

/-- An event is orderly exactly when it leaves none behind and hands over nothing but packets. -/
theorem Drained.drains_iff {listener : Listener} (drained : listener.Drained)
    (event : Listening) : listener.Drains event ↔ listener.Orderly event := by
  have behind := length_parse_le_one_iff packetFormat (listener.found event)
  constructor
  · rintro ⟨next, stepped, drains⟩
    obtain ⟨short, -, -, -, effect⟩ := drained.step_spec stepped
    have atMostOne : ¬ event.Fails → (parse packetFormat (listener.found event)).length ≤ 1 := by
      intro succeeds
      obtain ⟨-, -, -, pending⟩ := effect succeeds
      exact behind.mpr (pending ▸ (drains succeeds).2.1)
    refine ⟨atMostOne, short, fun succeeds => ?_⟩
    obtain ⟨parsed, -, determined, -⟩ := effect succeeds
    refine determined.mp ?_ succeeds
    rw [(drains succeeds).1, parsed, MsgParse.ofPackets_append, ← drained.parsed,
      List.take_of_length_le (atMostOne succeeds)]
  · intro orderly
    obtain ⟨next, stepped⟩ := drained.step_defined orderly.shortEnough
    obtain ⟨-, -, -, -, effect⟩ := drained.step_spec stepped
    refine ⟨next, stepped, fun succeeds => ?_⟩
    obtain ⟨parsed, -, determined, pending⟩ := effect succeeds
    have none := behind.mp (orderly.atMostOne succeeds)
    refine ⟨?_, pending ▸ none, pending ▸ length_lt_of_waits none⟩
    rw [determined.mpr orderly.determined, drained.parsed, parsed, MsgParse.ofPackets_append,
      List.take_of_length_le (orderly.atMostOne succeeds)]

/-- An orderly event leaves the system drained. -/
theorem Drained.step {listener next : Listener} (drained : listener.Drained) {event : Listening}
    (orderly : listener.Orderly event) (stepped : listener.step event = some next) :
    next.Drained := by
  obtain ⟨-, consistent, capacity, fails, effect⟩ := drained.step_spec stepped
  by_cases failed : event.Fails
  · obtain ⟨received, parsed, pending⟩ := fails failed
    exact ⟨consistent, by rw [parsed, received, drained.parsed],
      by rw [pending, received, drained.pending], capacity⟩
  · obtain ⟨arrived, remaining, determined, pending⟩ := effect failed
    have short := orderly.atMostOne failed
    refine ⟨consistent, ?_, ?_, capacity⟩
    · rw [determined.mpr orderly.determined, drained.parsed, arrived, MsgParse.ofPackets_append,
        List.take_of_length_le short]
    · rw [pending, remaining, remainder_of_length_le_one packetFormat short]

/-- No packet is stranded exactly when all events are orderly. In every run of the receive handler,
every event leaves all non-empty packets handed over, each once, in order, whole and with its
length, nothing else handed over and less than one packet behind, if and only if every event finds
at most one complete packet, and one that fits into the buffer, and finds it wherever the value
that a missing `return` leaves is positive. -/
theorem drains_iff_orderly (sock : Int) (bufferd : Bool) (events : List Listening) :
    PartialRun.Each step Drains (new sock bufferd) events ↔
      PartialRun.Each step Orderly (new sock bufferd) events :=
  PartialRun.each_congr Drained
    (fun _ _ _ drained orderly stepped => drained.step orderly stepped)
    (fun _ event drained => drained.drains_iff event) (new_drained sock bufferd)

/-- An orderly event of a drained system hands over the packet that it finds, if it finds one. -/
theorem Drained.handsOver {listener : Listener} (drained : listener.Drained) {event : Listening}
    {payloads : List (List UInt8)} (succeeds : ¬ event.Fails)
    (packets : parse packetFormat (listener.found event) = payloads)
    (atMostOne : payloads.length ≤ 1) (short : ∀ payload ∈ payloads, payload.length ≤ maxDataSize)
    (silent : event.stray ≤ 0) :
    ∃ next, listener.step event = some next ∧ next.Drained ∧
      next.received = listener.received ++
        listener.task.arrived event.needRecv event.answer ∧
      next.parsed = listener.parsed ++ MsgParse.ofPackets payloads ∧
      next.task.sock.rcvQueue.unread = dropFrames packetFormat 1 (listener.found event) := by
  have orderly : listener.Orderly event := by
    refine ⟨fun _ => packets ▸ atMostOne, fun _ _ payload rest frame => short payload ?_,
      fun _ _ => silent⟩
    rw [← packets, parse_of_some packetFormat frame]
    exact List.mem_cons_self
  obtain ⟨next, stepped⟩ := drained.step_defined orderly.shortEnough
  obtain ⟨-, -, -, -, effect⟩ := drained.step_spec stepped
  obtain ⟨-, -, parsed, pending⟩ := effect succeeds
  refine ⟨next, stepped, drained.step orderly stepped, ?_, ?_, pending⟩
  · obtain ⟨out, -, rfl⟩ := Option.map_eq_some_iff.mp stepped
    rfl
  · rw [parsed.mpr orderly.determined, packets, List.take_of_length_le atMostOne]

/-- The event of an `_add`, where nothing is pending. -/
theorem Drained.step_added {listener : Listener} (drained : listener.Drained)
    (idle : listener.task.sock.rcvQueue.unread = []) :
    ∃ next, listener.step ⟨false, .wouldBlock, 0⟩ = some next ∧ next.Drained ∧
      next.received = listener.received ∧ next.parsed = listener.parsed ∧
      next.task.sock.rcvQueue.unread = [] := by
  have found : listener.found ⟨false, .wouldBlock, 0⟩ = [] := (List.append_nil _).trans idle
  have succeeds : ¬ Listening.Fails ⟨false, .wouldBlock, 0⟩ := fun fails => Bool.noConfusion fails.1
  obtain ⟨next, stepped, kept, received, parsed, pending⟩ := drained.handsOver succeeds
    (congrArg (parse packetFormat) found) (Nat.zero_le 1)
    (fun _ member => absurd member List.not_mem_nil) (Int.le_refl 0)
  rw [found] at pending
  exact ⟨next, stepped, kept, received.trans (List.append_nil _),
    parsed.trans (List.append_nil _), pending⟩

/-- An event that brings a packet of one byte. -/
def bringsPacket : Listening := ⟨true, .data 1 [0, 0, 0, 7], 0⟩

/-- An idle task hands over the packet that an event brings. -/
theorem Drained.step_bringsPacket {listener : Listener} (drained : listener.Drained)
    (idle : listener.task.sock.rcvQueue.unread = []) :
    ∃ next, listener.step bringsPacket = some next ∧
      next.received = listener.received ++ [1, 0, 0, 0, 7] ∧
      next.parsed = listener.parsed ++ [{ copied := [7], nLen := 1 }] := by
  have found : listener.found bringsPacket = [1, 0, 0, 0, 7] :=
    found_of_idle drained.consistent (drained.fits bringsPacket rfl) idle 1 (by decide) 0
  have succeeds : ¬ bringsPacket.Fails := by
    rintro ⟨-, failed | failed⟩ <;> cases failed
  have packets : parse packetFormat (listener.found bringsPacket) = [[7]] := by
    rw [found]
    decide
  have short : ∀ payload ∈ [[(7 : UInt8)]], payload.length ≤ maxDataSize := by decide
  obtain ⟨next, stepped, -, received, parsed, -⟩ :=
    drained.handsOver succeeds packets (Nat.le_refl 1) short (Int.le_refl 0)
  refine ⟨next, stepped, received.trans (congrArg (_ ++ ·) ?_), parsed⟩
  show listener.task.arrived true (.data 1 [0, 0, 0, 7]) = _
  have arrived : listener.found bringsPacket =
      [] ++ listener.task.arrived true (.data 1 [0, 0, 0, 7]) :=
    congrArg (· ++ listener.task.arrived true (.data 1 [0, 0, 0, 7])) idle
  exact arrived.symm.trans found

/-- The second packet of a chunk is left behind. -/
theorem second_packet_stranded :
    ¬ PartialRun.Each step Drains (new 5 false)
      [⟨true, .data 1 [0, 0, 0, 7, 1, 0, 0, 0, 8], 0⟩] := by
  intro drains
  have atMostOne := ((new_drained 5 false).drains_iff _ |>.mp drains.1).atMostOne
    (by rintro ⟨-, failed | failed⟩ <;> cases failed)
  rw [found_of_idle (new_consistent 5 false) (Receiver.new_fits 5 .wouldBlock)
    ByteBuffer.new_unread 1 (by decide)] at atMostOne
  exact absurd atMostOne (by decide)

end Listener

end SelftestNet
