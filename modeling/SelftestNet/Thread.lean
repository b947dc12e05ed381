/-
This file embeds the event loop of `zThread` and proves what of a failure reaches it.
The loop acts on the values of `ListeningRecv` and `ListeningSend`. A function that
ends without a `return` gives its caller an arbitrary value, so a status is reported
when the caller's view of it is right for every such value. `ListeningRecv` never
returns, `sync` only behind a hard error, and `recvToCmd_NoPoll` only with a packet.
-/

import SelftestNet.Send
import SelftestNet.Task

namespace SelftestNet

open Framing

/-! ### What the loop is to be told -/

namespace ZTcpTask

/-- Whatever value stands in for a missing one, `ListeningRecv(true)` reports `false` exactly when
its receive met the end of the stream or an error. -/
def RecvReports (task : ZTcpTask) (answer : RecvAnswer) : Prop :=
  ∀ stray arbitrary out, task.listeningRecv true answer stray = some out →
    (out.retval.getD arbitrary = false ↔ answer.Broken)

/-- Whatever value stands in for a missing one, `msgParse` is called only with the payload and the
length of a packet that is complete in the receive queue. -/
def Parses (task : ZTcpTask) (needRecv : Bool) (answer : RecvAnswer) : Prop :=
  ∀ stray out, task.listeningRecv needRecv answer stray = some out → ∀ call ∈ out.parsed,
    ∃ payload rest, nextFrame packetFormat (task.found needRecv answer) = some (payload, rest) ∧
      call = { copied := payload, nLen := payload.length }

/-- Whatever value stands in for a missing one, `ListeningSend` reports `false` exactly when it
attempted a `::send` that failed with an error other than would-block. -/
def SendReports (task : ZTcpTask) (answer : SendAnswer) : Prop :=
  ∀ arbitrary sent, task.listeningSend answer = some sent →
    (sent.value.getD arbitrary = false ↔ task.sock.pending ≠ [] ∧ answer = .failed)

/-- The receive fails, or a packet is complete behind it. -/
def FindsPacket (task : ZTcpTask) (needRecv : Bool) (answer : RecvAnswer) : Prop :=
  ¬ Fails needRecv answer → nextFrame packetFormat (task.found needRecv answer) ≠ none

/-- `ListeningRecv(true)` never reports. -/
theorem not_recvReports {task : ZTcpTask} {answer : RecvAnswer}
    (consistent : task.sock.ReceiveConsistent) (runs : task.Runs true answer) :
    ¬ task.RecvReports answer := by
  intro reports
  obtain ⟨out, called⟩ := listeningRecv_defined consistent runs 0
  obtain ⟨-, missing, -⟩ := listeningRecv_spec consistent called
  have either := fun arbitrary => reports 0 arbitrary out called
  rw [missing] at either
  have broken := (either false).mp rfl
  exact Bool.noConfusion ((either true).mpr broken)

/-- `msgParse` is called properly exactly when there is a packet to be found. -/
theorem parses_iff {task : ZTcpTask} {needRecv : Bool} {answer : RecvAnswer}
    (consistent : task.sock.ReceiveConsistent) (runs : task.Runs needRecv answer) :
    task.Parses needRecv answer ↔ task.FindsPacket needRecv answer := by
  constructor
  · intro parses succeeds nothing
    obtain ⟨out, called⟩ := listeningRecv_defined consistent runs 1
    obtain ⟨-, -, -, -, outcome⟩ := listeningRecv_spec consistent called
    have proper := parses 1 out called
    cases outcome with
    | fails failed => exact succeeds failed
    | waits _ _ _ parsed =>
      rw [parsed, if_pos Int.one_pos] at proper
      obtain ⟨payload, rest, frame, -⟩ := proper _ rfl
      exact absurd (nothing.symm.trans frame) (by rintro ⟨⟩)
    | takes _ payload rest frame => exact absurd (nothing.symm.trans frame) (by rintro ⟨⟩)
  · intro finds stray out called call member
    obtain ⟨-, -, -, -, outcome⟩ := listeningRecv_spec consistent called
    cases outcome with
    | fails _ _ parsed =>
      rw [parsed] at member
      cases member
    | waits succeeds frame => exact absurd frame (finds succeeds)
    | takes _ payload rest frame _ parsed =>
      have listed := Option.mem_toList.mpr member
      rw [parsed, MsgParse.ofPackets_singleton] at listed
      split at listed
      · exact absurd listed List.not_mem_nil
      · exact ⟨payload, rest, frame, List.mem_singleton.mp listed⟩

/-- `ListeningSend` reports exactly when there is a hard error to be reported. -/
theorem sendReports_iff {task : ZTcpTask} {answer : SendAnswer} {sent : Sent (Option Bool)}
    (consistent : task.sock.SendConsistent) (called : task.listeningSend answer = some sent) :
    task.SendReports answer ↔ task.sock.pending ≠ [] ∧ answer = .failed := by
  obtain ⟨-, -, -, value⟩ := ZSocket.sync_spec consistent called
  constructor
  · intro reports
    by_contra nothing
    have missing := reports false sent called
    rw [value, if_neg nothing] at missing
    exact nothing (missing.mp rfl)
  · rintro hard arbitrary other same
    obtain rfl := Option.some.inj (called.symm.trans same)
    rw [value, if_pos hard]
    exact iff_of_true rfl hard

end ZTcpTask

/-! ### The loop -/

/-- `EPOLLIN`. -/
def epollIn : BitVec 32 := 0x001#32

/-- `EPOLLPRI`. -/
def epollPri : BitVec 32 := 0x002#32

/-- `EPOLLOUT`. -/
def epollOut : BitVec 32 := 0x004#32

/-- `EPOLLERR`. -/
def epollErr : BitVec 32 := 0x008#32

/-- One element of the array that `epoll_wait` fills, with the kernel's answers while it is
dispatched. -/
structure EpollEvent where
  ptr : Nat
  events : BitVec 32
  recv : RecvAnswer
  send : SendAnswer
  stray : Int

/-- The loop makes the task receive. -/
def EpollEvent.Receives (event : EpollEvent) : Prop :=
  event.events &&& (epollErr ||| epollPri) = 0 ∧ event.events &&& epollIn ≠ 0

/-- The loop makes the task send. -/
def EpollEvent.Sends (event : EpollEvent) : Prop :=
  event.events &&& (epollErr ||| epollPri) = 0 ∧ event.events &&& epollOut ≠ 0

instance (event : EpollEvent) : Decidable event.Receives := inferInstanceAs (Decidable (_ ∧ _))

instance (event : EpollEvent) : Decidable event.Sends := inferInstanceAs (Decidable (_ ∧ _))

/-- The tasks of a thread, by their addresses. -/
structure EventLoop where
  tasks : Nat → ZTcpTask

/-- What happens to the tasks of a thread: the loop runs over an array of events, `_add` lets a
task parse what it has received before, or a task is given a command to send. -/
inductive LoopCall
  | run (epfds : List EpollEvent)
  | add (ptr : Nat) (stray : Int)
  | sendCmd (ptr : Nat) (pstrCmd : Option (List UInt8)) (ios : List SendIo)

namespace EventLoop

/-- The loop with one task replaced. -/
def set (loop : EventLoop) (ptr : Nat) (task : ZTcpTask) : EventLoop where
  tasks := Function.update loop.tasks ptr task

@[simp]
theorem set_tasks_self (loop : EventLoop) (ptr : Nat) (task : ZTcpTask) :
    (loop.set ptr task).tasks ptr = task := by
  simp only [set, Function.update_self]

theorem set_tasks_of_ne (loop : EventLoop) (task : ZTcpTask) {ptr other : Nat}
    (different : other ≠ ptr) : (loop.set ptr task).tasks other = loop.tasks other := by
  simp only [set, Function.update_of_ne different]

/-- Tasks fresh from their constructors. -/
def new (sock : Nat → Int) (bufferd : Nat → Bool) : EventLoop where
  tasks ptr := { sock := ZSocket.new (sock ptr), bufferd := bufferd ptr }

/-- The reaction to `EPOLLIN`. -/
def dispatchRecv (loop : EventLoop) (event : EpollEvent) : Option EventLoop :=
  if event.Receives then
    ((loop.tasks event.ptr).listeningRecv true event.recv event.stray).map fun out =>
      loop.set event.ptr out.task
  else some loop

/-- The reaction to `EPOLLOUT`. -/
def dispatchSend (loop : EventLoop) (event : EpollEvent) : Option EventLoop :=
  if event.Sends then
    ((loop.tasks event.ptr).listeningSend event.send).map fun sent =>
      loop.set event.ptr { loop.tasks event.ptr with sock := sent.socket }
  else some loop

/-- The body of the loop in `run`. Nothing follows from the values of the two calls. -/
def dispatch (loop : EventLoop) (event : EpollEvent) : Option EventLoop :=
  (loop.dispatchRecv event).bind fun middle => middle.dispatchSend event

/-- `run`, with its `if(int i = 0; i < retcode; i++)` as the loop it is meant to be. -/
def run (loop : EventLoop) (epfds : List EpollEvent) : Option EventLoop :=
  PartialRun.run dispatch loop epfds

/-- One call. -/
def step (loop : EventLoop) : LoopCall → Option EventLoop
  | .run epfds => loop.run epfds
  | .add ptr stray =>
    ((loop.tasks ptr).listeningRecv false .wouldBlock stray).map fun out => loop.set ptr out.task
  | .sendCmd ptr pstrCmd ios =>
    ((loop.tasks ptr).sendCmd pstrCmd ios).map fun sent =>
      loop.set ptr { loop.tasks ptr with sock := sent.socket }

/-- The queues of every task are consistent. -/
def Consistent (loop : EventLoop) : Prop :=
  ∀ ptr, (loop.tasks ptr).sock.ReceiveConsistent ∧ (loop.tasks ptr).sock.SendConsistent

theorem new_consistent (sock : Nat → Int) (bufferd : Nat → Bool) :
    (new sock bufferd).Consistent := fun ptr =>
  ⟨ZSocket.new_receiveConsistent (sock ptr), ZSocket.new_sendConsistent (sock ptr)⟩

theorem Consistent.set {loop : EventLoop} (consistent : loop.Consistent) (ptr : Nat)
    {task : ZTcpTask} (receives : task.sock.ReceiveConsistent)
    (sends : task.sock.SendConsistent) : (loop.set ptr task).Consistent := by
  intro other
  by_cases same : other = ptr
  · rw [same, set_tasks_self]
    exact ⟨receives, sends⟩
  · rw [set_tasks_of_ne loop task same]
    exact consistent other

/-- The receive handler keeps the queues consistent. -/
theorem Consistent.listeningRecv {loop : EventLoop} (consistent : loop.Consistent) {ptr : Nat}
    {needRecv : Bool} {answer : RecvAnswer} {stray : Int} {out : Listened}
    (called : (loop.tasks ptr).listeningRecv needRecv answer stray = some out) :
    (loop.set ptr out.task).Consistent := by
  obtain ⟨receives, sends⟩ := consistent ptr
  obtain ⟨-, -, -, kept, -⟩ := ZTcpTask.listeningRecv_spec receives called
  exact consistent.set ptr kept.consistent ⟨kept.snd ▸ sends.snd, kept.enc ▸ sends.enc⟩

/-- So does what keeps the send queues consistent and leaves the receiving half as it is. -/
theorem Consistent.sent {loop : EventLoop} (consistent : loop.Consistent) {ptr : Nat}
    {sock : ZSocket} (sends : sock.SendConsistent)
    (same : (loop.tasks ptr).sock.SameReceive sock) :
    (loop.set ptr { loop.tasks ptr with sock }).Consistent := by
  obtain ⟨receives, -⟩ := consistent ptr
  exact consistent.set ptr ⟨same.1 ▸ receives.queue, by rw [same.1, same.2, receives.rawSize]⟩
    sends

theorem Consistent.dispatchRecv {loop middle : EventLoop} (consistent : loop.Consistent)
    {event : EpollEvent} (defined : loop.dispatchRecv event = some middle) :
    middle.Consistent := by
  unfold EventLoop.dispatchRecv at defined
  split at defined
  · obtain ⟨out, called, rfl⟩ := Option.map_eq_some_iff.mp defined
    exact consistent.listeningRecv called
  · exact Option.some.inj defined ▸ consistent

theorem Consistent.dispatch {loop next : EventLoop} (consistent : loop.Consistent)
    {event : EpollEvent} (defined : loop.dispatch event = some next) : next.Consistent := by
  obtain ⟨middle, received, sent⟩ := Option.bind_eq_some_iff.mp defined
  have between := consistent.dispatchRecv received
  unfold dispatchSend at sent
  split at sent
  · obtain ⟨out, called, rfl⟩ := Option.map_eq_some_iff.mp sent
    obtain ⟨kept, -, same, -⟩ := ZSocket.sync_spec (between event.ptr).2 called
    exact between.sent kept same
  · exact Option.some.inj sent ▸ between

theorem Consistent.step {loop next : EventLoop} (consistent : loop.Consistent) (call : LoopCall)
    (stepped : loop.step call = some next) : next.Consistent := by
  cases call with
  | run epfds =>
    exact PartialRun.run_invariant_of_step Consistent
      (fun _ _ _ consistent defined => consistent.dispatch defined) consistent stepped
  | add ptr stray =>
    obtain ⟨out, called, rfl⟩ := Option.map_eq_some_iff.mp stepped
    exact consistent.listeningRecv called
  | sendCmd ptr pstrCmd ios =>
    obtain ⟨sent, called, rfl⟩ := Option.map_eq_some_iff.mp stepped
    obtain ⟨kept, same⟩ := ZSocket.sendBytes_keeps (consistent ptr).2 called
    exact consistent.sent kept same

/-! ### One dispatched event -/

/-- The calls that the loop makes for the event report their failures, and parse nothing but
packets. -/
structure Reports (loop : EventLoop) (event : EpollEvent) : Prop where
  recv : event.Receives → (loop.tasks event.ptr).RecvReports event.recv
  parse : event.Receives → (loop.tasks event.ptr).Parses true event.recv
  send : event.Sends → ∀ middle, loop.dispatchRecv event = some middle →
    (middle.tasks event.ptr).SendReports event.send

/-- The loop does not make the task receive, and makes it send only into a hard error. -/
structure Quiet (loop : EventLoop) (event : EpollEvent) : Prop where
  recv : ¬ event.Receives
  send : event.Sends → (loop.tasks event.ptr).sock.pending ≠ [] ∧ event.send = .failed

theorem Consistent.reports_iff {loop next : EventLoop} (consistent : loop.Consistent)
    {event : EpollEvent} (defined : loop.dispatch event = some next) :
    loop.Reports event ↔ loop.Quiet event := by
  obtain ⟨middle, received, sent⟩ := Option.bind_eq_some_iff.mp defined
  have idle : ¬ event.Receives → loop.dispatchRecv event = some loop := fun quiet => if_neg quiet
  have sends : event.Sends → ¬ event.Receives →
      ((loop.tasks event.ptr).SendReports event.send ↔
        (loop.tasks event.ptr).sock.pending ≠ [] ∧ event.send = .failed) := by
    intro sending quiet
    obtain rfl := Option.some.inj ((idle quiet).symm.trans received)
    rw [dispatchSend, if_pos sending] at sent
    obtain ⟨out, called, -⟩ := Option.map_eq_some_iff.mp sent
    exact ZTcpTask.sendReports_iff (consistent event.ptr).2 called
  constructor
  · intro reports
    have quiet : ¬ event.Receives := by
      intro receiving
      rw [EventLoop.dispatchRecv, if_pos receiving] at received
      obtain ⟨out, called, -⟩ := Option.map_eq_some_iff.mp received
      have runs := ZTcpTask.runs_of_listeningRecv (consistent event.ptr).1 called
      exact ZTcpTask.not_recvReports (consistent event.ptr).1 runs (reports.recv receiving)
    exact ⟨quiet, fun sending => (sends sending quiet).mp (reports.send sending loop (idle quiet))⟩
  · rintro ⟨quiet, hard⟩
    refine ⟨fun receiving => absurd receiving quiet, fun receiving => absurd receiving quiet,
      fun sending middle same => ?_⟩
    obtain rfl := Option.some.inj ((idle quiet).symm.trans same)
    exact (sends sending quiet).mpr (hard sending)

/-- The event makes the task receive only to find a packet, or to fail. -/
def Finds (loop : EventLoop) (event : EpollEvent) : Prop :=
  event.Receives → (loop.tasks event.ptr).FindsPacket true event.recv

/-- `msgParse` is called properly for the event. -/
def ParsesProperly (loop : EventLoop) (event : EpollEvent) : Prop :=
  event.Receives → (loop.tasks event.ptr).Parses true event.recv

theorem Consistent.parsesProperly_iff {loop next : EventLoop} (consistent : loop.Consistent)
    {event : EpollEvent} (defined : loop.dispatch event = some next) :
    loop.ParsesProperly event ↔ loop.Finds event := by
  refine imp_congr_right fun receiving => ?_
  obtain ⟨middle, received, -⟩ := Option.bind_eq_some_iff.mp defined
  rw [EventLoop.dispatchRecv, if_pos receiving] at received
  obtain ⟨out, called, -⟩ := Option.map_eq_some_iff.mp received
  have runs := ZTcpTask.runs_of_listeningRecv (consistent event.ptr).1 called
  exact ZTcpTask.parses_iff (consistent event.ptr).1 runs

/-! ### Runs of the loop -/

/-- Every event that the call dispatches is related to the loop it is dispatched from, and the
receive handler that `_add` calls finds the task as required. -/
def CallHolds (dispatched : EventLoop → EpollEvent → Prop) (added : ZTcpTask → Prop)
    (loop : EventLoop) : LoopCall → Prop
  | .run epfds => PartialRun.Each dispatch dispatched loop epfds
  | .add ptr _ => added (loop.tasks ptr)
  | .sendCmd _ _ _ => True

/-- Relations that agree on every dispatched event agree on every call of a run. -/
theorem each_callHolds_congr {first second : EventLoop → EpollEvent → Prop}
    (agree : ∀ loop event next, loop.Consistent → loop.dispatch event = some next →
      (first loop event ↔ second loop event)) (sock : Nat → Int) (bufferd : Nat → Bool)
    {calls : List LoopCall} {final : EventLoop}
    (reached : PartialRun.run step (new sock bufferd) calls = some final) :
    PartialRun.Each step (CallHolds first (·.Parses false .wouldBlock)) (new sock bufferd) calls ↔
      PartialRun.Each step (CallHolds second (·.FindsPacket false .wouldBlock))
        (new sock bufferd) calls := by
  refine PartialRun.each_congr_of_run Consistent
    (fun _ call _ consistent stepped => consistent.step call stepped)
    (fun loop call next consistent stepped => ?_) (new_consistent sock bufferd) reached
  cases call with
  | run epfds =>
    exact PartialRun.each_congr_of_run Consistent
      (fun _ _ _ consistent defined => consistent.dispatch defined) agree consistent stepped
  | add ptr stray =>
    obtain ⟨out, called, -⟩ := Option.map_eq_some_iff.mp stepped
    have runs := ZTcpTask.runs_of_listeningRecv (consistent ptr).1 called
    exact ZTcpTask.parses_iff (consistent ptr).1 runs
  | sendCmd ptr pstrCmd ios => exact Iff.rfl

/-- What the loop is told is right exactly when it asks for nothing but the report of a hard error.
In every run, every value that stands in for a missing one leaves the reports of `ListeningRecv`
and `ListeningSend` and the calls of `msgParse` right if and only if no event makes a task
receive, and makes it send only into a hard error with bytes pending; the calls of `msgParse`
alone are right if and only if every receive that does not fail finds a complete packet. -/
theorem reports_iff_quiet (sock : Nat → Int) (bufferd : Nat → Bool) (calls : List LoopCall)
    (final : EventLoop) (reached : PartialRun.run step (new sock bufferd) calls = some final) :
    (PartialRun.Each step (CallHolds Reports (·.Parses false .wouldBlock)) (new sock bufferd)
        calls ↔
      PartialRun.Each step (CallHolds Quiet (·.FindsPacket false .wouldBlock)) (new sock bufferd)
        calls) ∧
    (PartialRun.Each step (CallHolds ParsesProperly (·.Parses false .wouldBlock))
        (new sock bufferd) calls ↔
      PartialRun.Each step (CallHolds Finds (·.FindsPacket false .wouldBlock)) (new sock bufferd)
        calls) :=
  ⟨each_callHolds_congr (fun _ _ _ consistent defined => consistent.reports_iff defined) sock
      bufferd reached,
    each_callHolds_congr (fun _ _ _ consistent defined => consistent.parsesProperly_iff defined)
      sock bufferd reached⟩

/-- A task that buffers puts a command into `_snd_queue`. -/
theorem step_buffers {loop : EventLoop} {ptr : Nat} {cmd : List UInt8} {sndQueue : ByteBuffer}
    (buffers : (loop.tasks ptr).bufferd = true) (nonempty : cmd ≠ [])
    (stored : (loop.tasks ptr).sock.sndQueue.put cmd = some sndQueue) :
    loop.step (.sendCmd ptr (some cmd) []) = some (loop.set ptr { loop.tasks ptr with
      sock := { (loop.tasks ptr).sock with sndQueue, currentCmd := cmd.length } }) := by
  rw [step, ZTcpTask.sendCmd, buffers, ZSocket.sendCmd, ZSocket.sendBytes, if_neg nonempty,
    if_pos rfl, stored]
  rfl

/-- An event that only makes a task send, into a hard error. -/
def refused : EpollEvent := ⟨0, epollOut, .wouldBlock, .failed, 0⟩

theorem run_refused {loop : EventLoop} (consistent : loop.Consistent)
    (noWrap : (loop.tasks 0).sock.encQueue.NoWrap (loop.tasks 0).sock.sndQueue.unread.length) :
    ∃ final, loop.step (.run [refused]) = some final := by
  have silent : ¬ refused.Receives := by decide
  have sends : refused.Sends := by decide
  obtain ⟨staged, moved⟩ := ZSocket.stage_defined (consistent 0).2 fun _ => noWrap
  obtain ⟨kept, -⟩ := ZSocket.stage_spec (consistent 0).2 moved
  obtain ⟨sent, flushed, -⟩ := ZSocket.flush_spec kept .failed
  have called : (loop.tasks 0).listeningSend .failed = some sent := by
    rw [ZTcpTask.listeningSend, ZSocket.sync, moved, Option.bind_some, flushed]
  refine ⟨loop.set 0 { loop.tasks 0 with sock := sent.socket }, ?_⟩
  rw [step, run, PartialRun.run_singleton, dispatch, dispatchRecv, if_neg silent,
    Option.bind_some, dispatchSend, if_pos sends]
  exact congrArg (Option.map _) called

/-- The law of the reports, at a command whose `::send` fails: the loop is told. -/
theorem reports_iff_quiet_refused :
    ∃ final, PartialRun.run step (new (fun _ => 5) fun _ => true)
        [.sendCmd 0 (some [7]) [], .run [refused]] = some final ∧
      PartialRun.Each step (CallHolds Reports (·.Parses false .wouldBlock))
        (new (fun _ => 5) fun _ => true) [.sendCmd 0 (some [7]) [], .run [refused]] := by
  obtain ⟨sndQueue, stored, -, appended, -⟩ := @ByteBuffer.new_put [7] (by decide)
  have buffered := @step_buffers (new (fun _ => 5) fun _ => true) 0 _ _ rfl
    (List.cons_ne_nil 7 []) stored
  have consistent := (new_consistent (fun _ => 5) fun _ => true).step _ buffered
  have silent : ¬ refused.Receives := by decide
  have length : sndQueue.unread.length = 1 := congrArg List.length appended
  obtain ⟨final, stepped⟩ := run_refused consistent
    (length.symm ▸ ByteBuffer.new_noWrap (by decide))
  have reached : PartialRun.run step (new (fun _ => 5) fun _ => true)
      [.sendCmd 0 (some [7]) [], .run [refused]] = some final := by
    rw [PartialRun.run_cons, buffered, Option.bind_some, PartialRun.run_singleton, stepped]
  refine ⟨final, reached, (reports_iff_quiet _ _ _ final reached).1.mpr
    ((PartialRun.each_cons_of_step buffered).mpr
      ⟨trivial, PartialRun.each_singleton.mpr (PartialRun.each_singleton.mpr ?_)⟩)⟩
  refine ⟨silent, fun _ => ⟨?_, rfl⟩⟩
  show ByteBuffer.new.unread ++ sndQueue.unread ≠ []
  rw [appended]
  exact List.cons_ne_nil _ _

/-- An event that only makes a task receive, where there is nothing to be received. -/
def blocked : EpollEvent := ⟨0, epollIn, .wouldBlock, .wouldBlock, 0⟩

/-- A receive that would block is reported as a failure when the missing value happens to be
`false`. -/
theorem blocked_receive_misreported :
    ∃ final, PartialRun.run step (new (fun _ => 5) fun _ => true) [.run [blocked]] = some final ∧
      ¬ PartialRun.Each step (CallHolds Reports (·.Parses false .wouldBlock))
        (new (fun _ => 5) fun _ => true) [.run [blocked]] := by
  have receives : blocked.Receives := by decide
  have silent : ¬ blocked.Sends := by decide
  have consistent := new_consistent (fun _ => 5) fun _ => true
  have runs : ((new (fun _ => 5) fun _ => true).tasks 0).Runs true .wouldBlock :=
    ⟨fun _ => Receiver.new_fits 5 .wouldBlock, fun _ _ _ frame => absurd frame (by rintro ⟨⟩)⟩
  obtain ⟨out, called⟩ := ZTcpTask.listeningRecv_defined (consistent 0).1 runs 0
  have received : (new (fun _ => 5) fun _ => true).dispatchRecv blocked =
      some ((new (fun _ => 5) fun _ => true).set 0 out.task) := by
    rw [dispatchRecv, if_pos receives]
    exact congrArg (Option.map _) called
  refine ⟨(new (fun _ => 5) fun _ => true).set 0 out.task, ?_, fun reports => ?_⟩
  · rw [PartialRun.run_singleton, step, run, PartialRun.run_singleton, dispatch, received,
      Option.bind_some, dispatchSend, if_neg silent]
  · exact ZTcpTask.not_recvReports (consistent 0).1 runs (reports.1.1.recv receives)

end EventLoop

end SelftestNet
