/-
This file proves what a poll thread does to its tasks over a whole run. The thread walks
through arrays of events in which the tasks come up in any order, the rest of the process
hands commands to them in between, and all of it goes through one table. Every task is
nevertheless as its own calls alone leave it, so what is known of one socket holds of each
task: `msgParse` is told the first packets of the task's own stream, and of nothing else unless
a missing `return` leaves a positive length, and a task that buffers its commands loses none of
them.
-/

import SelftestNet.PollThread
import SelftestNet.Session

namespace SelftestNet

open Framing

/-! ### The calls on tasks -/

/-- One call on a task: the dispatch of an event, the `ListeningRecv(false)` of `_add`, or a
`sendCmd`. -/
inductive TaskCall
  | dispatch (event : EpollEvent)
  | added (ptr : Nat) (stray : Int)
  | sendCmd (ptr : Nat) (pstrCmd : Option (List UInt8)) (ios : List SendIo)

namespace TaskCall

/-- The task that a call is about. -/
def ptr : TaskCall → Nat
  | .dispatch event => event.ptr
  | .added ptr _ => ptr
  | .sendCmd ptr _ _ => ptr

/-- The calls on tasks that a call of the loop makes, in order. -/
def ofLoop : LoopCall → List TaskCall
  | .run epfds => epfds.map dispatch
  | .add ptr stray => [.added ptr stray]
  | .sendCmd ptr pstrCmd ios => [.sendCmd ptr pstrCmd ios]

/-- The calls on tasks that a call of the thread makes, in order. -/
def ofThread : ThreadCall → List TaskCall
  | .add ptr _ stray => [.added ptr stray]
  | .remove _ _ => []
  | .run answer => answer.map dispatch
  | .elsewhere call => ofLoop call

end TaskCall

/-- A task with the history of its receive handler, the bytes that the kernel has accepted from it,
and the commands it has accepted. -/
structure TaskLog extends Listener where
  wire : List UInt8
  accepted : List (List UInt8)

namespace TaskLog

/-- A task fresh from its constructor. -/
def new (sock : Int) (bufferd : Bool) : TaskLog where
  toListener := Listener.new sock bufferd
  wire := []
  accepted := []

/-- A `ListeningRecv`. -/
def listen (log : TaskLog) (needRecv : Bool) (answer : RecvAnswer) (stray : Int) :
    Option TaskLog :=
  (log.toListener.step ⟨needRecv, answer, stray⟩).map fun listener =>
    { log with toListener := listener }

/-- A `ListeningSend`. -/
def flush (log : TaskLog) (answer : SendAnswer) : Option TaskLog :=
  (log.task.listeningSend answer).map fun sent =>
    { log with
      task := { log.task with sock := sent.socket }
      wire := log.wire ++ sent.taken }

/-- A `sendCmd`. The command is accepted when the socket says so. -/
def send (log : TaskLog) (pstrCmd : Option (List UInt8)) (ios : List SendIo) : Option TaskLog :=
  (log.task.sendCmd pstrCmd ios).map fun sent =>
    { log with
      task := { log.task with sock := sent.socket }
      wire := log.wire ++ sent.taken
      accepted :=
        if sent.value = .returned true then log.accepted ++ pstrCmd.toList else log.accepted }

/-- One call on the task. -/
def step (log : TaskLog) : TaskCall → Option TaskLog
  | .dispatch event =>
    (if event.Receives then log.listen true event.recv event.stray else some log).bind
      fun middle => if event.Sends then middle.flush event.send else some middle
  | .added _ stray => log.listen false .wouldBlock stray
  | .sendCmd _ pstrCmd ios => log.send pstrCmd ios

end TaskLog

/-! ### The loop as a family of tasks -/

namespace EventLoop

/-- One call on a task of the loop. -/
def taskStep (loop : EventLoop) : TaskCall → Option EventLoop
  | .dispatch event => loop.dispatch event
  | .added ptr stray => loop.step (.add ptr stray)
  | .sendCmd ptr pstrCmd ios => loop.step (.sendCmd ptr pstrCmd ios)

/-- A call of the loop is the calls on tasks that it makes. -/
theorem step_eq_run (loop : EventLoop) (call : LoopCall) :
    loop.step call = PartialRun.run taskStep loop (TaskCall.ofLoop call) := by
  cases call with
  | run epfds =>
    show PartialRun.run dispatch loop epfds = PartialRun.run taskStep loop (epfds.map _)
    induction epfds generalizing loop with
    | nil => rfl
    | cons event rest inductionHypothesis =>
      rw [List.map_cons, PartialRun.run_cons, PartialRun.run_cons]
      exact congrArg (Option.bind _) (funext inductionHypothesis)
  | add ptr stray => exact (PartialRun.run_singleton taskStep loop (.added ptr stray)).symm
  | sendCmd ptr pstrCmd ios =>
    exact (PartialRun.run_singleton taskStep loop (.sendCmd ptr pstrCmd ios)).symm

/-- The loop over tasks whose histories are given. -/
def ofLogs (logs : Nat → TaskLog) : EventLoop where
  tasks ptr := (logs ptr).task

theorem ofLogs_update (logs : Nat → TaskLog) (ptr : Nat) (log : TaskLog) :
    ofLogs (Function.update logs ptr log) = (ofLogs logs).set ptr log.task :=
  congrArg EventLoop.mk (Function.comp_update (fun log : TaskLog => log.task) logs ptr log)

/-- One call, recorded in the history of its task. -/
def logStep (logs : Nat → TaskLog) (call : TaskCall) : Option (Nat → TaskLog) :=
  ((logs call.ptr).step call).map (Function.update logs call.ptr)

theorem dispatchRecv_ofLogs (logs : Nat → TaskLog) (event : EpollEvent) :
    (ofLogs logs).dispatchRecv event =
      (if event.Receives then (logs event.ptr).listen true event.recv event.stray
        else some (logs event.ptr)).map fun log =>
          ofLogs (Function.update logs event.ptr log) := by
  unfold dispatchRecv
  split
  · rw [TaskLog.listen, Listener.step, Option.map_map, Option.map_map]
    refine congrArg (Option.map · _) (funext fun out => ?_)
    rw [Function.comp_apply, Function.comp_apply, ofLogs_update]
  · rw [Option.map_some, Function.update_eq_self]

theorem dispatchSend_ofLogs (logs : Nat → TaskLog) (event : EpollEvent) :
    (ofLogs logs).dispatchSend event =
      (if event.Sends then (logs event.ptr).flush event.send
        else some (logs event.ptr)).map fun log =>
          ofLogs (Function.update logs event.ptr log) := by
  unfold dispatchSend
  split
  · rw [TaskLog.flush, Option.map_map]
    refine congrArg (Option.map · _) (funext fun sent => ?_)
    rw [Function.comp_apply, ofLogs_update]
    rfl
  · rw [Option.map_some, Function.update_eq_self]

/-- What a call does to the loop is what it does to its task. -/
theorem taskStep_ofLogs (logs : Nat → TaskLog) (call : TaskCall) :
    (ofLogs logs).taskStep call = (logStep logs call).map ofLogs := by
  cases call with
  | dispatch event =>
    show (ofLogs logs).dispatch event = ((TaskLog.step _ _).map _).map _
    rw [dispatch, dispatchRecv_ofLogs, TaskLog.step, Option.bind_map, Option.map_bind,
      Option.map_bind]
    refine congrArg (Option.bind _) (funext fun middle => ?_)
    simp only [Function.comp_apply]
    rw [dispatchSend_ofLogs, Function.update_self, Option.map_map]
    refine congrArg (Option.map · _) (funext fun log => ?_)
    rw [Function.comp_apply, Function.update_idem]
    rfl
  | added ptr stray =>
    show ((logs ptr).task.listeningRecv false .wouldBlock stray).map _ =
      ((TaskLog.listen _ _ _ _).map _).map _
    rw [TaskLog.listen, Listener.step, Option.map_map, Option.map_map, Option.map_map]
    refine congrArg (Option.map · _) (funext fun out => ?_)
    rw [Function.comp_apply, Function.comp_apply, Function.comp_apply, ofLogs_update]
    rfl
  | sendCmd ptr pstrCmd ios =>
    show ((logs ptr).task.sendCmd pstrCmd ios).map _ = ((TaskLog.send _ _ _).map _).map _
    rw [TaskLog.send, Option.map_map, Option.map_map]
    refine congrArg (Option.map · _) (funext fun sent => ?_)
    rw [Function.comp_apply, Function.comp_apply, ofLogs_update]
    rfl

end EventLoop

/-! ### The thread as a run of its tasks -/

namespace ZThread

theorem delEpoll_loop (thread : ZThread) (ptr : Nat) (ctl : Bool) :
    (thread.remove ptr ctl).loop = thread.loop := by
  rw [remove, delEpoll_eq]

/-- What a call of the thread does to the tasks is the calls on tasks that it makes. -/
theorem step_tasks {thread next : ZThread} {call : ThreadCall}
    (stepped : thread.step call = some next) :
    PartialRun.run EventLoop.taskStep thread.loop (TaskCall.ofThread call) = some next.loop := by
  cases call with
  | add ptr ctl stray =>
    obtain ⟨-, -, called⟩ := add_spec stepped
    rw [EventLoop.step_eq_run] at called
    exact called
  | remove ptr ctl =>
    obtain rfl := Option.some.inj stepped
    exact congrArg some (delEpoll_loop thread ptr ctl).symm
  | run answer =>
    have inside := inside_of_run stepped
    rw [step, run_eq inside] at stepped
    obtain ⟨loop, dispatched, rfl⟩ := Option.map_eq_some_iff.mp stepped
    exact (thread.loop.step_eq_run (.run answer)).symm.trans dispatched
  | elsewhere other =>
    obtain ⟨loop, called, rfl⟩ := Option.map_eq_some_iff.mp stepped
    exact (thread.loop.step_eq_run other).symm.trans called

/-- A call of the thread is defined when the calls on tasks that it makes are and what `epoll_wait`
reports fits into the array. -/
theorem step_defined {thread : ZThread} {call : ThreadCall} {loop : EventLoop}
    (called : PartialRun.run EventLoop.taskStep thread.loop (TaskCall.ofThread call) = some loop)
    (inside : ∀ answer, call = .run answer → answer.length ≤ thread.epfds.length) :
    ∃ next, thread.step call = some next ∧ next.loop = loop := by
  cases call with
  | add ptr ctl stray =>
    rw [TaskCall.ofThread, PartialRun.run_singleton, EventLoop.taskStep] at called
    rw [step, add, addEpoll_eq]
    dsimp only
    rw [called]
    exact ⟨_, rfl, rfl⟩
  | remove ptr ctl =>
    exact ⟨_, rfl, (delEpoll_loop thread ptr ctl).trans (Option.some.inj called)⟩
  | run answer =>
    have dispatched : thread.loop.run answer = some loop :=
      (thread.loop.step_eq_run (.run answer)).trans called
    rw [step, run_eq (inside answer rfl), dispatched]
    exact ⟨_, rfl, rfl⟩
  | elsewhere other =>
    have stepped : thread.loop.step other = some loop := (thread.loop.step_eq_run other).trans called
    rw [step, stepped]
    exact ⟨_, rfl, rfl⟩

/-- A call of the thread that makes one call on a task does to it what that call does. -/
theorem step_single {thread : ZThread} {logs : Nat → TaskLog} {call : ThreadCall}
    {taskCall : TaskCall} {log : TaskLog} (tasks : thread.loop = EventLoop.ofLogs logs)
    (single : TaskCall.ofThread call = [taskCall])
    (stepped : (logs taskCall.ptr).step taskCall = some log)
    (inside : ∀ answer, call = .run answer → answer.length ≤ thread.epfds.length) :
    ∃ next, thread.step call = some next ∧
      next.loop = EventLoop.ofLogs (Function.update logs taskCall.ptr log) := by
  refine step_defined ?_ inside
  rw [tasks, single, PartialRun.run_singleton, EventLoop.taskStep_ofLogs, EventLoop.logStep,
    stepped]
  rfl

/-- What a run of the thread does to the tasks is the calls on tasks that it makes. -/
theorem run_tasks {thread final : ZThread} {calls : List ThreadCall}
    (reached : PartialRun.run step thread calls = some final) :
    PartialRun.run EventLoop.taskStep thread.loop (calls.flatMap TaskCall.ofThread) =
      some final.loop := by
  induction calls generalizing thread with
  | nil => exact congrArg (Option.map loop) reached
  | cons call rest inductionHypothesis =>
    rw [PartialRun.run_cons, Option.bind_eq_some_iff] at reached
    obtain ⟨next, stepped, remaining⟩ := reached
    rw [List.flatMap_cons, PartialRun.run_append, step_tasks stepped, Option.bind_some,
      inductionHypothesis remaining]

end ZThread

/-! ### One task -/

namespace TaskLog

/-- The call leaves no indeterminate `nLen` positive. -/
def Determined (log : TaskLog) : TaskCall → Prop
  | .dispatch event =>
    event.Receives → log.task.Determined true event.recv event.stray
  | .added _ stray => log.task.Determined false .wouldBlock stray
  | .sendCmd _ _ _ => True

/-- What holds of a task with the given choice of buffering: it hands the packets it takes to
`msgParse`, and a task that buffers conserves its commands. -/
structure Sound (buffers : Bool) (log : TaskLog) : Prop where
  choice : log.task.bufferd = buffers
  serves : log.toListener.Serves
  sends : log.task.sock.SendConsistent
  stream : buffers = true → log.wire ++ log.task.sock.pending = log.accepted.flatten

theorem new_sound (sock : Int) (buffers : Bool) : (new sock buffers).Sound buffers where
  choice := rfl
  serves := Listener.new_serves sock buffers
  sends := ZSocket.new_sendConsistent sock
  stream _ := rfl

theorem new_proper (sock : Int) (buffers : Bool) :
    ∀ parse ∈ (new sock buffers).parsed, parse.proper = true :=
  fun _ member => absurd member List.not_mem_nil

variable {buffers : Bool} {log next : TaskLog}

/-- A `ListeningRecv` leaves the sending half as it is. -/
theorem Sound.listen (sound : log.Sound buffers) {needRecv : Bool} {answer : RecvAnswer}
    {stray : Int} (stepped : log.listen needRecv answer stray = some next) :
    next.Sound buffers := by
  obtain ⟨listener, listened, rfl⟩ := Option.map_eq_some_iff.mp stepped
  have serves := sound.serves.step listened
  obtain ⟨out, called, rfl⟩ := Option.map_eq_some_iff.mp listened
  obtain ⟨-, -, choice, kept, -⟩ := ZTcpTask.listeningRecv_spec sound.serves.consistent called
  refine ⟨choice.trans sound.choice, serves,
    ⟨kept.snd ▸ sound.sends.snd, kept.enc ▸ sound.sends.enc⟩, fun buffering => ?_⟩
  show log.wire ++ (out.task.sock.encQueue.unread ++ out.task.sock.sndQueue.unread) = _
  rw [kept.snd, kept.enc]
  exact sound.stream buffering

/-- What leaves the receiving half of a task as it is leaves it serving. -/
theorem Sound.serves_congr (sound : log.Sound buffers) {sock : ZSocket}
    (same : log.task.sock.SameReceive sock) :
    { log.toListener with task := { log.task with sock } }.Serves := by
  obtain ⟨copies, receives, proper⟩ := sound.serves
  exact ⟨copies, receives.congr same, proper⟩

/-- A `ListeningSend` moves bytes from the front of what is pending to the wire. -/
theorem Sound.flush (sound : log.Sound buffers) {answer : SendAnswer}
    (stepped : log.flush answer = some next) : next.Sound buffers := by
  obtain ⟨sent, called, rfl⟩ := Option.map_eq_some_iff.mp stepped
  obtain ⟨kept, split, same, -⟩ := ZSocket.sync_spec sound.sends called
  refine ⟨sound.choice, sound.serves_congr same, kept, fun buffering => ?_⟩
  show log.wire ++ sent.taken ++ sent.socket.pending = _
  rw [List.append_assoc, split]
  exact sound.stream buffering

/-- A `sendCmd` of a task that buffers puts its command behind what is pending, unless it is
refused. -/
theorem Sound.send (sound : log.Sound buffers) {pstrCmd : Option (List UInt8)}
    {ios : List SendIo} (stepped : log.send pstrCmd ios = some next) : next.Sound buffers := by
  obtain ⟨sent, called, rfl⟩ := Option.map_eq_some_iff.mp stepped
  obtain ⟨kept, same⟩ := ZSocket.sendBytes_keeps sound.sends called
  refine ⟨sound.choice, sound.serves_congr same, kept, fun buffering => ?_⟩
  have stream := sound.stream buffering
  rw [ZTcpTask.sendCmd, sound.choice, buffering, ZSocket.sendCmd] at called
  have refused : some (Sent.mk log.task.sock [] (.returned false)) = some sent →
      log.wire ++ sent.taken ++ sent.socket.pending = (if sent.value = .returned true then
        log.accepted ++ pstrCmd.toList else log.accepted).flatten := by
    rintro ⟨⟩
    have different : CallStatus.returned false ≠ .returned true := by decide
    rw [List.append_nil, if_neg different]
    exact stream
  rcases pstrCmd with _ | cmd
  · exact refused called
  · by_cases empty : cmd = []
    · rw [ZSocket.sendBytes, if_pos empty] at called
      exact refused called
    · rw [ZSocket.sendBytes, if_neg empty, if_pos rfl] at called
      obtain ⟨sndQueue, stored, rfl⟩ := Option.map_eq_some_iff.mp called
      obtain ⟨-, appended⟩ := ByteBuffer.put_spec sound.sends.snd stored
      show log.wire ++ [] ++ (log.task.sock.encQueue.unread ++ sndQueue.unread) =
        (log.accepted ++ [cmd]).flatten
      rw [appended, List.append_nil, List.flatten_append, List.flatten_singleton, ← stream,
        ← List.append_assoc, ← List.append_assoc, ZSocket.pending, ← List.append_assoc]

theorem Sound.step (sound : log.Sound buffers) {call : TaskCall}
    (stepped : log.step call = some next) : next.Sound buffers := by
  cases call with
  | dispatch event =>
    obtain ⟨middle, received, sent⟩ := Option.bind_eq_some_iff.mp stepped
    have between : middle.Sound buffers := by
      split at received
      · exact sound.listen received
      · exact Option.some.inj received ▸ sound
    split at sent
    · exact between.flush sent
    · exact Option.some.inj sent ▸ between
  | added ptr stray => exact sound.listen stepped
  | sendCmd ptr pstrCmd ios => exact sound.send stepped

/-- A `ListeningSend` calls no `msgParse`. -/
theorem parsed_of_flush {answer : SendAnswer} (flushed : log.flush answer = some next) :
    next.parsed = log.parsed := by
  obtain ⟨sent, -, rfl⟩ := Option.map_eq_some_iff.mp flushed
  rfl

/-- A `ListeningRecv` tells `msgParse` a wrong length exactly when it leaves an indeterminate `nLen`
positive. -/
theorem Sound.listen_proper_iff (sound : log.Sound buffers) {needRecv : Bool}
    {answer : RecvAnswer} {stray : Int} (listened : log.listen needRecv answer stray = some next) :
    (∀ parse ∈ next.parsed, parse.proper = true) ↔
      (∀ parse ∈ log.parsed, parse.proper = true) ∧ log.task.Determined needRecv answer stray := by
  obtain ⟨listener, stepped, rfl⟩ := Option.map_eq_some_iff.mp listened
  exact sound.serves.consistent.proper_iff stepped

theorem Sound.step_proper_iff (sound : log.Sound buffers) {call : TaskCall}
    (stepped : log.step call = some next) :
    (∀ parse ∈ next.parsed, parse.proper = true) ↔
      (∀ parse ∈ log.parsed, parse.proper = true) ∧ log.Determined call := by
  cases call with
  | dispatch event =>
    obtain ⟨middle, received, sent⟩ := Option.bind_eq_some_iff.mp stepped
    have same : next.parsed = middle.parsed := by
      split at sent
      · exact parsed_of_flush sent
      · exact Option.some.inj sent ▸ rfl
    rw [same]
    by_cases receives : event.Receives
    · rw [if_pos receives] at received
      refine (sound.listen_proper_iff received).trans (and_congr_right fun _ => ?_)
      exact ⟨fun determined _ => determined, fun determined => determined receives⟩
    · rw [if_neg receives] at received
      rw [← Option.some.inj received]
      exact (and_iff_left fun receiving => absurd receiving receives).symm
  | added ptr stray => exact sound.listen_proper_iff stepped
  | sendCmd ptr pstrCmd ios =>
    obtain ⟨sent, -, rfl⟩ := Option.map_eq_some_iff.mp stepped
    exact (and_iff_left trivial).symm

end TaskLog

/-! ### The results -/

namespace ZThread

/-- The calls on one task that the calls of a thread make. -/
def callsOn (ptr : Nat) (calls : List ThreadCall) : List TaskCall :=
  (calls.flatMap TaskCall.ofThread).filter fun call => call.ptr = ptr

/-- The tasks of a thread do not interfere, and each is served faithfully. In every defined run of a
thread from its constructor, in whatever order its tasks come up and are used, every task ends as
its own calls alone leave it; the calls of `msgParse` for it that are told the length of what was
copied are those for the non-empty ones of the first packets of the bytes it received, in order,
with the bytes behind these in its receive queue, and there are no other calls exactly if the value
that a missing `return` leaves is positive in none of its own calls that find no packet; and if it
buffers its commands, what the kernel accepted from it and what is pending are these commands, in
order. -/
theorem tasks_isolated (kdpfd : Int) (sock : Nat → Int) (bufferd : Nat → Bool)
    (calls : List ThreadCall) (final : ZThread)
    (reached : PartialRun.run step (new kdpfd sock bufferd) calls = some final) (ptr : Nat) :
    ∃ log, PartialRun.run TaskLog.step (.new (sock ptr) (bufferd ptr)) (callsOn ptr calls) =
        some log ∧
      final.loop.tasks ptr = log.task ∧
      (∃ count, log.parsed.filter MsgParse.proper =
          MsgParse.ofPackets ((parse packetFormat log.received).take count) ∧
        log.task.sock.rcvQueue.unread = dropFrames packetFormat count log.received) ∧
      ((∀ parse ∈ log.parsed, parse.proper = true) ↔
        PartialRun.Each TaskLog.step TaskLog.Determined (.new (sock ptr) (bufferd ptr))
          (callsOn ptr calls)) ∧
      (bufferd ptr = true →
        log.wire ++ log.task.sock.encQueue.unread ++ log.task.sock.sndQueue.unread =
          log.accepted.flatten) := by
  have tasks := run_tasks reached
  have fresh : (new kdpfd sock bufferd).loop =
      EventLoop.ofLogs fun ptr => .new (sock ptr) (bufferd ptr) := rfl
  rw [fresh, PartialRun.run_projection EventLoop.ofLogs EventLoop.taskStep_ofLogs] at tasks
  obtain ⟨logs, together, same⟩ := Option.map_eq_some_iff.mp tasks
  have alone := (PartialRun.run_keyed TaskCall.ptr fun _ _ => rfl).mp together ptr
  have sound := PartialRun.run_invariant_of_step (TaskLog.Sound (bufferd ptr))
    (fun _ _ _ sound stepped => sound.step stepped) (TaskLog.new_sound (sock ptr) (bufferd ptr))
    alone
  have determined := PartialRun.run_property_iff_each (TaskLog.Sound (bufferd ptr))
    (fun log => ∀ parse ∈ log.parsed, parse.proper = true)
    (fun _ _ _ sound stepped => sound.step stepped)
    (fun _ _ _ sound stepped => sound.step_proper_iff stepped)
    (TaskLog.new_sound (sock ptr) (bufferd ptr)) alone
  rw [and_iff_right (TaskLog.new_proper (sock ptr) (bufferd ptr))] at determined
  obtain ⟨copies, receives, proper⟩ := sound.serves
  refine ⟨logs ptr, alone, same ▸ rfl, ⟨copies.length, ?_, receives.pending⟩, determined,
    fun buffering => ?_⟩
  · rw [proper]
    exact congrArg MsgParse.ofPackets receives.delivered
  · rw [List.append_assoc]
    exact sound.stream buffering

/-- An event that brings task `0` a packet of one byte. -/
def bringsPacket : EpollEvent := ⟨0, epollIn, .data 1 [0, 0, 0, 7], .wouldBlock, 0⟩

/-- A task that is added and then gets a packet. -/
theorem run_served (sock : Int) (buffers : Bool) :
    ∃ added served, TaskLog.step (.new sock buffers) (.added 0 0) = some added ∧
      added.step (.dispatch bringsPacket) = some served ∧
      added.received = [] ∧ served.received = [1, 0, 0, 0, 7] ∧
      served.parsed = [{ copied := [7], nLen := 1 }] := by
  obtain ⟨first, added, drained, nothing, none, idle⟩ :=
    (Listener.new_drained sock buffers).step_added ByteBuffer.new_unread
  obtain ⟨second, served, received, parsed⟩ := drained.step_bringsPacket idle
  have receives : bringsPacket.Receives := by decide
  have silent : ¬ bringsPacket.Sends := by decide
  refine ⟨{ TaskLog.new sock buffers with toListener := first },
    { TaskLog.new sock buffers with toListener := second }, ?_, ?_,
    nothing, received.trans (congrArg (· ++ _) nothing), parsed.trans (congrArg (· ++ _) none)⟩
  · rw [TaskLog.step, TaskLog.listen]
    exact congrArg (Option.map fun listener =>
      { TaskLog.new sock buffers with toListener := listener }) added
  · have listened : first.step ⟨true, bringsPacket.recv, bringsPacket.stray⟩ = some second :=
      served
    rw [TaskLog.step, if_pos receives, TaskLog.listen]
    dsimp only
    rw [listened, Option.map_some, Option.bind_some, if_neg silent]

/-- An added task has room in `epfds` for an event. -/
theorem room_of_add {thread next : ZThread} (counted : thread.Counted) {ptr : Nat} {ctl : Bool}
    {stray : Int} (stepped : thread.step (.add ptr ctl stray) = some next) :
    1 ≤ next.epfds.length := by
  obtain ⟨count, room⟩ := counted.step _ stepped
  rw [(add_spec stepped).1, List.length_append] at count
  exact (count ▸ Nat.le_add_left 1 _ : 1 ≤ next.taskCount).trans room

/-- A task that is added and then gets a packet: `msgParse` sees the packet. -/
theorem tasks_isolated_served :
    ∃ final, PartialRun.run step (new 3 (fun _ => 5) fun _ => true)
        [.add 0 true 0, .run [bringsPacket]] = some final ∧
      ∃ log : TaskLog, final.loop.tasks 0 = log.task ∧
        log.received = [1, 0, 0, 0, 7] ∧ log.parsed = [{ copied := [7], nLen := 1 }] ∧
        ∃ count, log.parsed.filter MsgParse.proper =
          MsgParse.ofPackets ((parse packetFormat log.received).take count) := by
  obtain ⟨added, served, first, second, -, received, parsed⟩ := run_served 5 true
  obtain ⟨middle, stepped, loop⟩ := @step_single (new 3 (fun _ => 5) fun _ => true)
    (fun _ => .new 5 true) (.add 0 true 0) (.added 0 0) added rfl rfl first
    (fun _ run => nomatch run)
  have room := room_of_add (new_counted 3 (fun _ => 5) fun _ => true) stepped
  have here : Function.update (fun _ => TaskLog.new 5 true) 0 added bringsPacket.ptr = added := by
    rw [bringsPacket, Function.update_self]
  obtain ⟨final, dispatched, -⟩ := @step_single middle _ (.run [bringsPacket])
    (.dispatch bringsPacket) served loop rfl
    ((congrArg (TaskLog.step · (.dispatch bringsPacket)) here).trans second)
    (fun answer run => ThreadCall.run.inj run ▸ room)
  have reached : PartialRun.run step (new 3 (fun _ => 5) fun _ => true)
      [.add 0 true 0, .run [bringsPacket]] = some final := by
    rw [PartialRun.run_cons, stepped, Option.bind_some, PartialRun.run_singleton, dispatched]
  obtain ⟨log, alone, same, ⟨count, proper, -⟩, -⟩ :=
    tasks_isolated 3 (fun _ => 5) (fun _ => true) _ final reached 0
  have ends : PartialRun.run TaskLog.step (.new 5 true) [.added 0 0, .dispatch bringsPacket] =
      some served := by
    rw [PartialRun.run_cons, first, Option.bind_some, PartialRun.run_singleton, second]
  obtain rfl := Option.some.inj (ends.symm.trans alone)
  exact ⟨final, reached, served, same, received, parsed, count, proper⟩

end ZThread

end SelftestNet
