/-
This file proves what a server of this code and its clients say to each other. The server is
one poll thread, and every client is a socket at the other end of the connection of one task.
The thread is polled, its tasks are added, removed and given commands, and the clients call
both halves of their sockets, all in any order. At every moment `msgParse` has been told for
every task the first commands of its own client, and a client has taken the first commands of
its own task when that buffers them; all later ones are on their way, in order. What else
`msgParse` is told comes from the missing `return` of `recvToCmd_NoPoll` alone.
-/

import SelftestNet.Tasks

namespace SelftestNet

open Framing

/-! ### One connection -/

/-- The command that a call hands over. -/
def TaskCall.command : TaskCall → Option (List UInt8)
  | .sendCmd _ pstrCmd _ => pstrCmd
  | .dispatch _ | .added _ _ => none

namespace TaskLog

/-- The bytes that a call gets out of the kernel. -/
def gets (log : TaskLog) : TaskCall → List UInt8
  | .dispatch event => if event.Receives then log.task.sock.incoming event.recv else []
  | .added _ _ | .sendCmd _ _ _ => []

/-- The calls that a task makes: it gets next bytes of what is in flight, and the command it is
given is a packet, unless it is refused. -/
def Permitted (log : TaskLog) (inFlight : List UInt8) (call : TaskCall) : Prop :=
  log.gets call <+: inFlight ∧
    ∀ cmd, call.command = some cmd → cmd ≠ [] → IsFrame packetFormat cmd

variable {log next : TaskLog}

theorem listen_history {needRecv : Bool} {answer : RecvAnswer} {stray : Int}
    (listened : log.listen needRecv answer stray = some next) :
    next.received = log.received ++ log.task.arrived needRecv answer ∧ next.wire = log.wire ∧
      next.accepted = log.accepted := by
  obtain ⟨listener, stepped, rfl⟩ := Option.map_eq_some_iff.mp listened
  obtain ⟨out, -, rfl⟩ := Option.map_eq_some_iff.mp stepped
  exact ⟨rfl, rfl, rfl⟩

theorem flush_history {answer : SendAnswer} (flushed : log.flush answer = some next) :
    next.received = log.received ∧ log.wire <+: next.wire ∧ next.accepted = log.accepted := by
  obtain ⟨sent, -, rfl⟩ := Option.map_eq_some_iff.mp flushed
  exact ⟨rfl, List.prefix_append _ _, rfl⟩

/-- A dispatch receives if the event says so, and then sends if it says so. -/
theorem dispatch_history {event : EpollEvent} (stepped : log.step (.dispatch event) = some next) :
    next.received = log.received ++ log.gets (.dispatch event) ∧ log.wire <+: next.wire ∧
      next.accepted = log.accepted := by
  obtain ⟨middle, received, sent⟩ := Option.bind_eq_some_iff.mp stepped
  have between : middle.received = log.received ++ log.gets (.dispatch event) ∧
      middle.wire = log.wire ∧ middle.accepted = log.accepted := by
    unfold gets
    dsimp only
    split at received
    · rename_i receives
      rw [if_pos receives]
      exact listen_history received
    · rename_i idle
      rw [← Option.some.inj received, if_neg idle, List.append_nil]
      exact ⟨rfl, rfl, rfl⟩
  obtain ⟨arrived, same, kept⟩ := between
  split at sent
  · obtain ⟨nothing, lengthened, alike⟩ := flush_history sent
    exact ⟨nothing.trans arrived, same ▸ lengthened, alike.trans kept⟩
  · rw [← Option.some.inj sent]
    exact ⟨arrived, same ▸ List.prefix_rfl, kept⟩

/-- A call receives what it gets, lengthens the wire, and accepts the command it is given or
none. -/
theorem step_history {call : TaskCall} (stepped : log.step call = some next) :
    next.received = log.received ++ log.gets call ∧ log.wire <+: next.wire ∧
      (next.accepted = log.accepted ∨
        ∃ cmd, call.command = some cmd ∧ cmd ≠ [] ∧ next.accepted = log.accepted ++ [cmd]) := by
  cases call with
  | dispatch event =>
    obtain ⟨received, lengthened, kept⟩ := dispatch_history stepped
    exact ⟨received, lengthened, Or.inl kept⟩
  | added ptr stray =>
    obtain ⟨received, same, kept⟩ := listen_history stepped
    exact ⟨received, same ▸ List.prefix_rfl, Or.inl kept⟩
  | sendCmd ptr pstrCmd ios =>
    obtain ⟨sent, called, rfl⟩ := Option.map_eq_some_iff.mp stepped
    refine ⟨(List.append_nil _).symm, List.prefix_append _ _, ?_⟩
    by_cases returned : sent.value = .returned true
    · obtain ⟨cmd, rfl, nonempty⟩ := ZSocket.exists_of_sendBytes called returned
      exact Or.inr ⟨cmd, rfl, nonempty, if_pos returned⟩
    · exact Or.inl (if_neg returned)

end TaskLog

/-- What holds of a connection: both ends are sound, the task has accepted packets only, and what
each end has received is what the other one has sent, as far as it goes. -/
structure Linked (buffers : Bool) (log : TaskLog) (client : Peer) : Prop where
  taskSound : log.Sound buffers
  packets : ∀ cmd ∈ log.accepted, IsFrame packetFormat cmd
  clientSound : client.Sound
  toTask : log.received <+: client.wire
  toClient : client.received <+: log.wire

namespace Linked

variable {buffers : Bool} {log : TaskLog} {client : Peer}

theorem new (sock clientSock : Int) (buffers : Bool) :
    Linked buffers (.new sock buffers) (.new clientSock) where
  taskSound := TaskLog.new_sound sock buffers
  packets _ member := (List.not_mem_nil member).elim
  clientSound := Peer.new_sound clientSock
  toTask := List.nil_prefix
  toClient := List.nil_prefix

theorem taskStep (linked : Linked buffers log client) {call : TaskCall} {next : TaskLog}
    (permitted : log.Permitted (client.wire.drop log.received.length) call)
    (stepped : log.step call = some next) : Linked buffers next client := by
  obtain ⟨received, lengthened, history⟩ := TaskLog.step_history stepped
  refine ⟨linked.taskSound.step stepped, fun cmd member => ?_, linked.clientSound, ?_,
    linked.toClient.trans lengthened⟩
  · rcases history with same | ⟨other, handed, nonempty, added⟩
    · exact linked.packets cmd (same ▸ member)
    · rw [added, List.mem_append, List.mem_singleton] at member
      rcases member with member | rfl
      · exact linked.packets cmd member
      · exact permitted.2 cmd handed nonempty
  · rw [received]
    exact Receiver.append_prefix linked.toTask permitted.1

theorem clientStep (linked : Linked buffers log client) {call : PeerCall} {next : Peer}
    (permitted : client.Permitted (log.wire.drop client.received.length) call)
    (stepped : client.step call = some next) : Linked buffers log next := by
  obtain ⟨kept, lengthened, got, front, received⟩ := linked.clientSound.step permitted stepped
  refine ⟨linked.taskSound, linked.packets, kept, linked.toTask.trans lengthened, ?_⟩
  rw [received]
  exact Receiver.append_prefix linked.toClient front

end Linked

/-! ### The server and its clients -/

/-- A poll thread, the histories of its tasks, and the clients at the other ends of their
connections. -/
structure Network where
  thread : ZThread
  logs : Nat → TaskLog
  clients : Nat → Peer

/-- A call of the thread, or one of a client. -/
inductive NetworkCall
  | server (call : ThreadCall)
  | client (ptr : Nat) (call : PeerCall)

namespace Network

/-- A thread, tasks and clients fresh from their constructors. -/
def new (kdpfd : Int) (sock : Nat → Int) (bufferd : Nat → Bool) (clientSock : Nat → Int) :
    Network where
  thread := ZThread.new kdpfd sock bufferd
  logs ptr := TaskLog.new (sock ptr) (bufferd ptr)
  clients ptr := Peer.new (clientSock ptr)

/-- One call. -/
def step (network : Network) : NetworkCall → Option Network
  | .server call =>
    (network.thread.step call).bind fun thread =>
      (PartialRun.run EventLoop.logStep network.logs (TaskCall.ofThread call)).map fun logs =>
        { network with thread, logs }
  | .client ptr call =>
    ((network.clients ptr).step call).map fun client =>
      { network with clients := Function.update network.clients ptr client }

/-- The bytes on their way to a task. -/
def toTask (network : Network) (ptr : Nat) : List UInt8 :=
  (network.clients ptr).wire.drop (network.logs ptr).received.length

/-- The bytes on their way to a client. -/
def toClient (network : Network) (ptr : Nat) : List UInt8 :=
  (network.logs ptr).wire.drop (network.clients ptr).received.length

/-- No call on a task that a call of the thread makes leaves an indeterminate `nLen` positive. -/
def Determined (network : Network) : NetworkCall → Prop
  | .server call =>
    PartialRun.Each EventLoop.logStep (fun logs call => (logs call.ptr).Determined call)
      network.logs (TaskCall.ofThread call)
  | .client _ _ => True

/-- Every call on a task that a call of the thread makes is permitted when its turn comes, and so
is a call of a client. -/
def Permitted (network : Network) : NetworkCall → Prop
  | .server call =>
    PartialRun.Each EventLoop.logStep
      (fun logs call => (logs call.ptr).Permitted
        ((network.clients call.ptr).wire.drop (logs call.ptr).received.length) call)
      network.logs (TaskCall.ofThread call)
  | .client ptr call => (network.clients ptr).Permitted (network.toClient ptr) call

/-- The tasks of the thread are those of the histories, and all connections are sound. -/
structure Sound (bufferd : Nat → Bool) (network : Network) : Prop where
  tasks : network.thread.loop = EventLoop.ofLogs network.logs
  linked : ∀ ptr, Linked (bufferd ptr) (network.logs ptr) (network.clients ptr)

variable {bufferd : Nat → Bool} {network next : Network}

/-- The histories watch the thread and do not change what it does. -/
theorem Sound.step_server (sound : network.Sound bufferd) (call : ThreadCall) :
    (network.step (.server call)).map Network.thread = network.thread.step call := by
  rcases stepped : network.thread.step call with _ | thread
  · rw [step, stepped]
    rfl
  · have tasks := ZThread.step_tasks stepped
    rw [sound.tasks, PartialRun.run_projection EventLoop.ofLogs EventLoop.taskStep_ofLogs] at tasks
    obtain ⟨logs, reached, -⟩ := Option.map_eq_some_iff.mp tasks
    rw [step, stepped, Option.bind_some, reached]
    rfl

theorem Sound.step (sound : network.Sound bufferd) {call : NetworkCall}
    (permitted : network.Permitted call) (stepped : network.step call = some next) :
    next.Sound bufferd := by
  cases call with
  | server call =>
    obtain ⟨thread, called, recorded⟩ := Option.bind_eq_some_iff.mp stepped
    obtain ⟨logs, reached, rfl⟩ := Option.map_eq_some_iff.mp recorded
    constructor
    · have tasks := ZThread.step_tasks called
      rw [sound.tasks, PartialRun.run_projection EventLoop.ofLogs EventLoop.taskStep_ofLogs,
        reached, Option.map_some] at tasks
      exact (Option.some.inj tasks).symm
    · refine PartialRun.run_invariant
        (fun logs => ∀ ptr, Linked (bufferd ptr) (logs ptr) (network.clients ptr))
        (fun logs call next linked permitted stepped => ?_) sound.linked permitted reached
      obtain ⟨log, called, rfl⟩ := Option.map_eq_some_iff.mp stepped
      intro ptr
      by_cases here : ptr = call.ptr
      · rw [here, Function.update_self]
        exact (linked call.ptr).taskStep permitted called
      · rw [Function.update_of_ne here]
        exact linked ptr
  | client ptr call =>
    obtain ⟨client, called, rfl⟩ := Option.map_eq_some_iff.mp stepped
    refine ⟨sound.tasks, fun other => ?_⟩
    dsimp only
    by_cases here : other = ptr
    · rw [here, Function.update_self]
      exact (sound.linked ptr).clientStep permitted called
    · rw [Function.update_of_ne here]
      exact sound.linked other

/-- All tasks are sound, whatever their clients do. -/
def Serving (bufferd : Nat → Bool) (logs : Nat → TaskLog) : Prop :=
  ∀ ptr, (logs ptr).Sound (bufferd ptr)

theorem Serving.logStep {logs later : Nat → TaskLog} (serving : Serving bufferd logs)
    {call : TaskCall} (stepped : EventLoop.logStep logs call = some later) :
    Serving bufferd later := by
  obtain ⟨log, called, rfl⟩ := Option.map_eq_some_iff.mp stepped
  intro ptr
  by_cases here : ptr = call.ptr
  · rw [here, Function.update_self]
    exact (serving call.ptr).step called
  · rw [Function.update_of_ne here]
    exact serving ptr

/-- A call of the thread that makes one call on a task is recorded in the history of that task. -/
theorem step_single {network : Network} {call : ThreadCall} {taskCall : TaskCall} {log : TaskLog}
    (tasks : network.thread.loop = EventLoop.ofLogs network.logs)
    (single : TaskCall.ofThread call = [taskCall])
    (stepped : (network.logs taskCall.ptr).step taskCall = some log)
    (inside : ∀ answer, call = .run answer → answer.length ≤ network.thread.epfds.length) :
    ∃ thread, network.thread.step call = some thread ∧
      thread.loop = EventLoop.ofLogs (Function.update network.logs taskCall.ptr log) ∧
      network.step (.server call) = some
        { network with thread, logs := Function.update network.logs taskCall.ptr log } := by
  obtain ⟨thread, called, loop⟩ := ZThread.step_single tasks single stepped inside
  refine ⟨thread, called, loop, ?_⟩
  rw [step, called, Option.bind_some, single, PartialRun.run_singleton, EventLoop.logStep, stepped]
  rfl

end Network

end SelftestNet
