/-
This file embeds the books that a `zThread` keeps about its tasks: the list, its cached
length, the array for `epoll_wait` and the interest set in the kernel. The first three
agree along every run, so the loop never leaves its array. The interest set agrees with
the list exactly as long as every `epoll_ctl` succeeds: `addEpoll` and `delEpoll` keep
the failure to themselves, and the list changes all the same.
-/

import Mathlib.Data.List.Nodup
import SelftestNet.Thread

namespace SelftestNet

/-! ### Lists with an index -/

section Index

variable {Key Value : Type} {index : Key → Option Value} {listed : List Value}
  {key : Value → Key} {value : Value}

/-- The partial map finds every value of the list under its key, and nothing else. -/
def Indexes (index : Key → Option Value) (listed : List Value) (key : Value → Key) : Prop :=
  ∀ place value, index place = some value ↔ value ∈ listed ∧ key value = place

theorem Indexes.own (indexes : Indexes index listed key) (member : value ∈ listed) :
    index (key value) = some value := (indexes _ _).mpr ⟨member, rfl⟩

/-- A value found anywhere is in the list. -/
theorem Indexes.exists_iff (indexes : Indexes index listed key) (value : Value) :
    (∃ place, index place = some value) ↔ value ∈ listed := by
  constructor
  · rintro ⟨place, found⟩
    exact ((indexes place value).mp found).1
  · exact fun member => ⟨key value, indexes.own member⟩

/-- A value whose key is vacant can be put under it. -/
theorem Indexes.append [DecidableEq Key] (indexes : Indexes index listed key)
    (vacant : index (key value) = none) :
    Indexes (Function.update index (key value) (some value)) (listed ++ [value]) key := by
  intro place other
  rw [List.mem_append, List.mem_singleton]
  by_cases here : place = key value
  · have nobody : ¬ (other ∈ listed ∧ key other = place) := by
      rw [← indexes, here, vacant]
      exact (Option.some_ne_none other).symm
    rw [here, Function.update_self, Option.some.injEq]
    constructor
    · rintro rfl
      exact ⟨Or.inr rfl, rfl⟩
    · rintro ⟨member | rfl, same⟩
      · exact absurd ⟨member, same.trans here.symm⟩ nobody
      · rfl
  · rw [Function.update_of_ne here, indexes]
    refine and_congr_left fun same => ⟨Or.inl, ?_⟩
    rintro (member | rfl)
    · exact member
    · exact absurd same.symm here

/-- A value that is listed once can be taken from under its key. -/
theorem Indexes.erase [DecidableEq Key] [DecidableEq Value] (indexes : Indexes index listed key)
    (nodup : listed.Nodup) (member : value ∈ listed) :
    Indexes (Function.update index (key value) none) (listed.erase value) key := by
  intro place other
  rw [nodup.mem_erase_iff]
  by_cases here : place = key value
  · rw [here, Function.update_self]
    refine iff_of_false (Option.some_ne_none other).symm ?_
    rintro ⟨⟨different, memberOther⟩, same⟩
    have found := indexes.own memberOther
    rw [same, indexes.own member] at found
    exact different (Option.some.inj found).symm
  · rw [Function.update_of_ne here, indexes]
    refine and_congr_left fun same => (and_iff_right ?_).symm
    rintro rfl
    exact here same.symm

end Index

/-! ### The descriptors of the tasks -/

namespace ZSocket

theorem afterRecv_sock (socket : ZSocket) (retcode : Int) :
    (socket.afterRecv retcode).1.sock = socket.sock := by
  unfold afterRecv
  split
  · dsimp only
    split <;> rfl
  · split <;> rfl

theorem recvToBufNoPoll_sock {socket : ZSocket} {answer : RecvAnswer} {result : ZSocket × Int}
    (called : socket.recvToBufNoPoll answer = some result) : result.1.sock = socket.sock := by
  obtain ⟨filled, written, rfl⟩ := Option.map_eq_some_iff.mp called
  obtain ⟨rcvQueue, -, rfl⟩ := Option.map_eq_some_iff.mp written
  split
  · rfl
  · exact afterRecv_sock _ _

theorem recvToCmdNoPoll_sock {socket : ZSocket} {nCmdLen : Nat} {out : Extracted}
    (called : socket.recvToCmdNoPoll nCmdLen = some out) : out.socket.sock = socket.sock := by
  obtain ⟨rcvQueue, rcvRawSize, same, -⟩ := recvToCmdNoPoll_frame called
  rw [same]

theorem stage_sock {socket staged : ZSocket} (defined : socket.stage = some staged) :
    staged.sock = socket.sock := by
  obtain ⟨encQueue, sndQueue, same⟩ := stage_frame defined
  rw [same]

theorem flush_sock {socket : ZSocket} {answer : SendAnswer} {sent : Sent (Option Bool)}
    (called : socket.flush answer = some sent) : sent.socket.sock = socket.sock := by
  unfold flush at called
  dsimp only at called
  split at called
  · obtain ⟨raw, handed, called⟩ := Option.bind_eq_some_iff.mp called
    have same : raw.socket.sock = socket.sock := by
      obtain ⟨taken, -, rfl⟩ := Option.map_eq_some_iff.mp handed
      split
      · rfl
      · dsimp only
        split <;> rfl
    split at called
    · obtain ⟨encQueue, -, rfl⟩ := Option.map_eq_some_iff.mp called
      exact same
    · split at called <;> exact Option.some.inj called ▸ same
  · exact Option.some.inj called ▸ rfl

theorem sync_sock {socket : ZSocket} {answer : SendAnswer} {sent : Sent (Option Bool)}
    (called : socket.sync answer = some sent) : sent.socket.sock = socket.sock := by
  obtain ⟨staged, moved, flushed⟩ := Option.bind_eq_some_iff.mp called
  exact (flush_sock flushed).trans (stage_sock moved)

theorem sendBytes_sock {socket : ZSocket} {pstrCmd : Option (List UInt8)} {buffer : Bool}
    {ios : List SendIo} {sent : Sent CallStatus}
    (called : socket.sendBytes pstrCmd buffer ios = some sent) :
    sent.socket.sock = socket.sock := by
  rcases pstrCmd with _ | cmd
  · exact Option.some.inj called ▸ rfl
  · rw [sendBytes] at called
    split at called
    · exact Option.some.inj called ▸ rfl
    · split at called
      · obtain ⟨sndQueue, -, rfl⟩ := Option.map_eq_some_iff.mp called
        rfl
      · obtain rfl := Option.some.inj called
        obtain ⟨⟨bitmask, same⟩, -⟩ := socket.sendRawDataIM_spec cmd ios
        rw [same]

end ZSocket

theorem ZTcpTask.listeningRecv_sock {task : ZTcpTask} {needRecv : Bool} {answer : RecvAnswer}
    {stray : Int} {out : Listened}
    (called : task.listeningRecv needRecv answer stray = some out) :
    out.task.sock.sock = task.sock.sock := by
  obtain ⟨⟨sock, retcode⟩, received, called⟩ := Option.bind_eq_some_iff.mp called
  have same : sock.sock = task.sock.sock := by
    cases needRecv with
    | true => exact ZSocket.recvToBufNoPoll_sock received
    | false => exact (Prod.mk.inj (Option.some.inj received)).1 ▸ rfl
  dsimp only at called
  split at called
  · exact Option.some.inj called ▸ same
  · obtain ⟨extracted, taken, inside⟩ := Option.bind_eq_some_iff.mp called
    rw [Option.ite_none_right_eq_some] at inside
    rw [← Option.some.inj inside.2]
    exact (ZSocket.recvToCmdNoPoll_sock taken).trans same

namespace EventLoop

/-- The descriptor of a task's socket. -/
def descriptor (loop : EventLoop) (ptr : Nat) : Int := (loop.tasks ptr).sock.sock

theorem descriptor_set {loop : EventLoop} {ptr : Nat} {task : ZTcpTask}
    (same : task.sock.sock = loop.descriptor ptr) :
    (loop.set ptr task).descriptor = loop.descriptor := by
  funext other
  by_cases here : other = ptr
  · rw [here, ← same, descriptor, set_tasks_self]
  · rw [descriptor, set_tasks_of_ne loop task here, descriptor]

theorem dispatchRecv_descriptor {loop next : EventLoop} {event : EpollEvent}
    (defined : loop.dispatchRecv event = some next) : next.descriptor = loop.descriptor := by
  unfold dispatchRecv at defined
  split at defined
  · obtain ⟨out, called, rfl⟩ := Option.map_eq_some_iff.mp defined
    exact descriptor_set (ZTcpTask.listeningRecv_sock called)
  · exact Option.some.inj defined ▸ rfl

theorem dispatchSend_descriptor {loop next : EventLoop} {event : EpollEvent}
    (defined : loop.dispatchSend event = some next) : next.descriptor = loop.descriptor := by
  unfold dispatchSend at defined
  split at defined
  · obtain ⟨sent, called, rfl⟩ := Option.map_eq_some_iff.mp defined
    exact descriptor_set (ZSocket.sync_sock called)
  · exact Option.some.inj defined ▸ rfl

/-- No call gives a task another descriptor. -/
theorem step_descriptor {loop next : EventLoop} {call : LoopCall}
    (stepped : loop.step call = some next) : next.descriptor = loop.descriptor := by
  cases call with
  | run epfds =>
    refine PartialRun.run_invariant_of_step (fun later => later.descriptor = loop.descriptor)
      (fun first event last same defined => ?_) rfl stepped
    obtain ⟨middle, received, sent⟩ := Option.bind_eq_some_iff.mp defined
    exact ((dispatchSend_descriptor sent).trans (dispatchRecv_descriptor received)).trans same
  | add ptr stray =>
    obtain ⟨out, called, rfl⟩ := Option.map_eq_some_iff.mp stepped
    exact descriptor_set (ZTcpTask.listeningRecv_sock called)
  | sendCmd ptr pstrCmd ios =>
    obtain ⟨sent, called, rfl⟩ := Option.map_eq_some_iff.mp stepped
    exact descriptor_set (ZSocket.sendBytes_sock called)

end EventLoop

/-! ### The thread -/

/-- `connPerThread`. -/
def connPerThread : Nat := 512

/-- The events of an element of `epfds` are cleared once it is dispatched. -/
def EpollEvent.cleared (event : EpollEvent) : EpollEvent := { event with events := 0 }

/-- An element of `epfds` that `epoll_wait` has not filled. -/
def EpollEvent.unfilled : EpollEvent := ⟨0, 0, .wouldBlock, .wouldBlock, 0⟩

/-- `zThread` without its pool, over the tasks of the process. `interest` is what the kernel keeps
for `kdpfd`: the pointer that each descriptor is registered with. -/
structure ZThread where
  tasks : List Nat
  taskCount : Nat
  kdpfd : Int
  epfds : List EpollEvent
  interest : Int → Option Nat
  loop : EventLoop

/-- What happens to a thread. `ctl` says whether the kernel is willing to do what `epoll_ctl` asks
for, and `answer` is what `epoll_wait` reports, nothing when it fails. Between the calls of the
thread the rest of the process may use the tasks. -/
inductive ThreadCall
  | add (ptr : Nat) (ctl : Bool) (stray : Int)
  | remove (ptr : Nat) (ctl : Bool)
  | run (answer : List EpollEvent)
  | elsewhere (call : LoopCall)

namespace ZThread

/-- The thread as its constructor leaves it, with the descriptor that `epoll_create` gave it. Its
`assert(-1 != kdpfd)` ends the process for `-1`, unless assertions are compiled out. -/
def new (kdpfd : Int) (sock : Nat → Int) (bufferd : Nat → Bool) : ZThread where
  tasks := []
  taskCount := 0
  kdpfd := kdpfd
  epfds := Region.resize [] connPerThread .unfilled
  interest _ := none
  loop := .new sock bufferd

/-- The descriptor of a task's socket. -/
def descriptor (thread : ZThread) (ptr : Nat) : Int := thread.loop.descriptor ptr

/-- `EPOLL_CTL_ADD` succeeds for the task's socket. The kernel refuses a descriptor that is
registered already. -/
def Adds (thread : ZThread) (ptr : Nat) (ctl : Bool) : Prop :=
  ctl = true ∧ thread.kdpfd ≠ -1 ∧ thread.interest (thread.descriptor ptr) = none

/-- `EPOLL_CTL_DEL` succeeds for the task's socket. The kernel refuses a descriptor that is not
registered. -/
def Deletes (thread : ZThread) (ptr : Nat) (ctl : Bool) : Prop :=
  ctl = true ∧ thread.kdpfd ≠ -1 ∧ thread.interest (thread.descriptor ptr) ≠ none

instance (thread : ZThread) (ptr : Nat) (ctl : Bool) : Decidable (thread.Adds ptr ctl) :=
  inferInstanceAs (Decidable (_ ∧ _))

instance (thread : ZThread) (ptr : Nat) (ctl : Bool) : Decidable (thread.Deletes ptr ctl) :=
  inferInstanceAs (Decidable (_ ∧ _))

/-- `addEpoll`, which has no way to report a failure. -/
def addEpoll (thread : ZThread) (ptr : Nat) (ctl : Bool) : ZThread :=
  if thread.Adds ptr ctl then
    { thread with
      interest := Function.update thread.interest (thread.descriptor ptr) (some ptr) }
  else thread

/-- `delEpoll`, which has no way to report a failure. -/
def delEpoll (thread : ZThread) (ptr : Nat) (ctl : Bool) : ZThread :=
  if thread.Deletes ptr ctl then
    { thread with interest := Function.update thread.interest (thread.descriptor ptr) none }
  else thread

/-- `_add`. -/
def add (thread : ZThread) (ptr : Nat) (ctl : Bool) (stray : Int) : Option ZThread :=
  let thread := thread.addEpoll ptr ctl
  let tasks := thread.tasks ++ [ptr]
  let taskCount := tasks.length
  let epfds :=
    if thread.epfds.length < taskCount then
      Region.resize thread.epfds (taskCount + 16) .unfilled
    else thread.epfds
  (thread.loop.step (.add ptr stray)).map fun loop =>
    { thread with tasks, taskCount, epfds, loop }

/-- `remove`, with the list that the code calls `task`. -/
def remove (thread : ZThread) (ptr : Nat) (ctl : Bool) : ZThread :=
  let thread := thread.delEpoll ptr ctl
  let tasks := thread.tasks.erase ptr
  { thread with tasks, taskCount := tasks.length }

/-- The argument `maxevents` of `epoll_wait`, an `int`. -/
def maxevents (thread : ZThread) : Int := Word.toInt 32 (thread.taskCount % 2 ^ 32)

/-- `epoll_wait`, which writes what it reports to the front of `epfds`. -/
def epollWait (thread : ZThread) (answer : List EpollEvent) : Option ZThread :=
  (Region.write thread.epfds 0 answer).map fun epfds => { thread with epfds }

/-- The body of the loop in `run`, for one index. -/
def visit (thread : ZThread) (i : Nat) : Option ZThread :=
  thread.epfds[i]?.bind fun event =>
    (thread.loop.dispatch event).map fun loop =>
      { thread with loop, epfds := thread.epfds.set i event.cleared }

/-- `run`, with its `if(int i = 0; i < retcode; i++)` as the loop it is meant to be. -/
def run (thread : ZThread) (answer : List EpollEvent) : Option ZThread :=
  (thread.epollWait answer).bind fun filled =>
    PartialRun.run visit filled (List.range answer.length)

/-- One call. -/
def step (thread : ZThread) : ThreadCall → Option ZThread
  | .add ptr ctl stray => thread.add ptr ctl stray
  | .remove ptr ctl => some (thread.remove ptr ctl)
  | .run answer => thread.run answer
  | .elsewhere call => (thread.loop.step call).map fun loop => { thread with loop }

/-! ### The array -/

/-- Visiting the elements that `epoll_wait` has filled dispatches them one after the other. -/
theorem visits_eq (thread : ZThread) (visited answer rest : List EpollEvent) :
    PartialRun.run visit { thread with epfds := visited ++ (answer ++ rest) }
        (List.range' visited.length answer.length) =
      (thread.loop.run answer).map fun loop =>
        { thread with loop, epfds := visited ++ (answer.map EpollEvent.cleared ++ rest) } := by
  induction answer generalizing thread visited with
  | nil => rfl
  | cons event later inductionHypothesis =>
    have here : (visited ++ (event :: later ++ rest))[visited.length]? = some event := by simp
    have next : (visited ++ (event :: later ++ rest)).set visited.length event.cleared =
        (visited ++ [event.cleared]) ++ (later ++ rest) := by simp
    have index : visited.length + 1 = (visited ++ [event.cleared]).length := by simp
    rw [List.length_cons, List.range'_succ, PartialRun.run_cons, visit]
    dsimp only
    rw [here, Option.bind_some, next, EventLoop.run, PartialRun.run_cons]
    rcases thread.loop.dispatch event with _ | loop
    · rfl
    · rw [Option.map_some, Option.bind_some, Option.bind_some, index]
      refine (inductionHypothesis { thread with loop } (visited ++ [event.cleared])).trans ?_
      rw [List.append_assoc]
      rfl

/-- A `run` whose events fit into `epfds` is the loop over these events: every element that it
touches is in the array. -/
theorem run_eq {thread : ZThread} {answer : List EpollEvent}
    (inside : answer.length ≤ thread.epfds.length) :
    thread.run answer = (thread.loop.run answer).map fun loop =>
      { thread with
        loop
        epfds := answer.map EpollEvent.cleared ++ thread.epfds.drop answer.length } := by
  have filled : thread.epollWait answer =
      some { thread with epfds := answer ++ thread.epfds.drop answer.length } := by
    rw [epollWait, Region.write_of_le (by omega), Region.overwrite, List.take_zero,
      List.nil_append, Nat.zero_add, Option.map_some]
  rw [run, filled, Option.bind_some, List.range_eq_range']
  exact visits_eq thread [] answer (thread.epfds.drop answer.length)

/-- A `run` writes at most the whole array. -/
theorem inside_of_run {thread next : ZThread} {answer : List EpollEvent}
    (called : thread.run answer = some next) : answer.length ≤ thread.epfds.length := by
  obtain ⟨filled, waited, -⟩ := Option.bind_eq_some_iff.mp called
  obtain ⟨epfds, written, -⟩ := Option.map_eq_some_iff.mp waited
  obtain ⟨inside, -⟩ := Region.write_eq_some_iff.mp written
  omega

/-! ### One call -/

theorem addEpoll_eq (thread : ZThread) (ptr : Nat) (ctl : Bool) :
    thread.addEpoll ptr ctl =
      { thread with
        interest := if thread.Adds ptr ctl then
          Function.update thread.interest (thread.descriptor ptr) (some ptr)
        else thread.interest } := by
  unfold addEpoll
  split <;> rfl

theorem delEpoll_eq (thread : ZThread) (ptr : Nat) (ctl : Bool) :
    thread.delEpoll ptr ctl =
      { thread with
        interest := if thread.Deletes ptr ctl then
          Function.update thread.interest (thread.descriptor ptr) none
        else thread.interest } := by
  unfold delEpoll
  split <;> rfl

/-- A call that neither adds nor removes a task leaves the books as they are. -/
theorem step_of_books {thread next : ZThread} {call : ThreadCall}
    (stepped : thread.step call = some next)
    (books : (∃ answer, call = .run answer) ∨ ∃ other, call = .elsewhere other) :
    ∃ other loop epfds, thread.loop.step other = some loop ∧
      epfds.length = thread.epfds.length ∧ next = { thread with loop, epfds } := by
  rcases books with ⟨answer, rfl⟩ | ⟨other, rfl⟩
  · have inside := inside_of_run stepped
    rw [step, run_eq inside] at stepped
    obtain ⟨loop, dispatched, rfl⟩ := Option.map_eq_some_iff.mp stepped
    refine ⟨.run answer, loop, _, dispatched, ?_, rfl⟩
    rw [List.length_append, List.length_map, List.length_drop]
    omega
  · obtain ⟨loop, called, rfl⟩ := Option.map_eq_some_iff.mp stepped
    exact ⟨other, loop, thread.epfds, called, rfl, rfl⟩

/-- An `_add` of a task is defined whose queues are consistent and which has nothing pending. -/
theorem add_defined {thread : ZThread} (consistent : thread.loop.Consistent) {ptr : Nat}
    (idle : (thread.loop.tasks ptr).sock.rcvQueue.unread = []) (ctl : Bool) (stray : Int) :
    ∃ next, thread.step (.add ptr ctl stray) = some next := by
  obtain ⟨out, called⟩ := ZTcpTask.listeningRecv_defined (consistent ptr).1
    (ZTcpTask.runs_of_idle idle .wouldBlock) stray
  rw [step, add, addEpoll_eq]
  dsimp only
  rw [EventLoop.step, called]
  exact ⟨_, rfl⟩

/-- What an `_add` makes of the books. -/
theorem add_spec {thread next : ZThread} {ptr : Nat} {ctl : Bool} {stray : Int}
    (stepped : thread.step (.add ptr ctl stray) = some next) :
    next.tasks = thread.tasks ++ [ptr] ∧
      next.interest = (thread.addEpoll ptr ctl).interest ∧
      thread.loop.step (.add ptr stray) = some next.loop := by
  rw [step, add, addEpoll_eq] at stepped
  obtain ⟨loop, called, rfl⟩ := Option.map_eq_some_iff.mp stepped
  rw [addEpoll_eq]
  exact ⟨rfl, rfl, called⟩

/-- What an `_add` has registered a `remove` can deregister. -/
theorem deletes_of_add {thread next : ZThread} {ptr : Nat} {ctl : Bool} {stray : Int}
    (accepted : thread.Adds ptr ctl)
    (stepped : thread.step (.add ptr ctl stray) = some next) : next.Deletes ptr true := by
  obtain ⟨-, interest, called⟩ := add_spec stepped
  have descriptors : next.descriptor = thread.descriptor := EventLoop.step_descriptor called
  have same : next.kdpfd = thread.kdpfd := by
    rw [step, add, addEpoll_eq] at stepped
    obtain ⟨loop, -, rfl⟩ := Option.map_eq_some_iff.mp stepped
    rfl
  rw [addEpoll, if_pos accepted] at interest
  refine ⟨rfl, same ▸ accepted.2.1, ?_⟩
  rw [interest, descriptors]
  dsimp only
  rw [Function.update_self]
  exact Option.some_ne_none ptr

/-! ### The list, its length and the array -/

/-- The cached count is the length of the list, and the array is long enough for it. -/
structure Counted (thread : ZThread) : Prop where
  count : thread.taskCount = thread.tasks.length
  room : thread.taskCount ≤ thread.epfds.length

theorem new_counted (kdpfd : Int) (sock : Nat → Int) (bufferd : Nat → Bool) :
    (new kdpfd sock bufferd).Counted where
  count := rfl
  room := Nat.zero_le _

theorem Counted.step {thread next : ZThread} (counted : thread.Counted) (call : ThreadCall)
    (stepped : thread.step call = some next) : next.Counted := by
  have kept : ∀ (other : LoopCall) (loop : EventLoop) (epfds : List EpollEvent),
      epfds.length = thread.epfds.length → { thread with loop, epfds }.Counted :=
    fun _ _ _ long => ⟨counted.count, counted.room.trans_eq long.symm⟩
  cases call with
  | add ptr ctl stray =>
    rw [ZThread.step, add, addEpoll_eq] at stepped
    obtain ⟨loop, -, rfl⟩ := Option.map_eq_some_iff.mp stepped
    refine ⟨rfl, ?_⟩
    dsimp only
    split
    · rw [Region.length_resize]
      exact Nat.le_add_right _ _
    · exact Nat.le_of_not_lt ‹_›
  | remove ptr ctl =>
    obtain rfl := Option.some.inj stepped
    rw [remove, delEpoll_eq]
    refine ⟨rfl, ?_⟩
    calc (thread.tasks.erase ptr).length
        ≤ thread.tasks.length := List.length_erase_le
      _ = thread.taskCount := counted.count.symm
      _ ≤ thread.epfds.length := counted.room
  | run answer =>
    obtain ⟨other, loop, epfds, -, long, rfl⟩ := step_of_books stepped (Or.inl ⟨answer, rfl⟩)
    exact kept other loop epfds long
  | elsewhere other =>
    obtain ⟨other, loop, epfds, -, long, rfl⟩ := step_of_books stepped (Or.inr ⟨other, rfl⟩)
    exact kept other loop epfds long

/-- `maxevents` is at most the length of the array. -/
theorem Counted.maxevents_le {thread : ZThread} (counted : thread.Counted) :
    thread.maxevents ≤ thread.epfds.length := by
  have room := counted.room
  unfold maxevents Word.toInt
  split <;> omega

/-! ### The interest set -/

/-- The task is registered with `kdpfd`. -/
def Registered (thread : ZThread) (ptr : Nat) : Prop :=
  ∃ descriptor, thread.interest descriptor = some ptr

/-- The tasks registered with `kdpfd` are those in the list. -/
def Watched (thread : ZThread) : Prop := ∀ ptr, thread.Registered ptr ↔ ptr ∈ thread.tasks

/-- The call is made with a task that is not in the list, or that is, as it has to be. What
`epoll_wait` reports are at most `maxevents` registered pointers. -/
def Permitted (thread : ZThread) : ThreadCall → Prop
  | .add ptr _ _ => ptr ∉ thread.tasks
  | .remove ptr _ => ptr ∈ thread.tasks
  | .run answer =>
    (answer.length : Int) ≤ max thread.maxevents 0 ∧ ∀ event ∈ answer, thread.Registered event.ptr
  | .elsewhere _ => True

/-- The `epoll_ctl` of the call succeeds. Nothing is asked of a call that C leaves undefined. -/
def Accepted (thread : ZThread) : ThreadCall → Prop
  | .add ptr ctl stray => thread.step (.add ptr ctl stray) ≠ none → thread.Adds ptr ctl
  | .remove ptr ctl => thread.Deletes ptr ctl
  | .run _ | .elsewhere _ => True

/-- `maxevents` does not exceed the array, and every `epfds[i]` that `run` touches is in it. -/
def InRange (thread : ZThread) : ThreadCall → Prop
  | .run answer =>
    thread.maxevents ≤ thread.epfds.length ∧ ∀ i < answer.length, i < thread.epfds.length
  | .add _ _ _ | .remove _ _ | .elsewhere _ => True

/-- Every pointer that `epoll_wait` hands back belongs to a task in the list. -/
def FromListed (thread : ZThread) : ThreadCall → Prop
  | .run answer => ∀ event ∈ answer, event.ptr ∈ thread.tasks
  | .add _ _ _ | .remove _ _ | .elsewhere _ => True

/-- No task is listed twice, and the interest set is the index of the list by descriptors. -/
structure Keyed (thread : ZThread) : Prop where
  consistent : thread.loop.Consistent
  nodup : thread.tasks.Nodup
  indexes : Indexes thread.interest thread.tasks thread.descriptor

theorem new_keyed (kdpfd : Int) (sock : Nat → Int) (bufferd : Nat → Bool) :
    (new kdpfd sock bufferd).Keyed where
  consistent := EventLoop.new_consistent sock bufferd
  nodup := List.nodup_nil
  indexes _ ptr :=
    iff_of_false (Option.some_ne_none ptr).symm (fun listed => List.not_mem_nil listed.1)

theorem Keyed.watched {thread : ZThread} (keyed : thread.Keyed) : thread.Watched :=
  keyed.indexes.exists_iff

/-- Books that stay as they are stay right. -/
theorem Keyed.of_same {thread : ZThread} (keyed : thread.Keyed) {call : LoopCall}
    {loop : EventLoop} (stepped : thread.loop.step call = some loop) (epfds : List EpollEvent) :
    { thread with loop, epfds }.Keyed where
  consistent := keyed.consistent.step call stepped
  nodup := keyed.nodup
  indexes := by
    have descriptors : loop.descriptor = thread.loop.descriptor := EventLoop.step_descriptor stepped
    show Indexes thread.interest thread.tasks loop.descriptor
    rw [descriptors]
    exact keyed.indexes

/-- An `_add` that the kernel accepts keeps the books right. -/
theorem Keyed.add {thread next : ZThread} (keyed : thread.Keyed) {ptr : Nat} {ctl : Bool}
    {stray : Int} (fresh : ptr ∉ thread.tasks) (accepted : thread.Adds ptr ctl)
    (stepped : thread.step (.add ptr ctl stray) = some next) : next.Keyed := by
  obtain ⟨tasks, interest, called⟩ := add_spec stepped
  rw [addEpoll, if_pos accepted] at interest
  have descriptors : next.descriptor = thread.descriptor := EventLoop.step_descriptor called
  refine ⟨keyed.consistent.step _ called, ?_, ?_⟩
  · rw [tasks, List.nodup_append_comm]
    exact List.nodup_cons.mpr ⟨fresh, keyed.nodup⟩
  · rw [tasks, interest, descriptors]
    exact keyed.indexes.append accepted.2.2

/-- So does a `remove` that it accepts. -/
theorem Keyed.remove {thread : ZThread} (keyed : thread.Keyed) {ptr : Nat} {ctl : Bool}
    (listed : ptr ∈ thread.tasks) (accepted : thread.Deletes ptr ctl) :
    (thread.remove ptr ctl).Keyed := by
  rw [ZThread.remove, delEpoll, if_pos accepted]
  exact ⟨keyed.consistent, keyed.nodup.erase ptr, keyed.indexes.erase keyed.nodup listed⟩

/-- An `_add` that the kernel refuses lists a task that is not registered. -/
theorem Keyed.not_watched_add {thread next : ZThread} (keyed : thread.Keyed) {ptr : Nat}
    {ctl : Bool} {stray : Int} (fresh : ptr ∉ thread.tasks) (refused : ¬ thread.Adds ptr ctl)
    (stepped : thread.step (.add ptr ctl stray) = some next) : ¬ next.Watched := by
  obtain ⟨tasks, interest, -⟩ := add_spec stepped
  rw [addEpoll, if_neg refused] at interest
  intro watched
  have listed : ptr ∈ next.tasks := by
    rw [tasks]
    exact List.mem_append_right _ (List.mem_singleton.mpr rfl)
  obtain ⟨descriptor, registered⟩ := (watched ptr).mpr listed
  rw [interest] at registered
  exact fresh ((keyed.watched ptr).mp ⟨descriptor, registered⟩)

/-- A `remove` that it refuses leaves a task registered that is not in the list. -/
theorem Keyed.not_watched_remove {thread : ZThread} (keyed : thread.Keyed) {ptr : Nat}
    {ctl : Bool} (listed : ptr ∈ thread.tasks) (refused : ¬ thread.Deletes ptr ctl) :
    ¬ (thread.remove ptr ctl).Watched := by
  rw [ZThread.remove, delEpoll, if_neg refused]
  intro watched
  have still := (watched ptr).mp ((keyed.watched ptr).mpr listed)
  exact (keyed.nodup.mem_erase_iff.mp still).1 rfl

/-! ### Runs of the thread -/

/-- Behind the call the registered tasks are those in the list, and the pointers that it hands back
are theirs. -/
def Agrees (thread : ZThread) (call : ThreadCall) : Prop :=
  (∀ next, thread.step call = some next → next.Watched) ∧ thread.FromListed call

/-- A call that the kernel accepts keeps the books right. -/
theorem Keyed.step {thread next : ZThread} (keyed : thread.Keyed) {call : ThreadCall}
    (permitted : thread.Permitted call) (accepted : thread.Accepted call)
    (stepped : thread.step call = some next) : next.Keyed := by
  cases call with
  | add ptr ctl stray =>
    have defined : thread.step (.add ptr ctl stray) ≠ none :=
      stepped ▸ Option.some_ne_none next
    exact keyed.add permitted (accepted defined) stepped
  | remove ptr ctl => exact Option.some.inj stepped ▸ keyed.remove permitted accepted
  | run answer =>
    obtain ⟨other, loop, epfds, called, -, rfl⟩ := step_of_books stepped (Or.inl ⟨answer, rfl⟩)
    exact keyed.of_same called epfds
  | elsewhere other =>
    obtain ⟨other, loop, epfds, called, -, rfl⟩ := step_of_books stepped (Or.inr ⟨other, rfl⟩)
    exact keyed.of_same called epfds

/-- Where the books are right, a call leaves them so exactly when the kernel accepts it. -/
theorem Keyed.agrees_iff {thread : ZThread} (keyed : thread.Keyed) {call : ThreadCall}
    (permitted : thread.Permitted call) : thread.Agrees call ↔ thread.Accepted call := by
  constructor
  · rintro ⟨watched, -⟩
    by_contra refused
    cases call with
    | add ptr ctl stray =>
      obtain ⟨defined, refused⟩ := Classical.not_imp.mp refused
      obtain ⟨next, stepped⟩ := Option.ne_none_iff_exists'.mp defined
      exact keyed.not_watched_add permitted refused stepped (watched next stepped)
    | remove ptr ctl => exact keyed.not_watched_remove permitted refused (watched _ rfl)
    | run answer => exact refused trivial
    | elsewhere other => exact refused trivial
  · intro accepted
    refine ⟨fun next stepped => (keyed.step permitted accepted stepped).watched, ?_⟩
    cases call with
    | run answer => exact fun event member => (keyed.watched _).mp (permitted.2 event member)
    | _ => trivial

/-- Along a permitted run no call leaves the array. -/
theorem Counted.inRange {thread : ZThread} (counted : thread.Counted) {call : ThreadCall}
    (permitted : thread.Permitted call) : thread.InRange call := by
  cases call with
  | run answer =>
    have bound := counted.maxevents_le
    refine ⟨bound, fun i inside => ?_⟩
    have reported := permitted.1
    omega
  | _ => trivial

/-- The books of the thread agree exactly as long as every `epoll_ctl` succeeds. In every run, the
cached count is the length of the list, the array is long enough for it, and every access to the
array is inside; the tasks registered with `kdpfd` are those in the list in every state reached,
and every pointer handed back belongs to one of them, if and only if the kernel accepts every
registration of an `_add` that C defines and every deregistration of `remove`. -/
theorem books_agree_iff (kdpfd : Int) (sock : Nat → Int) (bufferd : Nat → Bool)
    (calls : List ThreadCall)
    (permitted : PartialRun.Each step Permitted (new kdpfd sock bufferd) calls) :
    ((∀ first final, first <+: calls →
        PartialRun.run step (new kdpfd sock bufferd) first = some final → final.Counted) ∧
      PartialRun.Each step InRange (new kdpfd sock bufferd) calls) ∧
    (((∀ first final, first <+: calls →
          PartialRun.run step (new kdpfd sock bufferd) first = some final → final.Watched) ∧
        PartialRun.Each step FromListed (new kdpfd sock bufferd) calls) ↔
      PartialRun.Each step Accepted (new kdpfd sock bufferd) calls) := by
  have counted := new_counted kdpfd sock bufferd
  have keyed := new_keyed kdpfd sock bufferd
  refine ⟨⟨fun first final _ reached => ?_, ?_⟩, ?_⟩
  · exact PartialRun.run_invariant_of_step Counted
      (fun _ call _ holds stepped => holds.step call stepped) counted reached
  · exact PartialRun.each_of_each Counted
      (fun _ call _ holds _ stepped => holds.step call stepped)
      (fun _ _ holds permitted => holds.inRange permitted) counted permitted
  · rw [PartialRun.reached_iff_each, and_iff_right keyed.watched, ← PartialRun.each_and]
    exact PartialRun.each_congr_of_each Keyed
      (fun _ _ _ holds permitted accepted stepped => holds.step permitted accepted stepped)
      (fun _ _ holds permitted => holds.agrees_iff permitted) keyed permitted

/-- The law of the books, for an `_add` and the `remove` of the same task. -/
theorem books_agree_iff_add_remove :
    PartialRun.Each step Accepted (new 7 (fun _ => 5) fun _ => true)
        [.add 0 true 0, .remove 0 true] ∧
      ((∀ first final, first <+: [.add 0 true 0, .remove 0 true] →
          PartialRun.run step (new 7 (fun _ => 5) fun _ => true) first = some final →
            final.Watched) ∧
        PartialRun.Each step FromListed (new 7 (fun _ => 5) fun _ => true)
          [.add 0 true 0, .remove 0 true]) := by
  have adds : (new 7 (fun _ => 5) fun _ => true).Adds 0 true := ⟨rfl, by decide, rfl⟩
  have fresh : 0 ∉ (new 7 (fun _ => 5) fun _ => true).tasks := List.not_mem_nil
  have permitted : PartialRun.Each step Permitted (new 7 (fun _ => 5) fun _ => true)
      [.add 0 true 0, .remove 0 true] := by
    refine ⟨fresh, fun next stepped => PartialRun.each_singleton.mpr ?_⟩
    show 0 ∈ next.tasks
    rw [(add_spec stepped).1]
    exact List.mem_singleton_self 0
  have accepted : PartialRun.Each step Accepted (new 7 (fun _ => 5) fun _ => true)
      [.add 0 true 0, .remove 0 true] :=
    ⟨fun _ => adds, fun next stepped =>
      PartialRun.each_singleton.mpr (deletes_of_add adds stepped)⟩
  exact ⟨accepted,
    (books_agree_iff 7 (fun _ => 5) (fun _ => true) _ permitted).2.mpr accepted⟩

/-- An `_add` that the kernel refuses leaves a task in the list that nothing watches. -/
theorem refused_add_unwatched :
    PartialRun.Each step Permitted (new 7 (fun _ => 5) fun _ => true) [.add 0 false 0] ∧
      ∃ final, PartialRun.run step (new 7 (fun _ => 5) fun _ => true) [.add 0 false 0] =
        some final ∧ ¬ final.Watched := by
  have keyed := new_keyed 7 (fun _ => 5) fun _ => true
  have fresh : 0 ∉ (new 7 (fun _ => 5) fun _ => true).tasks := List.not_mem_nil
  obtain ⟨final, stepped⟩ := @add_defined _ keyed.consistent 0 rfl false 0
  refine ⟨PartialRun.each_singleton.mpr fresh, final, ?_, ?_⟩
  · rw [PartialRun.run_singleton, stepped]
  · exact keyed.not_watched_add fresh (fun accepted => Bool.noConfusion accepted.1) stepped

end ZThread

end SelftestNet
