/-
This file puts the receiving half of a socket on a connection that behaves: a FIFO of the
bytes that have arrived and a writability status, which no call closes or breaks and about
which `::recv` and `::poll` tell the truth. On such a connection `recvToBuf` can still
report a failure. It waits with `waitForWrite`, so it wakes on an idle connection whose
socket is writable, and hands the would-block of its second `::recv` on as `-1`. That is
the only way it does.
-/

import SelftestNet.Room

namespace SelftestNet

/-! ### Connections -/

/-- What happens to a connection from outside. -/
inductive Change
  | arrive (bytes : List UInt8)
  | writable (status : Bool)

/-- The bytes that a change brings. -/
def Change.bytes : Change → List UInt8
  | arrive bytes => bytes
  | writable _ => []

/-- A socket on its connection: the bytes that have arrived and wait for a `::recv`, the oldest in
front, and whether the socket is writable. Nothing closes the connection and nothing fails on
it. -/
structure Connection where
  receiver : Receiver
  arrived : List UInt8
  writable : Bool

/-- What the kernel and the peer are free to do in one `recvToBuf`: the most bytes behind the
first one that each `::recv` gives, and the changes between the first `::recv` and the wait and
from there to the second `::recv`, or to the end of the wait. -/
structure Wait where
  first : Nat
  before : List Change
  during : List Change
  second : Nat

/-- One event of a run on a connection. -/
inductive ConnectionCall
  | change (outside : Change)
  | recvToCmdNoPoll (nCmdLen : Nat)
  | recvToBuf (wait : Wait)

/-- The bytes that arrive in the course of the event. -/
def ConnectionCall.bytes : ConnectionCall → List UInt8
  | change outside => outside.bytes
  | recvToCmdNoPoll _ => []
  | recvToBuf wait => (wait.before ++ wait.during).flatMap Change.bytes

namespace Connection

/-- A socket fresh from its constructor, on a connection where nothing has arrived. -/
def new (sock : Int) (writable : Bool) : Connection where
  receiver := Receiver.new sock
  arrived := []
  writable := writable

/-- One change. -/
def change (connection : Connection) : Change → Connection
  | .arrive bytes => { connection with arrived := connection.arrived ++ bytes }
  | .writable status => { connection with writable := status }

/-- The answer to a `::recv`: it would block exactly when nothing has arrived. -/
def recvAnswer (connection : Connection) (more : Nat) : RecvAnswer :=
  match connection.arrived with
  | [] => .wouldBlock
  | first :: rest => .data first (rest.take more)

/-- The socket is writable at some moment of the changes. -/
def becomesWritable (connection : Connection) : List Change → Bool
  | [] => connection.writable
  | change :: rest => connection.writable || (connection.change change).becomesWritable rest

/-- The connection when the wait of a `recvToBuf` begins. -/
def beforeWait (connection : Connection) (wait : Wait) : Connection :=
  wait.before.foldl change connection

/-- The connection when the wait of a `recvToBuf` is over. -/
def afterWait (connection : Connection) (wait : Wait) : Connection :=
  wait.during.foldl change (connection.beforeWait wait)

/-- `waitForWrite` wakes during the wait. -/
def wakes (connection : Connection) (wait : Wait) : Bool :=
  (connection.beforeWait wait).becomesWritable wait.during

/-- The kernel's answers to one `recvToBuf`. -/
def io (connection : Connection) (wait : Wait) : RecvIo where
  first := connection.recvAnswer wait.first
  poll := if connection.wakes wait then .event false true else .timeout
  second := (connection.afterWait wait).recvAnswer wait.second

/-- The bytes that one `recvToBuf` receives. -/
def read (connection : Connection) (wait : Wait) : List UInt8 :=
  connection.receiver.socket.incomingPolled (connection.io wait)

/-- One event. What a `recvToBuf` receives leaves the connection. -/
def step (connection : Connection) : ConnectionCall → Option Connection
  | .change change => some (connection.change change)
  | .recvToCmdNoPoll nCmdLen =>
    (connection.receiver.step (.recvToCmdNoPoll nCmdLen)).map fun receiver =>
      { connection with receiver }
  | .recvToBuf wait =>
    (connection.receiver.step (.recvToBuf (connection.io wait))).map fun receiver =>
      { connection.afterWait wait with
        receiver
        arrived := (connection.afterWait wait).arrived.drop (connection.read wait).length }

theorem step_recvToBuf_eq_none (connection : Connection) (wait : Wait) :
    connection.step (.recvToBuf wait) = none ↔
      connection.receiver.socket.recvToBuf (connection.io wait) = none := by
  rw [step, Receiver.step, Option.map_map, Option.map_eq_none_iff]

/-! ### The FIFO -/

theorem change_arrived (connection : Connection) (change : Change) :
    (connection.change change).arrived = connection.arrived ++ change.bytes := by
  cases change with
  | arrive bytes => rfl
  | writable status => exact (List.append_nil _).symm

theorem foldl_change_arrived (connection : Connection) (changes : List Change) :
    (changes.foldl change connection).arrived =
      connection.arrived ++ changes.flatMap Change.bytes := by
  induction changes generalizing connection with
  | nil => exact (List.append_nil _).symm
  | cons head rest inductionHypothesis =>
    rw [List.foldl_cons, inductionHypothesis, change_arrived, List.flatMap_cons,
      List.append_assoc]

theorem afterWait_arrived (connection : Connection) (wait : Wait) :
    (connection.afterWait wait).arrived =
      connection.arrived ++ (wait.before ++ wait.during).flatMap Change.bytes := by
  rw [afterWait, foldl_change_arrived, beforeWait, foldl_change_arrived, List.flatMap_append,
    List.append_assoc]

@[simp]
theorem recvAnswer_eq_wouldBlock (connection : Connection) (more : Nat) :
    connection.recvAnswer more = .wouldBlock ↔ connection.arrived = [] := by
  unfold recvAnswer
  split <;> simp_all

/-- A `::recv` gives the oldest bytes. -/
theorem recvAnswer_bytes_inside (connection : Connection) (more length : Nat) :
    (connection.recvAnswer more).bytes length <+: connection.arrived := by
  unfold recvAnswer
  split
  · exact List.nil_prefix
  · rename_i first rest same
    rw [same]
    exact (List.take_prefix _ _).trans
      ((List.prefix_cons_inj first).mpr (List.take_prefix more rest))

/-- With room, a `::recv` gives nothing only when nothing has arrived. -/
theorem recvAnswer_bytes_eq_nil (connection : Connection) (more : Nat) {length : Nat}
    (room : 0 < length) :
    (connection.recvAnswer more).bytes length = [] ↔ connection.arrived = [] := by
  unfold recvAnswer
  split
  · rename_i same
    simp [RecvAnswer.bytes, same]
  · rename_i first rest same
    rw [same, RecvAnswer.bytes, List.take_eq_nil_iff, intMax]
    simp only [List.cons_ne_nil, or_false, iff_false]
    omega

theorem waitForWrite_io (connection : Connection) (wait : Wait) :
    waitForWrite (connection.io wait).poll = if connection.wakes wait then 1 else 0 := by
  rw [io]
  split <;> rfl

/-- What a `recvToBuf` receives are the oldest bytes. -/
theorem read_inside (connection : Connection) (wait : Wait) :
    connection.read wait <+: (connection.afterWait wait).arrived := by
  have grown : connection.arrived <+: (connection.afterWait wait).arrived := by
    rw [afterWait_arrived]
    exact List.prefix_append _ _
  unfold read ZSocket.incomingPolled
  split
  · split
    · exact recvAnswer_bytes_inside _ _ _
    · exact List.nil_prefix
  · split
    · split
      · exact recvAnswer_bytes_inside _ _ _
      · exact List.nil_prefix
    · exact (recvAnswer_bytes_inside _ _ _).trans grown

/-- No byte is lost, doubled or reordered between its arrival and `_rcv_queue`. -/
theorem step_stream {connection next : Connection} (call : ConnectionCall)
    (stepped : connection.step call = some next) :
    next.receiver.received ++ next.arrived =
      connection.receiver.received ++ connection.arrived ++ call.bytes := by
  cases call with
  | change change =>
    obtain rfl := Option.some.inj stepped
    rw [change_arrived, ← List.append_assoc]
    cases change <;> rfl
  | recvToCmdNoPoll nCmdLen =>
    obtain ⟨receiver, called, rfl⟩ := Option.map_eq_some_iff.mp stepped
    obtain ⟨out, -, rfl⟩ := Option.map_eq_some_iff.mp called
    exact (List.append_nil _).symm
  | recvToBuf wait =>
    obtain ⟨receiver, called, rfl⟩ := Option.map_eq_some_iff.mp stepped
    obtain ⟨result, -, rfl⟩ := Option.map_eq_some_iff.mp called
    have whole : connection.read wait ++
        (connection.afterWait wait).arrived.drop (connection.read wait).length =
          (connection.afterWait wait).arrived := by
      obtain ⟨later, same⟩ := connection.read_inside wait
      rw [← same, List.drop_left]
    show connection.receiver.received ++ connection.read wait ++ _ = _
    rw [List.append_assoc, whole, afterWait_arrived, List.append_assoc]
    rfl

/-! ### What `recvToBuf` reports -/

/-- A `recvToBuf` does not fail: it returns the number of bytes it appends to `_rcv_queue` when it
appends some, and `0` when none is there at the end of the wait. -/
def Reports (connection : Connection) : ConnectionCall → Prop
  | .recvToBuf wait => ∀ socket retcode,
    connection.receiver.socket.recvToBuf (connection.io wait) = some (socket, retcode) →
      retcode ≠ -1 ∧
      (∀ read, socket.rcvQueue.unread = connection.receiver.socket.rcvQueue.unread ++ read →
        read ≠ [] → retcode = read.length) ∧
      ((connection.afterWait wait).arrived = [] → retcode = 0)
  | .change _ | .recvToCmdNoPoll _ => True

/-- The event is a `recvToBuf` during whose wait the socket is writable, with nothing there to
receive when the wait is over. -/
def WakesIdle (connection : Connection) : ConnectionCall → Prop
  | .recvToBuf wait => connection.wakes wait = true ∧ (connection.afterWait wait).arrived = []
  | .change _ | .recvToCmdNoPoll _ => False

/-- The receiving half is in a state that `recvToBuf` and `recvToCmd_NoPoll` lead to. -/
structure Sound (connection : Connection) : Prop where
  receiver : connection.receiver.Sound
  room : connection.receiver.socket.RoomOnFlag

theorem new_sound (sock : Int) (writable : Bool) : (new sock writable).Sound where
  receiver := Receiver.new_sound sock
  room := (Receiver.hasRoom_iff (Receiver.new_sound sock).socket).mp (Receiver.new_hasRoom sock)

theorem Sound.step {connection next : Connection} (sound : connection.Sound)
    (call : ConnectionCall) (stepped : connection.step call = some next) : next.Sound := by
  cases call with
  | change change =>
    obtain rfl := Option.some.inj stepped
    cases change <;> exact ⟨sound.receiver, sound.room⟩
  | recvToCmdNoPoll nCmdLen =>
    obtain ⟨receiver, called, rfl⟩ := Option.map_eq_some_iff.mp stepped
    refine ⟨sound.receiver.step _ called, ?_⟩
    obtain ⟨out, extracted, rfl⟩ := Option.map_eq_some_iff.mp called
    exact ZSocket.recvToCmdNoPoll_roomOnFlag sound.receiver.socket sound.room extracted
  | recvToBuf wait =>
    obtain ⟨receiver, called, rfl⟩ := Option.map_eq_some_iff.mp stepped
    refine ⟨sound.receiver.step _ called, ?_⟩
    obtain ⟨⟨socket, retcode⟩, received, rfl⟩ := Option.map_eq_some_iff.mp called
    exact ZSocket.recvToBuf_roomOnFlag sound.receiver.socket sound.room received

/-- A `recvToBuf` that receives nothing gets to its wait, and finds nothing behind it. -/
theorem Sound.waits_of_read_nil {connection : Connection} (sound : connection.Sound) {wait : Wait}
    (nothing : connection.read wait = []) :
    connection.receiver.socket.issetFlag incompleteRead = true ∨
      (connection.io wait).first = .wouldBlock := by
  have reserved := ZSocket.reserve_wrSize_pos sound.receiver.socket
  by_cases flag : connection.receiver.socket.issetFlag incompleteRead
  · exact Or.inl flag
  · refine Or.inr (by_contra fun some => ?_)
    rw [read, ZSocket.incomingPolled, if_neg flag, if_neg some] at nothing
    exact some ((recvAnswer_eq_wouldBlock _ _).mpr
      ((recvAnswer_bytes_eq_nil _ _ reserved).mp nothing))

/-- A `recvToBuf` that wakes receives something exactly when something is there behind the
wait. -/
theorem Sound.read_eq_nil {connection : Connection} (sound : connection.Sound) {wait : Wait}
    (wakes : connection.wakes wait = true) :
    connection.read wait = [] ↔ (connection.afterWait wait).arrived = [] := by
  have ready : waitForWrite (connection.io wait).poll = 1 := by
    rw [waitForWrite_io, if_pos wakes]
  have reserved := ZSocket.reserve_wrSize_pos sound.receiver.socket
  constructor
  · intro nothing
    rcases sound.waits_of_read_nil nothing with flag | blocked
    · rw [read, ZSocket.incomingPolled, if_pos flag, if_pos ready] at nothing
      exact (recvAnswer_bytes_eq_nil _ _ (sound.room flag)).mp nothing
    · rw [read, ZSocket.incomingPolled, if_pos blocked, if_pos ready] at nothing
      split at nothing
      · rename_i flag
        exact (recvAnswer_bytes_eq_nil _ _ (sound.room flag)).mp nothing
      · exact (recvAnswer_bytes_eq_nil _ _ reserved).mp nothing
  · intro nothing
    exact List.prefix_nil.mp (nothing ▸ connection.read_inside wait)

/-- The value of a `recvToBuf` on a connection that behaves. -/
theorem Sound.recvToBuf_value {connection : Connection} (sound : connection.Sound) {wait : Wait}
    {socket : ZSocket} {retcode : Int}
    (called : connection.receiver.socket.recvToBuf (connection.io wait) =
      some (socket, retcode)) :
    retcode = if connection.read wait = [] then if connection.wakes wait then -1 else 0
      else ((connection.read wait).length : Int) := by
  have value := ZSocket.recvToBuf_value called
  rw [waitForWrite_io] at value
  by_cases nothing : connection.read wait = []
  · rw [if_pos nothing]
    rw [read] at nothing
    rw [value, if_pos nothing]
    have waits := sound.waits_of_read_nil nothing
    split <;> simp [waits]
  · rw [if_neg nothing]
    rw [read] at nothing
    rw [value, if_neg nothing, read]

/-- One `recvToBuf` reports what it should exactly when it does not wake idle. -/
theorem Sound.reports_iff {connection : Connection} (sound : connection.Sound)
    (call : ConnectionCall) :
    connection.Reports call ↔ (connection.WakesIdle call → connection.step call = none) := by
  cases call with
  | change outside => exact iff_of_true trivial (fun impossible => impossible.elim)
  | recvToCmdNoPoll nCmdLen => exact iff_of_true trivial (fun impossible => impossible.elim)
  | recvToBuf wait =>
    rcases called : connection.receiver.socket.recvToBuf (connection.io wait) with
      _ | ⟨socket, retcode⟩
    · refine iff_of_true (fun socket retcode defined => ?_)
        (fun _ => (connection.step_recvToBuf_eq_none wait).mpr called)
      cases called.symm.trans defined
    · have value := sound.recvToBuf_value called
      obtain ⟨-, appended⟩ := ZSocket.recvToBuf_spec sound.receiver.socket called
      have defined : connection.step (.recvToBuf wait) ≠ none := by
        rw [Ne, step_recvToBuf_eq_none, called]
        exact Option.some_ne_none _
      constructor
      · rintro reports ⟨wakes, nothing⟩
        rw [if_pos ((sound.read_eq_nil wakes).mpr nothing), if_pos wakes] at value
        exact absurd value (reports socket retcode called).1
      · intro awaited after result same
        obtain ⟨rfl, rfl⟩ := Prod.mk.inj (Option.some.inj (called.symm.trans same))
        have received : ∀ read, socket.rcvQueue.unread =
            connection.receiver.socket.rcvQueue.unread ++ read → read = connection.read wait :=
          fun read grown => List.append_cancel_left (grown.symm.trans appended)
        by_cases nothing : connection.read wait = []
        · have sleeps : ¬ connection.wakes wait = true := fun wakes =>
            defined (awaited ⟨wakes, (sound.read_eq_nil wakes).mp nothing⟩)
          rw [if_pos nothing, if_neg sleeps] at value
          rw [value]
          refine ⟨by decide, fun read grown some => ?_, fun _ => rfl⟩
          exact absurd (received read grown ▸ nothing) some
        · rw [if_neg nothing] at value
          refine ⟨by omega, fun read grown _ => received read grown ▸ value, fun idle => ?_⟩
          exact absurd (List.prefix_nil.mp (idle ▸ connection.read_inside wait)) nothing

/-- Along every run on a connection that behaves, `recvToBuf` reports what it should exactly as
long as it does not wake idle, leaving out the calls that are undefined. -/
theorem each_reports_iff (sock : Int) (writable : Bool) (calls : List ConnectionCall) :
    PartialRun.Each step Reports (new sock writable) calls ↔
      PartialRun.Each step
        (fun connection call => connection.WakesIdle call → connection.step call = none)
        (new sock writable) calls :=
  PartialRun.each_congr Sound (fun _ call _ sound _ stepped => sound.step call stepped)
    (fun _ call sound => sound.reports_iff call) (new_sound sock writable)

/-- The first `recvToBuf` of a writable socket on an idle connection returns `-1`. -/
theorem first_recvToBuf_reports_failure :
    ¬ PartialRun.Each step Reports (new 5 true) [.recvToBuf ⟨0, [], [], 0⟩] := by
  rw [PartialRun.each_singleton, (new_sound 5 true).reports_iff]
  rw [step_recvToBuf_eq_none]
  intro undefined
  obtain ⟨next, retcode, called⟩ := ZSocket.recvToBuf_defined (ZSocket.new_receiveConsistent 5)
    ((new 5 true).io ⟨0, [], [], 0⟩) (fun clear => absurd clear (by decide))
  exact Option.some_ne_none _ (called.symm.trans (undefined ⟨rfl, rfl⟩))

end Connection

end SelftestNet
