/-
This file embeds `epollServer` in a process whose other parts use descriptors of their
own, and proves when `bind` is all-or-nothing. Two of its failure exits close the
descriptor and keep its number, which the destructor closes again, whatever it names
by then; and the registration is the argument of an `assert`, so it is compiled out
with it. Apart from these the attempts leave either a registered listening socket or
nothing. The constructor asserts the opposite of what it needs, so that no server which
it leaves behind an assertion ever listens.
-/

import SelftestNet.Descriptors
import SelftestNet.Run

namespace SelftestNet

open Descriptors

/-! ### The server -/

/-- `epollServer`, without its name. -/
structure EpollServer where
  sock : Int
  kdpfd : Int

/-- What has been done to a socket. -/
structure SocketMark where
  bound : Bool
  listening : Bool
  registered : Bool

/-- The kernel's answers during one `bind`, as far as it gets to each: the descriptor that `socket`
returns, `-1` when it fails, and whether each further call succeeds. -/
structure BindAnswers where
  socket : Int
  reuseAddr : Bool
  rcvBuf : Bool
  sndBuf : Bool
  bind : Bool
  listen : Bool
  epollCtl : Bool

/-- A server in its process, with the history of the server: the openings that `socket` gave it,
and those that it closed. -/
structure ServerProcess where
  server : EpollServer
  table : Table SocketMark
  obtained : List Nat
  closed : List Nat

namespace ServerProcess

/-- `close`. Closing what is not open has no effect. -/
def close (process : ServerProcess) (descriptor : Int) : ServerProcess :=
  match process.table.files descriptor with
  | none => process
  | some file =>
    { process with
      table := process.table.remove descriptor
      closed := process.closed ++ [file.serial] }

/-- `socket`. -/
def socket (process : ServerProcess) (answer : Int) : ServerProcess × Int :=
  if free : process.table.Free answer then
    ({ process with
        table := process.table.insert answer free ⟨false, false, false⟩
        obtained := process.obtained ++ [process.table.count] }, answer)
  else (process, -1)

/-- An assignment to `sock`. -/
def setSock (process : ServerProcess) (sock : Int) : ServerProcess :=
  { process with server := { process.server with sock } }

/-- Something is done to a socket. -/
def modify (process : ServerProcess) (descriptor : Int) (change : SocketMark → SocketMark) :
    ServerProcess := { process with table := process.table.modify descriptor change }

/-- `assert(0 == epoll_ctl(..))`, which ends the process when the call fails. -/
def register (process : ServerProcess) (answer : Bool) (descriptor : Int) :
    Option ServerProcess :=
  if answer ∧ process.table.files process.server.kdpfd ≠ none then
    some (process.modify descriptor fun mark => { mark with registered := true })
  else none

/-- The constructor. Its `assert(-1 == kdpfd)` ends the process for every descriptor that
`epoll_create` gives, unless assertions are compiled out. -/
def construct (assertions : Bool) (process : ServerProcess) (answer : Int) :
    Option ServerProcess :=
  if free : process.table.Free answer then
    if assertions then none
    else some
      { server := { sock := -1, kdpfd := answer }
        table := process.table.insert answer free ⟨false, false, false⟩
        obtained := []
        closed := [] }
  else some
    { server := { sock := -1, kdpfd := -1 }
      table := process.table
      obtained := []
      closed := [] }

/-- `bind` from its first `setsockopt` on. -/
def configure (assertions : Bool) (process : ServerProcess) (sock : Int)
    (answers : BindAnswers) : Option (ServerProcess × Bool) :=
  if ¬ answers.reuseAddr then some ((process.close sock).setSock (-1), false)
  else if ¬ answers.rcvBuf then some (process.close sock, false)
  else if ¬ answers.sndBuf then some (process.close sock, false)
  else if ¬ answers.bind then some ((process.close sock).setSock (-1), false)
  else
    let process := process.modify sock fun mark => { mark with bound := true }
    if ¬ answers.listen then some ((process.close sock).setSock (-1), false)
    else
      let process := process.modify sock fun mark => { mark with listening := true }
      if assertions then
        (process.register answers.epollCtl sock).map fun process => (process, true)
      else some (process, true)

/-- `bind`. -/
def bind (assertions : Bool) (process : ServerProcess) (answers : BindAnswers) :
    Option (ServerProcess × Bool) :=
  if process.server.sock ≠ -1 then some (process, false)
  else
    let (process, sock) := process.socket answers.socket
    let process := process.setSock sock
    if sock = -1 then some (process, false) else process.configure assertions sock answers

/-- The destructor. -/
def destroy (process : ServerProcess) : ServerProcess :=
  let process := process.close process.server.kdpfd
  if process.server.sock ≠ -1 then (process.close process.server.sock).setSock (-1) else process

end ServerProcess

namespace BindAnswers

/-- The attempt leaves by one of the exits behind `SO_RCVBUF` and `SO_SNDBUF`. -/
def Stale (answers : BindAnswers) : Prop :=
  answers.reuseAddr = true ∧ (answers.rcvBuf = false ∨ answers.sndBuf = false)

/-- The attempt gets past `listen`. -/
def Reaches (answers : BindAnswers) : Prop :=
  answers.reuseAddr = true ∧ answers.rcvBuf = true ∧ answers.sndBuf = true ∧
    answers.bind = true ∧ answers.listen = true

instance (answers : BindAnswers) : Decidable answers.Stale := inferInstanceAs (Decidable (_ ∧ _))

instance (answers : BindAnswers) : Decidable answers.Reaches :=
  inferInstanceAs (Decidable (_ ∧ _))

/-- An attempt that gets past `listen` does not leave by a stale exit. -/
theorem Reaches.not_stale {answers : BindAnswers} (reaches : answers.Reaches) :
    ¬ answers.Stale := by
  rintro ⟨-, failed | failed⟩
  · exact absurd (failed.symm.trans reaches.2.1) Bool.false_ne_true
  · exact absurd (failed.symm.trans reaches.2.2.1) Bool.false_ne_true

end BindAnswers

namespace ServerProcess

/-! ### One attempt -/

/-- The process behind an attempt whose socket has been closed again. -/
def spent (process : ServerProcess) : ServerProcess :=
  { process with
    table := process.table.skip
    obtained := process.obtained ++ [process.table.count]
    closed := process.closed ++ [process.table.count] }

/-- The process behind an attempt whose socket is open. -/
def holding (process : ServerProcess) {sock : Int} (free : process.table.Free sock)
    (mark : SocketMark) : ServerProcess where
  server := { process.server with sock }
  table := process.table.insert sock free mark
  obtained := process.obtained ++ [process.table.count]
  closed := process.closed

theorem setSock_of_eq {process : ServerProcess} {sock : Int} (same : process.server.sock = sock) :
    process.setSock sock = process := by
  rw [← same]
  rfl

theorem setSock_setSock (process : ServerProcess) (first second : Int) :
    (process.setSock first).setSock second = process.setSock second := rfl

/-- Closing the socket of an attempt, whatever has been done to it. -/
theorem close_holding (process : ServerProcess) {sock : Int} (free : process.table.Free sock)
    (mark : SocketMark) : (process.holding free mark).close sock = process.spent.setSock sock := by
  have found : (process.holding free mark).table.files sock =
      some { serial := process.table.count, mark } := process.table.insert_files_self free mark
  rw [close, found]
  dsimp only
  rw [holding, Table.remove_insert]
  rfl

theorem modify_holding (process : ServerProcess) {sock : Int} (free : process.table.Free sock)
    (mark : SocketMark) (change : SocketMark → SocketMark) :
    (process.holding free mark).modify sock change = process.holding free (change mark) := by
  rw [modify, holding, Table.modify_insert]
  rfl

/-- An attempt whose `socket` fails leaves everything as it is. -/
theorem bind_of_not_free {assertions : Bool} {process : ServerProcess} {answers : BindAnswers}
    (unbound : process.server.sock = -1) (taken : ¬ process.table.Free answers.socket) :
    process.bind assertions answers = some (process, false) := by
  have failed : process.socket answers.socket = (process, -1) := dif_neg taken
  rw [bind, if_neg (not_not.mpr unbound), failed]
  dsimp only
  rw [if_pos rfl, setSock_of_eq unbound]

/-- The net effect of an attempt whose `socket` succeeds. -/
theorem bind_of_free {assertions : Bool} {process : ServerProcess} {answers : BindAnswers}
    (unbound : process.server.sock = -1) (free : process.table.Free answers.socket) :
    process.bind assertions answers =
      if answers.Stale then some (process.spent.setSock answers.socket, false)
      else if answers.Reaches then
        if assertions then
          ((process.holding free ⟨true, true, false⟩).register answers.epollCtl
            answers.socket).map fun process => (process, true)
        else some (process.holding free ⟨true, true, false⟩, true)
      else some (process.spent, false) := by
  have opened : process.socket answers.socket =
      ({ process with
          table := process.table.insert answers.socket free ⟨false, false, false⟩
          obtained := process.obtained ++ [process.table.count] }, answers.socket) := dif_pos free
  have valid : answers.socket ≠ -1 := by
    have positive := free.1
    omega
  have given : process.spent.setSock (-1) = process.spent := setSock_of_eq unbound
  have configured : process.bind assertions answers =
      (process.holding free ⟨false, false, false⟩).configure assertions answers.socket answers := by
    rw [bind, if_neg (not_not.mpr unbound), opened]
    exact if_neg valid
  rw [configured, configure, close_holding, setSock_setSock, given, modify_holding]
  dsimp only
  rw [close_holding, setSock_setSock, given, modify_holding]
  rcases answers with ⟨descriptor, reuseAddr, rcvBuf, sndBuf, bindAnswer, listen, epollCtl⟩
  cases reuseAddr <;> cases rcvBuf <;> cases sndBuf <;> cases bindAnswer <;> cases listen <;>
    simp [BindAnswers.Stale, BindAnswers.Reaches]

/-! ### Runs of attempts -/

/-- What happens in the process: an attempt to bind, or another part of the process opens a file or
closes one of its own. -/
inductive ServerCall
  | bind (answers : BindAnswers)
  | openOther (descriptor : Int)
  | closeOther (descriptor : Int)

/-- One call. It is undefined when it ends the process, and when it closes what is the server's. -/
def step (assertions : Bool) (process : ServerProcess) : ServerCall → Option ServerProcess
  | .bind answers => (process.bind assertions answers).map Prod.fst
  | .openOther descriptor =>
    if free : process.table.Free descriptor then
      some { process with table := process.table.insert descriptor free ⟨false, false, false⟩ }
    else none
  | .closeOther descriptor =>
    match process.table.files descriptor with
    | none => none
    | some file =>
      if file.serial ∈ process.obtained ∨ descriptor = process.server.kdpfd then none
      else some { process with table := process.table.remove descriptor }

/-- The server holds a socket that is open, bound, listening and registered. -/
def Listens (process : ServerProcess) : Prop :=
  ∃ file, process.table.files process.server.sock = some file ∧
    file.serial ∈ process.obtained ∧ file.mark = ⟨true, true, true⟩

/-- Nothing that the server obtained is open. -/
def NothingOpen (process : ServerProcess) : Prop :=
  ∀ descriptor file, process.table.files descriptor = some file →
    file.serial ∉ process.obtained

/-- An attempt on an unbound server returns `true` only with a registered listening socket, and
`false` only with an unbound server again and nothing open. -/
def AllOrNothing (assertions : Bool) (process : ServerProcess) : ServerCall → Prop
  | .bind answers => process.server.sock = -1 → ∀ next result,
    process.bind assertions answers = some (next, result) →
      (result = true → next.Listens) ∧
        (result = false → next.server.sock = -1 ∧ next.NothingOpen)
  | .openOther _ | .closeOther _ => True

/-- An attempt on an unbound server does not leave by a stale exit, and does not get past `listen`
when assertions are compiled out. -/
def Safe (assertions : Bool) (process : ServerProcess) : ServerCall → Prop
  | .bind answers => process.server.sock = -1 → process.table.Free answers.socket →
    ¬ answers.Stale ∧ (answers.Reaches → assertions = true)
  | .openOther _ | .closeOther _ => True

/-- The destructor leaves everything that the server obtained closed exactly once, and has closed
nothing else but its own `epoll` descriptor. -/
def ClosedOnce (process : ServerProcess) : Prop :=
  (∀ serial ∈ process.destroy.obtained, process.destroy.closed.count serial = 1) ∧
    ∀ serial ∈ process.destroy.closed, serial ∈ process.destroy.obtained ∨
      (process.table.files process.server.kdpfd).map OpenFile.serial = some serial

/-- The history of the server agrees with the table: what it obtained is closed, once, unless it is
the file behind `sock`, and what is open otherwise is not the server's, except for its `epoll`
descriptor. -/
structure Sound (process : ServerProcess) : Prop where
  obtained_lt : ∀ serial ∈ process.obtained, serial < process.table.count
  closed_mem : ∀ serial ∈ process.closed, serial ∈ process.obtained
  owned : ∀ descriptor file, process.table.files descriptor = some file →
    file.serial ∈ process.obtained → descriptor = process.server.sock
  held : process.server.sock ≠ -1 → ∃ file,
    process.table.files process.server.sock = some file ∧ file.serial ∈ process.obtained
  once : ∀ serial ∈ process.obtained, process.closed.count serial =
    if (process.table.files process.server.sock).map OpenFile.serial = some serial then 0 else 1
  kdpfd : process.server.kdpfd = -1 ∨ ∃ file,
    process.table.files process.server.kdpfd = some file ∧ file.serial ∉ process.obtained

/-- A server as its constructor leaves it. With assertions compiled in, only a failed
`epoll_create` gets past the inverted `assert`; an open `kdpfd` is allowed here in that build
too. -/
structure Fresh (process : ServerProcess) : Prop where
  sock : process.server.sock = -1
  obtained : process.obtained = []
  closed : process.closed = []
  kdpfd : process.server.kdpfd = -1 ∨ process.table.files process.server.kdpfd ≠ none

theorem construct_fresh {assertions : Bool} {process next : ServerProcess} {answer : Int}
    (defined : construct assertions process answer = some next) : next.Fresh := by
  unfold construct at defined
  split at defined
  · split at defined
    · cases defined
    · rename_i free _
      obtain rfl := Option.some.inj defined
      refine ⟨rfl, rfl, rfl, Or.inr ?_⟩
      rw [Table.insert_files_self]
      exact Option.some_ne_none _
  · obtain rfl := Option.some.inj defined
    exact ⟨rfl, rfl, rfl, Or.inl rfl⟩

/-- Without an `epoll` descriptor, an attempt with assertions returns `false` or ends the process. -/
theorem bind_eq_false {process next : ServerProcess} {answers : BindAnswers} {result : Bool}
    (closed : process.server.kdpfd = -1)
    (called : process.bind true answers = some (next, result)) :
    next.server.kdpfd = -1 ∧ result = false := by
  by_cases unbound : process.server.sock = -1
  · by_cases free : process.table.Free answers.socket
    · have refused : (process.holding free ⟨true, true, false⟩).register answers.epollCtl
          answers.socket = none := by
        refine if_neg fun accepted => accepted.2 ?_
        show (process.holding free ⟨true, true, false⟩).table.files process.server.kdpfd = none
        rw [closed]
        exact Table.files_of_neg _ (by decide)
      rw [bind_of_free unbound free, if_pos rfl, refused] at called
      split at called
      · obtain ⟨rfl, rfl⟩ := Prod.mk.inj (Option.some.inj called)
        exact ⟨closed, rfl⟩
      · split at called
        · cases called
        · obtain ⟨rfl, rfl⟩ := Prod.mk.inj (Option.some.inj called)
          exact ⟨closed, rfl⟩
    · rw [bind_of_not_free unbound free] at called
      obtain ⟨rfl, rfl⟩ := Prod.mk.inj (Option.some.inj called)
      exact ⟨closed, rfl⟩
  · rw [ServerProcess.bind, if_pos unbound] at called
    obtain ⟨rfl, rfl⟩ := Prod.mk.inj (Option.some.inj called)
    exact ⟨closed, rfl⟩

/-- Behind the constructor with its `assert`, no attempt ever returns `true`. -/
theorem bind_ne_true_of_construct {process start : ServerProcess} {answer : Int}
    (built : construct true process answer = some start) (calls : List ServerCall) :
    PartialRun.Each (step true) (fun process call => ∀ answers next,
      call = .bind answers → process.bind true answers ≠ some (next, true)) start calls := by
  have closed : start.server.kdpfd = -1 := by
    unfold construct at built
    split at built
    · cases built
    · exact Option.some.inj built ▸ rfl
  refine PartialRun.each_of_each (fun process => process.server.kdpfd = -1)
    (fun process call next closed _ stepped => ?_) (fun process call closed _ => ?_) closed
    (PartialRun.each_true _ _ _)
  · cases call with
    | bind answers =>
      obtain ⟨⟨after, result⟩, called, rfl⟩ := Option.map_eq_some_iff.mp stepped
      exact (bind_eq_false closed called).1
    | openOther descriptor =>
      rw [step] at stepped
      split at stepped
      · exact Option.some.inj stepped ▸ closed
      · cases stepped
    | closeOther descriptor =>
      rw [step] at stepped
      split at stepped
      · cases stepped
      · split at stepped
        · cases stepped
        · exact Option.some.inj stepped ▸ closed
  · rintro answers next rfl called
    exact Bool.noConfusion (bind_eq_false closed called).2

theorem Fresh.sound {process : ServerProcess} (fresh : process.Fresh) : process.Sound where
  obtained_lt serial member := by
    rw [fresh.obtained] at member
    cases member
  closed_mem serial member := by
    rw [fresh.closed] at member
    cases member
  owned descriptor file _ member := by
    rw [fresh.obtained] at member
    cases member
  held bound := absurd fresh.sock bound
  once serial member := by
    rw [fresh.obtained] at member
    cases member
  kdpfd := by
    refine fresh.kdpfd.imp_right fun opened => ?_
    obtain ⟨file, found⟩ := Option.ne_none_iff_exists'.mp opened
    refine ⟨file, found, ?_⟩
    rw [fresh.obtained]
    exact List.not_mem_nil

/-- A serial number that is still to come is in no history. -/
theorem Sound.count_closed {process : ServerProcess} (sound : process.Sound) :
    process.closed.count process.table.count = 0 :=
  List.count_eq_zero.mpr fun member =>
    Nat.lt_irrefl _ (sound.obtained_lt _ (sound.closed_mem _ member))

/-- What an unbound server obtained is closed once. -/
theorem Sound.once_unbound {process : ServerProcess} (sound : process.Sound)
    (unbound : process.server.sock = -1) {serial : Nat} (member : serial ∈ process.obtained) :
    process.closed.count serial = 1 := by
  rw [sound.once serial member, unbound, Table.files_of_neg _ (by decide)]
  rfl

theorem Sound.nothingOpen {process : ServerProcess} (sound : process.Sound)
    (unbound : process.server.sock = -1) : process.NothingOpen := by
  intro descriptor file found member
  have same := sound.owned descriptor file found member
  have positive := process.table.nonneg descriptor file found
  omega

/-- One more opening that the server obtained is none of the files open before it. -/
theorem mem_obtained_of_open {process : ServerProcess} {descriptor : Int}
    {file : OpenFile SocketMark} (found : process.table.files descriptor = some file)
    (member : file.serial ∈ process.obtained ++ [process.table.count]) :
    file.serial ∈ process.obtained := by
  rcases List.mem_append.mp member with before | last
  · exact before
  · have smaller := process.table.serial_lt descriptor file found
    rw [List.mem_singleton.mp last] at smaller
    exact absurd smaller (Nat.lt_irrefl _)

theorem Sound.lt_succ_count {process : ServerProcess} (sound : process.Sound) {serial : Nat}
    (member : serial ∈ process.obtained ++ [process.table.count]) :
    serial < process.table.count + 1 := by
  rcases List.mem_append.mp member with before | last
  · exact Nat.lt_succ_of_lt (sound.obtained_lt serial before)
  · rw [List.mem_singleton.mp last]
    exact Nat.lt_succ_self _

/-- An attempt that closes its socket again keeps the history sound. -/
theorem Sound.spent {process : ServerProcess} (sound : process.Sound)
    (unbound : process.server.sock = -1) : process.spent.Sound := by
  refine ⟨fun serial member => sound.lt_succ_count member, fun serial member => ?_,
    fun descriptor file found member => sound.owned descriptor file found
      (mem_obtained_of_open found member),
    fun bound => absurd unbound bound, fun serial member => ?_, ?_⟩
  · rcases List.mem_append.mp member with before | last
    · exact List.mem_append_left _ (sound.closed_mem serial before)
    · exact List.mem_append_right _ last
  · show (process.closed ++ [process.table.count]).count serial =
      if (process.table.files process.server.sock).map OpenFile.serial = some serial then 0 else 1
    rw [unbound, Table.files_of_neg _ (by decide), List.count_append]
    rcases List.mem_append.mp member with before | last
    · have smaller := sound.obtained_lt serial before
      rw [sound.once_unbound unbound before, List.count_singleton,
        if_neg (by simpa using Nat.ne_of_gt smaller)]
      rfl
    · rw [List.mem_singleton.mp last, sound.count_closed, List.count_singleton_self]
      rfl
  · refine sound.kdpfd.imp_right fun ⟨file, found, foreign⟩ => ⟨file, found, fun member => ?_⟩
    exact foreign (mem_obtained_of_open found member)

/-- An attempt that keeps its socket open keeps the history sound. -/
theorem Sound.holding {process : ServerProcess} (sound : process.Sound)
    (unbound : process.server.sock = -1) {sock : Int} (free : process.table.Free sock)
    (mark : SocketMark) : (process.holding free mark).Sound := by
  have self : (process.holding free mark).table.files sock =
      some { serial := process.table.count, mark } := process.table.insert_files_self free mark
  refine ⟨fun serial member => sound.lt_succ_count member,
    fun serial member => List.mem_append_left _ (sound.closed_mem serial member),
    fun descriptor file found member => ?_,
    fun _ => ⟨_, self, List.mem_append_right _ (List.mem_singleton_self _)⟩,
    fun serial member => ?_, ?_⟩
  · rcases Table.update_some_cases found with ⟨same, -⟩ | ⟨-, was⟩
    · exact same
    · exact absurd (mem_obtained_of_open was member) (sound.nothingOpen unbound descriptor file was)
  · show process.closed.count serial =
      if ((process.holding free mark).table.files sock).map OpenFile.serial = some serial then 0
      else 1
    rw [self, Option.map_some]
    rcases List.mem_append.mp member with before | last
    · have smaller := sound.obtained_lt serial before
      rw [sound.once_unbound unbound before,
        if_neg fun same => absurd (Option.some.inj same) (Nat.ne_of_gt smaller)]
    · rw [List.mem_singleton.mp last, sound.count_closed, if_pos rfl]
  · refine sound.kdpfd.imp_right fun ⟨file, found, foreign⟩ =>
      ⟨file, ?_, fun member => foreign (mem_obtained_of_open found member)⟩
    have different : process.server.kdpfd ≠ sock := by
      rintro same
      rw [same, free.2] at found
      cases found
    exact (Function.update_of_ne different ..).trans found

/-- A change of the table that leaves the server's files as they are keeps the history sound. -/
theorem Sound.withTable {process : ServerProcess} (sound : process.Sound)
    {table : Table SocketMark} (grown : process.table.count ≤ table.count)
    (sock : table.files process.server.sock = process.table.files process.server.sock)
    (kdpfd : process.server.kdpfd = -1 ∨
      table.files process.server.kdpfd = process.table.files process.server.kdpfd)
    (owned : ∀ descriptor file, table.files descriptor = some file →
      file.serial ∈ process.obtained → process.table.files descriptor = some file) :
    Sound { process with table } where
  obtained_lt serial member := Nat.lt_of_lt_of_le (sound.obtained_lt serial member) grown
  closed_mem := sound.closed_mem
  owned descriptor file found member :=
    sound.owned descriptor file (owned descriptor file found member) member
  held bound := by
    obtain ⟨file, found, member⟩ := sound.held bound
    exact ⟨file, sock.trans found, member⟩
  once serial member := by
    rw [sound.once serial member, sock]
  kdpfd := by
    rcases sound.kdpfd with none | ⟨file, found, foreign⟩
    · exact Or.inl none
    · exact kdpfd.imp_right fun same => ⟨file, same.trans found, foreign⟩

/-- How a safe attempt of an unbound server ends that does not end the process. -/
theorem bind_safe_cases {assertions : Bool} {process next : ServerProcess}
    {answers : BindAnswers} {result : Bool} (unbound : process.server.sock = -1)
    (safe : Safe assertions process (.bind answers))
    (called : process.bind assertions answers = some (next, result)) :
    (result = false ∧ (next = process ∨ next = process.spent)) ∨
      (result = true ∧ ∃ free : process.table.Free answers.socket,
        next = process.holding free ⟨true, true, true⟩) := by
  by_cases free : process.table.Free answers.socket
  · obtain ⟨noStale, registered⟩ := safe unbound free
    rw [bind_of_free unbound free, if_neg noStale] at called
    split at called
    · rename_i reaches
      rw [if_pos (registered reaches)] at called
      obtain ⟨held, done, same⟩ := Option.map_eq_some_iff.mp called
      obtain ⟨rfl, rfl⟩ := Prod.mk.inj same
      unfold register at done
      split at done
      · rw [modify_holding] at done
        exact Or.inr ⟨rfl, free, (Option.some.inj done).symm⟩
      · cases done
    · obtain ⟨rfl, rfl⟩ := Prod.mk.inj (Option.some.inj called)
      exact Or.inl ⟨rfl, Or.inr rfl⟩
  · rw [bind_of_not_free unbound free] at called
    obtain ⟨rfl, rfl⟩ := Prod.mk.inj (Option.some.inj called)
    exact Or.inl ⟨rfl, Or.inl rfl⟩

theorem Sound.bind {assertions : Bool} {process next : ServerProcess} (sound : process.Sound)
    {answers : BindAnswers} {result : Bool} (safe : Safe assertions process (.bind answers))
    (called : process.bind assertions answers = some (next, result)) : next.Sound := by
  by_cases unbound : process.server.sock = -1
  · rcases bind_safe_cases unbound safe called with ⟨-, rfl | rfl⟩ | ⟨-, free, rfl⟩
    · exact sound
    · exact sound.spent unbound
    · exact sound.holding unbound free _
  · rw [ServerProcess.bind, if_pos unbound] at called
    obtain ⟨rfl, -⟩ := Prod.mk.inj (Option.some.inj called)
    exact sound

/-- Another part of the process opens a file. Its descriptor is none of the server's. -/
theorem Sound.openOther {process : ServerProcess} (sound : process.Sound) {descriptor : Int}
    (free : process.table.Free descriptor) (mark : SocketMark) :
    Sound { process with table := process.table.insert descriptor free mark } := by
  have notSock : process.server.sock ≠ descriptor := by
    intro same
    by_cases unbound : process.server.sock = -1
    · exact absurd free.1 (by omega)
    · obtain ⟨file, found, -⟩ := sound.held unbound
      rw [same, free.2] at found
      cases found
  refine sound.withTable (Nat.le_succ _) (Function.update_of_ne notSock ..) ?_
    fun other file found member => ?_
  · refine sound.kdpfd.imp_right fun ⟨file, found, _⟩ => Function.update_of_ne ?_ ..
    intro same
    rw [same, free.2] at found
    cases found
  · rcases Table.update_some_cases found with ⟨-, rfl⟩ | ⟨-, was⟩
    · exact absurd (sound.obtained_lt _ member) (Nat.lt_irrefl _)
    · exact was

/-- Another part of the process closes a file of its own. -/
theorem Sound.closeOther {process : ServerProcess} (sound : process.Sound) {descriptor : Int}
    {file : OpenFile SocketMark} (found : process.table.files descriptor = some file)
    (notObtained : file.serial ∉ process.obtained)
    (notKdpfd : descriptor ≠ process.server.kdpfd) :
    Sound { process with table := process.table.remove descriptor } := by
  have notSock : process.server.sock ≠ descriptor := by
    intro same
    have positive := process.table.nonneg descriptor file found
    obtain ⟨held, foundHeld, member⟩ := sound.held (by omega)
    rw [same, found] at foundHeld
    exact notObtained (Option.some.inj foundHeld ▸ member)
  exact sound.withTable (Nat.le_refl _) (Function.update_of_ne notSock ..)
    (Or.inr (Function.update_of_ne (Ne.symm notKdpfd) ..))
    fun other another foundOther _ => (Table.update_none_cases foundOther).2

/-- Every safe call keeps the history sound. -/
theorem Sound.step {assertions : Bool} {process next : ServerProcess} (sound : process.Sound)
    (call : ServerCall) (safe : Safe assertions process call)
    (stepped : step assertions process call = some next) : next.Sound := by
  cases call with
  | bind answers =>
    obtain ⟨⟨after, result⟩, called, rfl⟩ := Option.map_eq_some_iff.mp stepped
    exact sound.bind safe called
  | openOther descriptor =>
    rw [ServerProcess.step] at stepped
    split at stepped
    · rename_i free
      exact Option.some.inj stepped ▸ sound.openOther free _
    · cases stepped
  | closeOther descriptor =>
    rw [ServerProcess.step] at stepped
    split at stepped
    · cases stepped
    · rename_i file found
      split at stepped
      · cases stepped
      · rename_i foreign
        obtain ⟨notObtained, notKdpfd⟩ := not_or.mp foreign
        exact Option.some.inj stepped ▸ sound.closeOther found notObtained notKdpfd

/-- An unbound server whose attempts are all-or-nothing is safe. -/
theorem safe_of_allOrNothing {assertions : Bool} {process : ServerProcess}
    {answers : BindAnswers} (every : AllOrNothing assertions process (.bind answers)) :
    Safe assertions process (.bind answers) := by
  intro unbound free
  have attempt := every unbound
  rw [bind_of_free unbound free] at attempt
  constructor
  · intro stale
    have reset := ((attempt _ _ (if_pos stale)).2 rfl).1
    have positive := free.1
    change answers.socket = -1 at reset
    omega
  · intro reaches
    by_contra compiledOut
    obtain ⟨file, found, -, marked⟩ := (attempt _ _ ((if_neg reaches.not_stale).trans
      ((if_pos reaches).trans (if_neg compiledOut)))).1 rfl
    rw [holding, Table.insert_files_self] at found
    rw [← Option.some.inj found] at marked
    cases marked

/-- An attempt is all-or-nothing exactly when it is safe. -/
theorem Sound.allOrNothing_iff {assertions : Bool} {process : ServerProcess}
    (sound : process.Sound) (call : ServerCall) :
    AllOrNothing assertions process call ↔ Safe assertions process call := by
  cases call with
  | openOther descriptor => exact Iff.rfl
  | closeOther descriptor => exact Iff.rfl
  | bind answers =>
    refine ⟨safe_of_allOrNothing, fun safe unbound next result called => ?_⟩
    rcases bind_safe_cases unbound safe called with ⟨rfl, rfl | rfl⟩ | ⟨rfl, free, rfl⟩
    · exact ⟨Bool.noConfusion, fun _ => ⟨unbound, sound.nothingOpen unbound⟩⟩
    · exact ⟨Bool.noConfusion, fun _ => ⟨unbound, (sound.spent unbound).nothingOpen unbound⟩⟩
    · exact ⟨fun _ => ⟨_, process.table.insert_files_self free _,
        List.mem_append_right _ (List.mem_singleton_self _), rfl⟩, Bool.noConfusion⟩

/-- Closing the `epoll` descriptor logs at most its own serial number, and leaves `sock` alone. -/
theorem Sound.close_kdpfd {process : ServerProcess} (sound : process.Sound) :
    ∃ logged : List Nat,
      (process.close process.server.kdpfd).closed = process.closed ++ logged ∧
      (∀ serial ∈ logged, serial ∉ process.obtained ∧
        (process.table.files process.server.kdpfd).map OpenFile.serial = some serial) ∧
      (process.close process.server.kdpfd).table.files process.server.sock =
        process.table.files process.server.sock := by
  rcases sound.kdpfd with none | ⟨file, found, foreign⟩
  · have missing : process.table.files process.server.kdpfd = Option.none :=
      none ▸ process.table.files_of_neg (by decide)
    rw [close, missing]
    exact ⟨[], (List.append_nil _).symm, fun serial member => absurd member List.not_mem_nil, rfl⟩
  · have apart : process.server.sock ≠ process.server.kdpfd := by
      intro same
      have positive := process.table.nonneg _ file found
      obtain ⟨held, foundHeld, member⟩ := sound.held (by omega)
      rw [same, found] at foundHeld
      exact foreign (Option.some.inj foundHeld ▸ member)
    rw [close, found]
    refine ⟨[file.serial], rfl, fun serial member => ?_, Function.update_of_ne apart ..⟩
    rw [List.mem_singleton.mp member]
    exact ⟨foreign, rfl⟩

/-- The destructor logs what is behind `sock`, after the `epoll` descriptor. -/
theorem Sound.destroy_closed {process : ServerProcess} (sound : process.Sound) :
    ∃ logged : List Nat,
      process.destroy.closed = process.closed ++ logged ++
        ((process.table.files process.server.sock).map OpenFile.serial).toList ∧
      ∀ serial ∈ logged, serial ∉ process.obtained ∧
        (process.table.files process.server.kdpfd).map OpenFile.serial = some serial := by
  obtain ⟨logged, closed, foreign, sameSock⟩ := sound.close_kdpfd
  refine ⟨logged, ?_, foreign⟩
  have sameServer : (process.close process.server.kdpfd).server = process.server := by
    unfold close
    split <;> rfl
  rw [destroy, sameServer]
  by_cases unbound : process.server.sock = -1
  · rw [if_neg (not_not.mpr unbound), unbound, Table.files_of_neg _ (by decide)]
    exact closed.trans (List.append_nil _).symm
  · obtain ⟨file, found, -⟩ := sound.held unbound
    rw [if_pos unbound, close, sameSock, found]
    exact congrArg (· ++ [file.serial]) closed

/-- Behind safe calls, the destructor closes everything that is left, once. -/
theorem Sound.closedOnce {process : ServerProcess} (sound : process.Sound) :
    process.ClosedOnce := by
  have sameObtained : process.destroy.obtained = process.obtained := by
    simp only [destroy, setSock, close]
    grind
  obtain ⟨logged, closed, foreign⟩ := sound.destroy_closed
  rw [ClosedOnce, sameObtained, closed]
  constructor
  · intro serial member
    have notLogged : logged.count serial = 0 :=
      List.count_eq_zero.mpr fun inLog => (foreign serial inLog).1 member
    rw [List.count_append, List.count_append, notLogged, sound.once serial member]
    split
    · rename_i behind
      rw [behind, Option.toList_some, List.count_singleton_self]
    · rename_i other
      rw [List.count_eq_zero.mpr]
      exact fun inLast => other (Option.mem_toList.mp inLast)
  · intro serial member
    rcases List.mem_append.mp member with before | last
    · rcases List.mem_append.mp before with earlier | inLog
      · exact Or.inl (sound.closed_mem serial earlier)
      · exact Or.inr (foreign serial inLog).2
    · obtain ⟨file, found, rfl⟩ := Option.map_eq_some_iff.mp (Option.mem_toList.mp last)
      have bound : process.server.sock ≠ -1 := by
        have positive := process.table.nonneg _ file found
        omega
      obtain ⟨held, foundHeld, member⟩ := sound.held bound
      rw [found] at foundHeld
      exact Or.inl (Option.some.inj foundHeld ▸ member)

/-- `bind` is all-or-nothing, and descriptors are closed exactly once, exactly when every attempt
is safe. In every run of attempts from a fresh server, among whatever else the process opens and
closes, every attempt is all-or-nothing and the destructor behind the run leaves everything
closed exactly once if and only if no attempt leaves by a stale exit and none gets past `listen`
with assertions compiled out. -/
theorem allOrNothing_iff_safe (assertions : Bool) (start : ServerProcess) (fresh : start.Fresh)
    (calls : List ServerCall) :
    (PartialRun.Each (step assertions) (AllOrNothing assertions) start calls ∧
      ∀ final, PartialRun.run (step assertions) start calls = some final → final.ClosedOnce) ↔
      PartialRun.Each (step assertions) (Safe assertions) start calls := by
  have along : PartialRun.Each (step assertions) (AllOrNothing assertions) start calls ↔
      PartialRun.Each (step assertions) (Safe assertions) start calls :=
    PartialRun.each_congr Sound
      (fun process call next sound safe stepped => sound.step call safe stepped)
      (fun process call sound => sound.allOrNothing_iff call) fresh.sound
  refine ⟨fun both => along.mp both.1, fun safe => ⟨along.mpr safe, fun final reached => ?_⟩⟩
  exact (PartialRun.run_invariant Sound
    (fun process call next sound allowed stepped => sound.step call allowed stepped)
    fresh.sound safe reached).closedOnce

/-- A process without open files and a server without an `epoll` descriptor. -/
def idle : ServerProcess where
  server := { sock := -1, kdpfd := -1 }
  table := Table.empty
  obtained := []
  closed := []

theorem idle_fresh : idle.Fresh := ⟨rfl, rfl, rfl, Or.inl rfl⟩

/-- The law of the attempts, with assertions compiled out: behind the constructor one attempt fails
at `listen`, another part of the process is given its descriptor, and the next attempt fails at
`SO_REUSEADDR`. -/
theorem allOrNothing_iff_safe_retried :
    ∃ server, construct false idle 3 = some server ∧
      PartialRun.Each (step false) (AllOrNothing false) server
        [.bind ⟨5, true, true, true, true, false, false⟩, .openOther 5,
          .bind ⟨6, false, true, true, true, true, true⟩] ∧
      ∀ final, PartialRun.run (step false) server
          [.bind ⟨5, true, true, true, true, false, false⟩, .openOther 5,
            .bind ⟨6, false, true, true, true, true, true⟩] = some final → final.ClosedOnce := by
  have free : idle.table.Free 3 := ⟨by decide, rfl⟩
  obtain ⟨server, built⟩ : ∃ server, construct false idle 3 = some server := by
    rw [construct, dif_pos free]
    exact ⟨_, rfl⟩
  refine ⟨server, built, (allOrNothing_iff_safe false server (construct_fresh built) _).mpr
    (PartialRun.each_of_forall (fun call member process => ?_) server)⟩
  rcases List.mem_cons.mp member with rfl | member
  · exact fun _ _ => by decide
  rcases List.mem_cons.mp member with rfl | member
  · trivial
  · obtain rfl := List.mem_singleton.mp member
    exact fun _ _ => by decide

/-- An attempt that gets descriptor 5 and fails at `SO_RCVBUF`. -/
def staleBind : ServerCall := .bind ⟨5, true, false, true, true, true, true⟩

/-- The idle process behind that attempt: `sock` is still 5. -/
def stale : ServerProcess := idle.spent.setSock 5

theorem stale_free : stale.table.Free 5 := ⟨by decide, rfl⟩

/-- Another part of the process has been given descriptor 5 behind that attempt. -/
def reused : ServerProcess :=
  { stale with table := stale.table.insert 5 stale_free ⟨false, false, false⟩ }

/-- When `SO_RCVBUF` fails and another part of the process opens a file, the destructor closes that
file. -/
theorem destructor_closes_other :
    PartialRun.run (step true) idle [staleBind, .openOther 5] = some reused ∧
      ¬ PartialRun.Each (step true) (AllOrNothing true) idle [staleBind, .openOther 5] ∧
      ¬ reused.ClosedOnce := by
  have free : idle.table.Free 5 := ⟨by decide, rfl⟩
  have leaves : BindAnswers.Stale ⟨5, true, false, true, true, true, true⟩ := by decide
  have attempted : step true idle staleBind = some stale := by
    rw [staleBind, step, bind_of_free rfl free, if_pos leaves, Option.map_some, stale]
  have opened : step true stale (.openOther 5) = some reused := by
    rw [step, dif_pos stale_free, reused]
  refine ⟨?_, ?_, ?_⟩
  · rw [PartialRun.run_cons, attempted, Option.bind_some, PartialRun.run_singleton, opened]
  · rintro ⟨attempt, -⟩
    exact (idle_fresh.sound.allOrNothing_iff _ |>.mp attempt rfl free).1 leaves
  · rintro ⟨-, onlyOwn⟩
    rcases onlyOwn 1 (by decide) with obtained | behind
    · exact absurd obtained (by decide)
    · exact absurd behind (by decide)

end ServerProcess

end SelftestNet
