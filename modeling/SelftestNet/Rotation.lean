/-
This file follows every record of the log through the renamings. A history beside the
process numbers the records as they are written and keeps them by file, so that two records
with the same text are told apart. A renaming puts a file in the place of the one that has
its new name, and the new name tells only the stream and the second: a stream that is
renamed twice in one second loses the records of the first file. This file proves that
records are lost in no other way, and that what is kept stays in the order of writing.
-/

import SelftestNet.Log
import SelftestNet.Run

namespace SelftestNet

open PartialRun

/-! ### The history of the log -/

/-- What files consist of: content from before the run, told apart by where it was then, and
numbered records. -/
inductive Entry
  | earlier (name : List Char) (content : List UInt8)
  | record (serial : Nat) (line : List UInt8)

/-- The bytes in the file. -/
def Entry.bytes : Entry → List UInt8
  | .earlier _ content => content
  | .record _ line => line

/-- The entry is a record. -/
def Entry.isRecord : Entry → Bool
  | .earlier .. => false
  | .record .. => true

/-- The files by their entries, the records that have been written, and the streams and seconds of
the renamings that succeeded. -/
structure LogHistory where
  entries : Directory (List Char) Entry
  written : List Entry
  rotated : List (Stream × Tm)

namespace LogHistory

/-- The history of a directory in which no record has been written. -/
def start (directory : Directory (List Char) UInt8) : LogHistory where
  entries := ⟨fun name => (directory.files name).map fun content => [.earlier name content]⟩
  written := []
  rotated := []

/-- The record of a call. -/
def record (newline : List UInt8) (history : LogHistory) (call : LogCall) : Entry :=
  .record history.written.length (call.line newline)

/-- The history behind the writing of a line. -/
def add (newline : List UInt8) (history : LogHistory) (call : LogCall) : LogHistory where
  entries := history.entries.append call.source [history.record newline call]
  written := history.written ++ [history.record newline call]
  rotated := history.rotated

@[simp]
theorem add_entries (newline : List UInt8) (history : LogHistory) (call : LogCall) :
    (history.add newline call).entries =
      history.entries.append call.source [history.record newline call] := rfl

@[simp]
theorem add_written (newline : List UInt8) (history : LogHistory) (call : LogCall) :
    (history.add newline call).written = history.written ++ [history.record newline call] := rfl

@[simp]
theorem add_rotated (newline : List UInt8) (history : LogHistory) (call : LogCall) :
    (history.add newline call).rotated = history.rotated := rfl

/-- The history behind a renaming. -/
def move (history : LogHistory) (call : LogCall) : LogHistory where
  entries := history.entries.rename call.source call.target
  written := history.written
  rotated := (call.stream, call.t) :: history.rotated

@[simp]
theorem move_entries (history : LogHistory) (call : LogCall) :
    (history.move call).entries = history.entries.rename call.source call.target := rfl

@[simp]
theorem move_written (history : LogHistory) (call : LogCall) :
    (history.move call).written = history.written := rfl

@[simp]
theorem move_rotated (history : LogHistory) (call : LogCall) :
    (history.move call).rotated = (call.stream, call.t) :: history.rotated := rfl

/-- The history behind a call that finds the given directory. -/
def after (debug : Bool) (newline : List UInt8) (directory : Directory (List Char) UInt8)
    (history : LogHistory) (call : LogCall) : LogHistory :=
  if call.Writes debug then
    if call.Rotates newline directory then (history.add newline call).move call
    else history.add newline call
  else history

/-- The call renames a file in a second in which one of its stream has been renamed before. -/
def Overwrites (debug : Bool) (newline : List UInt8) (directory : Directory (List Char) UInt8)
    (history : LogHistory) (call : LogCall) : Prop :=
  call.Writes debug ∧ call.Rotates newline directory ∧ (call.stream, call.t) ∈ history.rotated

/-- Each record is in exactly one file. -/
def Preserved (history : LogHistory) : Prop :=
  ∀ record ∈ history.written, ∃! name, record ∈ history.entries.cells name

/-- The records of each file are in the order in which they were written. -/
def InOrder (history : LogHistory) : Prop :=
  ∀ name, ((history.entries.cells name).filter Entry.isRecord).Sublist history.written

/-! ### What every call keeps -/

/-- No entry is in two files, records are in order and numbered, and a name of the second kind has
records exactly when a file was renamed to it. -/
structure Sound (history : LogHistory) : Prop where
  apart : history.entries.Apart
  inOrder : history.InOrder
  numbered : ∀ entry ∈ history.written,
    ∃ serial line, entry = .record serial line ∧ serial < history.written.length
  renamed : ∀ stream t,
    (∃ entry ∈ history.entries.cells (szNewDirName stream.name t), entry.isRecord = true) ↔
      (stream, t) ∈ history.rotated

theorem mem_cells_start {directory : Directory (List Char) UInt8} {name : List Char}
    {entry : Entry} (member : entry ∈ (start directory).entries.cells name) :
    ∃ content, entry = .earlier name content := by
  unfold start Directory.cells at member
  dsimp only at member
  cases file : directory.files name with
  | none =>
    rw [file] at member
    cases member
  | some content =>
    rw [file] at member
    exact ⟨content, List.mem_singleton.mp member⟩

theorem sound_start (directory : Directory (List Char) UInt8) : (start directory).Sound where
  apart := by
    intro entry first second memberFirst memberSecond
    obtain ⟨content, rfl⟩ := mem_cells_start memberFirst
    obtain ⟨_, same⟩ := mem_cells_start memberSecond
    injection same
  inOrder := by
    intro name
    rw [List.filter_eq_nil_iff.mpr]
    · exact List.nil_sublist _
    · intro entry member
      obtain ⟨content, rfl⟩ := mem_cells_start member
      exact Bool.false_ne_true
  numbered := by
    intro entry member
    cases member
  renamed := by
    intro stream t
    refine iff_of_false ?_ List.not_mem_nil
    rintro ⟨entry, member, isRecord⟩
    obtain ⟨content, rfl⟩ := mem_cells_start member
    exact Bool.false_ne_true isRecord

variable {debug : Bool} {newline : List UInt8} {directory : Directory (List Char) UInt8}
  {history : LogHistory}

/-- The records in the files are among those that have been written. -/
theorem Sound.mem_written (sound : history.Sound) {name : List Char} {entry : Entry}
    (member : entry ∈ history.entries.cells name) (isRecord : entry.isRecord = true) :
    entry ∈ history.written :=
  (sound.inOrder name).subset (List.mem_filter.mpr ⟨member, isRecord⟩)

theorem Sound.record_notMem_written (sound : history.Sound) (call : LogCall) :
    history.record newline call ∉ history.written := by
  intro member
  obtain ⟨serial, line, same, less⟩ := sound.numbered _ member
  injection same with number
  exact absurd number (Nat.ne_of_gt less)

/-- The record of a call is not in a file yet. -/
theorem Sound.not_keeps_record (sound : history.Sound) (call : LogCall) :
    ¬ history.entries.Keeps (history.record newline call) := by
  rintro ⟨name, member⟩
  exact sound.record_notMem_written call (sound.mem_written member rfl)

theorem Sound.add (sound : history.Sound) (call : LogCall) : (history.add newline call).Sound where
  apart := by
    rw [add_entries]
    refine sound.apart.append call.source fun entry member => ?_
    rw [List.mem_singleton.mp member]
    exact sound.not_keeps_record call
  inOrder := by
    intro name
    rw [add_entries, add_written]
    by_cases here : name = call.source
    · rw [here, Directory.cells_append_self, List.filter_append]
      exact (sound.inOrder call.source).append (List.Sublist.refl _)
    · rw [Directory.cells_append_of_ne _ here]
      exact (sound.inOrder name).trans (List.sublist_append_left ..)
  numbered := by
    intro entry member
    rw [add_written] at member
    rw [add_written, List.length_append]
    rcases List.mem_append.mp member with old | new
    · obtain ⟨serial, line, same, less⟩ := sound.numbered entry old
      exact ⟨serial, line, same, Nat.lt_succ_of_lt less⟩
    · exact ⟨_, _, List.mem_singleton.mp new, Nat.lt_succ_self _⟩
  renamed := by
    intro stream t
    have notSource : szNewDirName stream.name t ≠ call.source :=
      Ne.symm (szDirName_ne_szNewDirName call.stream stream call.t t)
    rw [add_entries, add_rotated, Directory.cells_append_of_ne _ notSource]
    exact sound.renamed stream t

theorem preserved_iff_keeps (apart : history.entries.Apart) :
    history.Preserved ↔ ∀ record ∈ history.written, history.entries.Keeps record :=
  forall₂_congr fun record _ => apart.existsUnique_iff record

/-- Writing a line loses nothing. -/
theorem Sound.preserved_add (sound : history.Sound) (call : LogCall) :
    (history.add newline call).Preserved ↔ history.Preserved := by
  rw [preserved_iff_keeps (sound.add call).apart, preserved_iff_keeps sound.apart, add_entries,
    add_written]
  constructor
  · intro kept record member
    rcases Directory.keeps_append.mp (kept record (List.mem_append_left _ member)) with old | new
    · exact old
    · rw [List.mem_singleton.mp new] at member
      exact absurd member (sound.record_notMem_written call)
  · intro kept record member
    exact Directory.keeps_append.mpr ((List.mem_append.mp member).imp_left (kept record))

theorem Sound.move (sound : history.Sound) {call : LogCall} {entry : Entry}
    (member : entry ∈ history.entries.cells call.source) (isRecord : entry.isRecord = true) :
    (history.move call).Sound where
  apart := by
    rw [move_entries]
    exact sound.apart.rename call.source_ne_target
  inOrder := by
    intro name
    rw [move_entries, move_written]
    exact Directory.forall_cells_rename
      (fun cells => (cells.filter Entry.isRecord).Sublist history.written) (List.nil_sublist _)
      sound.inOrder call.source_ne_target name
  numbered := by
    rw [move_written]
    exact sound.numbered
  renamed := by
    intro stream t
    rw [move_entries, move_rotated, List.mem_cons]
    by_cases here : (stream, t) = (call.stream, call.t)
    · obtain ⟨rfl, rfl⟩ := Prod.mk.inj here
      refine iff_of_true ⟨entry, ?_, isRecord⟩ (Or.inl rfl)
      have moved := Directory.cells_rename_target history.entries call.source_ne_target
      rwa [← moved] at member
    · have notTarget : szNewDirName stream.name t ≠ call.target := by
        intro same
        obtain ⟨sameStream, sameTime⟩ := szNewDirName_inj same
        exact here (Prod.ext sameStream sameTime)
      have notSource : szNewDirName stream.name t ≠ call.source :=
        Ne.symm (szDirName_ne_szNewDirName call.stream stream call.t t)
      rw [Directory.cells_rename_of_ne _ notSource notTarget, or_iff_right here]
      exact sound.renamed stream t

/-- A renaming loses records exactly when there was one of the stream in this second. -/
theorem Sound.preserved_move (sound : history.Sound) (call : LogCall) :
    (history.move call).Preserved ↔
      history.Preserved ∧ (call.stream, call.t) ∉ history.rotated := by
  have different := call.source_ne_target
  have apartMoved : (history.move call).entries.Apart := sound.apart.rename different
  rw [preserved_iff_keeps apartMoved, preserved_iff_keeps sound.apart, move_entries, move_written]
  constructor
  · intro kept
    have apart : ∀ record ∈ history.written,
        history.entries.Keeps record ∧ record ∉ history.entries.cells call.target :=
      fun record member => (sound.apart.keeps_rename different).mp (kept record member)
    refine ⟨fun record member => (apart record member).1, fun again => ?_⟩
    obtain ⟨entry, there, isRecord⟩ := (sound.renamed call.stream call.t).mpr again
    exact (apart entry (sound.mem_written there isRecord)).2 there
  · rintro ⟨kept, firstTime⟩ record member
    refine (sound.apart.keeps_rename different).mpr ⟨kept record member, fun there => ?_⟩
    obtain ⟨serial, line, rfl, -⟩ := sound.numbered record member
    exact firstTime ((sound.renamed call.stream call.t).mp ⟨_, there, rfl⟩)

theorem mem_cells_add (call : LogCall) :
    history.record newline call ∈ (history.add newline call).entries.cells call.source :=
  Directory.mem_cells_append.mpr (Or.inr ⟨rfl, List.mem_singleton_self _⟩)

theorem Sound.after (sound : history.Sound) (call : LogCall) :
    (history.after debug newline directory call).Sound := by
  unfold LogHistory.after
  split
  · split
    · exact (sound.add call).move (mem_cells_add call) rfl
    · exact sound.add call
  · exact sound

/-- A call loses records exactly when it overwrites a file. -/
theorem Sound.preserved_after (sound : history.Sound) (call : LogCall) :
    (history.after debug newline directory call).Preserved ↔
      history.Preserved ∧ ¬ history.Overwrites debug newline directory call := by
  unfold LogHistory.after
  split_ifs with writes rotates
  · rw [(sound.add call).preserved_move, sound.preserved_add]
    refine and_congr_right fun _ => not_congr ?_
    exact ⟨fun again => ⟨writes, rotates, again⟩, fun overwrites => overwrites.2.2⟩
  · rw [sound.preserved_add]
    exact (and_iff_left fun overwrites => rotates overwrites.2.1).symm
  · exact (and_iff_left fun overwrites => writes overwrites.1).symm

/-- The files of the history change as those of the directory do. -/
theorem entries_after (call : LogCall) :
    (history.after debug newline directory call).entries =
      if call.Writes debug then
        call.write history.entries [history.record newline call] (call.Rotates newline directory)
      else history.entries := by
  unfold LogHistory.after LogCall.write
  split_ifs <;> rfl

theorem expand_after (call : LogCall) :
    (history.after debug newline directory call).entries.expand Entry.bytes =
      if call.Writes debug then
        call.write (history.entries.expand Entry.bytes) (call.line newline)
          (call.Rotates newline directory)
      else history.entries.expand Entry.bytes := by
  have printed : [history.record newline call].flatMap Entry.bytes = call.line newline :=
    List.flatMap_singleton ..
  rw [entries_after]
  split
  · rw [LogCall.expand_write, printed]
  · rfl

theorem rotated_after {call : LogCall} (writes : call.Writes debug)
    (rotates : call.Rotates newline directory) :
    (history.after debug newline directory call).rotated =
      (call.stream, call.t) :: history.rotated := by
  rw [LogHistory.after, if_pos writes, if_pos rotates]
  rfl

theorem written_after (call : LogCall) :
    (history.after debug newline directory call).written.map Entry.bytes =
      history.written.map Entry.bytes ++ if call.Writes debug then [call.line newline] else [] := by
  unfold LogHistory.after
  split_ifs with writes rotates
  · exact List.map_append
  · exact List.map_append
  · exact (List.append_nil _).symm

end LogHistory

/-! ### Runs of the log -/

/-- The process with the history of its log. -/
structure LogSystem where
  process : LogProcess
  history : LogHistory

namespace LogSystem

/-- A process that finds its directory as it is and has written no record. -/
def start (process : LogProcess) : LogSystem where
  process := process
  history := .start process.directory

/-- One call. -/
def step (debug : Bool) (newline : List UInt8) (system : LogSystem) (call : LogCall) :
    Option LogSystem :=
  (system.process.step debug newline call).map fun process =>
    ⟨process, system.history.after debug newline system.process.directory call⟩

/-- The files of the directory are those of the history. -/
structure Sound (system : LogSystem) : Prop where
  history : system.history.Sound
  printed : system.process.directory = system.history.entries.expand Entry.bytes

theorem sound_start (process : LogProcess) : (start process).Sound where
  history := LogHistory.sound_start process.directory
  printed := by
    refine congrArg Directory.mk (funext fun name => ?_)
    unfold start LogHistory.start
    dsimp only
    cases process.directory.files name with
    | none => rfl
    | some content => exact congrArg some (List.append_nil content).symm

variable {debug : Bool} {newline : List UInt8} {system next : LogSystem} {call : LogCall}

theorem step_history (stepped : system.step debug newline call = some next) :
    next.history = system.history.after debug newline system.process.directory call := by
  obtain ⟨process, -, rfl⟩ := Option.map_eq_some_iff.mp stepped
  rfl

theorem step_directory (stepped : system.step debug newline call = some next) :
    next.process.directory =
      if call.Writes debug then
        call.write system.process.directory (call.line newline)
          (call.Rotates newline system.process.directory)
      else system.process.directory := by
  obtain ⟨clog, performed⟩ := system.process.step_eq debug newline call
  rw [step, performed, Option.map_some] at stepped
  rw [← Option.some.inj stepped]

theorem Sound.step (sound : system.Sound)
    (stepped : system.step debug newline call = some next) : next.Sound where
  history := step_history stepped ▸ sound.history.after call
  printed := by
    rw [step_directory stepped, step_history stepped, LogHistory.expand_after, sound.printed]

/-- Every call is defined. -/
theorem exists_run (debug : Bool) (newline : List UInt8) (process : LogProcess)
    (calls : List LogCall) :
    ∃ final, run (LogSystem.step debug newline) (start process) calls = some final ∧
      final.Sound := by
  refine run_defined Sound ?_ (sound_start process)
    (each_true (LogSystem.step debug newline) (start process) calls)
  intro system call sound _
  obtain ⟨clog, performed⟩ := system.process.step_eq debug newline call
  have stepped : system.step debug newline call = some _ := congrArg _ performed
  exact ⟨_, stepped, sound.step stepped⟩

/-- The history watches the process and does not change what it does. -/
theorem run_process (debug : Bool) (newline : List UInt8) (system : LogSystem)
    (calls : List LogCall) :
    run (LogProcess.step debug newline) system.process calls =
      (run (LogSystem.step debug newline) system calls).map LogSystem.process := by
  refine run_projection LogSystem.process (fun system call => ?_) system calls
  rw [LogSystem.step, Option.map_map]
  exact (congrFun Option.map_id _).symm

/-- A run keeps its records exactly when no call overwrites a file. -/
theorem preserved_run_iff {process : LogProcess} {calls : List LogCall} {final : LogSystem}
    (reached : run (LogSystem.step debug newline) (start process) calls = some final) :
    final.history.Preserved ↔
      Each (LogSystem.step debug newline)
        (fun system call => ¬ system.history.Overwrites debug newline system.process.directory call)
        (start process) calls := by
  have nothing : (start process).history.Preserved := fun record member => nomatch member
  refine (run_property_iff_each Sound (fun system => system.history.Preserved)
    (fun _ _ _ => Sound.step) ?_ (sound_start process) reached).trans (and_iff_right nothing)
  intro system call next sound stepped
  rw [step_history stepped]
  exact sound.history.preserved_after call

/-- There is no file with the new name when the call renames one. -/
def Exclusive (system : LogSystem) (call : LogCall) : Prop :=
  call.io.renames = true → system.process.directory.files call.target = none

/-- A file that is overwritten is there before. -/
theorem Sound.not_overwrites (sound : system.Sound) (exclusive : system.Exclusive call) :
    ¬ system.history.Overwrites debug newline system.process.directory call := by
  rintro ⟨-, rotates, again⟩
  obtain ⟨entry, there, -⟩ := (sound.history.renamed call.stream call.t).mpr again
  have absent := exclusive rotates.2
  rw [sound.printed, Directory.expand, Option.map_eq_none_iff] at absent
  rw [← LogCall.target, Directory.cells, absent] at there
  exact List.not_mem_nil there

/-- On a system whose `rename` fails when the new name is in use a run keeps its records. -/
theorem preserved_of_exclusive {process : LogProcess} {calls : List LogCall} {final : LogSystem}
    (exclusive : Each (LogSystem.step debug newline) Exclusive (start process) calls)
    (reached : run (LogSystem.step debug newline) (start process) calls = some final) :
    final.history.Preserved := by
  refine (preserved_run_iff reached).mpr ?_
  refine each_of_each Sound ?_ ?_ (sound_start process) exclusive
  · exact fun system call next sound _ stepped => sound.step stepped
  · exact fun system call sound exclusively => sound.not_overwrites exclusively

theorem written_run {calls : List LogCall} {system final : LogSystem}
    (reached : run (LogSystem.step debug newline) system calls = some final) :
    final.history.written.map Entry.bytes =
      system.history.written.map Entry.bytes ++
        (calls.filter fun call => call.Writes debug).map (LogCall.line newline) := by
  induction calls generalizing system with
  | nil =>
    rw [run_nil] at reached
    rw [Option.some.inj reached, List.filter_nil, List.map_nil, List.append_nil]
  | cons call rest inductionHypothesis =>
    rw [run_cons, Option.bind_eq_some_iff] at reached
    obtain ⟨next, stepped, remaining⟩ := reached
    rw [inductionHypothesis remaining, step_history stepped, LogHistory.written_after]
    by_cases writes : call.Writes debug
    · rw [if_pos writes, List.filter_cons, if_pos (decide_eq_true writes), List.map_cons,
        List.append_assoc, List.singleton_append]
    · rw [if_neg writes, List.filter_cons, if_neg (mt of_decide_eq_true writes), List.append_nil]

end LogSystem

/-- The log renames a file that has become too long, instead of removing it, and puts the time into
the new name. From any directory, and whatever the calls, their times and the answers of the file
system, the files consist of what was there and of the lines of the calls that wrote one. Every
record is in exactly one file, and each file in the order of writing, if and only if no call whose
line makes the file too long renames it, successfully, in a second in which a file of the same
stream has been renamed. -/
theorem records_preserved_iff (debug : Bool) (newline : List UInt8) (process : LogProcess)
    (calls : List LogCall) :
    ∃ final,
      run (LogSystem.step debug newline) (LogSystem.start process) calls = some final ∧
      run (LogProcess.step debug newline) process calls = some final.process ∧
      final.process.directory = final.history.entries.expand Entry.bytes ∧
      final.history.written.map Entry.bytes =
        (calls.filter fun call => call.Writes debug).map (LogCall.line newline) ∧
      (final.history.Preserved ∧ final.history.InOrder ↔
        Each (LogSystem.step debug newline)
          (fun system call =>
            ¬ system.history.Overwrites debug newline system.process.directory call)
          (LogSystem.start process) calls) := by
  obtain ⟨final, reached, sound⟩ := LogSystem.exists_run debug newline process calls
  have performed : run (LogProcess.step debug newline) process calls = some final.process := by
    refine (LogSystem.run_process debug newline (LogSystem.start process) calls).trans ?_
    rw [reached, Option.map_some]
  refine ⟨final, reached, performed, sound.printed, LogSystem.written_run reached, ?_⟩
  rw [and_iff_left sound.history.inOrder]
  exact LogSystem.preserved_run_iff reached

/-- A net message of ten megabytes, to a file system where every call succeeds. -/
def tenMegabytes : LogCall where
  stream := .net
  t := ⟨114, 6, 12, 9, 30, 0, by decide⟩
  io := ⟨true, 0, true⟩
  text := List.replicate 10485760 65

theorem length_tenMegabytes : tenMegabytes.text.length = 10485760 := List.length_replicate

theorem tenMegabytes_unterminated : ∀ byte ∈ tenMegabytes.text, byte ≠ 0 := by
  intro byte member
  rw [List.eq_of_mem_replicate member]
  decide

theorem tenMegabytes_writes (debug : Bool) : tenMegabytes.Writes debug := by
  refine ⟨fun isDebug => Stream.noConfusion isDebug, ?_, rfl⟩
  rw [cStr_of_unterminated tenMegabytes_unterminated]
  refine List.ne_nil_of_length_pos ?_
  rw [length_tenMegabytes]
  decide

/-- The message makes its file too long, also when it is the first one there. -/
theorem tenMegabytes_rotates {directory : Directory (List Char) UInt8}
    (absent : directory.cells tenMegabytes.source = []) : tenMegabytes.Rotates [10] directory := by
  refine ⟨?_, rfl⟩
  rw [absent, LogCall.length_line tenMegabytes_unterminated, length_tenMegabytes]
  decide

/-- The second of two such messages in one second loses the first one. -/
theorem first_record_lost :
    ∃ final,
      run (LogSystem.step true [10]) (LogSystem.start ⟨⟨[]⟩, Directory.empty⟩)
        [tenMegabytes, tenMegabytes] = some final ∧
      ¬ final.history.Preserved := by
  obtain ⟨final, reached, -⟩ := LogSystem.exists_run true [10] ⟨⟨[]⟩, Directory.empty⟩
    [tenMegabytes, tenMegabytes]
  refine ⟨final, reached, fun preserved => ?_⟩
  have rotates : tenMegabytes.Rotates [10]
      (LogSystem.start ⟨⟨[]⟩, Directory.empty⟩).process.directory := tenMegabytes_rotates rfl
  obtain ⟨next, stepped, -⟩ := Option.bind_eq_some_iff.mp reached
  obtain ⟨-, later⟩ := (LogSystem.preserved_run_iff reached).mp preserved
  refine (later next stepped).1 ⟨tenMegabytes_writes true, tenMegabytes_rotates ?_, ?_⟩
  · rw [LogSystem.step_directory stepped, if_pos (tenMegabytes_writes true)]
    exact tenMegabytes.cells_source_write _ _ rotates
  · rw [LogSystem.step_history stepped, LogHistory.rotated_after (tenMegabytes_writes true) rotates]
    exact List.mem_cons_self

end SelftestNet
