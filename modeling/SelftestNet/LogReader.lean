/-
This file proves that the log can be read back. A reader that is given nothing but the
directory takes the files of one stream and one day in the order of their names, the one that
is still written to at last, cuts them into lines and takes every line apart. While the clock
does not go back within a day and no file is renamed to a name in use, it gets the records of
that stream and that day, each once and in the order of writing, whatever else is logged in
between and whenever a file is renamed.
-/

import Mathlib.Data.List.Nodup
import SelftestNet.Framing
import SelftestNet.Rotation

namespace SelftestNet

open Decimal Framing PartialRun

/-! ### The seconds of a day -/

namespace Tm

/-- The two times are on one day. -/
def SameDay (t other : Tm) : Prop :=
  t.tmYear = other.tmYear ∧ t.tmMon = other.tmMon ∧ t.tmMday = other.tmMday

instance (t other : Tm) : Decidable (t.SameDay other) := inferInstanceAs (Decidable (_ ∧ _))

theorem SameDay.refl (t : Tm) : t.SameDay t := ⟨rfl, rfl, rfl⟩

theorem SameDay.symm {t other : Tm} (same : t.SameDay other) : other.SameDay t :=
  ⟨same.1.symm, same.2.1.symm, same.2.2.symm⟩

/-- The number of the second within its day, when every minute has a leap second. -/
def clock (t : Tm) : Nat := (t.tmHour * 60 + t.tmMin) * 61 + t.tmSec

/-- How many numbers there are. -/
def clocks : Nat := 24 * 60 * 61

/-- The second of the day with a number. -/
def atClock (t : Tm) (clock : Nat) : Tm :=
  { t with
    tmHour := ⟨clock / 61 / 60 % 24, Nat.mod_lt _ (Nat.succ_pos 23)⟩
    tmMin := ⟨clock / 61 % 60, Nat.mod_lt _ (Nat.succ_pos 59)⟩
    tmSec := ⟨clock % 61, Nat.mod_lt _ (Nat.succ_pos 60)⟩ }

theorem clock_lt (t : Tm) : t.clock < clocks := by
  have hour := t.tmHour.isLt
  have min := t.tmMin.isLt
  have sec := t.tmSec.isLt
  unfold clock clocks
  omega

theorem clock_atClock (t : Tm) {clock : Nat} (small : clock < clocks) :
    (t.atClock clock).clock = clock := by
  unfold clocks at small
  simp only [Tm.clock, atClock]
  omega

theorem sameDay_atClock (t : Tm) (clock : Nat) : (t.atClock clock).SameDay t := ⟨rfl, rfl, rfl⟩

theorem atClock_of_sameDay {t other : Tm} (same : t.SameDay other) : other.atClock t.clock = t := by
  have hour := t.tmHour.isLt
  have min := t.tmMin.isLt
  have sec := t.tmSec.isLt
  refine Tm.ext same.1.symm same.2.1.symm same.2.2.symm (Fin.ext ?_) (Fin.ext ?_) (Fin.ext ?_)
  all_goals
    simp only [atClock, clock]
    omega

end Tm

/-! ### The files of a day -/

/-- The name that the file of a day is renamed to in the second with a number. -/
def rotatedName (stream : Stream) (t : Tm) (clock : Nat) : List Char :=
  szNewDirName stream.name (t.atClock clock)

/-- The names that the file of a day can be renamed to, in their order. -/
def rotatedNames (stream : Stream) (t : Tm) : List (List Char) :=
  (List.range Tm.clocks).map (rotatedName stream t)

/-- The names of the files of a day, the one that is written to at last. -/
def dayNames (stream : Stream) (t : Tm) : List (List Char) :=
  rotatedNames stream t ++ [szDirName stream.name t]

theorem dayName_of_sameDay {t other : Tm} (same : t.SameDay other) (name : List Char) :
    dayName name t = dayName name other := by
  obtain ⟨year, mon, mday⟩ := same
  unfold dayName
  rw [year, mon, mday]

theorem dayNames_of_sameDay {t other : Tm} (same : t.SameDay other) (stream : Stream) :
    dayNames stream t = dayNames stream other := by
  have times (clock : Nat) : t.atClock clock = other.atClock clock :=
    Tm.ext same.1 same.2.1 same.2.2 rfl rfl rfl
  unfold dayNames rotatedNames rotatedName szDirName
  simp only [times, dayName_of_sameDay same]

/-- A file of a day is named after its stream and its day. -/
theorem szDirName_inj {stream other : Stream} {t time : Tm}
    (same : szDirName stream.name t = szDirName other.name time) :
    stream = other ∧ t.SameDay time :=
  dayName_inj (List.append_inj_left' same rfl)

theorem mem_rotatedNames {stream : Stream} {t : Tm} {name : List Char} :
    name ∈ rotatedNames stream t ↔
      ∃ time : Tm, time.SameDay t ∧ szNewDirName stream.name time = name := by
  rw [rotatedNames, List.mem_map]
  constructor
  · rintro ⟨clock, -, named⟩
    exact ⟨_, t.sameDay_atClock clock, named⟩
  · rintro ⟨time, same, named⟩
    refine ⟨time.clock, List.mem_range.mpr time.clock_lt, ?_⟩
    rw [rotatedName, Tm.atClock_of_sameDay same, named]

/-- The names from the one of a second on are those of this second and of later ones. -/
theorem exists_rotatedNames (stream : Stream) (t : Tm) :
    ∃ before after, rotatedNames stream t = before ++ szNewDirName stream.name t :: after ∧
      ∀ name ∈ szNewDirName stream.name t :: after,
        ∃ time : Tm, time.SameDay t ∧ t.clock ≤ time.clock ∧
          szNewDirName stream.name time = name := by
  obtain ⟨before, after, range⟩ := List.append_of_mem (List.mem_range.mpr t.clock_lt)
  have ordered := List.pairwise_append.mp (range ▸ List.pairwise_lt_range)
  refine ⟨before.map (rotatedName stream t), after.map (rotatedName stream t), ?_,
    fun name member => ?_⟩
  · rw [rotatedNames, range, List.map_append, List.map_cons, rotatedName,
      Tm.atClock_of_sameDay (.refl t)]
  · rcases List.mem_cons.mp member with rfl | later
    · exact ⟨t, .refl t, Nat.le_refl _, rfl⟩
    · obtain ⟨clock, listed, rfl⟩ := List.mem_map.mp later
      have small : clock < Tm.clocks :=
        List.mem_range.mp (range ▸ List.mem_append_right _ (List.mem_cons_of_mem _ listed))
      refine ⟨_, t.sameDay_atClock clock, ?_, rfl⟩
      rw [t.clock_atClock small]
      exact Nat.le_of_lt ((List.pairwise_cons.mp ordered.2.1).1 clock listed)

theorem nodup_dayNames (stream : Stream) (t : Tm) : (dayNames stream t).Nodup := by
  refine List.nodup_append.mpr ⟨?_, List.nodup_singleton _, ?_⟩
  · refine List.Nodup.map_on (fun first memberFirst second memberSecond same => ?_) List.nodup_range
    have clocks := congrArg Tm.clock (szNewDirName_inj same).2
    rwa [t.clock_atClock (List.mem_range.mp memberFirst),
      t.clock_atClock (List.mem_range.mp memberSecond)] at clocks
  · intro rotated member name last same
    obtain ⟨time, -, rfl⟩ := mem_rotatedNames.mp member
    exact szDirName_ne_szNewDirName stream stream t time
      ((List.mem_singleton.mp last).symm.trans same.symm)

/-! ### What a call does to the files of a day -/

namespace LogCall

/-- The call is of the stream and the day. -/
def About (stream : Stream) (t : Tm) (call : LogCall) : Prop :=
  call.stream = stream ∧ call.t.SameDay t

instance (stream : Stream) (t : Tm) (call : LogCall) : Decidable (call.About stream t) :=
  inferInstanceAs (Decidable (_ ∧ _))

variable {call : LogCall} {stream : Stream} {t : Tm}

theorem dayNames_of_about (about : call.About stream t) :
    dayNames stream t = dayNames call.stream call.t := by
  rw [← about.1, dayNames_of_sameDay about.2]

theorem source_notMem_rotatedNames (call : LogCall) : call.source ∉ rotatedNames stream t := by
  intro member
  obtain ⟨time, -, named⟩ := mem_rotatedNames.mp member
  exact szDirName_ne_szNewDirName call.stream stream call.t time named.symm

theorem source_notMem_dayNames (other : ¬ call.About stream t) :
    call.source ∉ dayNames stream t := by
  intro member
  rcases List.mem_append.mp member with rotated | live
  · exact call.source_notMem_rotatedNames rotated
  · exact other (szDirName_inj (List.mem_singleton.mp live))

theorem target_notMem_dayNames (other : ¬ call.About stream t) :
    call.target ∉ dayNames stream t := by
  intro member
  rcases List.mem_append.mp member with rotated | live
  · obtain ⟨time, same, named⟩ := mem_rotatedNames.mp rotated
    obtain ⟨rfl, rfl⟩ := szNewDirName_inj named
    exact other ⟨rfl, same⟩
  · exact szDirName_ne_szNewDirName stream call.stream t call.t (List.mem_singleton.mp live).symm

variable (directory : Directory (List Char) UInt8) (cells : List UInt8) (rotates : Prop)
  [Decidable rotates]

/-- A call does nothing to the files of other streams and days. -/
theorem readAll_write_other (other : ¬ call.About stream t) :
    (call.write directory cells rotates).readAll (dayNames stream t) =
      directory.readAll (dayNames stream t) := by
  have appended :=
    directory.readAll_append_other (source_notMem_dayNames other) cells
  unfold write
  split
  · rw [Directory.readAll_rename_other _ (source_notMem_dayNames other)
      (target_notMem_dayNames other), appended]
  · exact appended

/-- What a call writes is read last, also when the file is renamed, provided no file of the day has
a name of the time of the call or a later one. -/
theorem readAll_write_self (about : call.About stream t)
    (vacant : ∀ time : Tm, rotates → time.SameDay call.t → call.t.clock ≤ time.clock →
      directory.cells (szNewDirName call.stream.name time) = []) :
    (call.write directory cells rotates).readAll (dayNames stream t) =
      directory.readAll (dayNames stream t) ++ cells := by
  have appended : (directory.append call.source cells).readAll (dayNames stream t) =
      directory.readAll (dayNames stream t) ++ cells := by
    rw [dayNames_of_about about]
    exact directory.readAll_append_last call.source_notMem_rotatedNames cells
  unfold write
  split
  · rename_i rotated
    rw [← appended, dayNames_of_about about]
    obtain ⟨before, after, names, late⟩ := exists_rotatedNames call.stream call.t
    have distinct := nodup_dayNames call.stream call.t
    rw [dayNames, names] at distinct ⊢
    refine Directory.readAll_rename_last _ distinct fun name member => ?_
    obtain ⟨time, same, late, rfl⟩ := late name member
    have apart : szNewDirName call.stream.name time ≠ call.source :=
      (szDirName_ne_szNewDirName call.stream call.stream call.t time).symm
    rw [Directory.cells_append_of_ne _ apart]
    exact vacant time rotated same late
  · exact appended

/-- A call gives a file a name of its own time. -/
theorem named_of_write
    (something : (call.write directory cells rotates).cells (szNewDirName stream.name t) ≠ []) :
    directory.cells (szNewDirName stream.name t) ≠ [] ∨ call.t = t := by
  have apart : szNewDirName stream.name t ≠ call.source :=
    (szDirName_ne_szNewDirName call.stream stream call.t t).symm
  unfold write at something
  split at something
  · by_cases here : szNewDirName stream.name t = call.target
    · exact Or.inr (szNewDirName_inj here).2.symm
    · rw [Directory.cells_rename_of_ne _ apart here, Directory.cells_append_of_ne _ apart]
        at something
      exact Or.inl something
  · rw [Directory.cells_append_of_ne _ apart] at something
    exact Or.inl something

end LogCall

/-! ### What the files of a day say -/

namespace LogProcess

/-- No file has the new name when the call renames one. -/
def Vacant (debug : Bool) (newline : List UInt8) (process : LogProcess) (call : LogCall) : Prop :=
  call.Writes debug → call.Rotates newline process.directory →
    process.directory.files call.target = none

/-- What holds behind a list of calls: the files of every day have the lines of the calls of its
stream, in order, and a file that has been renamed is named after one of the calls. -/
structure Told (debug : Bool) (newline : List UInt8) (calls : List LogCall)
    (process : LogProcess) : Prop where
  lines : ∀ stream t, process.directory.readAll (dayNames stream t) =
    (calls.filter fun call => call.Writes debug ∧ call.About stream t).flatMap
      (LogCall.line newline)
  named : ∀ (stream : Stream) t, process.directory.cells (szNewDirName stream.name t) ≠ [] →
    ∃ call ∈ calls, call.t = t

theorem told_empty (debug : Bool) (newline : List UInt8) (clog : CLog) :
    Told debug newline [] ⟨clog, .empty⟩ where
  lines _ _ := Directory.readAll_eq_nil fun _ _ => rfl
  named _ _ something := absurd rfl something

variable {debug : Bool} {newline : List UInt8} {calls : List LogCall} {process next : LogProcess}
  {call : LogCall}

/-- Within a day the clock does not go back. -/
def Forward (call later : LogCall) : Prop :=
  later.t.SameDay call.t → call.t.clock ≤ later.t.clock

/-- Behind the time of a call no file of its day has been named. -/
theorem Told.vacant (told : Told debug newline calls process)
    (forward : ∀ earlier ∈ calls, Forward earlier call)
    (vacant : process.directory.files call.target = none) {time : Tm}
    (same : time.SameDay call.t) (late : call.t.clock ≤ time.clock) :
    process.directory.cells (szNewDirName call.stream.name time) = [] := by
  by_contra something
  obtain ⟨earlier, member, rfl⟩ := told.named call.stream time something
  have clocks := Nat.le_antisymm (forward earlier member same.symm) late
  have times : earlier.t = call.t := by
    rw [← Tm.atClock_of_sameDay same, clocks, Tm.atClock_of_sameDay (.refl call.t)]
  rw [times] at something
  exact something (congrArg (Option.getD · []) vacant)

theorem Told.step (told : Told debug newline calls process)
    (forward : ∀ earlier ∈ calls, Forward earlier call)
    (vacant : Vacant debug newline process call)
    (stepped : process.step debug newline call = some next) :
    Told debug newline (calls ++ [call]) next := by
  obtain ⟨clog, performed⟩ := process.step_eq debug newline call
  obtain rfl := Option.some.inj (performed.symm.trans stepped)
  by_cases writes : call.Writes debug
  · constructor
    · intro stream t
      dsimp only
      rw [if_pos writes, List.filter_append, List.flatMap_append, ← told.lines stream t]
      by_cases about : call.About stream t
      · rw [call.readAll_write_self _ _ _ about fun time rotates same late =>
          told.vacant forward (vacant writes rotates) same late]
        simp only [writes, about, and_self, decide_true, List.filter_singleton, cond_true,
          List.flatMap_singleton]
      · rw [call.readAll_write_other _ _ _ about]
        simp only [about, and_false, decide_false, List.filter_singleton, cond_false,
          List.flatMap_nil, List.append_nil]
    · intro stream t something
      dsimp only at something
      rw [if_pos writes] at something
      rcases call.named_of_write _ _ _ something with before | here
      · obtain ⟨earlier, member, same⟩ := told.named stream t before
        exact ⟨earlier, List.mem_append_left _ member, same⟩
      · exact ⟨call, List.mem_append_right _ (List.mem_singleton_self call), here⟩
  · constructor
    · intro stream t
      dsimp only
      rw [if_neg writes, told.lines stream t]
      simp only [writes, List.filter_append, false_and, decide_false, List.filter_singleton,
        cond_false, List.append_nil]
    · intro stream t something
      dsimp only at something
      rw [if_neg writes] at something
      obtain ⟨earlier, member, same⟩ := told.named stream t something
      exact ⟨earlier, List.mem_append_left _ member, same⟩

theorem Told.run {calls later : List LogCall} {process final : LogProcess}
    (told : Told debug newline calls process) (forward : (calls ++ later).Pairwise Forward)
    (vacant : Each (LogProcess.step debug newline) (Vacant debug newline) process later)
    (reached : PartialRun.run (LogProcess.step debug newline) process later = some final) :
    Told debug newline (calls ++ later) final := by
  induction later generalizing calls process with
  | nil =>
    obtain rfl := Option.some.inj reached
    rwa [List.append_nil]
  | cons call rest inductionHypothesis =>
    rw [PartialRun.run_cons, Option.bind_eq_some_iff] at reached
    obtain ⟨next, stepped, remaining⟩ := reached
    have before := (List.pairwise_append.mp forward).2.2
    have here := told.step (fun earlier member => before earlier member call List.mem_cons_self)
      vacant.1 stepped
    rw [List.append_cons] at forward ⊢
    exact inductionHypothesis here forward (vacant.2 next stepped) remaining

end LogProcess

/-! ### Reading lines -/

/-- The number that a few digits print. -/
def readNumber (digits : List UInt8) : Nat :=
  Nat.ofDigitChars 10 (digits.map fun digit => Char.ofNat digit.toNat) 0

theorem toNat_toUInt8 {digit : Char} (isDigit : digit.isDigit = true) :
    digit.toUInt8.toNat = digit.toNat := by
  obtain ⟨-, small⟩ := Char.isDigit_iff_toNat.mp isDigit
  have nine : '9'.toNat < 256 := by decide
  exact (UInt32.toNat_toUInt8 digit.val).trans (Nat.mod_eq_of_lt (Nat.lt_of_le_of_lt small nine))

theorem readNumber_zeroPadded (width value : Nat) :
    readNumber ((zeroPadded width value).map Char.toUInt8) = value := by
  have back : ∀ digit ∈ zeroPadded width value, Char.ofNat digit.toUInt8.toNat = digit :=
    fun digit member => by
      rw [toNat_toUInt8 (isDigit_of_mem_zeroPadded member), Char.ofNat_toNat]
  rw [readNumber, List.map_map]
  refine Eq.trans (congrArg (Nat.ofDigitChars 10 · 0) ?_) (ofDigitChars_zeroPadded width value)
  exact (List.map_congr_left back).trans (List.map_id _)

/-- What a line tells: the time of day and the text. -/
structure LogRecord where
  tmHour : Nat
  tmMin : Nat
  tmSec : Nat
  strLog : List UInt8
  deriving DecidableEq

/-- The record of a call. -/
def LogCall.record (call : LogCall) : LogRecord where
  tmHour := call.t.tmHour
  tmMin := call.t.tmMin
  tmSec := call.t.tmSec
  strLog := cStr call.text

/-- Take a line apart, when what is left of its newline has the given length. -/
def readLine (ending : Nat) (line : List UInt8) : LogRecord where
  tmHour := readNumber (line.take 2)
  tmMin := readNumber ((line.drop 3).take 2)
  tmSec := readNumber ((line.drop 6).take 2)
  strLog := (line.drop 11).take (line.length - 11 - ending)

/-- The records of a stream and a day, read from the directory. -/
def readDay (ending : Nat) (directory : Directory (List Char) UInt8) (stream : Stream) (t : Tm) :
    List LogRecord :=
  (lines 10 (directory.readAll (dayNames stream t))).map (readLine ending)

/-- What a line begins with. -/
def stamp (t : Tm) : List UInt8 :=
  (zeroPadded 2 t.tmHour).map Char.toUInt8 ++ (":".toList.map Char.toUInt8 ++
    ((zeroPadded 2 t.tmMin).map Char.toUInt8 ++ (":".toList.map Char.toUInt8 ++
      ((zeroPadded 2 t.tmSec).map Char.toUInt8 ++ "-- ".toList.map Char.toUInt8))))

theorem logLine_eq (t : Tm) (strLog : List UInt8) :
    logLine t strLog = stamp t ++ cStr strLog ++ [10] := by
  simp only [logLine, stamp, List.map_append, List.append_assoc]

theorem length_stamp (t : Tm) : (stamp t).length = 11 := by
  have colon : ":".toList.length = 1 := by decide
  have dashes : "-- ".toList.length = 3 := by decide
  simp only [stamp, List.length_append, List.length_map, length_tmHour, length_tmMin,
    length_tmSec, colon, dashes]

theorem newline_notMem_stamp (t : Tm) : (10 : UInt8) ∉ stamp t := by
  have digits : ∀ width value, (10 : UInt8) ∉ (zeroPadded width value).map Char.toUInt8 := by
    intro width value member
    obtain ⟨digit, listed, same⟩ := List.mem_map.mp member
    have isDigit := isDigit_of_mem_zeroPadded listed
    obtain ⟨large, -⟩ := Char.isDigit_iff_toNat.mp isDigit
    rw [← toNat_toUInt8 isDigit, same] at large
    exact absurd large (by decide)
  have colon : (10 : UInt8) ∉ ":".toList.map Char.toUInt8 := by decide
  have dashes : (10 : UInt8) ∉ "-- ".toList.map Char.toUInt8 := by decide
  simp only [stamp, List.mem_append, digits, colon, dashes, or_self, not_false_eq_true]

theorem readNumber_cut {value start : Nat} {front : List UInt8} (length : front.length = start)
    (two : (zeroPadded 2 value).length = 2) (rest : List UInt8) :
    readNumber (((front ++ ((zeroPadded 2 value).map Char.toUInt8 ++ rest)).drop start).take 2) =
      value := by
  rw [List.drop_left' length, List.take_left' ((List.length_map ..).trans two),
    readNumber_zeroPadded]

theorem readLine_stamp (t : Tm) (text ending : List UInt8) :
    readLine ending.length (stamp t ++ text ++ ending) =
      ⟨t.tmHour, t.tmMin, t.tmSec, text⟩ := by
  have colon : ":".toList.length = 1 := by decide
  have length : (stamp t ++ text ++ ending).length - 11 - ending.length = text.length := by
    rw [List.length_append, List.length_append, length_stamp]
    omega
  have body : (stamp t ++ text ++ ending).drop 11 = text ++ ending := by
    rw [List.append_assoc, List.drop_left' (length_stamp t)]
  unfold readLine
  rw [length, body, List.take_left]
  refine (LogRecord.mk.injEq ..).mpr ⟨?_, ?_, ?_, rfl⟩
  · have hour := readNumber_cut List.length_nil (length_tmHour t)
    simp only [List.nil_append, List.drop_zero] at hour
    simp only [stamp, List.append_assoc, hour]
  · have min := readNumber_cut
      (show ((zeroPadded 2 t.tmHour).map Char.toUInt8 ++ ":".toList.map Char.toUInt8).length = 3 by
        rw [List.length_append, List.length_map, List.length_map, length_tmHour, colon])
      (length_tmMin t)
    simp only [List.append_assoc] at min
    simp only [stamp, List.append_assoc, min]
  · have sec := readNumber_cut
      (show ((zeroPadded 2 t.tmHour).map Char.toUInt8 ++ (":".toList.map Char.toUInt8 ++
          ((zeroPadded 2 t.tmMin).map Char.toUInt8 ++ ":".toList.map Char.toUInt8))).length = 6 by
        simp only [List.length_append, List.length_map, length_tmHour, length_tmMin, colon])
      (length_tmSec t)
    simp only [List.append_assoc] at sec
    simp only [stamp, List.append_assoc, sec]

/-- A text without the newline is written as it is. -/
theorem textStream_of_notMem {newline bytes : List UInt8} (absent : 10 ∉ bytes) :
    textStream newline bytes = bytes := by
  have same : ∀ byte ∈ bytes, (if byte = 10 then newline else [byte]) = [byte] :=
    fun byte member => if_neg (ne_of_mem_of_not_mem member absent)
  rw [textStream, List.flatMap_def, List.map_congr_left same, ← List.flatMap_def,
    List.flatMap_singleton']

/-- The line of a call in the file, up to the end of its newline. -/
def LogCall.printed (carriage : List UInt8) (call : LogCall) : List UInt8 :=
  stamp call.t ++ cStr call.text ++ carriage

theorem LogCall.line_eq (carriage : List UInt8) {call : LogCall} (plain : 10 ∉ cStr call.text) :
    call.line (carriage ++ [10]) = call.printed carriage ++ [10] := by
  have once : cStr (cStr call.text) = cStr call.text := List.takeWhile_idem
  have body : 10 ∉ stamp call.t ++ cStr call.text :=
    fun member => (List.mem_append.mp member).elim (newline_notMem_stamp call.t) plain
  have newline : textStream (carriage ++ [10]) [10] = carriage ++ [10] := List.append_nil _
  rw [LogCall.line, logLine_eq, once, textStream, List.flatMap_append, ← textStream,
    ← textStream, textStream_of_notMem body, newline, ← List.append_assoc, printed]

theorem LogCall.newline_notMem_printed {carriage : List UInt8} (once : 10 ∉ carriage)
    {call : LogCall} (plain : 10 ∉ cStr call.text) : 10 ∉ call.printed carriage := by
  unfold printed
  simp only [List.mem_append, newline_notMem_stamp, plain, once, or_self, not_false_eq_true]

/-- Lines are cut and taken apart into the records that they print. -/
theorem map_readLine_lines {carriage : List UInt8} (once : 10 ∉ carriage) {calls : List LogCall}
    (plain : ∀ call ∈ calls, 10 ∉ cStr call.text) :
    (lines 10 (calls.flatMap (LogCall.line (carriage ++ [10])))).map (readLine carriage.length) =
      calls.map LogCall.record := by
  have printed : calls.flatMap (LogCall.line (carriage ++ [10])) =
      calls.flatMap fun call => call.printed carriage ++ [10] := by
    rw [List.flatMap_def, List.flatMap_def,
      List.map_congr_left fun call member => LogCall.line_eq carriage (plain call member)]
  rw [printed, lines_flatMap _ fun call member =>
    LogCall.newline_notMem_printed once (plain call member), List.map_map]
  exact List.map_congr_left fun call _ => readLine_stamp call.t (cStr call.text) carriage

/-! ### The result -/

namespace LogProcess

/-- The log can be read back. From an empty directory, in every run of calls of `DebugLog`,
`NetLog` and `DataLog` whose texts have no newline, during which the clock does not go back within
a day and no file is renamed to a name in use, a reader of the directory gets for every stream and
every day the records of exactly the calls of that stream and that day that have written, in their
order, with their time and their text. -/
theorem days_read_back (debug : Bool) (carriage : List UInt8) (once : 10 ∉ carriage) (clog : CLog)
    (calls : List LogCall) (final : LogProcess)
    (plain : ∀ call ∈ calls, 10 ∉ cStr call.text) (forward : calls.Pairwise Forward)
    (vacant : Each (step debug (carriage ++ [10])) (Vacant debug (carriage ++ [10]))
      ⟨clog, .empty⟩ calls)
    (reached : PartialRun.run (step debug (carriage ++ [10])) ⟨clog, .empty⟩ calls = some final)
    (stream : Stream) (t : Tm) :
    readDay carriage.length final.directory stream t =
      (calls.filter fun call => call.Writes debug ∧ call.About stream t).map LogCall.record := by
  have told := (told_empty debug (carriage ++ [10]) clog).run forward vacant reached
  rw [readDay, told.lines stream t, List.nil_append]
  exact map_readLine_lines once fun call member => plain call (List.mem_of_mem_filter member)

/-- A file is renamed, and what it says is read. -/
theorem days_read_back_tenMegabytes :
    ∃ final, PartialRun.run (step false [10]) ⟨⟨[]⟩, .empty⟩ [tenMegabytes] = some final ∧
      final.directory.cells tenMegabytes.source = [] ∧
      readDay 0 final.directory tenMegabytes.stream tenMegabytes.t = [tenMegabytes.record] := by
  have writes := tenMegabytes_writes false
  have plain : ∀ call ∈ [tenMegabytes], 10 ∉ cStr call.text := by
    intro call member newline
    rw [List.mem_singleton.mp member, cStr_of_unterminated tenMegabytes_unterminated] at newline
    exact absurd (List.eq_of_mem_replicate newline) (by decide)
  obtain ⟨clog, performed⟩ := step_eq false [10] ⟨⟨[]⟩, .empty⟩ tenMegabytes
  rw [if_pos writes] at performed
  have reached := (PartialRun.run_singleton (step false [10]) _ _).trans performed
  have day := days_read_back false [] List.not_mem_nil ⟨[]⟩ [tenMegabytes] _ plain
    (List.pairwise_singleton _ _) (each_singleton.mpr fun _ _ => rfl) reached tenMegabytes.stream
    tenMegabytes.t
  refine ⟨_, reached, tenMegabytes.cells_source_write _ _ (tenMegabytes_rotates rfl), ?_⟩
  have about : tenMegabytes.About tenMegabytes.stream tenMegabytes.t := ⟨rfl, .refl _⟩
  rw [List.filter_singleton, decide_eq_true ⟨writes, about⟩] at day
  exact day

end LogProcess

end SelftestNet
