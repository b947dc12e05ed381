/-
This file models the log: one instance of `CLog` that the functions for debug, net and data
messages share, and the directory that it writes to. Each stream has a file for the day; a
call that makes it longer than `MAX_LEN` renames it to a name with the time of the call. This
file proves that no name of the first kind is one of the second, and that a name of the
second kind determines the stream and the second. So each call is a write to a known file,
followed or not by a renaming to a known name.
-/

import Mathlib.Algebra.Group.Int.Defs
import Mathlib.Data.List.TakeWhile
import SelftestNet.Decimal
import SelftestNet.Directory

namespace SelftestNet

open Decimal

/-! ### The clock and the streams -/

/-- `struct tm`, as `localtime` fills it in. -/
@[ext]
structure Tm where
  tmYear : Int
  tmMon : Fin 12
  tmMday : Fin 32
  tmHour : Fin 24
  tmMin : Fin 60
  tmSec : Fin 61
  yearInRange : -2 ^ 31 ≤ tmYear ∧ tmYear + 1900 < 2 ^ 31
deriving DecidableEq

/-- The functions that log. -/
inductive Stream
  | debug
  | net
  | data
deriving DecidableEq

/-- The file name that each of them sets. -/
def Stream.name : Stream → List Char
  | .debug => "debug".toList
  | .net => "net".toList
  | .data => "data".toList

/-! ### File names -/

/-- The common beginning of the two kinds of file names, `./log/%s%4d-%02d-%02d`. -/
def dayName (name : List Char) (t : Tm) : List Char :=
  "./log/".toList ++ name ++ blankPadded 4 (t.tmYear + 1900) ++ "-".toList ++
    zeroPadded 2 (t.tmMon.val + 1) ++ "-".toList ++ zeroPadded 2 t.tmMday

/-- `szDirName`. -/
def szDirName (name : List Char) (t : Tm) : List Char := dayName name t ++ ".LOG".toList

/-- `szNewDirName`. -/
def szNewDirName (name : List Char) (t : Tm) : List Char :=
  dayName name t ++ ".".toList ++ zeroPadded 2 t.tmHour ++ zeroPadded 2 t.tmMin ++
    zeroPadded 2 t.tmSec ++ "LOG".toList

/-- `sprintf` to an array of the given size, undefined when the text and its terminator do not
fit. -/
def sprintf (size : Nat) (text : List Char) : Option (List Char) :=
  if text.length < size then some text else none

/-! ### `CLog` -/

/-- `CLog`. -/
structure CLog where
  mFileName : List Char

/-- The answers of the file system during one call: whether `fopen` opens the file, what is in
`info.st_size` when the size does not fit it, and whether `rename` succeeds. -/
structure LogIo where
  opens : Bool
  stray : Int
  renames : Bool

/-- `MAX_LEN`. -/
def maxLen : Int := 1024 * 1024 * 10

/-- The characters of a C string, up to its terminator. -/
def cStr (text : List UInt8) : List UInt8 := text.takeWhile (· != 0)

/-- What a text stream writes: each newline as the system has it. -/
def textStream (newline bytes : List UInt8) : List UInt8 :=
  bytes.flatMap fun byte => if byte = 10 then newline else [byte]

/-- The text that `fprintf` prints. -/
def logLine (t : Tm) (strLog : List UInt8) : List UInt8 :=
  (zeroPadded 2 t.tmHour ++ ":".toList ++ zeroPadded 2 t.tmMin ++ ":".toList ++
    zeroPadded 2 t.tmSec ++ "-- ".toList).map Char.toUInt8 ++ cStr strLog ++ [10]

/-- `info.st_size`, as an `int`. -/
def stSize (size : Nat) (stray : Int) : Int := if size < 2 ^ 31 then size else stray

namespace CLog

/-- `setLogFileName`. -/
def setLogFileName (_ : CLog) (name : List Char) : CLog where
  mFileName := name

/-- `getLogFileName`. -/
def getLogFileName (clog : CLog) : List Char := clog.mFileName

/-- `log`, with the directory before and behind it. -/
def log (clog : CLog) (newline : List UInt8) (t : Tm) (io : LogIo) (strLog : List UInt8)
    (directory : Directory (List Char) UInt8) : Option (Directory (List Char) UInt8) :=
  if strLog = [] then some directory
  else
    (sprintf 256 (szDirName clog.getLogFileName t)).bind fun dirName =>
      if io.opens = false then some directory
      else
        let logged := directory.append dirName (textStream newline (logLine t strLog))
        let nSize := stSize (logged.cells dirName).length io.stray
        if nSize > maxLen then
          (sprintf 256 (szNewDirName clog.getLogFileName t)).map fun newDirName =>
            if io.renames then logged.rename dirName newDirName else logged
        else some logged

end CLog

/-! ### The functions that log -/

/-- The instance of `CLog` and the directory. -/
structure LogProcess where
  clog : CLog
  directory : Directory (List Char) UInt8

/-- A call of one of the functions: which one, the local time, the answers of the file system, and
the characters at its argument. -/
structure LogCall where
  stream : Stream
  t : Tm
  io : LogIo
  text : List UInt8

namespace LogProcess

/-- Set the file name, then log. -/
def logAs (process : LogProcess) (newline : List UInt8) (name : List Char) (t : Tm) (io : LogIo)
    (log : List UInt8) : Option LogProcess :=
  let clog := process.clog.setLogFileName name
  (clog.log newline t io (cStr log) process.directory).map fun directory => ⟨clog, directory⟩

/-- `DebugLog`, whose body only a debug build has. -/
def debugLog (debug : Bool) (process : LogProcess) (newline : List UInt8) (t : Tm) (io : LogIo)
    (log : List UInt8) : Option LogProcess :=
  if debug then process.logAs newline "debug".toList t io log else some process

/-- `NetLog`. -/
def netLog (process : LogProcess) (newline : List UInt8) (t : Tm) (io : LogIo)
    (log : List UInt8) : Option LogProcess :=
  process.logAs newline "net".toList t io log

/-- `DataLog`. -/
def dataLog (process : LogProcess) (newline : List UInt8) (t : Tm) (io : LogIo)
    (log : List UInt8) : Option LogProcess :=
  process.logAs newline "data".toList t io log

/-- One call. -/
def step (debug : Bool) (newline : List UInt8) (process : LogProcess) (call : LogCall) :
    Option LogProcess :=
  match call.stream with
  | .debug => process.debugLog debug newline call.t call.io call.text
  | .net => process.netLog newline call.t call.io call.text
  | .data => process.dataLog newline call.t call.io call.text

end LogProcess

/-! ### The names are long enough and different -/

/-- The numbers that are printed with two digits have two. -/
theorem length_zeroPadded_two {value : Nat} (small : value ≤ 61) :
    (zeroPadded 2 value).length = 2 :=
  length_zeroPadded Nat.two_pos (Nat.lt_of_le_of_lt small (by decide))

theorem length_tmMon (t : Tm) : (zeroPadded 2 (t.tmMon.val + 1)).length = 2 :=
  length_zeroPadded_two (by omega)

theorem length_tmMday (t : Tm) : (zeroPadded 2 t.tmMday).length = 2 :=
  length_zeroPadded_two (by omega)

theorem length_tmHour (t : Tm) : (zeroPadded 2 t.tmHour).length = 2 :=
  length_zeroPadded_two (by omega)

theorem length_tmMin (t : Tm) : (zeroPadded 2 t.tmMin).length = 2 :=
  length_zeroPadded_two (by omega)

theorem length_tmSec (t : Tm) : (zeroPadded 2 t.tmSec).length = 2 :=
  length_zeroPadded_two (by omega)

theorem length_tmYear_le (t : Tm) : (blankPadded 4 (t.tmYear + 1900)).length ≤ 11 := by
  have range := t.yearInRange
  have fits : (t.tmYear + 1900).natAbs < 10 ^ 10 := by omega
  exact length_blankPadded_le (by decide) (by decide) fits

theorem Stream.length_name_le (stream : Stream) : stream.name.length ≤ 5 := by
  cases stream <;> decide

theorem length_dayName_le (stream : Stream) (t : Tm) : (dayName stream.name t).length ≤ 28 := by
  have year := length_tmYear_le t
  have name := stream.length_name_le
  have literals : "./log/".toList.length = 6 ∧ "-".toList.length = 1 := by decide
  unfold dayName
  simp only [List.length_append, length_tmMon, length_tmMday, literals]
  omega

theorem sprintf_szDirName (stream : Stream) (t : Tm) :
    sprintf 256 (szDirName stream.name t) = some (szDirName stream.name t) := by
  have day := length_dayName_le stream t
  have literal : ".LOG".toList.length = 4 := by decide
  refine if_pos ?_
  rw [szDirName, List.length_append, literal]
  omega

theorem sprintf_szNewDirName (stream : Stream) (t : Tm) :
    sprintf 256 (szNewDirName stream.name t) = some (szNewDirName stream.name t) := by
  have day := length_dayName_le stream t
  have literals : ".".toList.length = 1 ∧ "LOG".toList.length = 3 := by decide
  refine if_pos ?_
  simp only [szNewDirName, List.length_append, length_tmHour, length_tmMin, length_tmSec, literals]
  omega

/-- The file of a day has a point where a renamed file has the last digit of the second. -/
theorem szDirName_ne_szNewDirName (stream other : Stream) (t time : Tm) :
    szDirName stream.name t ≠ szNewDirName other.name time := by
  intro same
  have split : szDirName stream.name t =
      (dayName stream.name t ++ ".".toList) ++ "LOG".toList := by
    rw [List.append_assoc]
    rfl
  rw [split, szNewDirName] at same
  have bodies := List.append_inj_left' same rfl
  obtain ⟨tens, ones, seconds⟩ := List.length_eq_two.mp (length_tmSec time)
  have member : ones ∈ zeroPadded 2 time.tmSec := by
    rw [seconds]
    exact List.mem_cons_of_mem _ List.mem_cons_self
  rw [seconds, ← List.singleton_append, ← List.append_assoc] at bodies
  have point : ['.'] = [ones] := List.append_inj_right' bodies rfl
  rw [← List.singleton_inj.mp point] at member
  exact absurd (isDigit_of_mem_zeroPadded member) (by decide)

/-- The names of the streams differ in their first two letters. -/
theorem Stream.name_append_inj {stream other : Stream} {rest rest' : List Char}
    (same : stream.name ++ rest = other.name ++ rest') : stream = other ∧ rest = rest' := by
  have long (stream : Stream) : 2 ≤ stream.name.length := by
    cases stream <;> decide
  have letters := congrArg (List.take 2) same
  rw [List.take_append_of_le_length (long stream),
    List.take_append_of_le_length (long other)] at letters
  obtain rfl : stream = other := by
    revert letters
    cases stream <;> cases other <;> decide
  exact ⟨rfl, List.append_cancel_left same⟩

theorem dayName_inj {stream other : Stream} {t time : Tm}
    (same : dayName stream.name t = dayName other.name time) :
    stream = other ∧ t.tmYear = time.tmYear ∧ t.tmMon = time.tmMon ∧ t.tmMday = time.tmMday := by
  unfold dayName at same
  obtain ⟨same, mday⟩ := List.append_inj' same ((length_tmMday t).trans (length_tmMday time).symm)
  obtain ⟨same, -⟩ := List.append_inj' same rfl
  obtain ⟨same, mon⟩ := List.append_inj' same ((length_tmMon t).trans (length_tmMon time).symm)
  obtain ⟨same, -⟩ := List.append_inj' same rfl
  rw [List.append_assoc, List.append_assoc] at same
  obtain ⟨streams, year⟩ := Stream.name_append_inj (List.append_cancel_left same)
  refine ⟨streams, ?_, Fin.ext ?_, Fin.ext ?_⟩
  · exact (Int.add_left_inj 1900).mp (blankPadded_injective 4 year)
  · exact Nat.succ.inj (zeroPadded_injective 2 mon)
  · exact zeroPadded_injective 2 mday

/-- A renamed file is named after one stream and one second. -/
theorem szNewDirName_inj {stream other : Stream} {t time : Tm}
    (same : szNewDirName stream.name t = szNewDirName other.name time) :
    stream = other ∧ t = time := by
  rw [szNewDirName, szNewDirName] at same
  obtain ⟨same, -⟩ := List.append_inj' same rfl
  obtain ⟨same, sec⟩ := List.append_inj' same ((length_tmSec t).trans (length_tmSec time).symm)
  obtain ⟨same, min⟩ := List.append_inj' same ((length_tmMin t).trans (length_tmMin time).symm)
  obtain ⟨same, hour⟩ := List.append_inj' same ((length_tmHour t).trans (length_tmHour time).symm)
  obtain ⟨same, -⟩ := List.append_inj' same rfl
  obtain ⟨streams, year, mon, mday⟩ := dayName_inj same
  have hours := Fin.ext (zeroPadded_injective 2 hour)
  have mins := Fin.ext (zeroPadded_injective 2 min)
  have secs := Fin.ext (zeroPadded_injective 2 sec)
  exact ⟨streams, Tm.ext year mon mday hours mins secs⟩

example : szNewDirName Stream.net.name ⟨114, 6, 12, 9, 30, 0, by decide⟩ =
    "./log/net2014-07-12.093000LOG".toList := by
  decide +kernel

/-! ### What a call does to the directory -/

theorem cStr_of_unterminated {text : List UInt8} (unterminated : ∀ byte ∈ text, byte ≠ 0) :
    cStr text = text :=
  List.takeWhile_eq_self_iff.mpr fun byte member => bne_iff_ne.mpr (unterminated byte member)

/-- On a system whose newline is one byte a text stream writes what it is given. -/
theorem textStream_newline (bytes : List UInt8) : textStream [10] bytes = bytes := by
  have same (byte : UInt8) : (if byte = 10 then [10] else [byte]) = [byte] := by
    split
    · next newline => rw [newline]
    · rfl
  simp only [textStream, same, List.flatMap_singleton']

namespace LogCall

/-- The file of the day of the call. -/
def source (call : LogCall) : List Char := szDirName call.stream.name call.t

/-- The name of a file that the call renames. -/
def target (call : LogCall) : List Char := szNewDirName call.stream.name call.t

theorem source_ne_target (call : LogCall) : call.source ≠ call.target :=
  szDirName_ne_szNewDirName call.stream call.stream call.t call.t

/-- The line of the call in the file. -/
def line (newline : List UInt8) (call : LogCall) : List UInt8 :=
  textStream newline (logLine call.t (cStr call.text))

/-- The call writes its line. -/
def Writes (debug : Bool) (call : LogCall) : Prop :=
  (call.stream = .debug → debug = true) ∧ cStr call.text ≠ [] ∧ call.io.opens = true

instance (debug : Bool) (call : LogCall) : Decidable (call.Writes debug) :=
  inferInstanceAs (Decidable (_ ∧ _))

/-- With its line the file is too long, and is renamed. -/
def Rotates (newline : List UInt8) (directory : Directory (List Char) UInt8) (call : LogCall) :
    Prop :=
  maxLen < stSize ((directory.cells call.source).length + (call.line newline).length)
    call.io.stray ∧ call.io.renames = true

instance (newline : List UInt8) (directory : Directory (List Char) UInt8) (call : LogCall) :
    Decidable (call.Rotates newline directory) :=
  inferInstanceAs (Decidable (_ ∧ _))

/-- The directory behind a call that writes the given cells. -/
def write {Cell : Type} (call : LogCall) (directory : Directory (List Char) Cell)
    (cells : List Cell) (rotates : Prop) [Decidable rotates] : Directory (List Char) Cell :=
  if rotates then (directory.append call.source cells).rename call.source call.target
  else directory.append call.source cells

theorem expand_write {Cell : Type} (call : LogCall) (directory : Directory (List Char) Cell)
    (print : Cell → List UInt8) (cells : List Cell) (rotates : Prop) [Decidable rotates] :
    (call.write directory cells rotates).expand print =
      call.write (directory.expand print) (cells.flatMap print) rotates := by
  unfold write
  split
  · rw [Directory.expand_rename, Directory.expand_append]
  · rw [Directory.expand_append]

theorem cells_source_write {Cell : Type} (call : LogCall) (directory : Directory (List Char) Cell)
    (cells : List Cell) {rotates : Prop} [Decidable rotates] (rotated : rotates) :
    (call.write directory cells rotates).cells call.source = [] := by
  rw [write, if_pos rotated, Directory.cells_rename_source _ call.source_ne_target]

/-- The length of the line on a system whose newline is one byte. -/
theorem length_line {call : LogCall} (unterminated : ∀ byte ∈ call.text, byte ≠ 0) :
    (call.line [10]).length = call.text.length + 12 := by
  have colon : ":".toList.length = 1 := by decide
  have dashes : "-- ".toList.length = 3 := by decide
  rw [line, textStream_newline, logLine, cStr_of_unterminated unterminated,
    cStr_of_unterminated unterminated]
  simp only [List.length_append, List.length_map, length_tmHour, length_tmMin, length_tmSec, colon,
    dashes, List.length_singleton]
  omega

/-- `log` writes the line of a call unless its text is empty or the file does not open. -/
theorem log_eq (newline : List UInt8) (call : LogCall) (clog : CLog)
    (directory : Directory (List Char) UInt8) :
    (clog.setLogFileName call.stream.name).log newline call.t call.io (cStr call.text) directory =
      some (if cStr call.text ≠ [] ∧ call.io.opens = true then
        call.write directory (call.line newline) (call.Rotates newline directory)
      else directory) := by
  have size : ((directory.append call.source (call.line newline)).cells call.source).length =
      (directory.cells call.source).length + (call.line newline).length := by
    rw [Directory.cells_append_self, List.length_append]
  unfold CLog.log CLog.getLogFileName CLog.setLogFileName
  dsimp only
  by_cases empty : cStr call.text = []
  · rw [if_pos empty, if_neg fun written => written.1 empty]
  rw [if_neg empty, sprintf_szDirName, Option.bind_some]
  by_cases opens : call.io.opens = true
  · have written : cStr call.text ≠ [] ∧ call.io.opens = true := ⟨empty, opens⟩
    rw [if_neg fun closed => Bool.noConfusion (opens.symm.trans closed), if_pos written, write]
    by_cases long : maxLen < stSize ((directory.append call.source (call.line newline)).cells
        call.source).length call.io.stray
    · refine (if_pos long).trans ?_
      rw [size] at long
      rw [sprintf_szNewDirName, Option.map_some]
      by_cases renames : call.io.renames = true
      · rw [if_pos renames, if_pos ⟨long, renames⟩]
        rfl
      · rw [if_neg renames, if_neg fun rotates => renames rotates.2]
        rfl
    · refine (if_neg long).trans ?_
      rw [size] at long
      rw [if_neg fun rotates => long rotates.1]
      rfl
  · rw [if_pos (Bool.eq_false_iff.mpr opens), if_neg fun written => opens written.2]

end LogCall

namespace LogProcess

/-- A call logs under the name of its stream, unless it is for debug messages in another build. -/
theorem step_eq_logAs (debug : Bool) (newline : List UInt8) (process : LogProcess)
    (call : LogCall) :
    process.step debug newline call =
      if call.stream = .debug → debug = true then
        process.logAs newline call.stream.name call.t call.io call.text
      else some process := by
  rcases call with ⟨_ | _ | _, t, io, text⟩
  · cases debug <;> rfl
  · rfl
  · rfl

/-- A call is defined, and writes its line or leaves the directory as it is. -/
theorem step_eq (debug : Bool) (newline : List UInt8) (process : LogProcess) (call : LogCall) :
    ∃ clog, process.step debug newline call = some
      ⟨clog, if call.Writes debug then
        call.write process.directory (call.line newline) (call.Rotates newline process.directory)
      else process.directory⟩ := by
  rw [step_eq_logAs]
  by_cases enabled : call.stream = .debug → debug = true
  · have writes : call.Writes debug ↔ cStr call.text ≠ [] ∧ call.io.opens = true :=
      and_iff_right enabled
    refine ⟨process.clog.setLogFileName call.stream.name, ?_⟩
    unfold logAs
    dsimp only
    rw [if_pos enabled, call.log_eq, Option.map_some]
    simp only [writes]
  · refine ⟨process.clog, ?_⟩
    rw [if_neg enabled, if_neg fun writes : call.Writes debug => enabled writes.1]

end LogProcess

end SelftestNet
