/-
This file is the library of the descriptor table of a process. A descriptor is a
number that is used again once it is free, so closing it twice can close something
else; what identifies an open file is the serial number of its opening. A table
carries the proofs that descriptors are not negative and that no serial number is
open twice or still to come.
-/

import Mathlib.Logic.Function.Basic

namespace Descriptors

/-- An open file: which opening it comes from, and what has been done to it since. -/
structure OpenFile (Mark : Type) where
  serial : Nat
  mark : Mark

/-- The open files of a process by their descriptors, and the number of openings so far. -/
@[ext]
structure Table (Mark : Type) where
  files : Int → Option (OpenFile Mark)
  count : Nat
  nonneg : ∀ descriptor file, files descriptor = some file → 0 ≤ descriptor
  serial_lt : ∀ descriptor file, files descriptor = some file → file.serial < count
  injective : ∀ first second file other, files first = some file → files second = some other →
    file.serial = other.serial → first = second

namespace Table

variable {Mark : Type}

/-- The kernel can give the descriptor to the next opening. -/
def Free (table : Table Mark) (descriptor : Int) : Prop :=
  0 ≤ descriptor ∧ table.files descriptor = none

instance (table : Table Mark) (descriptor : Int) : Decidable (table.Free descriptor) :=
  inferInstanceAs (Decidable (_ ∧ _))

/-- A table without open files. -/
def empty : Table Mark where
  files _ := none
  count := 0
  nonneg _ _ found := nomatch found
  serial_lt _ _ found := nomatch found
  injective _ _ _ _ found := nomatch found

/-- What is found behind an update with a file is that file, or was found before. -/
theorem update_some_cases {files : Int → Option (OpenFile Mark)} {descriptor other : Int}
    {file new : OpenFile Mark}
    (found : Function.update files descriptor (some new) other = some file) :
    (other = descriptor ∧ file = new) ∨ (other ≠ descriptor ∧ files other = some file) := by
  by_cases same : other = descriptor
  · rw [same, Function.update_self] at found
    exact Or.inl ⟨same, (Option.some.inj found).symm⟩
  · rw [Function.update_of_ne same] at found
    exact Or.inr ⟨same, found⟩

/-- What is found behind a removal was found before, elsewhere. -/
theorem update_none_cases {files : Int → Option (OpenFile Mark)} {descriptor other : Int}
    {file : OpenFile Mark} (found : Function.update files descriptor none other = some file) :
    other ≠ descriptor ∧ files other = some file := by
  by_cases same : other = descriptor
  · rw [same, Function.update_self] at found
    cases found
  · rw [Function.update_of_ne same] at found
    exact ⟨same, found⟩

/-- An opening that gets a free descriptor. -/
def insert (table : Table Mark) (descriptor : Int) (free : table.Free descriptor) (mark : Mark) :
    Table Mark where
  files := Function.update table.files descriptor (some { serial := table.count, mark })
  count := table.count + 1
  nonneg other file found := by
    rcases update_some_cases found with ⟨rfl, -⟩ | ⟨-, before⟩
    · exact free.1
    · exact table.nonneg other file before
  serial_lt other file found := by
    rcases update_some_cases found with ⟨-, rfl⟩ | ⟨-, before⟩
    · exact Nat.lt_succ_self _
    · exact Nat.lt_succ_of_lt (table.serial_lt other file before)
  injective first second file other found foundOther equal := by
    rcases update_some_cases found with ⟨rfl, rfl⟩ | ⟨-, before⟩ <;>
      rcases update_some_cases foundOther with ⟨rfl, rfl⟩ | ⟨-, beforeOther⟩
    · rfl
    · exact absurd equal (Nat.ne_of_gt (table.serial_lt second other beforeOther))
    · exact absurd equal (Nat.ne_of_lt (table.serial_lt first file before))
    · exact table.injective first second file other before beforeOther equal

/-- A table whose files are some of the files of another one, with other marks. -/
def within (table : Table Mark) (files : Int → Option (OpenFile Mark))
    (old : ∀ descriptor file, files descriptor = some file →
      ∃ before, table.files descriptor = some before ∧ before.serial = file.serial) :
    Table Mark where
  files := files
  count := table.count
  nonneg descriptor file found := by
    obtain ⟨before, was, -⟩ := old descriptor file found
    exact table.nonneg descriptor before was
  serial_lt descriptor file found := by
    obtain ⟨before, was, same⟩ := old descriptor file found
    exact same ▸ table.serial_lt descriptor before was
  injective first second file other found foundOther equal := by
    obtain ⟨before, was, same⟩ := old first file found
    obtain ⟨beforeOther, wasOther, sameOther⟩ := old second other foundOther
    exact table.injective first second before beforeOther was wasOther
      (same.trans (equal.trans sameOther.symm))

/-- A descriptor is closed. -/
def remove (table : Table Mark) (descriptor : Int) : Table Mark :=
  table.within (Function.update table.files descriptor none) fun _ file found =>
    ⟨file, (update_none_cases found).2, rfl⟩

/-- Something is done to an open file. -/
def modify (table : Table Mark) (descriptor : Int) (change : Mark → Mark) : Table Mark :=
  table.within
    (Function.update table.files descriptor ((table.files descriptor).map fun file =>
      { file with mark := change file.mark }))
    fun other file found => by
      by_cases same : other = descriptor
      · rw [same, Function.update_self] at found
        obtain ⟨before, was, rfl⟩ := Option.map_eq_some_iff.mp found
        exact ⟨before, same ▸ was, rfl⟩
      · rw [Function.update_of_ne same] at found
        exact ⟨file, found, rfl⟩

/-- One opening that is over. -/
def skip (table : Table Mark) : Table Mark where
  files := table.files
  count := table.count + 1
  nonneg := table.nonneg
  serial_lt descriptor file found := Nat.lt_succ_of_lt (table.serial_lt descriptor file found)
  injective := table.injective

/-- Opening a file and closing it again leaves nothing but a used serial number. -/
theorem remove_insert (table : Table Mark) {descriptor : Int} (free : table.Free descriptor)
    (mark : Mark) : (table.insert descriptor free mark).remove descriptor = table.skip := by
  refine Table.ext ?_ rfl
  show Function.update (Function.update table.files descriptor _) descriptor none = table.files
  rw [Function.update_idem, ← free.2, Function.update_eq_self]

/-- What is done to a file that has just been opened could have been done to it at once. -/
theorem modify_insert (table : Table Mark) {descriptor : Int} (free : table.Free descriptor)
    (mark : Mark) (change : Mark → Mark) :
    (table.insert descriptor free mark).modify descriptor change =
      table.insert descriptor free (change mark) := by
  refine Table.ext ?_ rfl
  show Function.update (Function.update table.files descriptor _) descriptor
    ((Function.update table.files descriptor _ descriptor).map _) =
      Function.update table.files descriptor _
  rw [Function.update_idem, Function.update_self, Option.map_some]

@[simp]
theorem insert_files_self (table : Table Mark) {descriptor : Int} (free : table.Free descriptor)
    (mark : Mark) : (table.insert descriptor free mark).files descriptor =
      some { serial := table.count, mark } := Function.update_self ..

theorem files_of_neg (table : Table Mark) {descriptor : Int} (negative : descriptor < 0) :
    table.files descriptor = none := by
  rcases found : table.files descriptor with _ | file
  · rfl
  · exact absurd (table.nonneg descriptor file found) (Int.not_le.mpr negative)

end Table

end Descriptors
