/-
This file is the library of directories: finite or infinite collections of named files, each
a list of cells, with the two operations that append to a file and rename one. It says
where every cell is after each of them. Appending moves no cell; renaming moves the cells
of the source and loses those of the target, if there is one. So while no cell is in two
files, a cell survives a renaming exactly when the target does not have it.
-/

import Mathlib.Data.List.Basic
import Mathlib.Logic.Function.Basic

/-- Files by their names. -/
structure Directory (Name Cell : Type) where
  files : Name → Option (List Cell)

namespace Directory

variable {Name Cell Byte : Type} [DecidableEq Name]

/-- A directory without files. -/
def empty : Directory Name Cell where
  files _ := none

/-- The cells of a file, none when it does not exist. -/
def cells (directory : Directory Name Cell) (name : Name) : List Cell :=
  (directory.files name).getD []

/-- Write at the end of a file, which is created when it does not exist. -/
def append (directory : Directory Name Cell) (name : Name) (written : List Cell) :
    Directory Name Cell where
  files := Function.update directory.files name (some (directory.cells name ++ written))

/-- Give a file another name, in place of the file that has it. -/
@[irreducible]
def rename (directory : Directory Name Cell) (source target : Name) : Directory Name Cell where
  files :=
    if source = target then directory.files
    else Function.update (Function.update directory.files target (directory.files source)) source
      none

/-! ### Single files -/

@[simp]
theorem append_files_self (directory : Directory Name Cell) (name : Name) (written : List Cell) :
    (directory.append name written).files name = some (directory.cells name ++ written) :=
  Function.update_self ..

theorem append_files_of_ne (directory : Directory Name Cell) {name other : Name}
    (different : other ≠ name) (written : List Cell) :
    (directory.append name written).files other = directory.files other :=
  Function.update_of_ne different ..

theorem rename_files_source (directory : Directory Name Cell) {source target : Name}
    (different : source ≠ target) : (directory.rename source target).files source = none := by
  unfold rename
  dsimp only
  rw [if_neg different, Function.update_self]

theorem rename_files_target (directory : Directory Name Cell) {source target : Name}
    (different : source ≠ target) :
    (directory.rename source target).files target = directory.files source := by
  unfold rename
  dsimp only
  rw [if_neg different, Function.update_of_ne (Ne.symm different), Function.update_self]

theorem rename_files_of_ne (directory : Directory Name Cell) {source target other : Name}
    (notSource : other ≠ source) (notTarget : other ≠ target) :
    (directory.rename source target).files other = directory.files other := by
  unfold rename
  dsimp only
  split
  · rfl
  · rw [Function.update_of_ne notSource, Function.update_of_ne notTarget]

theorem cells_append_self (directory : Directory Name Cell) (name : Name) (written : List Cell) :
    (directory.append name written).cells name = directory.cells name ++ written := by
  rw [cells, append_files_self, Option.getD_some]

theorem cells_append_of_ne (directory : Directory Name Cell) {name other : Name}
    (different : other ≠ name) (written : List Cell) :
    (directory.append name written).cells other = directory.cells other := by
  rw [cells, append_files_of_ne directory different, cells]

theorem cells_rename_source (directory : Directory Name Cell) {source target : Name}
    (different : source ≠ target) : (directory.rename source target).cells source = [] := by
  rw [cells, rename_files_source directory different, Option.getD_none]

theorem cells_rename_target (directory : Directory Name Cell) {source target : Name}
    (different : source ≠ target) :
    (directory.rename source target).cells target = directory.cells source := by
  rw [cells, rename_files_target directory different, cells]

theorem cells_rename_of_ne (directory : Directory Name Cell) {source target other : Name}
    (notSource : other ≠ source) (notTarget : other ≠ target) :
    (directory.rename source target).cells other = directory.cells other := by
  rw [cells, rename_files_of_ne directory notSource notTarget, cells]

/-- What holds of the cells of every file, and of no cells, holds after a renaming. -/
theorem forall_cells_rename {directory : Directory Name Cell} (property : List Cell → Prop)
    (absent : property []) (every : ∀ name, property (directory.cells name)) {source target : Name}
    (different : source ≠ target) (name : Name) :
    property ((directory.rename source target).cells name) := by
  by_cases atSource : name = source
  · rw [atSource, cells_rename_source directory different]
    exact absent
  · by_cases atTarget : name = target
    · rw [atTarget, cells_rename_target directory different]
      exact every source
    · rw [cells_rename_of_ne directory atSource atTarget]
      exact every name

/-! ### Reading files one behind the other -/

/-- The cells of the files of the given names, one file behind the other. -/
def readAll (directory : Directory Name Cell) (names : List Name) : List Cell :=
  names.flatMap directory.cells

omit [DecidableEq Name] in
theorem readAll_append (directory : Directory Name Cell) (names others : List Name) :
    directory.readAll (names ++ others) = directory.readAll names ++ directory.readAll others :=
  List.flatMap_append

omit [DecidableEq Name] in
theorem readAll_singleton (directory : Directory Name Cell) (name : Name) :
    directory.readAll [name] = directory.cells name := List.append_nil _

omit [DecidableEq Name] in
theorem readAll_congr {directory other : Directory Name Cell} {names : List Name}
    (same : ∀ name ∈ names, other.cells name = directory.cells name) :
    other.readAll names = directory.readAll names := by
  rw [readAll, readAll, List.flatMap_def, List.flatMap_def, List.map_congr_left same]

omit [DecidableEq Name] in
theorem readAll_eq_nil {directory : Directory Name Cell} {names : List Name}
    (vacant : ∀ name ∈ names, directory.cells name = []) : directory.readAll names = [] :=
  List.flatMap_eq_nil_iff.mpr vacant

/-- What is written to another file is not read. -/
theorem readAll_append_other (directory : Directory Name Cell) {names : List Name} {name : Name}
    (absent : name ∉ names) (written : List Cell) :
    (directory.append name written).readAll names = directory.readAll names :=
  readAll_congr fun _ member =>
    cells_append_of_ne directory (ne_of_mem_of_not_mem member absent) written

/-- What is written to the last file is read last. -/
theorem readAll_append_last (directory : Directory Name Cell) {names : List Name} {name : Name}
    (absent : name ∉ names) (written : List Cell) :
    (directory.append name written).readAll (names ++ [name]) =
      directory.readAll (names ++ [name]) ++ written := by
  rw [readAll_append, readAll_append, readAll_append_other directory absent, readAll_singleton,
    readAll_singleton, cells_append_self, List.append_assoc]

/-- A renaming of other files is not noticed. -/
theorem readAll_rename_other (directory : Directory Name Cell) {names : List Name}
    {source target : Name} (sourceAbsent : source ∉ names) (targetAbsent : target ∉ names) :
    (directory.rename source target).readAll names = directory.readAll names :=
  readAll_congr fun _ member => cells_rename_of_ne directory
    (ne_of_mem_of_not_mem member sourceAbsent) (ne_of_mem_of_not_mem member targetAbsent)

/-- A renaming of the last file to a name that is vacant, as all names behind it are, is not
noticed. -/
theorem readAll_rename_last (directory : Directory Name Cell) {before after : List Name}
    {source target : Name} (distinct : (before ++ target :: after ++ [source]).Nodup)
    (vacant : ∀ name ∈ target :: after, directory.cells name = []) :
    (directory.rename source target).readAll (before ++ target :: after ++ [source]) =
      directory.readAll (before ++ target :: after ++ [source]) := by
  obtain ⟨names, -, apart⟩ := List.nodup_append.mp distinct
  have notSource : ∀ name ∈ before ++ target :: after, name ≠ source := fun name member =>
    apart name member source (List.mem_singleton_self source)
  have different : source ≠ target :=
    (notSource target (List.mem_append_right _ List.mem_cons_self)).symm
  have front : (directory.rename source target).readAll before = directory.readAll before :=
    readAll_rename_other directory
      (fun member => notSource source (List.mem_append_left _ member) rfl)
      fun member => (List.nodup_append.mp names).2.2 target member target List.mem_cons_self rfl
  have behind : (directory.rename source target).readAll after = directory.readAll after :=
    readAll_rename_other directory
      (fun member => notSource source
        (List.mem_append_right _ (List.mem_cons_of_mem _ member)) rfl)
      (List.nodup_cons.mp (List.nodup_append.mp names).2.1).1
  have nothing : directory.readAll (target :: after) = [] := readAll_eq_nil vacant
  have empty : directory.readAll after = [] :=
    readAll_eq_nil fun name member => vacant name (List.mem_cons_of_mem _ member)
  have moved : (directory.rename source target).readAll (target :: after) =
      directory.cells source := by
    show (directory.rename source target).cells target ++ _ = _
    rw [cells_rename_target directory different]
    exact (congrArg _ (behind.trans empty)).trans (List.append_nil _)
  simp only [readAll_append, readAll_singleton, front, moved, nothing,
    cells_rename_source directory different, List.append_nil]

/-! ### Printing -/

/-- The directory with every cell printed. -/
def expand (directory : Directory Name Cell) (print : Cell → List Byte) : Directory Name Byte where
  files name := (directory.files name).map (List.flatMap print)

omit [DecidableEq Name] in
theorem cells_expand (directory : Directory Name Cell) (print : Cell → List Byte) (name : Name) :
    (directory.expand print).cells name = (directory.cells name).flatMap print := by
  unfold cells expand
  dsimp only
  cases directory.files name <;> rfl

theorem expand_append (directory : Directory Name Cell) (print : Cell → List Byte) (name : Name)
    (written : List Cell) :
    (directory.append name written).expand print =
      (directory.expand print).append name (written.flatMap print) := by
  refine congrArg mk (funext fun other => ?_)
  by_cases here : other = name
  · rw [here, append_files_self, Function.update_self, cells_expand, Option.map_some,
      List.flatMap_append]
  · rw [append_files_of_ne directory here, Function.update_of_ne here]
    rfl

theorem expand_rename (directory : Directory Name Cell) (print : Cell → List Byte)
    (source target : Name) :
    (directory.rename source target).expand print =
      (directory.expand print).rename source target := by
  by_cases same : source = target
  · rw [rename, rename, if_pos same, if_pos same]
  · refine congrArg mk (funext fun other => ?_)
    show ((directory.rename source target).files other).map _ =
      ((directory.expand print).rename source target).files other
    by_cases atSource : other = source
    · rw [atSource, rename_files_source _ same, rename_files_source _ same]
      rfl
    · by_cases atTarget : other = target
      · rw [atTarget, rename_files_target _ same, rename_files_target _ same]
        rfl
      · rw [rename_files_of_ne _ atSource atTarget, rename_files_of_ne _ atSource atTarget]
        rfl

/-! ### Where the cells are -/

/-- No cell is in two files. -/
def Apart (directory : Directory Name Cell) : Prop :=
  ∀ cell first second, cell ∈ directory.cells first → cell ∈ directory.cells second →
    first = second

/-- Some file has the cell. -/
def Keeps (directory : Directory Name Cell) (cell : Cell) : Prop :=
  ∃ name, cell ∈ directory.cells name

omit [DecidableEq Name] in
theorem Apart.existsUnique_iff {directory : Directory Name Cell} (apart : directory.Apart)
    (cell : Cell) : (∃! name, cell ∈ directory.cells name) ↔ directory.Keeps cell := by
  refine ⟨ExistsUnique.exists, ?_⟩
  rintro ⟨name, member⟩
  exact ⟨name, member, fun other memberOther => apart cell other name memberOther member⟩

theorem mem_cells_append {directory : Directory Name Cell} {name other : Name}
    {written : List Cell} {cell : Cell} :
    cell ∈ (directory.append name written).cells other ↔
      cell ∈ directory.cells other ∨ (other = name ∧ cell ∈ written) := by
  by_cases here : other = name
  · rw [here, cells_append_self, List.mem_append, and_iff_right rfl]
  · rw [cells_append_of_ne directory here, or_iff_left fun added => here added.1]

theorem mem_cells_rename {directory : Directory Name Cell} {source target other : Name}
    (different : source ≠ target) {cell : Cell} :
    cell ∈ (directory.rename source target).cells other ↔
      (other = target ∧ cell ∈ directory.cells source) ∨
        (other ≠ source ∧ other ≠ target ∧ cell ∈ directory.cells other) := by
  by_cases atSource : other = source
  · rw [atSource, cells_rename_source directory different]
    refine iff_of_false List.not_mem_nil ?_
    rintro (⟨same, -⟩ | ⟨away, -⟩)
    · exact different same
    · exact away rfl
  · by_cases atTarget : other = target
    · rw [atTarget, cells_rename_target directory different, and_iff_right rfl,
        or_iff_left fun away => away.2.1 rfl]
    · rw [cells_rename_of_ne directory atSource atTarget, or_iff_right fun here => atTarget here.1,
        and_iff_right atSource, and_iff_right atTarget]

theorem keeps_append {directory : Directory Name Cell} {name : Name} {written : List Cell}
    {cell : Cell} :
    (directory.append name written).Keeps cell ↔ directory.Keeps cell ∨ cell ∈ written := by
  constructor
  · rintro ⟨other, member⟩
    exact (mem_cells_append.mp member).imp (fun old => ⟨other, old⟩) And.right
  · rintro (⟨other, member⟩ | added)
    · exact ⟨other, mem_cells_append.mpr (Or.inl member)⟩
    · exact ⟨name, mem_cells_append.mpr (Or.inr ⟨rfl, added⟩)⟩

/-- Appending cells that are nowhere else keeps every cell in one file. -/
theorem Apart.append {directory : Directory Name Cell} (apart : directory.Apart) (name : Name)
    {written : List Cell} (fresh : ∀ cell ∈ written, ¬ directory.Keeps cell) :
    (directory.append name written).Apart := by
  intro cell first second memberFirst memberSecond
  rcases mem_cells_append.mp memberFirst with old | ⟨rfl, added⟩
  · rcases mem_cells_append.mp memberSecond with alsoOld | ⟨rfl, added⟩
    · exact apart cell first second old alsoOld
    · exact absurd ⟨first, old⟩ (fresh cell added)
  · rcases mem_cells_append.mp memberSecond with old | ⟨rfl, -⟩
    · exact absurd ⟨second, old⟩ (fresh cell added)
    · rfl

theorem Apart.rename {directory : Directory Name Cell} (apart : directory.Apart)
    {source target : Name} (different : source ≠ target) :
    (directory.rename source target).Apart := by
  intro cell first second memberFirst memberSecond
  rcases (mem_cells_rename different).mp memberFirst with ⟨rfl, moved⟩ | ⟨notSource, -, stays⟩
  · rcases (mem_cells_rename different).mp memberSecond with ⟨rfl, -⟩ | ⟨notSource, -, stays⟩
    · rfl
    · exact absurd (apart cell second source stays moved) notSource
  · rcases (mem_cells_rename different).mp memberSecond with ⟨rfl, moved⟩ | ⟨-, -, alsoStays⟩
    · exact absurd (apart cell first source stays moved) notSource
    · exact apart cell first second stays alsoStays

/-- A renaming keeps the cells that its target does not have, and no others. -/
theorem Apart.keeps_rename {directory : Directory Name Cell} (apart : directory.Apart)
    {source target : Name} (different : source ≠ target) {cell : Cell} :
    (directory.rename source target).Keeps cell ↔
      directory.Keeps cell ∧ cell ∉ directory.cells target := by
  constructor
  · rintro ⟨other, member⟩
    rcases (mem_cells_rename different).mp member with ⟨-, moved⟩ | ⟨-, notTarget, stays⟩
    · exact ⟨⟨source, moved⟩, fun lost => different (apart cell source target moved lost)⟩
    · exact ⟨⟨other, stays⟩, fun lost => notTarget (apart cell other target stays lost)⟩
  · rintro ⟨⟨other, member⟩, kept⟩
    by_cases atSource : other = source
    · exact ⟨target, (mem_cells_rename different).mpr (Or.inl ⟨rfl, atSource ▸ member⟩)⟩
    · have notTarget : other ≠ target := by
        rintro rfl
        exact kept member
      exact ⟨other, (mem_cells_rename different).mpr (Or.inr ⟨atSource, notTarget, member⟩)⟩

end Directory
