/-
This file is the library of machine words and memory regions. `Word` is unsigned
arithmetic of a given width on natural numbers, with the equations that hold while
nothing wraps. `Region` is a resizable array of cells: the reads, writes and copies
of a language that leaves an access outside the array undefined are partial, and
the lemmas say what a window of cells (`Region.slice`) is after each of them.
-/

import Mathlib.Algebra.Group.Int.Defs
import Mathlib.Algebra.Group.Nat.Defs
import Mathlib.Data.List.Basic

/-! ### Unsigned words -/

namespace Word

/-- Addition of two unsigned words of the given width. -/
def add (width first second : Nat) : Nat := (first + second) % 2 ^ width

/-- Subtraction of two unsigned words of the given width. -/
def sub (width first second : Nat) : Nat := (first + (2 ^ width - second)) % 2 ^ width

/-- Multiplication of two unsigned words of the given width. -/
def mul (width first second : Nat) : Nat := first * second % 2 ^ width

/-- The value of an unsigned word of the given width read as a signed one. -/
def toInt (width value : Nat) : Int :=
  if value < 2 ^ (width - 1) then (value : Int) else (value : Int) - 2 ^ width

theorem add_of_lt {width first second : Nat} (fits : first + second < 2 ^ width) :
    add width first second = first + second := Nat.mod_eq_of_lt fits

theorem add_le (width first second : Nat) : add width first second ≤ first + second :=
  Nat.mod_le _ _

theorem sub_of_le {width first second : Nat} (ordered : second ≤ first)
    (fits : first < 2 ^ width) : sub width first second = first - second := by
  have shifted : first + (2 ^ width - second) = (first - second) + 2 ^ width := by omega
  rw [sub, shifted, Nat.add_mod_right, Nat.mod_eq_of_lt (by omega)]

theorem mul_of_lt {width first second : Nat} (fits : first * second < 2 ^ width) :
    mul width first second = first * second := Nat.mod_eq_of_lt fits

end Word

/-! ### Regions of cells -/

namespace Region

variable {Cell : Type}

/-- The `count` cells from `start`. -/
def slice (cells : List Cell) (start count : Nat) : List Cell := (cells.drop start).take count

/-- The cells with the ones from `start` replaced by `source`. -/
def overwrite (cells : List Cell) (start : Nat) (source : List Cell) : List Cell :=
  cells.take start ++ source ++ cells.drop (start + source.length)

/-- The cells with their number changed to `size`, new cells holding `fill`. -/
def resize (cells : List Cell) (size : Nat) (fill : Cell) : List Cell :=
  cells.take size ++ List.replicate (size - cells.length) fill

/-- Read `count` cells from `start`, undefined unless all of them are in the region. -/
def read (cells : List Cell) (start count : Nat) : Option (List Cell) :=
  if start + count ≤ cells.length then some (slice cells start count) else none

/-- Copy `source` into the region at `start`, undefined unless it fits. -/
def write (cells : List Cell) (start : Nat) (source : List Cell) : Option (List Cell) :=
  if start + source.length ≤ cells.length then some (overwrite cells start source) else none

/-- Two ranges of `count` cells with no cell in common. -/
def Disjoint (first second count : Nat) : Prop := first + count ≤ second ∨ second + count ≤ first

instance (first second count : Nat) : Decidable (Disjoint first second count) :=
  inferInstanceAs (Decidable (_ ∨ _))

/-- Copy `count` cells from `source` to `target` inside one region, undefined unless both ranges
are in the region and they do not overlap. -/
def move (cells : List Cell) (target source count : Nat) : Option (List Cell) :=
  if target + count ≤ cells.length ∧ source + count ≤ cells.length ∧
      Disjoint target source count then
    some (overwrite cells target (slice cells source count))
  else none

/-! ### Windows -/

theorem length_slice {cells : List Cell} {start count : Nat}
    (inside : start + count ≤ cells.length) : (slice cells start count).length = count := by
  rw [slice, List.length_take, List.length_drop]
  omega

/-- Dropping cells from the front of a window moves its start. -/
theorem slice_drop (cells : List Cell) (start count dropped : Nat) :
    slice cells (start + dropped) (count - dropped) = (slice cells start count).drop dropped := by
  rw [slice, slice, List.drop_take, List.drop_drop]

/-- A shorter window is a prefix of the longer one. -/
theorem slice_take (cells : List Cell) (start : Nat) {count taken : Nat} (short : taken ≤ count) :
    slice cells start taken = (slice cells start count).take taken := by
  rw [slice, slice, List.take_take, Nat.min_eq_left short]

theorem overwrite_nil (cells : List Cell) (start : Nat) : overwrite cells start [] = cells := by
  rw [overwrite, List.append_nil, List.length_nil, Nat.add_zero, List.take_append_drop]

theorem length_overwrite {cells source : List Cell} {start : Nat}
    (inside : start + source.length ≤ cells.length) :
    (overwrite cells start source).length = cells.length := by
  rw [overwrite, List.length_append, List.length_append, List.length_take, List.length_drop]
  omega

/-- A window that ends where the write starts, extended over the written cells. -/
theorem slice_overwrite {cells : List Cell} (source : List Cell) {start size : Nat}
    (inside : start + size ≤ cells.length) :
    slice (overwrite cells (start + size) source) start (size + source.length) =
      slice cells start size ++ source := by
  have front : (cells.take (start + size)).drop start = slice cells start size := by
    rw [slice, List.drop_take, Nat.add_sub_cancel_left]
  have shorter : start ≤ (cells.take (start + size)).length := by
    rw [List.length_take]
    omega
  rw [slice, overwrite, List.append_assoc, List.drop_append_of_le_length shorter, front,
    ← List.append_assoc]
  refine List.take_left' ?_
  rw [List.length_append, length_slice inside]

theorem length_resize (cells : List Cell) (size : Nat) (fill : Cell) :
    (resize cells size fill).length = size := by
  rw [resize, List.length_append, List.length_take, List.length_replicate]
  omega

/-- A window inside both the old and the new size survives a change of size. -/
theorem slice_resize {cells : List Cell} {start count size : Nat} (fill : Cell)
    (inside : start + count ≤ cells.length) (kept : cells.length ≤ size) :
    slice (resize cells size fill) start count = slice cells start count := by
  rw [resize, List.take_of_length_le kept, slice, slice,
    List.drop_append_of_le_length (by omega), List.take_append_of_le_length]
  rw [List.length_drop]
  omega

/-! ### The partial accesses -/

theorem read_of_le {cells : List Cell} {start count : Nat}
    (inside : start + count ≤ cells.length) :
    read cells start count = some (slice cells start count) := if_pos inside

theorem write_of_le {cells source : List Cell} {start : Nat}
    (inside : start + source.length ≤ cells.length) :
    write cells start source = some (overwrite cells start source) := if_pos inside

theorem write_eq_some_iff {cells source written : List Cell} {start : Nat} :
    write cells start source = some written ↔
      start + source.length ≤ cells.length ∧ written = overwrite cells start source := by
  rw [write, Option.ite_none_right_eq_some, Option.some.injEq]
  exact and_congr_right fun _ => eq_comm

/-- Moving a window to the front of the region, past its own length, is defined. -/
theorem move_to_front {cells : List Cell} {source count : Nat}
    (inside : source + count ≤ cells.length) (apart : count ≤ source) :
    move cells 0 source count = some (overwrite cells 0 (slice cells source count)) := by
  refine if_pos ⟨by omega, inside, Or.inl (by omega)⟩

/-- A window moved to the front of the region is found there. -/
theorem slice_overwrite_zero (cells source : List Cell) :
    slice (overwrite cells 0 source) 0 source.length = source := by
  rw [slice, overwrite, List.take_zero, List.nil_append, List.drop_zero]
  exact List.take_left' rfl

end Region
