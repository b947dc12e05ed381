/-
This file is the library of printed numbers: decimal numerals, padded to a width with
blanks or with zeros. A padded numeral can be read back, so it determines its number, and
its length is known from a bound on the number.
-/

import Mathlib.Algebra.Group.Nat.Defs
import Mathlib.Logic.Function.Basic

namespace Decimal

/-- The numeral of an integer. -/
def numeral : Int → List Char
  | .ofNat value => Nat.toDigits 10 value
  | .negSucc value => '-' :: Nat.toDigits 10 (value + 1)

/-- The numeral of an integer, with blanks in front up to the given width. -/
@[irreducible]
def blankPadded (width : Nat) (value : Int) : List Char := (numeral value).leftpad width ' '

/-- The numeral of a number, with zeros in front up to the given width. -/
@[irreducible]
def zeroPadded (width value : Nat) : List Char := (Nat.toDigits 10 value).leftpad width '0'

/-! ### Zeros in front -/

theorem ofDigitChars_zeroPadded (width value : Nat) :
    Nat.ofDigitChars 10 (zeroPadded width value) 0 = value := by
  rw [zeroPadded, List.leftpad, Nat.ofDigitChars_append, Nat.ofDigitChars_replicate_zero,
    Nat.mul_zero, Nat.ofDigitChars_ten_toDigits]

theorem zeroPadded_injective (width : Nat) : Function.Injective (zeroPadded width) :=
  Function.LeftInverse.injective (ofDigitChars_zeroPadded width)

theorem length_zeroPadded {width value : Nat} (wide : 0 < width) (fits : value < 10 ^ width) :
    (zeroPadded width value).length = width := by
  rw [zeroPadded, List.length_leftpad]
  exact Nat.max_eq_left ((Nat.length_toDigits_le_iff (by decide) wide).mpr fits)

theorem isDigit_of_mem_zeroPadded {width value : Nat} {character : Char}
    (member : character ∈ zeroPadded width value) : character.isDigit = true := by
  rw [zeroPadded, List.leftpad] at member
  rcases List.mem_append.mp member with padding | digit
  · rw [List.eq_of_mem_replicate padding]
    rfl
  · exact Nat.isDigit_of_mem_toDigits (by decide) (by decide) digit

/-! ### Blanks in front -/

/-- The number of a numeral. -/
def read : List Char → Int
  | '-' :: digits => -(Nat.ofDigitChars 10 digits 0 : Int)
  | digits => Nat.ofDigitChars 10 digits 0

theorem read_toDigits (value : Nat) : read (Nat.toDigits 10 value) = value := by
  rcases shape : Nat.toDigits 10 value with _ | ⟨first, rest⟩
  · exact absurd shape Nat.toDigits_ne_nil
  · have digit : first.isDigit = true :=
      Nat.isDigit_of_mem_toDigits (by decide) (by decide) (shape ▸ List.mem_cons_self)
    have unsigned : first ≠ '-' := by
      rintro rfl
      exact Bool.noConfusion digit
    rw [read, ← shape, Nat.ofDigitChars_ten_toDigits]
    rintro rest' ⟨⟩
    exact unsigned rfl

theorem read_numeral (value : Int) : read (numeral value) = value := by
  cases value with
  | ofNat value => exact read_toDigits value
  | negSucc value =>
    show -(Nat.ofDigitChars 10 (Nat.toDigits 10 (value + 1)) 0 : Int) = _
    rw [Nat.ofDigitChars_ten_toDigits]
    rfl

/-- A numeral does not begin with a blank. -/
theorem dropWhile_numeral (value : Int) : (numeral value).dropWhile (· == ' ') = numeral value := by
  cases value with
  | ofNat value =>
    rw [numeral]
    rcases shape : Nat.toDigits 10 value with _ | ⟨first, rest⟩
    · rfl
    · have digit : first.isDigit = true :=
        Nat.isDigit_of_mem_toDigits (by decide) (by decide) (shape ▸ List.mem_cons_self)
      have printed : first ≠ ' ' := by
        rintro rfl
        exact Bool.noConfusion digit
      rw [List.dropWhile_cons_of_neg]
      rwa [beq_iff_eq]
  | negSucc value => rfl

theorem read_blankPadded (width : Nat) (value : Int) :
    read ((blankPadded width value).dropWhile (· == ' ')) = value := by
  rw [blankPadded, List.leftpad, List.dropWhile_append_of_pos, dropWhile_numeral, read_numeral]
  intro character padding
  rw [List.eq_of_mem_replicate padding]
  rfl

theorem blankPadded_injective (width : Nat) : Function.Injective (blankPadded width) := by
  intro first second same
  rw [← read_blankPadded width first, same, read_blankPadded]

/-- The length of a numeral, its sign included. -/
theorem length_blankPadded_le {width digits : Nat} (wide : 0 < digits) (narrow : width ≤ digits + 1)
    {value : Int} (fits : value.natAbs < 10 ^ digits) :
    (blankPadded width value).length ≤ digits + 1 := by
  rw [blankPadded, List.length_leftpad]
  refine Nat.max_le.mpr ⟨narrow, ?_⟩
  cases value with
  | ofNat value =>
    exact Nat.le_succ_of_le ((Nat.length_toDigits_le_iff (by decide) wide).mpr fits)
  | negSucc value =>
    exact Nat.succ_le_succ ((Nat.length_toDigits_le_iff (by decide) wide).mpr fits)

end Decimal
