import Mathlib.Data.Int.Notation
import Mathlib.Tactic.NormNum

/-!
# Platforms, bytes and the integer conversions of the source

The source is one program with two preprocessor branches, `_WIN32` and `__linux__`.
The model keeps both: definitions take the `Platform` they are compiled for.
-/

namespace MiddleMan

/-- The two preprocessor branches of the source. -/
inductive Platform where
  /-- `_WIN32` -/
  | windows
  /-- `__linux__` -/
  | linux
deriving DecidableEq, Repr

/-- A `char` of the stream.  Every value is possible, NUL and the bytes from 0x80 on included. -/
abbrev Byte := BitVec 8

/-- The width of `unsigned long`: LLP64 on Windows, LP64 on Linux. -/
def Platform.unsignedLongBits : Platform → ℕ
  | .windows => 32
  | .linux => 64

/-- Conversion of a signed value to `unsigned long`: reduction modulo `2 ^ w`. -/
def toUnsignedLong (platform : Platform) (value : ℤ) : ℕ :=
  (value % 2 ^ platform.unsignedLongBits).toNat

/-- The cast `(int)` of an unsigned value: the representative in `[-2 ^ 31, 2 ^ 31)`. -/
def castInt (value : ℕ) : ℤ :=
  (value : ℤ).bmod (2 ^ 32)

theorem toUnsignedLong_natCast (platform : Platform) {count : ℕ} (small : count < 2 ^ 31) :
    toUnsignedLong platform count = count := by
  have bound : (count : ℤ) < 2 ^ platform.unsignedLongBits := by
    cases platform <;> simp only [Platform.unsignedLongBits] <;> omega
  rw [toUnsignedLong, Int.emod_eq_of_lt (by omega) bound, Int.toNat_natCast]

theorem castInt_eq {count : ℕ} (small : count < 2 ^ 31) : castInt count = count := by
  apply Int.bmod_eq_of_le <;> omega

/--
The `-1` of a failed `read` is stored as the largest `unsigned long`, and the cast to
`int` gives `-1` back.
-/
theorem castInt_toUnsignedLong_neg_one (platform : Platform) :
    castInt (toUnsignedLong platform (-1)) = -1 := by
  cases platform <;> decide

end MiddleMan
