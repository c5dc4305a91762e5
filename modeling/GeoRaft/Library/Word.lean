import Mathlib.Tactic.Ring
import Mathlib.Data.Nat.Notation
import Mathlib.Data.Int.Notation

/-!
The two 32-bit integer types of C, on unbounded integers.

A value of type `uint32_t` is a natural number below `2 ^ 32` and a value of
type `int` is an integer in `[-2 ^ 31, 2 ^ 31)`. The only thing a program does
to leave these ranges and come back is a conversion, so the conversions are all
that is needed: arithmetic is done on `ℤ` and converted where C converts it.
-/

namespace GeoRaft.Word

/-- Conversion to `uint32_t`. -/
def u32 (x : ℤ) : ℕ := (x % 2 ^ 32).toNat

/-- Conversion to `int`: the same 32 bits, read in two's complement. -/
def i32 (x : ℤ) : ℤ := (x + 2 ^ 31) % 2 ^ 32 - 2 ^ 31

theorem u32_lt (x : ℤ) : u32 x < 2 ^ 32 := by
  unfold u32
  omega

theorem u32_le (n : ℕ) : u32 n ≤ n := by
  unfold u32
  omega

theorem i32_le (n : ℕ) : i32 n ≤ n := by
  unfold i32
  omega

theorem i32_lt (x : ℤ) : i32 x < 2 ^ 31 := by
  unfold i32
  omega

theorem le_i32 (x : ℤ) : -2 ^ 31 ≤ i32 x := by
  unfold i32
  omega

/-- A value that fits is not changed by the conversion. -/
theorem u32_of_nat {n : ℕ} (h : n < 2 ^ 32) : u32 n = n := by
  unfold u32
  omega

theorem i32_of_fits {x : ℤ} (hlo : -2 ^ 31 ≤ x) (hhi : x < 2 ^ 31) : i32 x = x := by
  unfold i32
  omega

theorem i32_of_nat {n : ℕ} (h : n < 2 ^ 31) : i32 n = n :=
  i32_of_fits (by omega) (by omega)

/-- Going through the other type loses nothing: both keep all 32 bits. -/
@[simp] theorem i32_u32 (x : ℤ) : i32 (u32 x) = i32 x := by
  unfold i32 u32
  omega

@[simp] theorem u32_i32 (x : ℤ) : u32 (i32 x) = u32 x := by
  unfold i32 u32
  omega

/-- An `int` is negative exactly when its bits are those of a large `uint32_t`. -/
theorem i32_nonneg_iff {n : ℕ} (h : n < 2 ^ 32) : 0 ≤ i32 n ↔ n < 2 ^ 31 := by
  unfold i32
  omega

/-- The wrapped predecessor: an index one below a length, with `-1` for the
empty one, survives the trip through `uint32_t`. -/
theorem i32_u32_pred {n : ℕ} (h : n ≤ 2 ^ 31) : i32 (u32 ((n : ℤ) - 1)) = (n : ℤ) - 1 := by
  rw [i32_u32]
  exact i32_of_fits (by omega) (by omega)

/-- Adding one to the wrapped predecessor wraps back. -/
theorem u32_pred_add {n k : ℕ} (h : n + k ≤ 2 ^ 32) (hpos : 0 < n + k) :
    u32 ((u32 ((n : ℤ) - 1) : ℤ) + k) = n + k - 1 := by
  unfold u32
  omega

/- The lemmas above are all that is used of the conversions: a term that holds one
must not be compared by running it. -/
attribute [irreducible] u32 i32

end GeoRaft.Word
