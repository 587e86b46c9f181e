import Mathlib.Data.Int.ModEq
import Mathlib.Tactic.Ring

/-!
# Words of Bytes

Integers as words of some bytes, the most significant one first.

A word keeps an integer up to a multiple of the number of words of its size. Read as an
unsigned number it gives the remainder, and read as a signed one the only number in the
signed range with the same remainder. Which integers come back from a word is then a matter
of two ranges.

## Main definitions

* `low`, `digits`: The bytes of a word.
* `number`, `signed`: The two readings of one.

## Theorems

* `number_digits`: The unsigned reading.
* `signed_emod`: The signed reading.
* `emod_eq_iff`, `bmod_eq_iff`: The integers that come back.
-/

namespace Words

/-- The low byte of an integer. -/
def low (v : Int) : UInt8 := UInt8.ofNat (v % 256).toNat

/-- The low bytes of an integer, the most significant one first. -/
def digits : Nat → Int → List UInt8
  | 0, _ => []
  | n + 1, v => low (v / 256 ^ n) :: digits n v

/-- The number that some bytes spell. -/
def number : List UInt8 → Int
  | [] => 0
  | b :: bs => b.toNat * 256 ^ bs.length + number bs

/-- A number below `m` as a signed one. -/
def signed (m x : Int) : Int := if x < m / 2 then x else x - m

@[simp] theorem length_digits (n : Nat) (v : Int) : (digits n v).length = n := by
  induction n with
  | zero => rfl
  | succ n ih => rw [digits, List.length_cons, ih]

theorem low_toNat (v : Int) : ((low v).toNat : Int) = v % 256 := by
  have hnn := Int.emod_nonneg v (by decide : (256 : Int) ≠ 0)
  have hlt := Int.emod_lt_of_pos v (by decide : (0 : Int) < 256)
  rw [low, UInt8.toNat_ofNat']
  omega

theorem emod_mul_eq (v a b : Int) (ha : 0 ≤ a) : v % (a * b) = v / a % b * a + v % a := by
  rw [Int.emod_def v (a * b), Int.emod_def (v / a) b, Int.emod_def v a, Int.ediv_ediv_of_nonneg ha]
  ring

/-- The bytes of a word spell the remainder. -/
theorem number_digits (n : Nat) (v : Int) : number (digits n v) = v % 256 ^ n := by
  induction n with
  | zero =>
      rw [Int.pow_zero, Int.emod_one]
      rfl
  | succ n ih =>
      have hpow : (0 : Int) ≤ 256 ^ n := Int.pow_nonneg (by decide)
      rw [digits, number, length_digits, ih, low_toNat, Int.pow_succ, emod_mul_eq v _ 256 hpow]

/-- The number with the same remainder in the signed range. -/
theorem signed_emod (m v : Int) (heven : m % 2 = 0) (n : Nat) (hm : m = n) :
    signed m (v % m) = Int.bmod v n := by
  rw [signed, Int.bmod_def, ← hm]
  have hhalf : m / 2 = (m + 1) / 2 := by omega
  rw [hhalf]

/-! ### What comes back -/

theorem emod_eq_iff (m v : Int) (hm : 0 < m) : v % m = v ↔ 0 ≤ v ∧ v < m := by
  constructor
  · intro h
    have hnn := Int.emod_nonneg v (Int.ne_of_gt hm)
    have hlt := Int.emod_lt_of_pos v hm
    omega
  · rintro ⟨hlo, hhi⟩
    exact Int.emod_eq_of_lt hlo hhi

theorem bmod_eq_iff (m : Nat) (v : Int) (hm : 0 < m) (heven : m % 2 = 0) :
    Int.bmod v m = v ↔ -(m / 2 : Int) ≤ v ∧ v < m / 2 := by
  constructor
  · intro h
    have hlo := Int.le_bmod (x := v) hm
    have hhi := Int.bmod_lt (x := v) hm
    omega
  · rintro ⟨hlo, hhi⟩
    rw [Int.bmod_eq_of_le_mul_two] <;> omega

end Words
