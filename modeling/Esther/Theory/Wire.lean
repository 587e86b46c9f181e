import Esther.Core.Serial
import Mathlib.Data.List.TakeWhile
import Mathlib.Tactic.Linarith

/-!
# The Wire Format

What the format letters put on the wire, as lists of bytes.

The encoders store bytes through a moving pointer; a list of bytes is easier to
reason about, because the offsets disappear into append. `serialPack_eq` says
that packing stores exactly the list `encArgs` and reports its length, and from
then on nobody looks at the stores.

Sixteen-bit fields are not faithful to the `int` they carry: what comes out is
`toShort` of what went in, for every value, and the two agree on the signed
16-bit range only. The general form is what the rest of the system sees, since
nothing checks the range before packing.

## Main definitions

* `toShort`: What a 16-bit field carries.
* `Short`: The signed 16-bit range.
* `encH`, `encArg`, `encArgs`: The bytes of a field, an argument, a call.

## Theorems

* `serialPack_eq`: Packing stores the bytes of its arguments.
* `unpacki16_of_reads`, `unpackFields_of_reads`: A signed field comes out as `toShort`.
* `unpacku32_of_reads`: An unsigned 32-bit field comes out as itself.
* `unpackChar_of_reads`: A signed character comes out as itself.
* `unpackStr_of_reads`: A short string without zero bytes comes out as itself.
* `toShort_of_short`: A value in range is carried faithfully.
-/

namespace Esther

namespace Serial

open Cells

/-- What a signed 16-bit field carries of an `int`. -/
def toShort (v : Int) : Int := Int.bmod v (2 ^ 16)

/-- The signed 16-bit range. -/
def Short (v : Int) : Prop := -2 ^ 15 ≤ v ∧ v < 2 ^ 15

theorem toShort_of_short (v : Int) (h : Short v) : toShort v = v := by
  rw [toShort, Int.bmod_eq_of_le_mul_two] <;> simp only [Short] at h <;> omega

theorem short_toShort (v : Int) : Short (toShort v) := by
  have hlo := Int.le_bmod (x := v) (m := 2 ^ 16) (by omega)
  have hhi := Int.bmod_lt (x := v) (m := 2 ^ 16) (by omega)
  simp only [Short, toShort]
  omega

/-- A 16-bit field never carries more than what was put in, if that was not
    negative. -/
theorem toShort_le (v : Int) (h : 0 ≤ v) : toShort v ≤ v := by
  rw [toShort, Int.bmod_def]
  split <;> omega

theorem toShort_eq_iff (v : Int) (h : 0 ≤ v) : toShort v = v ↔ v < 2 ^ 15 := by
  have hshort := short_toShort v
  simp only [Short] at hshort
  constructor
  · intro hc
    omega
  · intro hc
    exact toShort_of_short v ⟨by omega, hc⟩

theorem short_of_length (n : Nat) (h : n < 2 ^ 15) : Short (n : Int) := by
  simp only [Short]
  omega

/-- The two bytes of a 16-bit field. -/
def encH (v : Int) : List UInt8 := [byte (v / 2 ^ 8), byte v]

/-- The bytes one argument is packed into. -/
def encArg : Arg → List UInt8
  | .c v => [byte v]
  | .C v => [byte v]
  | .h v => encH v
  | .L v => [byte (v / 2 ^ 24), byte (v / 2 ^ 16), byte (v / 2 ^ 8), byte v]
  | .s str => encH (cstr str).length ++ cstr str

/-- The bytes of a whole call of `serial_pack`. -/
def encArgs (args : List Arg) : List UInt8 := args.flatMap encArg

/-- Packing stores the bytes of its arguments from the buffer's start on, and
    reports how many there are. -/
theorem serialPack_eq (buf : Buf) (pos : Int) (args : List Arg) :
    serialPack buf pos args = (write buf pos (encArgs args), (encArgs args).length) := by
  induction args generalizing buf pos with
  | nil => rfl
  | cons arg args ih =>
      have hsplit : encArgs (arg :: args) = encArg arg ++ encArgs args := by
        simp only [encArgs, List.flatMap_cons]
      -- Each letter advances the pointer by the length of its own bytes.
      cases arg with
      | c v =>
          rw [serialPack, ih, hsplit, write_append, List.length_append]
          rfl
      | C v =>
          rw [serialPack, ih, hsplit, write_append, List.length_append]
          rfl
      | h v =>
          rw [serialPack, ih, hsplit, write_append, List.length_append]
          rfl
      | L v =>
          have hstore : packi32 buf pos v = write buf pos (encArg (.L v)) := by
            simp only [packi32, encArg, write]
            rw [show pos + 1 + 1 = pos + 2 by ring, show pos + 2 + 1 = pos + 3 by ring]
          rw [serialPack, ih, hsplit, write_append, List.length_append, hstore]
          rfl
      | s str =>
          have hstore : write (packi16 buf pos (cstr str).length) (pos + 2) (cstr str)
              = write buf pos (encArg (.s str)) := by
            rw [encArg, write_append]
            rfl
          have hlen : (encArg (.s str)).length = (cstr str).length + 2 := by
            simp only [encArg, encH, List.length_append, List.length_cons, List.length_nil]
            omega
          rw [serialPack, ih, hsplit, write_append, List.length_append, hstore, hlen,
            show pos + 2 + ((cstr str).length : Int)
              = pos + (((cstr str).length + 2 : Nat) : Int) by omega]

theorem byte_toNat (i : Int) : ((byte i).toNat : Int) = i % 2 ^ 8 := by
  have hnn := Int.emod_nonneg i (by decide : (256 : Int) ≠ 0)
  have hlt := Int.emod_lt_of_pos i (by decide : (0 : Int) < 256)
  rw [byte, UInt8.toNat_ofNat']
  omega

/-- The bytes of a field, read as an unsigned value. -/
theorem fieldBytes (v : Int) :
    ((byte (v / 2 ^ 8)).toNat : Int) * 2 ^ 8 + (byte v).toNat = v % 2 ^ 16 := by
  rw [byte_toNat, byte_toNat]
  omega

/-- A field comes out of the buffer as `toShort` of what went in. -/
theorem unpacki16_of_reads (buf : Buf) (pos v : Int) (h : Reads buf pos (encH v)) :
    unpacki16 buf pos = toShort v := by
  rcases (reads_cons _ _ _ _).mp h with ⟨hhi, hrest⟩
  rcases (reads_cons _ _ _ _).mp hrest with ⟨hlo, _⟩
  have hval := fieldBytes v
  simp only [unpacki16, hhi, hlo, hval, toShort, Int.bmod_def]
  split <;> split <;> omega

/-- The fields of a run of 16-bit integers. -/
theorem unpackFields_of_reads (buf : Buf) (vs : List Int) (tam : Int)
    (h : Reads buf tam (vs.flatMap encH)) (k : Nat) (hk : k < vs.length) :
    unpacki16 buf (tam + 2 * k) = toShort vs[k] := by
  induction vs generalizing tam k with
  | nil => exact absurd hk (Nat.not_lt_zero k)
  | cons v vs ih =>
      have hlen : (encH v).length = 2 := rfl
      rw [List.flatMap_cons, reads_append, hlen] at h
      cases k with
      | zero =>
          rw [Int.natCast_zero, Int.mul_zero, Int.add_zero]
          exact unpacki16_of_reads _ _ _ h.1
      | succ k =>
          have hnext := ih (tam + 2) h.2 k (Nat.lt_of_succ_lt_succ hk)
          rw [show tam + 2 * ((k + 1 : Nat) : Int) = tam + 2 + 2 * k by omega]
          exact hnext

theorem unpacku16_of_reads (buf : Buf) (pos v : Int) (h : Reads buf pos (encH v)) :
    unpacku16 buf pos = v % 2 ^ 16 := by
  rcases (reads_cons _ _ _ _).mp h with ⟨hhi, hrest⟩
  rcases (reads_cons _ _ _ _).mp hrest with ⟨hlo, _⟩
  rw [unpacku16, hhi, hlo, fieldBytes]

/-- Four bytes come out as what went in, if four bytes are enough for it. -/
theorem unpacku32_of_reads (buf : Buf) (pos v : Int) (hlo : 0 ≤ v) (hhi : v < 2 ^ 32)
    (h : Reads buf pos (encArg (.L v))) : unpacku32 buf pos = v := by
  rcases (reads_cons _ _ _ _).mp h with ⟨h0, hrest⟩
  rcases (reads_cons _ _ _ _).mp hrest with ⟨h1, hrest⟩
  rcases (reads_cons _ _ _ _).mp hrest with ⟨h2, hrest⟩
  rcases (reads_cons _ _ _ _).mp hrest with ⟨h3, _⟩
  rw [show pos + 1 + 1 = pos + 2 by ring] at h2
  rw [show pos + 1 + 1 + 1 = pos + 3 by ring] at h3
  rw [unpacku32, h0, h1, h2, h3]
  simp only [byte_toNat]
  omega

/-- A signed character comes out as itself. -/
theorem unpackChar_of_reads (buf : Buf) (pos v : Int) (hlo : -2 ^ 7 ≤ v) (hhi : v < 2 ^ 7)
    (h : Reads buf pos [byte v]) : unpackChar buf pos = v := by
  have hcell := ((reads_cons _ _ _ _).mp h).1
  have hval := byte_toNat v
  simp only [unpackChar, hcell, hval]
  split <;> omega

/-- The string functions see all of a string without zero bytes. -/
theorem cstr_of_notMem (s : List UInt8) (h : (0 : UInt8) ∉ s) : cstr s = s := by
  rw [cstr, List.takeWhile_eq_self_iff]
  intro b hb
  have hne : b ≠ 0 := fun hc => h (hc ▸ hb)
  simpa only [decide_eq_true_eq] using hne

/-- A short string without zero bytes comes out as itself. -/
theorem unpackStr_of_reads (buf : Buf) (pos : Int) (s : List UInt8) (hz : (0 : UInt8) ∉ s)
    (hlen : s.length ≤ 63) (h : Reads buf pos (encArg (.s s))) :
    unpackStr buf pos 64 = s := by
  rw [encArg, cstr_of_notMem s hz, reads_append] at h
  have hcount : (unpacku16 buf pos).toNat = s.length := by
    rw [unpacku16_of_reads buf pos _ h.1]
    omega
  have hbody : Reads buf (pos + 2) s := h.2
  have hbound : ¬ (0 < 64 ∧ 64 < s.length) := by omega
  simp only [unpackStr, hcount, if_neg hbound]
  rw [hbody, cstr_of_notMem s hz]

end Serial

end Esther
