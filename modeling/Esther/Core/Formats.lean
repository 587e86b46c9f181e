import Esther.Core.Serial

/-!
# Formats

`serial_pack_va` and `serial_unpack_va`: a format string that says how the arguments are
laid out.

The format is gone through letter by letter. A letter takes the next argument, and has no
result if there is none or it is of another kind. What is no letter takes no argument: when
packing it is skipped, and when unpacking digits add up to the greatest length of the string
that comes next, in an `unsigned int`, and anything else but a digit puts that back to none.
The letters of the floating point formats are here without a result.

## Main definitions

* `Letra`, `Valor`: The letters and what they stand for.
* `packLetra`, `serialPackVa`: `serial_pack_va`, and one case of it.
* `unpackLetra`, `serialUnpackVa`: `serial_unpack_va`, and one case of it.
-/

namespace Esther

namespace Serial

open Cells

/-- The letters of a format. -/
inductive Letra
  | c | C | h | H | l | L | q | Q | f | d | g | s
deriving DecidableEq, Repr

/-- The labels of `switch(*format)`. -/
def Letra.ofChar (format : Char) : Option Letra :=
  if format = 'c' then some .c
  else if format = 'C' then some .C
  else if format = 'h' then some .h
  else if format = 'H' then some .H
  else if format = 'l' then some .l
  else if format = 'L' then some .L
  else if format = 'q' then some .q
  else if format = 'Q' then some .Q
  else if format = 'f' then some .f
  else if format = 'd' then some .d
  else if format = 'g' then some .g
  else if format = 's' then some .s
  else none

/-- An argument: an integer of whatever type, or a string. -/
inductive Valor
  | entero (v : Int)
  | cadena (str : List UInt8)
deriving DecidableEq, Repr

/-- `packi64`. -/
def packi64 (buf : Buf) (pos : Int) (i : Int) : Buf :=
  write buf pos [byte (i / 2 ^ 56), byte (i / 2 ^ 48), byte (i / 2 ^ 40), byte (i / 2 ^ 32),
    byte (i / 2 ^ 24), byte (i / 2 ^ 16), byte (i / 2 ^ 8), byte i]

/-- `unpacki32`. -/
def unpacki32 (buf : Buf) (pos : Int) : Int :=
  let i2 : Int := (buf pos).toNat * 2 ^ 24 + (buf (pos + 1)).toNat * 2 ^ 16
    + (buf (pos + 2)).toNat * 2 ^ 8 + (buf (pos + 3)).toNat
  if i2 ≤ 0x7fffffff then i2 else -1 - (0xffffffff - i2)

/-- `unpacku64`. -/
def unpacku64 (buf : Buf) (pos : Int) : Int :=
  (buf pos).toNat * 2 ^ 56 + (buf (pos + 1)).toNat * 2 ^ 48
    + (buf (pos + 2)).toNat * 2 ^ 40 + (buf (pos + 3)).toNat * 2 ^ 32
    + (buf (pos + 4)).toNat * 2 ^ 24 + (buf (pos + 5)).toNat * 2 ^ 16
    + (buf (pos + 6)).toNat * 2 ^ 8 + (buf (pos + 7)).toNat

/-- `unpacki64`. -/
def unpacki64 (buf : Buf) (pos : Int) : Int :=
  let i2 := unpacku64 buf pos
  if i2 ≤ 0x7fffffffffffffff then i2 else -1 - (0xffffffffffffffff - i2)

/-- A case of `serial_pack_va`: the buffer, and by how much `size` grows. -/
def packLetra (buf : Buf) (pos : Int) : Letra → Valor → Option (Buf × Nat)
  | .c, .entero c => some (Function.update buf pos (byte c), 1)
  | .C, .entero C => some (Function.update buf pos (byte C), 1)
  | .h, .entero h => some (packi16 buf pos h, 2)
  | .H, .entero H => some (packi16 buf pos H, 2)
  | .l, .entero l => some (packi32 buf pos l, 4)
  | .L, .entero L => some (packi32 buf pos L, 4)
  | .q, .entero q => some (packi64 buf pos q, 8)
  | .Q, .entero Q => some (packi64 buf pos Q, 8)
  | .s, .cadena s =>
      let len := (cstr s).length
      some (write (packi16 buf pos len) (pos + 2) (cstr s), len + 2)
  | _, _ => none

/-- `serial_pack_va`: what the buffer holds afterwards, and the size. -/
def serialPackVa (buf : Buf) (pos : Int) : List Char → List Valor → Option (Buf × Nat)
  | [], _ => some (buf, 0)
  | ch :: format, args =>
      match Letra.ofChar ch, args with
      | none, args => serialPackVa buf pos format args
      | some _, [] => none
      | some letra, arg :: args => do
          let (buf, n) ← packLetra buf pos letra arg
          let (buf, size) ← serialPackVa buf (pos + n) format args
          some (buf, n + size)

/-- A case of `serial_unpack_va`: the argument, and by how much `buf` goes on. -/
def unpackLetra (buf : Buf) (pos : Int) (maxstrlen : Nat) : Letra → Option (Valor × Nat)
  | .c => some (.entero (unpackChar buf pos), 1)
  | .C => some (.entero (buf pos).toNat, 1)
  | .h => some (.entero (unpacki16 buf pos), 2)
  | .H => some (.entero (unpacku16 buf pos), 2)
  | .l => some (.entero (unpacki32 buf pos), 4)
  | .L => some (.entero (unpacku32 buf pos), 4)
  | .q => some (.entero (unpacki64 buf pos), 8)
  | .Q => some (.entero (unpacku64 buf pos), 8)
  | .s => some (.cadena (unpackStr buf pos maxstrlen), (unpacku16 buf pos).toNat + 2)
  | .f => none
  | .d => none
  | .g => none

/-- `maxstrlen` after a character that is no letter. -/
def cuenta (maxstrlen : Nat) (format : Char) : Nat :=
  if format.isDigit then (maxstrlen * 10 + (format.toNat - '0'.toNat)) % 2 ^ 32 else 0

/-- `serial_unpack_va`: the arguments, one after another. -/
def serialUnpackVa (buf : Buf) (pos : Int) (maxstrlen : Nat) : List Char → Option (List Valor)
  | [] => some []
  | ch :: format =>
      match Letra.ofChar ch with
      | none => serialUnpackVa buf pos (cuenta maxstrlen ch) format
      | some letra => do
          let (arg, n) ← unpackLetra buf pos maxstrlen letra
          let args ← serialUnpackVa buf (pos + n) 0 format
          some (arg :: args)

end Serial

end Esther
