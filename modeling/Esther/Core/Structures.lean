import Mathlib.Data.List.Basic
import Mathlib.Data.UInt

/-!
# Shared Structures

The records of `structures.h`, which every process of the system handles, and
the conventions the C types are read under.

An `int` is an integer. Arithmetic on `int` that leaves 32 bits has no defined
result in C; where counters can be driven there, the model stops (`fitsInt`). The
places where a wider value is *converted* to `int` are different, because that
conversion is defined by the compiler, and there the model converts too
(`toInt`).

A pointer is a function from offsets to bytes, `Buf`. What lies beyond the
object it points into is some value nothing is known about.

Strings are the bytes before the terminator as the C functions see them:
`cstr` cuts at the first zero byte.

## Main definitions

* `Buf`: What a pointer to bytes points at.
* `byte`, `toInt`, `toSizeT`: The conversions to `unsigned char`, `int` and
  `size_t`.
* `fitsInt`: What an `int` can hold.
* `cstr`: A character array read as a string.
* `Pcb`: The process control block, with the records it is made of.
-/

namespace Esther

/-- What a pointer to bytes points at, by offset. -/
abbrev Buf := Int → UInt8

/-- Conversion to `unsigned char`: the low eight bits. -/
def byte (i : Int) : UInt8 := UInt8.ofNat (i % 256).toNat

/-- Conversion of a wider value to `int`: the low 32 bits, read as signed. -/
def toInt (i : Int) : Int := Int.bmod i (2 ^ 32)

/-- The values of an `int`. -/
def fitsInt (i : Int) : Bool := -2 ^ 31 ≤ i && i < 2 ^ 31

/-- Conversion of an `int` to `size_t`. -/
def toSizeT (i : Int) : Nat := (i % 2 ^ 64).toNat

/-- The string an array of characters holds: everything before the first zero. -/
def cstr (s : List UInt8) : List UInt8 := s.takeWhile (· ≠ 0)

/-- `BUFFER_CAPACITY`. -/
def bufferCapacity : Nat := 1024

/-- A memory position: page, offset in the page, and size. -/
structure Mempos where
  page : Int
  offset : Int
  size : Int
deriving DecidableEq, Repr, Inhabited

/-- A variable; `id` is a signed `char`. -/
structure Var where
  id : Int
  mempos : Mempos
deriving DecidableEq, Repr, Inhabited

/-- A label or function of a program. -/
structure ProgramTag where
  name : List UInt8
  PC : Int
deriving DecidableEq, Repr, Inhabited

/-- An entry of the code index: where an instruction starts and how long it is. -/
structure Instruction where
  start : Int
  offset : Int
deriving DecidableEq, Repr, Inhabited

/-- An entry of the stack index, that is, a function being executed. -/
structure Stack where
  args : List Var
  vars : List Var
  retPos : Int
  retVar : Mempos
deriving DecidableEq, Repr, Inhabited

/-- The control block of a process. The counts `instructions` and `tags` are
    separate from the arrays they describe, as in the source. -/
structure Pcb where
  idProcess : Int
  PC : Int
  quantum : Int
  status : Int
  pagesCode : Int
  indexCode : List Instruction
  instructions : Int
  indexTag : List ProgramTag
  tags : Int
  stack : List Stack
  stackPointer : Int
  exitCode : Int
deriving DecidableEq, Repr, Inhabited

theorem toInt_of_lt (i : Int) (hlo : 0 ≤ i) (hhi : i < 2 ^ 31) : toInt i = i := by
  rw [toInt, Int.bmod_eq_of_le_mul_two] <;> omega

/-- Converting to `int` twice over, with an addition in between, is converting
    once. -/
theorem toInt_add_toInt (i j : Int) : toInt (i + toInt j) = toInt (i + j) :=
  Int.add_bmod_bmod

theorem toInt_toInt_add (i j : Int) : toInt (toInt i + j) = toInt (i + j) :=
  Int.bmod_add_bmod

/-- A trip through `size_t` loses nothing an `int` can see. -/
theorem toInt_toSizeT (i : Int) : toInt (toSizeT i) = toInt i := by
  have hnn : 0 ≤ i % 2 ^ 64 := Int.emod_nonneg i (by decide)
  rw [toSizeT, Int.toNat_of_nonneg hnn, toInt, toInt, ← Int.emod_bmod (i % 2 ^ 64),
    Int.emod_emod_of_dvd i (by decide : ((2 ^ 32 : Nat) : Int) ∣ 2 ^ 64), Int.emod_bmod]

end Esther
