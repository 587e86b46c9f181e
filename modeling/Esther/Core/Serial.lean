import Esther.Core.Structures
import Esther.Lib.Cells

/-!
# Serialization

`serial.c`: the format-driven packing of integers and strings, and the packing
of a process control block on top of it.

A format string and its arguments become one list of `Arg`, the constructor
being the format letter. Of the letters, those the system sends are here; the
floating point ones and `l`, `q` and their unsigned forms are never used.

The control block functions keep a running offset `tam`, an `int`, and add to
it what each nested call returns, a `size_t`. The sum is converted back to
`int` every time, and the model converts with it (`Writer.call`). The nested
functions start again from zero at their own `buff`, which is the caller's
`buff+tam`.

Decoding walks the same offsets on its own, adding a constant after each read
instead of asking how much was read.

## Main definitions

* `serialPack`: `serial_pack`, with `packi16` and `packi32` under it.
* `unpacki16`, `unpacku16`, `unpackChar`, `unpackStr`: One letter of
  `serial_unpack` each.
* `serialPackVars`, `serialPackStack`, `serialPackPcb`: The control block
  encoders.
* `varsBytes`, `stackBytes`, `pcbBytes`: The room they need.
* `serialUnpackVars`, `serialUnpackStack`, `serialUnpackPcb`: The decoders.
-/

namespace Esther

namespace Serial

open Cells

/-- A format letter together with its argument. -/
inductive Arg
  | c (v : Int)
  | C (v : Int)
  | h (v : Int)
  | L (v : Int)
  | s (str : List UInt8)
deriving DecidableEq, Repr

def packi16 (buf : Buf) (pos : Int) (i : Int) : Buf :=
  Function.update (Function.update buf pos (byte (i / 2 ^ 8))) (pos + 1) (byte i)

def packi32 (buf : Buf) (pos : Int) (i : Int) : Buf :=
  Function.update (Function.update (Function.update (Function.update buf
    pos (byte (i / 2 ^ 24))) (pos + 1) (byte (i / 2 ^ 16)))
    (pos + 2) (byte (i / 2 ^ 8))) (pos + 3) (byte i)

/-- The signed reading of two bytes. -/
def unpacki16 (buf : Buf) (pos : Int) : Int :=
  let i2 : Int := (buf pos).toNat * 2 ^ 8 + (buf (pos + 1)).toNat
  if i2 ≤ 0x7fff then i2 else -1 - (0xffff - i2)

def unpacku16 (buf : Buf) (pos : Int) : Int :=
  (buf pos).toNat * 2 ^ 8 + (buf (pos + 1)).toNat

def unpacku32 (buf : Buf) (pos : Int) : Int :=
  (buf pos).toNat * 2 ^ 24 + (buf (pos + 1)).toNat * 2 ^ 16
    + (buf (pos + 2)).toNat * 2 ^ 8 + (buf (pos + 3)).toNat

/-- The format letter `c`. -/
def unpackChar (buf : Buf) (pos : Int) : Int :=
  let b : Int := (buf pos).toNat
  if b ≤ 0x7f then b else -1 - (0xff - b)

/-- The format letter `s` with a maximum length in front of it. The terminator
    the C stores after the copied bytes is what makes the result a string. -/
def unpackStr (buf : Buf) (pos : Int) (maxstrlen : Nat) : List UInt8 :=
  let len := (unpacku16 buf pos).toNat
  let count := if 0 < maxstrlen ∧ maxstrlen < len then maxstrlen - 1 else len
  cstr (slice buf (pos + 2) count)

/-- `serial_pack`: what the buffer holds afterwards, and the size. -/
def serialPack (buf : Buf) (pos : Int) : List Arg → Buf × Nat
  | [] => (buf, 0)
  | .c v :: args =>
      let r := serialPack (Function.update buf pos (byte v)) (pos + 1) args
      (r.1, 1 + r.2)
  | .C v :: args =>
      let r := serialPack (Function.update buf pos (byte v)) (pos + 1) args
      (r.1, 1 + r.2)
  | .h v :: args =>
      let r := serialPack (packi16 buf pos v) (pos + 2) args
      (r.1, 2 + r.2)
  | .L v :: args =>
      let r := serialPack (packi32 buf pos v) (pos + 4) args
      (r.1, 4 + r.2)
  | .s str :: args =>
      let len := (cstr str).length
      let r := serialPack (write (packi16 buf pos len) (pos + 2) (cstr str)) (pos + 2 + len) args
      (r.1, len + 2 + r.2)

/-- The local state of a control block encoder: the buffer and `tam`. -/
structure Writer where
  buf : Buf
  tam : Int

/-- `tam += f(..., buff+tam)` for an encoder `f`. -/
def Writer.call (w : Writer) (buff : Int) (f : Buf → Int → Buf × Nat) : Writer :=
  let r := f w.buf (buff + w.tam)
  { buf := r.1, tam := toInt (w.tam + r.2) }

/-- `tam += serial_pack(buff+tam, ...)`. -/
def Writer.pack (w : Writer) (buff : Int) (args : List Arg) : Writer :=
  w.call buff fun buf pos => serialPack buf pos args

/-- `return tam`, from an `int` to a `size_t`. -/
def Writer.result (w : Writer) : Buf × Nat := (w.buf, toSizeT w.tam)

/-- One round of the loop of `serial_pack_vars`. -/
def Writer.packVar (w : Writer) (buff : Int) (aux : Var) : Writer :=
  w.pack buff [.c aux.id, .h aux.mempos.page, .h aux.mempos.offset, .h aux.mempos.size]

def serialPackVars (lista : List Var) (buf : Buf) (buff : Int) : Buf × Nat :=
  let w := (Writer.mk buf 0).pack buff [.h lista.length]
  (lista.foldl (fun w aux => w.packVar buff aux) w).result

/-- One round of the loop of `serial_pack_stack`. -/
def Writer.packContext (w : Writer) (buff : Int) (aux : Stack) : Writer :=
  (((w.pack buff [.h aux.retPos]).call buff (serialPackVars aux.args)).call buff
    (serialPackVars aux.vars)).pack buff
    [.h aux.retVar.page, .h aux.retVar.offset, .h aux.retVar.size]

def serialPackStack (stack : List Stack) (buf : Buf) (buff : Int) : Buf × Nat :=
  let w := (Writer.mk buf 0).pack buff [.h stack.length]
  (stack.foldl (fun w aux => w.packContext buff aux) w).result

/-- One round of the loop over the code index. An entry past the end of the
    array is read as something nothing is known about. -/
def Writer.packInstruction (w : Writer) (pcb : Pcb) (i : Nat) : Writer :=
  (w.pack 0 [.h (pcb.indexCode.getD i default).start]).pack 0
    [.h (pcb.indexCode.getD i default).offset]

/-- One round of the loop over the tags. -/
def Writer.packTag (w : Writer) (pcb : Pcb) (i : Nat) : Writer :=
  (w.pack 0 [.s (pcb.indexTag.getD i default).name]).pack 0
    [.h (pcb.indexTag.getD i default).PC]

/-- The nine integers at the front of an encoded control block, in order. -/
def Pcb.header (pcb : Pcb) : List Int :=
  [pcb.idProcess, pcb.PC, pcb.quantum, pcb.status, pcb.pagesCode, pcb.instructions, pcb.tags,
    pcb.stackPointer, pcb.exitCode]

def serialPackPcb (pcb : Pcb) (buff : Buf) : Buf × Nat :=
  let w := (Pcb.header pcb).foldl (fun w v => w.pack 0 [.h v]) (Writer.mk buff 0)
  let w := (List.range pcb.instructions.toNat).foldl (fun w i => w.packInstruction pcb i) w
  let w := (List.range pcb.tags.toNat).foldl (fun w i => w.packTag pcb i) w
  (w.call 0 (serialPackStack pcb.stack)).result

/-- How many bytes the encoders write. The buffers they write into have to have room
    for these, whatever `tam` is by then. -/
def varsBytes (lista : List Var) : Nat := 2 + 7 * lista.length

def stackBytes (stack : List Stack) : Nat :=
  2 + (stack.map fun aux => 8 + varsBytes aux.args + varsBytes aux.vars).sum

def pcbBytes (pcb : Pcb) : Nat :=
  18 + 4 * pcb.instructions.toNat
    + ((List.range pcb.tags.toNat).map fun i =>
        (cstr (pcb.indexTag.getD i default).name).length + 4).sum
    + stackBytes pcb.stack

/-- The loop of `serial_unpack_vars`: the variables and the final `tam`. -/
def unpackVarsLoop (buf : Buf) (buff : Int) : Nat → Int → List Var × Int
  | 0, tam => ([], tam)
  | n + 1, tam =>
      let aux : Var :=
        { id := unpackChar buf (buff + tam),
          mempos := { page := unpacki16 buf (buff + tam + 1),
                      offset := unpacki16 buf (buff + tam + 3),
                      size := unpacki16 buf (buff + tam + 5) } }
      let r := unpackVarsLoop buf buff n (toInt (tam + 7))
      (aux :: r.1, r.2)

def serialUnpackVars (buf : Buf) (buff : Int) : List Var × Nat :=
  let cantElements := unpacki16 buf buff
  let r := unpackVarsLoop buf buff cantElements.toNat 2
  (r.1, toSizeT r.2)

/-- The loop of `serial_unpack_stack`. -/
def unpackStackLoop (buf : Buf) (buff : Int) : Nat → Int → List Stack
  | 0, _ => []
  | n + 1, tam =>
      let retPos := unpacki16 buf (buff + tam)
      let tam := toInt (tam + 2)
      let args := serialUnpackVars buf (buff + tam)
      let tam := toInt (tam + args.2)
      let vars := serialUnpackVars buf (buff + tam)
      let tam := toInt (tam + vars.2)
      let retVar : Mempos :=
        { page := unpacki16 buf (buff + tam), offset := unpacki16 buf (buff + tam + 2),
          size := unpacki16 buf (buff + tam + 4) }
      { args := args.1, vars := vars.1, retPos := retPos, retVar := retVar }
        :: unpackStackLoop buf buff n (toInt (tam + 6))

def serialUnpackStack (buf : Buf) (buff : Int) : List Stack :=
  unpackStackLoop buf buff (unpacki16 buf buff).toNat 2

/-- The loop over the code index. -/
def unpackCodeLoop (buf : Buf) : Nat → Int → List Instruction × Int
  | 0, tam => ([], tam)
  | n + 1, tam =>
      let start := unpacki16 buf tam
      let tam := toInt (tam + 2)
      let offset := unpacki16 buf tam
      let r := unpackCodeLoop buf n (toInt (tam + 2))
      ({ start := start, offset := offset } :: r.1, r.2)

/-- The loop over the tags. The offset advances by the length of the string
    that was read, not by the length that was stored in front of it. -/
def unpackTagLoop (buf : Buf) : Nat → Int → List ProgramTag × Int
  | 0, tam => ([], tam)
  | n + 1, tam =>
      let tag := unpackStr buf tam 64
      let tam := toInt (tam + (tag.length + 2))
      let PC := unpacki16 buf tam
      let r := unpackTagLoop buf n (toInt (tam + 2))
      ({ name := tag, PC := PC } :: r.1, r.2)

def serialUnpackPcb (buff : Buf) : Pcb :=
  let instructions := unpacki16 buff 10
  let tags := unpacki16 buff 12
  let code := unpackCodeLoop buff instructions.toNat 18
  let tag := unpackTagLoop buff tags.toNat code.2
  { idProcess := unpacki16 buff 0
    PC := unpacki16 buff 2
    quantum := unpacki16 buff 4
    status := unpacki16 buff 6
    pagesCode := unpacki16 buff 8
    instructions := instructions
    tags := tags
    stackPointer := unpacki16 buff 14
    exitCode := unpacki16 buff 16
    indexCode := code.1
    indexTag := tag.1
    stack := serialUnpackStack buff tag.2 }

end Serial

end Esther
