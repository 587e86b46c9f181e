import Esther.Core.Kernel

/-!
# The Loop over the Labels

The loop of `crear_pcb_proceso` that reads the labels of a program, round by round.

It has one loop for two purposes. `p` goes through the array `tag`, into which a name is
copied, and `q` through the block of labels. When the character that has been copied is
the terminator of a name, the label is entered in the table, `p` goes back to the start of
the array, and `q` goes over the bytes behind the name.

What the array holds beyond the name is what was there before. A character that is written
behind the array has no result.

## Main definitions

* `Lectura`: The variables of the loop.
* `Lectura.ronda`: One round.
* `leerLoop`: The loop.
-/

namespace Esther

namespace Kernel

/-- The variables of the loop. `p` is an index of `tag`, and `q` one of the block. -/
structure Lectura where
  tag : List UInt8
  p : Nat
  q : Int
  numtag : Nat
  indexTag : List ProgramTag

/-- `sizeof(t_puntero_instruccion)`. -/
def sizeofPuntero : Int := 4

/-- A round of the loop. -/
def Lectura.ronda (parser : Parser) (program : MetadataProgram) (s : Lectura) : Option Lectura :=
  if parser.lineSize ≤ s.p then none
  else
    let c := program.etiquetas s.q
    let tag := s.tag.set s.p c
    if c ≠ 0 then some { s with tag := tag, p := s.p + 1, q := s.q + 1 }
    else
      let name := cstr tag
      some {
        tag := tag
        p := 0
        q := s.q + 1 + sizeofPuntero
        numtag := s.numtag + 1
        indexTag := s.indexTag ++ [{
          name := name
          PC := parser.metadataBuscarEtiqueta name program.etiquetas program.etiquetasSize }] }

/-- The loop, for as many rounds as there is fuel for. -/
def leerLoop (parser : Parser) (program : MetadataProgram) (tags : Int) :
    Nat → Lectura → Option Lectura
  | 0, s => if s.numtag < tags then none else some s
  | fuel + 1, s =>
      if s.numtag < tags then do
        let s ← s.ronda parser program
        leerLoop parser program tags fuel s
      else some s

/-- The variables before the loop. The array holds whatever it did. -/
def Lectura.init (tag : List UInt8) : Lectura :=
  { tag := tag, p := 0, q := 0, numtag := 0, indexTag := [] }

end Kernel

end Esther
