import Esther.Core.Etiquetas
import Esther.Theory.Labels

/-!
# The Block of Labels

What the loop of `crear_pcb_proceso` makes of the labels of a program.

In the middle of a name the array holds, up to `p`, the characters of the name that have
been copied, and no terminator among them. So the first terminator in the array is the one
that has been copied last, and what `string_duplicate` takes is the name, whatever is left
from a longer one before it. The bytes behind a name are not looked at.

`leerTags`, which reads a name at a time, comes to the same table.

## Main definitions

* `Etiqueta`: A label as it is serialized.
* `bloque`: The block of some labels.

## Theorems

* `leerLoop_leerTag`: The rounds of one name.
* `leerLoop_leerTags`: The loop is the one of the control block.
* `leerLoop_exact`: The loop reads a block to its end.
-/

namespace Esther

namespace Kernel

open Cells

/-- A label as it is serialized: a name without terminator, and the four bytes of its program
    counter. -/
structure Etiqueta where
  name : List UInt8
  pc : List UInt8
  sinNul : (0 : UInt8) ∉ name
  cuatro : pc.length = 4

/-- The bytes of a label. -/
def Etiqueta.bytes (e : Etiqueta) : List UInt8 := e.name ++ [0] ++ e.pc

/-- The block of some labels, one after the other. -/
def bloque (etiquetas : List Etiqueta) : List UInt8 := etiquetas.flatMap Etiqueta.bytes

/-- The entry of the table for a name. -/
def entrada (parser : Parser) (program : MetadataProgram) (name : List UInt8) : ProgramTag :=
  { name := name
    PC := parser.metadataBuscarEtiqueta name program.etiquetas program.etiquetasSize }

/-! ### The rounds of one name -/

/-- The array up to the character that is written. -/
theorem take_set_succ (tag : List UInt8) (p : Nat) (c : UInt8) (hp : p < tag.length) :
    (tag.set p c).take (p + 1) = tag.take p ++ [c] := by
  rw [List.take_add_one, List.take_set_of_le (Nat.le_refl p), List.getElem?_set_self hp]
  rfl

/-- The string in the array once the terminator is written. -/
theorem cstr_set (tag : List UInt8) (p : Nat) (hp : p < tag.length)
    (hzero : (0 : UInt8) ∉ tag.take p) : cstr (tag.set p 0) = tag.take p := by
  have hsplit : tag.set p 0 = tag.take p ++ 0 :: tag.drop (p + 1) := by
    rw [List.set_eq_take_append_cons_drop, if_pos hp]
  rw [hsplit, cstr, List.takeWhile_append_of_pos, List.takeWhile_cons_of_neg, List.append_nil]
  · exact fun h => absurd rfl (of_decide_eq_true h)
  · intro c hc
    refine decide_eq_true ?_
    rintro rfl
    exact hzero hc

/-- A round that copies a character of a name. -/
theorem ronda_char (parser : Parser) (program : MetadataProgram) (s : Lectura)
    (hp : s.p < parser.lineSize) (hc : program.etiquetas s.q ≠ 0) :
    s.ronda parser program = some { s with
      tag := s.tag.set s.p (program.etiquetas s.q), p := s.p + 1, q := s.q + 1 } := by
  simp only [Lectura.ronda, if_neg (not_le.mpr hp), if_pos hc]

/-- A round that copies the terminator. -/
theorem ronda_end (parser : Parser) (program : MetadataProgram) (s : Lectura)
    (htag : s.tag.length = parser.lineSize) (hp : s.p < parser.lineSize)
    (hc : program.etiquetas s.q = 0) (hzero : (0 : UInt8) ∉ s.tag.take s.p) :
    s.ronda parser program = some {
      tag := s.tag.set s.p 0, p := 0, q := s.q + 1 + 4, numtag := s.numtag + 1
      indexTag := s.indexTag ++ [entrada parser program (s.tag.take s.p)] } := by
  simp only [Lectura.ronda, if_neg (not_le.mpr hp), hc, ne_eq, not_true_eq_false, if_false,
    cstr_set s.tag s.p (htag ▸ hp) hzero]
  rfl

theorem leerLoop_succ (parser : Parser) (program : MetadataProgram) (tags : Int) (fuel : Nat)
    (s : Lectura) (hlt : s.numtag < tags) :
    leerLoop parser program tags (fuel + 1) s =
      (s.ronda parser program).bind (leerLoop parser program tags fuel) := by
  rw [leerLoop, if_pos hlt]
  rfl

/-- From the middle of a name, the loop copies the rest of it and enters the label, or, if there
    is no room in the array, does not get there. -/
theorem leerLoop_leerTag (parser : Parser) (program : MetadataProgram) (tags : Int) (room : Nat)
    (s : Lectura) (hroom : s.p + room = parser.lineSize) (htag : s.tag.length = parser.lineSize)
    (hlt : s.numtag < tags) (hzero : (0 : UInt8) ∉ s.tag.take s.p) :
    match leerTag program.etiquetas room s.q with
    | some (name, q) => ∃ tag : List UInt8, tag.length = parser.lineSize ∧
        ∀ fuel, leerLoop parser program tags (fuel + name.length + 1) s =
          leerLoop parser program tags fuel {
            tag := tag, p := 0, q := q + 4, numtag := s.numtag + 1
            indexTag := s.indexTag ++ [entrada parser program (s.tag.take s.p ++ name)] }
    | none => ∀ fuel, leerLoop parser program tags (fuel + room + 1) s = none := by
  induction room generalizing s with
  | zero =>
      -- The array is full.
      intro fuel
      rw [leerLoop_succ parser program tags _ s hlt, Lectura.ronda, if_pos (by omega)]
      rfl
  | succ room ih =>
      have hp : s.p < parser.lineSize := by omega
      rw [leerTag]
      by_cases hc : program.etiquetas s.q = 0
      · rw [if_pos hc]
        refine ⟨s.tag.set s.p 0, by rw [List.length_set, htag], fun fuel => ?_⟩
        rw [leerLoop_succ parser program tags _ s hlt,
          ronda_end parser program s htag hp hc hzero, List.append_nil]
        rfl
      · rw [if_neg hc]
        have htake := take_set_succ s.tag s.p (program.etiquetas s.q) (htag ▸ hp)
        have hnext := ih { s with
          tag := s.tag.set s.p (program.etiquetas s.q), p := s.p + 1, q := s.q + 1 }
          (by simp only; omega) (by rw [List.length_set, htag]) hlt (by
            rw [htake, List.mem_append, List.mem_singleton, not_or]
            exact ⟨hzero, fun h => hc h.symm⟩)
        simp only [htake] at hnext
        revert hnext
        cases leerTag program.etiquetas room (s.q + 1) with
        | none =>
            intro hnext fuel
            rw [leerLoop_succ parser program tags _ s hlt, ronda_char parser program s hp hc]
            exact hnext fuel
        | some r =>
            rcases r with ⟨name, q⟩
            rintro ⟨tag, hlength, hloop⟩
            refine ⟨tag, hlength, fun fuel => ?_⟩
            rw [leerLoop_succ parser program tags _ s hlt, ronda_char parser program s hp hc,
              List.length_cons, ← Nat.add_assoc, Option.bind_some, hloop fuel, List.append_assoc,
              List.singleton_append]

/-! ### The rounds of all names -/

theorem leerLoop_stop (parser : Parser) (program : MetadataProgram) (tags : Int) (fuel : Nat)
    (s : Lectura) (h : tags ≤ s.numtag) : leerLoop parser program tags fuel s = some s := by
  cases fuel with
  | zero => rw [leerLoop, if_neg (not_lt.mpr h)]
  | succ fuel => rw [leerLoop, if_neg (not_lt.mpr h)]

/-- With enough rounds, the loop makes the table that is made a name at a time, or neither
    does. -/
theorem leerLoop_leerTags (parser : Parser) (program : MetadataProgram) (tags : Int) (n : Nat)
    (s : Lectura) (hp : s.p = 0) (htag : s.tag.length = parser.lineSize)
    (htags : tags = s.numtag + n) :
    ∃ rounds, ∀ fuel, (leerLoop parser program tags (fuel + rounds) s).map Lectura.indexTag =
      (leerTags parser program n s.q).map (s.indexTag ++ ·) := by
  induction n generalizing s with
  | zero =>
      refine ⟨0, fun fuel => ?_⟩
      rw [leerLoop_stop parser program tags _ s (by omega), leerTags, Option.map_some,
        Option.map_some, List.append_nil]
  | succ n ih =>
      have hzero : (0 : UInt8) ∉ s.tag.take s.p := by
        rw [hp, List.take_zero]
        exact List.not_mem_nil
      have hname := leerLoop_leerTag parser program tags parser.lineSize s (by omega) htag
        (by omega) hzero
      rw [leerTags]
      revert hname
      cases leerTag program.etiquetas parser.lineSize s.q with
      | none =>
          intro hname
          exact ⟨parser.lineSize + 1, fun fuel => by rw [← Nat.add_assoc, hname fuel]; rfl⟩
      | some r =>
          -- A round for each character of the name and one for its end, then the other names.
          rcases r with ⟨name, q⟩
          rintro ⟨tag, hlength, hloop⟩
          have hrest := ih { tag := tag, p := 0, q := q + 4, numtag := s.numtag + 1
                             indexTag := s.indexTag ++ [entrada parser program name] } rfl hlength
            (by push_cast; omega)
          rcases hrest with ⟨rounds, hrounds⟩
          refine ⟨rounds + (name.length + 1), fun fuel => ?_⟩
          have hothers := hrounds fuel
          simp only at hothers
          rw [← Nat.add_assoc, ← Nat.add_assoc, hloop, hp, List.take_zero, List.nil_append, hothers]
          simp only
          cases leerTags parser program n (q + 4) with
          | none => rfl
          | some tabla =>
              simp only [Option.map_some, List.append_assoc, List.singleton_append, entrada]

/-- How many rounds some labels take: one for each character and one for each terminator. -/
def rondas (etiquetas : List Etiqueta) : Nat := (etiquetas.map fun e => e.name.length + 1).sum

/-- From the start of a name, the loop reads the labels of a block one after the other. -/
theorem leerLoop_bloque (parser : Parser) (program : MetadataProgram) (tags : Int)
    (etiquetas : List Etiqueta) (s : Lectura) (hp : s.p = 0)
    (htag : s.tag.length = parser.lineSize) (htags : tags = s.numtag + etiquetas.length)
    (hline : ∀ e ∈ etiquetas, e.name.length < parser.lineSize)
    (hreads : Reads program.etiquetas s.q (bloque etiquetas)) :
    ∃ tag, ∀ fuel, leerLoop parser program tags (fuel + rondas etiquetas) s = some {
      tag := tag, p := 0, q := s.q + (bloque etiquetas).length
      numtag := s.numtag + etiquetas.length
      indexTag := s.indexTag ++ etiquetas.map fun e => entrada parser program e.name } := by
  induction etiquetas generalizing s with
  | nil =>
      refine ⟨s.tag, fun fuel => ?_⟩
      rw [leerLoop_stop parser program tags _ s (by rw [htags, List.length_nil]; omega)]
      rcases s with ⟨tag, p, q, numtag, indexTag⟩
      obtain rfl : p = 0 := hp
      simp only [bloque, List.flatMap_nil, List.length_nil, Int.natCast_zero, Int.add_zero,
        Nat.add_zero, List.map_nil, List.append_nil]
  | cons e etiquetas ih =>
      have hbloque : bloque (e :: etiquetas) = e.name ++ [0] ++ e.pc ++ bloque etiquetas := rfl
      rw [hbloque, reads_append, reads_append] at hreads
      rcases hreads with ⟨⟨hname, _⟩, hrest⟩
      have hread := leerTag_of_reads program.etiquetas e.name parser.lineSize s.q e.sinNul
        (hline e List.mem_cons_self) hname
      have hbytes : (e.name ++ [0] ++ e.pc).length = e.name.length + 1 + 4 := by
        rw [List.length_append, List.length_append, List.length_singleton, e.cuatro]
      -- The rounds of the first label, and then those of the others.
      have hfirst := leerLoop_leerTag parser program tags parser.lineSize s (by omega) htag
        (by rw [htags, List.length_cons]; omega)
        (by rw [hp, List.take_zero]; exact List.not_mem_nil)
      rw [hread] at hfirst
      rcases hfirst with ⟨tag, hlength, hloop⟩
      rw [hbytes] at hrest
      have hnext := ih { tag := tag, p := 0, q := s.q + e.name.length + 1 + 4
                         numtag := s.numtag + 1
                         indexTag := s.indexTag ++ [entrada parser program e.name] } rfl hlength
        (by rw [htags, List.length_cons]; push_cast; omega)
        (fun e' he' => hline e' (List.mem_cons_of_mem e he')) (by
          have hq : s.q + ((e.name.length + 1 + 4 : Nat) : Int)
              = s.q + e.name.length + 1 + 4 := by push_cast; omega
          rw [hq] at hrest
          exact hrest)
      rcases hnext with ⟨tag', hnext⟩
      refine ⟨tag', fun fuel => ?_⟩
      have hrondas : fuel + rondas (e :: etiquetas)
          = fuel + rondas etiquetas + e.name.length + 1 := by
        rw [rondas, List.map_cons, List.sum_cons, ← rondas]
        omega
      rw [hrondas, hloop, hp, List.take_zero, List.nil_append, hnext fuel, hbloque,
        List.length_append, hbytes]
      simp only [Option.some.injEq, Lectura.mk.injEq, true_and, List.length_cons, List.map_cons,
        List.append_assoc, List.singleton_append, and_true]
      push_cast
      omega

/-- The table in the control block of a program is the one that the loop makes. -/
theorem crearPcbProceso_leerLoop (parser : Parser) (config : Config) (k k' : State)
    (program : MetadataProgram) (pcb : Pcb) (tag : List UInt8)
    (htag : tag.length = parser.lineSize)
    (htags : 0 ≤ program.cantidadDeEtiquetas + program.cantidadDeFunciones)
    (h : crearPcbProceso parser config k program = some (k', pcb)) :
    ∃ rounds, ∀ fuel, (leerLoop parser program pcb.tags (fuel + rounds) (Lectura.init tag)).map
      Lectura.indexTag = some pcb.indexTag := by
  rcases leerLoop_leerTags parser program
    (program.cantidadDeEtiquetas + program.cantidadDeFunciones)
    (program.cantidadDeEtiquetas + program.cantidadDeFunciones).toNat (Lectura.init tag) rfl htag
    (by rw [Int.toNat_of_nonneg htags]; exact (Int.zero_add _).symm) with ⟨rounds, hrounds⟩
  refine ⟨rounds, fun fuel => ?_⟩
  have hloop := hrounds fuel
  simp only [crearPcbProceso] at h
  split at h
  next => exact absurd h.symm (Option.some_ne_none _)
  next =>
    split at h
    next indexTag hread =>
      rw [Option.some.injEq, Prod.mk.injEq] at h
      rw [← h.2]
      simp only [Lectura.init] at hloop ⊢
      rw [hloop, hread, Option.map_some, List.nil_append]
    next => exact absurd h.symm (Option.some_ne_none _)

/-- The loop over the labels of a program ends behind the last of them, whatever the array holds
    at the start, and has made the table of their names, each with the program counter that
    the library gives for it. -/
theorem leerLoop_exact (parser : Parser) (program : MetadataProgram) (etiquetas : List Etiqueta)
    (tag : List UInt8) (htag : tag.length = parser.lineSize)
    (hline : ∀ e ∈ etiquetas, e.name.length < parser.lineSize)
    (hcount : program.cantidadDeEtiquetas + program.cantidadDeFunciones = etiquetas.length)
    (hreads : Reads program.etiquetas 0 (bloque etiquetas)) :
    ∃ s, (∀ fuel, leerLoop parser program
        (program.cantidadDeEtiquetas + program.cantidadDeFunciones) (fuel + rondas etiquetas)
        (Lectura.init tag) = some s) ∧
      s.q = (bloque etiquetas).length ∧ s.numtag = etiquetas.length ∧
      s.indexTag.length = etiquetas.length ∧
      ∀ (i : Nat) (e : Etiqueta), etiquetas[i]? = some e →
        s.indexTag[i]? = some (entrada parser program e.name) := by
  have htags : program.cantidadDeEtiquetas + program.cantidadDeFunciones
      = ((Lectura.init tag).numtag : Int) + etiquetas.length := by
    rw [hcount, Lectura.init, Nat.cast_zero, Int.zero_add]
  rcases leerLoop_bloque parser program _ etiquetas (Lectura.init tag) rfl htag htags hline hreads
    with ⟨tag', hloop⟩
  refine ⟨_, hloop, Int.zero_add _, Nat.zero_add _, ?_, ?_⟩
  · simp only [Lectura.init, List.nil_append, List.length_map]
  · intro i e he
    simp only [Lectura.init, List.nil_append, List.getElem?_map, he, Option.map_some]

/-- A library whose lines have eight characters, and which knows no label. -/
def blockParser : Parser :=
  { lineSize := 8
    metadataDesdeLiteral := fun _ => {
      instruccionInicio := 0, instruccionesSize := 0, instruccionesSerializado := []
      etiquetasSize := 0, etiquetas := fun _ => 0, cantidadDeFunciones := 0
      cantidadDeEtiquetas := 0 }
    metadataBuscarEtiqueta := fun _ _ _ => -1
    analizadorLinea := fun _ => .fin }

/-- The labels `ab` and the empty one, with zeros in their program counters. -/
def blockLabels : List Etiqueta :=
  [{ name := [97, 98], pc := [3, 0, 0, 0], sinNul := by decide, cuatro := rfl },
    { name := [], pc := [0, 0, 7, 0], sinNul := by decide, cuatro := rfl }]

def blockProgram : MetadataProgram :=
  { instruccionInicio := 0
    instruccionesSize := 0
    instruccionesSerializado := []
    etiquetasSize := 12
    etiquetas := fun i => (bloque blockLabels).getD i.toNat 0
    cantidadDeFunciones := 1
    cantidadDeEtiquetas := 1 }

theorem leerLoop_exact_two : ∃ s, leerLoop blockParser blockProgram 2 4
    (Lectura.init (List.replicate 8 255)) = some s ∧ s.q = 12 ∧
    s.indexTag = [{ name := [97, 98], PC := -1 }, { name := [], PC := -1 }] := by
  rcases leerLoop_exact blockParser blockProgram blockLabels (List.replicate 8 255) rfl
    (by decide) rfl rfl with ⟨s, hloop, hq, _, hlength, hentries⟩
  refine ⟨s, hloop 0, hq, List.ext_getElem? fun i => ?_⟩
  rcases i with _ | _ | i
  · exact hentries 0 _ rfl
  · exact hentries 1 _ rfl
  · exact List.getElem?_eq_none (by rw [hlength]; exact Nat.le_add_left 2 i)

end Kernel

end Esther
