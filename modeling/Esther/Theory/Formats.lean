import Esther.Core.Formats
import Esther.Lib.Words
import Esther.Theory.Values

/-!
# What a Format Keeps

The arguments that `serial_unpack_va` finds where `serial_pack_va` has put some.

Each letter for an integer is a word of bytes with one of two readings, and so what comes
back of an integer is its remainder, in the range of the letter. A string comes back whole,
unless a greatest length stands before its letter and the string is longer; then it comes back
without what is past that length and without the last byte before. Both functions go on by
the same number of bytes whatever the string, as long as the two bytes of its length can
count it. A format is read back from where it was written, or from a copy of it anywhere.

## Main definitions

* `Campo`, `Letra.campo`: The words of the letters.
* `codigo`, `codigos`: The bytes of one argument, and of all.
* `Encaja`: Arguments that a format can take.
* `vuelta`, `vueltas`: What comes back of them.
* `EnRango`: Arguments that come back as they are.

## Theorems

* `packLetra_eq`, `unpackLetra_eq`: One letter.
* `serialPackVa_eq`, `serialUnpackVa_eq`: A format.
* `serialPackVa_args`: The formats of the messages.
* `serial_round_trip`: Packing and unpacking.
-/

namespace Esther

namespace Serial

open Cells Words

/-- The word of a letter. -/
structure Campo where
  bytes : Nat
  signo : Bool

def Letra.campo : Letra → Option Campo
  | .c => some { bytes := 1, signo := true }
  | .C => some { bytes := 1, signo := false }
  | .h => some { bytes := 2, signo := true }
  | .H => some { bytes := 2, signo := false }
  | .l => some { bytes := 4, signo := true }
  | .L => some { bytes := 4, signo := false }
  | .q => some { bytes := 8, signo := true }
  | .Q => some { bytes := 8, signo := false }
  | _ => none

/-- What a word gives back of an integer. -/
def Campo.vuelta (campo : Campo) (v : Int) : Int :=
  if campo.signo then Int.bmod v (256 ^ campo.bytes) else v % 256 ^ campo.bytes

/-- The integers that a word gives back. -/
def Campo.rango (campo : Campo) (v : Int) : Prop :=
  if campo.signo then -(256 ^ campo.bytes / 2) ≤ v ∧ v < 256 ^ campo.bytes / 2
  else 0 ≤ v ∧ v < 256 ^ campo.bytes

theorem campo_vuelta_iff (letra : Letra) (campo : Campo) (h : letra.campo = some campo) (v : Int) :
    campo.vuelta v = v ↔ campo.rango v := by
  have hpos : 0 < campo.bytes ∧ (256 ^ campo.bytes) % 2 = 0 := by
    cases letra <;> cases h <;> decide
  rw [Campo.vuelta, Campo.rango]
  cases campo.signo with
  | true =>
      rw [if_pos rfl, if_pos rfl, bmod_eq_iff _ _ (Nat.pow_pos (by decide)) hpos.2]
      norm_cast
  | false =>
      rw [if_neg Bool.false_ne_true, if_neg Bool.false_ne_true]
      exact emod_eq_iff _ v (Int.pow_pos (by decide))

/-! ### One letter -/

/-- The bytes of an argument. -/
def codigo (letra : Letra) : Valor → List UInt8
  | .entero v => digits ((letra.campo.map fun campo => campo.bytes).getD 0) v
  | .cadena str => digits 2 str.length ++ str

/-- An argument that a letter can take: an integer, or a string whose length two bytes can
    count. -/
def Toma (letra : Letra) : Valor → Prop
  | .entero _ => letra.campo.isSome = true
  | .cadena str => letra = .s ∧ (0 : UInt8) ∉ str ∧ str.length < 2 ^ 16

/-- What comes back of an argument. -/
def vuelta (letra : Letra) (maxstrlen : Nat) : Valor → Valor
  | .entero v => .entero ((letra.campo.map fun campo => campo.vuelta v).getD v)
  | .cadena str =>
      .cadena (if 0 < maxstrlen ∧ maxstrlen < str.length then str.take (maxstrlen - 1) else str)

theorem byte_eq_low : byte = low := rfl

theorem packLetra_entero (buf : Buf) (pos : Int) (letra : Letra) (campo : Campo)
    (h : letra.campo = some campo) (v : Int) :
    packLetra buf pos letra (.entero v)
      = some (write buf pos (digits campo.bytes v), campo.bytes) := by
  have h16 : packi16 buf pos v = write buf pos (digits 2 v) := by
    simp only [packi16, digits, write, byte_eq_low]
    norm_num
  have h32 : packi32 buf pos v = write buf pos (digits 4 v) := by
    simp only [packi32, digits, write, byte_eq_low]
    norm_num [add_assoc]
  have h64 : packi64 buf pos v = write buf pos (digits 8 v) := by
    simp only [packi64, digits, byte_eq_low]
    norm_num
  have h8 : Function.update buf pos (byte v) = write buf pos (digits 1 v) := by
    simp only [digits, write, byte_eq_low]
    norm_num
  cases letra <;> cases h <;> simp only [packLetra, h8, h16, h32, h64]

/-- A case of `serial_pack_va` writes the bytes of its argument. -/
theorem packLetra_eq (buf : Buf) (pos : Int) (letra : Letra) (arg : Valor) (h : Toma letra arg) :
    packLetra buf pos letra arg
      = some (write buf pos (codigo letra arg), (codigo letra arg).length) := by
  cases arg with
  | entero v =>
      rcases Option.isSome_iff_exists.mp h with ⟨campo, hcampo⟩
      rw [packLetra_entero buf pos letra campo hcampo v, codigo, hcampo, length_digits]
      rfl
  | cadena str =>
      rcases h with ⟨rfl, hzero, _⟩
      have h16 := packLetra_entero buf pos .h { bytes := 2, signo := true } rfl str.length
      simp only [packLetra, Option.some.injEq, Prod.mk.injEq, and_true] at h16
      simp only [packLetra, cstr_of_notMem str hzero, h16, codigo, write_append, List.length_append,
        length_digits]
      rw [Nat.add_comm]
      rfl

/-- The unsigned readings are the number that the bytes spell. -/
theorem number_slice (buf : Buf) (pos : Int) :
    number (slice buf pos 1) = (buf pos).toNat ∧
      number (slice buf pos 2) = unpacku16 buf pos ∧
      number (slice buf pos 4) = unpacku32 buf pos ∧
      number (slice buf pos 8) = unpacku64 buf pos := by
  refine ⟨?_, ?_, ?_, ?_⟩ <;>
    simp only [slice, number, List.range, List.range.loop, List.map_cons, List.map_nil,
      List.length_cons, List.length_nil, unpacku16, unpacku32, unpacku64] <;>
    norm_num [add_assoc]

/-- The signed readings are that number as a signed one. -/
theorem signed_slice (buf : Buf) (pos : Int) :
    unpackChar buf pos = signed (256 ^ 1) (number (slice buf pos 1)) ∧
      unpacki16 buf pos = signed (256 ^ 2) (number (slice buf pos 2)) ∧
      unpacki32 buf pos = signed (256 ^ 4) (number (slice buf pos 4)) ∧
      unpacki64 buf pos = signed (256 ^ 8) (number (slice buf pos 8)) := by
  rcases number_slice buf pos with ⟨h8, h16, h32, h64⟩
  refine ⟨?_, ?_, ?_, ?_⟩
  · rw [h8, unpackChar, signed]
    split <;> split <;> omega
  · rw [h16, unpacki16, unpacku16, signed]
    split <;> split <;> omega
  · rw [h32, unpacki32, unpacku32, signed]
    split <;> split <;> omega
  · rw [h64, unpacki64, signed]
    split <;> split <;> omega

/-- A case of `serial_unpack_va` for an integer. -/
theorem unpackLetra_entero (buf : Buf) (pos : Int) (maxstrlen : Nat) (letra : Letra)
    (campo : Campo) (h : letra.campo = some campo) (v : Int)
    (hreads : Reads buf pos (digits campo.bytes v)) :
    unpackLetra buf pos maxstrlen letra = some (.entero (campo.vuelta v), campo.bytes) := by
  have hnumber : number (slice buf pos campo.bytes) = v % 256 ^ campo.bytes := by
    rw [Reads, length_digits] at hreads
    rw [hreads, number_digits]
  have hunsigned := number_slice buf pos
  have hsigned := signed_slice buf pos
  have hbmod : ∀ n : Nat, 0 < n → signed (256 ^ n) (v % 256 ^ n) = Int.bmod v (256 ^ n) := by
    intro n hn
    refine signed_emod _ v ?_ _ (Nat.cast_pow 256 n)
    rcases Nat.exists_eq_succ_of_ne_zero (Nat.ne_of_gt hn) with ⟨k, rfl⟩
    rw [Int.pow_succ]
    omega
  cases letra <;> cases h <;> simp only [unpackLetra, Campo.vuelta, if_true, if_false,
    Bool.false_eq_true, hsigned, ← hunsigned, hnumber, hbmod 1 Nat.one_pos,
    hbmod 2 Nat.two_pos, hbmod 4 (Nat.succ_pos 3), hbmod 8 (Nat.succ_pos 7)]

/-- A case of `serial_unpack_va` finds what comes back of the argument, and goes on by as many
    bytes as the argument has. -/
theorem unpackLetra_eq (buf : Buf) (pos : Int) (maxstrlen : Nat) (letra : Letra) (arg : Valor)
    (h : Toma letra arg) (hreads : Reads buf pos (codigo letra arg)) :
    unpackLetra buf pos maxstrlen letra
      = some (vuelta letra maxstrlen arg, (codigo letra arg).length) := by
  cases arg with
  | entero v =>
      rcases Option.isSome_iff_exists.mp h with ⟨campo, hcampo⟩
      rw [codigo, hcampo] at hreads ⊢
      rw [vuelta, hcampo, length_digits]
      exact unpackLetra_entero buf pos maxstrlen letra campo hcampo v hreads
  | cadena str =>
      rcases h with ⟨rfl, hzero, hlength⟩
      rw [codigo, reads_append, length_digits] at hreads
      have hlen : unpacku16 buf pos = str.length := by
        have hword := hreads.1
        rw [Reads, length_digits] at hword
        rw [← (number_slice buf pos).2.1, hword, number_digits]
        omega
      have hcstr : ∀ n, n ≤ str.length → cstr (slice buf (pos + 2) n) = str.take n := by
        intro n hn
        rw [slice_of_reads buf (pos + 2) str hreads.2 n hn]
        exact cstr_of_notMem _ fun hmem => hzero (List.mem_of_mem_take hmem)
      have hstr : unpackStr buf pos maxstrlen = if 0 < maxstrlen ∧ maxstrlen < str.length then
          str.take (maxstrlen - 1) else str := by
        simp only [unpackStr, hlen, Int.toNat_natCast]
        split
        · exact hcstr _ (by omega)
        · rw [hcstr _ (Nat.le_refl _), List.take_length]
      simp only [unpackLetra, hstr, hlen, vuelta, codigo, List.length_append, length_digits,
        Int.toNat_natCast, Nat.add_comm 2]

/-! ### A format -/

/-- The letters of a format, each with the greatest length that stands before it. -/
def campos : Nat → List Char → List (Letra × Nat)
  | _, [] => []
  | maxstrlen, ch :: format =>
      match Letra.ofChar ch with
      | none => campos (cuenta maxstrlen ch) format
      | some letra => (letra, maxstrlen) :: campos 0 format

/-- The bytes of the arguments. -/
def codigos (letras : List (Letra × Nat)) (args : List Valor) : List UInt8 :=
  (List.zipWith (fun letra arg => codigo letra.1 arg) letras args).flatten

/-- What comes back of the arguments. -/
def vueltas (letras : List (Letra × Nat)) (args : List Valor) : List Valor :=
  List.zipWith (fun letra arg => vuelta letra.1 letra.2 arg) letras args

/-- The arguments are as many as the letters, and each is one that its letter can take. -/
def Encaja (letras : List (Letra × Nat)) (args : List Valor) : Prop :=
  List.Forall₂ (fun letra arg => Toma letra.1 arg) letras args

/-- An argument that comes back as it is: an integer in the range of the letter, a string that
    is not longer than the greatest length before the letter. -/
def Cabe (letra : Letra × Nat) : Valor → Prop
  | .entero v => ∀ campo, letra.1.campo = some campo → campo.rango v
  | .cadena str => letra.2 = 0 ∨ str.length ≤ letra.2

def EnRango (letras : List (Letra × Nat)) (args : List Valor) : Prop :=
  List.Forall₂ Cabe letras args

theorem serialPackVa_eq (buf : Buf) (pos : Int) (maxstrlen : Nat) (format : List Char)
    (args : List Valor) (h : Encaja (campos maxstrlen format) args) :
    serialPackVa buf pos format args = some (write buf pos (codigos (campos maxstrlen format) args),
      (codigos (campos maxstrlen format) args).length) := by
  induction format generalizing buf pos maxstrlen args with
  | nil =>
      cases h
      rfl
  | cons ch format ih =>
      rw [campos] at h ⊢
      cases hletra : Letra.ofChar ch with
      | none =>
          rw [hletra] at h
          simp only [serialPackVa, hletra]
          exact ih buf pos _ args h
      | some letra =>
          rw [hletra] at h
          cases h with
          | @cons _ arg _ args harg hargs =>
              simp only [serialPackVa, hletra, packLetra_eq buf pos letra arg harg,
                ih _ _ 0 args hargs, Option.bind_eq_bind, Option.bind_some, codigos,
                List.zipWith_cons_cons, List.flatten_cons, write_append, List.length_append]

theorem serialUnpackVa_eq (buf : Buf) (pos : Int) (maxstrlen : Nat) (format : List Char)
    (args : List Valor) (h : Encaja (campos maxstrlen format) args)
    (hreads : Reads buf pos (codigos (campos maxstrlen format) args)) :
    serialUnpackVa buf pos maxstrlen format = some (vueltas (campos maxstrlen format) args) := by
  induction format generalizing pos maxstrlen args with
  | nil =>
      cases h
      rfl
  | cons ch format ih =>
      rw [campos] at h hreads ⊢
      cases hletra : Letra.ofChar ch with
      | none =>
          rw [hletra] at h hreads
          simp only [serialUnpackVa, hletra]
          exact ih pos _ args h hreads
      | some letra =>
          rw [hletra] at h hreads
          cases h with
          | @cons _ arg _ args harg hargs =>
              simp only [codigos, List.zipWith_cons_cons, List.flatten_cons, reads_append] at hreads
              simp only [serialUnpackVa, hletra, unpackLetra_eq buf pos maxstrlen letra arg harg
                hreads.1, ih _ 0 args hargs hreads.2, Option.bind_eq_bind, Option.bind_some, vueltas,
                List.zipWith_cons_cons]

theorem vuelta_iff (letra : Letra × Nat) (arg : Valor) (h : Toma letra.1 arg) :
    vuelta letra.1 letra.2 arg = arg ↔ Cabe letra arg := by
  cases arg with
  | entero v =>
      rcases Option.isSome_iff_exists.mp h with ⟨campo, hcampo⟩
      simp only [vuelta, Cabe, hcampo, Option.map_some, Option.getD_some, Valor.entero.injEq,
        Option.some.injEq, forall_eq']
      exact campo_vuelta_iff letra.1 campo hcampo v
  | cadena str =>
      simp only [vuelta, Cabe, Valor.cadena.injEq]
      split
      · rename_i hlong
        refine iff_of_false (fun htake => ?_) (by omega)
        have hlength := congrArg List.length htake
        rw [List.length_take] at hlength
        omega
      · exact iff_of_true rfl (by omega)

theorem vueltas_iff (letras : List (Letra × Nat)) (args : List Valor) (h : Encaja letras args) :
    vueltas letras args = args ↔ EnRango letras args := by
  induction h with
  | nil => exact iff_of_true rfl List.Forall₂.nil
  | @cons letra arg letras args harg _ ih =>
      simp only [vueltas, EnRango, List.zipWith_cons_cons, List.cons.injEq,
        List.forall₂_cons, vuelta_iff letra arg harg]
      exact and_congr_right fun _ => ih

/-- The arguments of a format come back from any copy of the bytes, each within what its
    letter can carry: all of them come back as they were exactly if each integer is in the range
    of its letter and no string is longer than the length before its letter. The bytes outside
    are left as they are. -/
theorem serial_round_trip (format : List Char) (args : List Valor)
    (h : Encaja (campos 0 format) args) (buf : Buf) (pos : Int) :
    ∃ buf' size, serialPackVa buf pos format args = some (buf', size) ∧
      (∀ i, i < pos ∨ pos + size ≤ i → buf' i = buf i) ∧
      ∀ copia pos', (∀ k : Nat, k < size → copia (pos' + k) = buf' (pos + k)) →
        serialUnpackVa copia pos' 0 format = some (vueltas (campos 0 format) args) ∧
        (serialUnpackVa copia pos' 0 format = some args ↔ EnRango (campos 0 format) args) := by
  refine ⟨_, _, serialPackVa_eq buf pos 0 format args h, ?_, ?_⟩
  · intro i hi
    exact write_of_notMem buf pos _ i hi
  · intro copia pos' hcopia
    have hreads : Reads copia pos' (codigos (campos 0 format) args) := by
      have hwritten := reads_write buf pos (codigos (campos 0 format) args)
      rw [Reads] at hwritten ⊢
      rw [← hwritten, slice_length]
      exact slice_congr _ _ _ _ _ hcopia
    have hunpack := serialUnpackVa_eq copia pos' 0 format args h hreads
    refine ⟨hunpack, ?_⟩
    rw [hunpack, Option.some.injEq]
    exact vueltas_iff _ args h

/-- A short, a long, a string of at most four bytes and an unsigned 64-bit integer. -/
def sampleFormat : List Char := ['h', 'l', '4', 's', 'Q']

def sampleArgs : List Valor :=
  [.entero (-5), .entero 70000, .cadena [97, 98, 99, 100], .entero (2 ^ 63)]

theorem sampleFormat_campos :
    campos 0 sampleFormat = [(.h, 0), (.l, 0), (.s, 4), (.Q, 0)] := rfl

/-- They come back as they were. -/
theorem sampleFormat_returns : ∃ buf size,
    serialPackVa (fun _ => 0) 0 sampleFormat sampleArgs = some (buf, size) ∧
      serialUnpackVa buf 0 0 sampleFormat = some sampleArgs := by
  have htoma : Encaja (campos 0 sampleFormat) sampleArgs := by
    rw [sampleFormat_campos]
    refine .cons rfl (.cons rfl (.cons ⟨rfl, by decide, by decide⟩ (.cons rfl .nil)))
  have hcabe : EnRango (campos 0 sampleFormat) sampleArgs := by
    rw [sampleFormat_campos]
    refine .cons ?_ (.cons ?_ (.cons (Or.inr (Nat.le_refl 4)) (.cons ?_ .nil)))
    all_goals
      intro campo hcampo
      cases hcampo
      simp only [Campo.rango, if_true, Bool.false_eq_true, if_false]
      decide
  rcases serial_round_trip sampleFormat sampleArgs htoma (fun _ => 0) 0
    with ⟨buf, size, hpack, _, hcopia⟩
  exact ⟨buf, size, hpack, (hcopia buf 0 fun _ _ => rfl).2.mpr hcabe⟩

/-! ### The formats of the messages -/

/-- The letter of an argument of the messages. -/
def Arg.letra : Arg → Char
  | .c _ => 'c'
  | .C _ => 'C'
  | .h _ => 'h'
  | .L _ => 'L'
  | .s _ => 's'

def Arg.valor : Arg → Valor
  | .c v => .entero v
  | .C v => .entero v
  | .h v => .entero v
  | .L v => .entero v
  | .s str => .cadena str

/-- What the messages are packed with is `serial_pack_va`. -/
theorem serialPackVa_args (buf : Buf) (pos : Int) (args : List Arg) :
    serialPackVa buf pos (args.map Arg.letra) (args.map Arg.valor)
      = some (serialPack buf pos args) := by
  have hc : Letra.ofChar 'c' = some .c := rfl
  have hC : Letra.ofChar 'C' = some .C := rfl
  have hh : Letra.ofChar 'h' = some .h := rfl
  have hL : Letra.ofChar 'L' = some .L := rfl
  have hs : Letra.ofChar 's' = some .s := rfl
  induction args generalizing buf pos with
  | nil => rfl
  | cons arg args ih =>
      -- A string goes on by its two bytes first.
      have hnext : ∀ n : Nat, pos + ((n + 2 : Nat) : Int) = pos + 2 + (n : Int) := by
        intro n
        omega
      cases arg <;>
        simp only [List.map_cons, Arg.letra, Arg.valor, serialPackVa, hc, hC, hh, hL, hs, packLetra,
          hnext, ih, Option.bind_eq_bind, Option.bind_some, serialPack, Nat.cast_one, Nat.cast_ofNat]

end Serial

end Esther
