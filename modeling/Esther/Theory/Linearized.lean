import Esther.Lib.Threads
import Esther.Theory.Replies
import Esther.Theory.Rounds

/-!
# Requests Answered at the Same Time

The memory server answers its clients at the same time, with no lock around what its threads
share. Its replies and what is left in the page table and in main memory are those of a server
that answers one request after the other, as long as the requests under way have nothing to do
with each other.

What a request has to do with the others is what it has come to use. `set_pages` and
`clear_pages` go through all rows and are not made at the same time by two threads. A read or a
store looks for the rows of one process, and these are not given or taken away meanwhile. The
frame it finds is where it reads or writes, and no other request under way has used these cells
if one of the two is a store.

The steps of two such requests can be exchanged. `Esther.Lib.Threads` brings the steps of each
request together, and one thread on its own does in these steps what `cli_thread` does in one
piece.

## Main definitions

* `Fase.tabla`, `Fase.traslado`, `Fase.celdas`, `Fase.Guarda`: What a request uses.
* `Aparte`, `Hebras.Separadas`: Requests that do not meet.
* `Escritura`, `Permitida`, `Ajena`: What a step writes, and who does not look at it.
* `Efecto`: A step writes what its request uses, which only gets more.
* `terminadas`: The requests that have been answered.

## Theorems

* `efecto_avanza`: What a step writes and uses.
* `avanza_ajena`: What is not looked at does not change a step.
* `avanza_comm`: Two steps of requests that do not meet.
* `hebras_independent`: So they can be brought together.
* `requests_linearize`: Replies and memory are those of requests answered one after another.
-/

namespace Esther

namespace Memoria

open Cells Serial Transition Lines Threads

/-! ### What a request uses -/

/-- The process whose rows are given or taken away. -/
def Fase.tabla : Fase → Option Int
  | .cuenta pid _ _ _ => some pid
  | .asigna pid _ _ => some pid
  | .limpia pid _ => some pid
  | .contesta pid _ => some pid
  | _ => none

/-- The read or the store. -/
def Fase.traslado : Fase → Option Traslado
  | .busca a _ _ => some a
  | .copia a _ _ => some a
  | .entrega a _ _ => some a
  | _ => none

/-- The cells of main memory, once the frame is known. -/
def Fase.celdas (marcoSize : Int) : Fase → List Int
  | .copia a frame _ => span (frame * marcoSize + a.offset) a.size.toNat
  | .entrega a frame true => span (frame * marcoSize + a.offset) a.size.toNat
  | _ => []

/-- The cells are those of a store. -/
def Fase.Guarda : Fase → Prop
  | .copia a _ _ => a.dato.isSome = true
  | .entrega a _ _ => a.dato.isSome = true
  | _ => False

/-- What the requests use does not meet. -/
structure Aparte (marcoSize : Int) (f g : Fase) : Prop where
  tabla : f.tabla = none ∨ g.tabla = none
  izquierda : ∀ pid a, f.tabla = some pid → g.traslado = some a → a.pid ≠ pid
  derecha : ∀ pid a, g.tabla = some pid → f.traslado = some a → a.pid ≠ pid
  celdas : f.Guarda ∨ g.Guarda → ∀ c ∈ f.celdas marcoSize, c ∉ g.celdas marcoSize

instance decidableGuarda : (f : Fase) → Decidable f.Guarda
  | .copia a _ _ | .entrega a _ _ => inferInstanceAs (Decidable (a.dato.isSome = true))
  | .espera | .cuenta .. | .asigna .. | .limpia .. | .contesta .. | .busca .. | .cerrada =>
      isFalse id

instance decidableAparte (marcoSize : Int) (f g : Fase) : Decidable (Aparte marcoSize f g) :=
  decidable_of_iff ((f.tabla = none ∨ g.tabla = none)
      ∧ (∀ pid ∈ f.tabla, ∀ a ∈ g.traslado, a.pid ≠ pid)
      ∧ (∀ pid ∈ g.tabla, ∀ a ∈ f.traslado, a.pid ≠ pid)
      ∧ (f.Guarda ∨ g.Guarda → ∀ c ∈ f.celdas marcoSize, c ∉ g.celdas marcoSize))
    ⟨fun h => ⟨h.1, fun pid a hpid ha => h.2.1 pid hpid a ha,
        fun pid a hpid ha => h.2.2.1 pid hpid a ha, h.2.2.2⟩,
      fun h => ⟨h.tabla, fun pid hpid a ha => h.izquierda pid a hpid ha,
        fun pid hpid a ha => h.derecha pid a hpid ha, h.celdas⟩⟩

section Threads

variable {ι : Type} [DecidableEq ι]

/-- The thread is between two requests, or at its end. -/
def Hebras.Ociosa (s : Hebras ι) (t : ι) : Prop := (s.hebras t).fase.Ociosa

instance decidableHebrasOciosa (s : Hebras ι) (t : ι) : Decidable (s.Ociosa t) :=
  inferInstanceAs (Decidable (s.hebras t).fase.Ociosa)

/-- What the two threads have under way does not meet. -/
def Hebras.Aparte (s : Hebras ι) (t u : ι) : Prop :=
  Memoria.Aparte s.server.marcoSize (s.hebras t).fase (s.hebras u).fase

instance decidableHebrasAparte (s : Hebras ι) (t u : ι) : Decidable (s.Aparte t u) :=
  inferInstanceAs
    (Decidable (Memoria.Aparte s.server.marcoSize (s.hebras t).fase (s.hebras u).fase))

/-- No two requests under way meet. -/
def Hebras.Separadas (s : Hebras ι) : Prop := ∀ t u, t ≠ u → s.Aparte t u

end Threads

/-! ### What a step writes -/

/-- What a step does to the data of the server. -/
inductive Escritura
  | nada
  | fila (i : Nat) (row : Row)
  | celda (c : Int) (v : UInt8)

def ServerState.escribe (server : ServerState) : Escritura → ServerState
  | .nada => server
  | .fila i row => { server with pageTable := server.pageTable.set i row }
  | .celda c v => { server with main := Function.update server.main c v }

@[simp] theorem escribe_marcoSize (server : ServerState) (w : Escritura) :
    (server.escribe w).marcoSize = server.marcoSize := by
  cases w with
  | nada => rfl
  | fila i row => rfl
  | celda c v => rfl

/-- What a thread writes belongs to what its request uses: a row that is free or its process's,
    before and after, or a cell of its store. -/
def Permitida (server : ServerState) (f : Fase) : Escritura → Prop
  | .nada => True
  | .fila i row => ∃ pid old, f.tabla = some pid ∧ server.pageTable[i]? = some old
      ∧ (old.pid = 0 ∨ old.pid = pid) ∧ (row.pid = 0 ∨ row.pid = pid)
  | .celda c _ => f.Guarda ∧ c ∈ f.celdas server.marcoSize

/-- What is written is nothing a request looks at: no row of its process, before or after, if it
    does not go through all of them, and no cell it uses. -/
def Ajena (server : ServerState) (f : Fase) : Escritura → Prop
  | .nada => True
  | .fila i row => f.tabla = none ∧ ∀ a old, f.traslado = some a → 0 < a.pid →
      server.pageTable[i]? = some old → old.pid ≠ a.pid ∧ row.pid ≠ a.pid
  | .celda c _ => c ∉ f.celdas server.marcoSize

theorem mem_celdas_copia (marcoSize : Int) (a : Traslado) (frame : Int) (j : Nat)
    (hj : (j : Int) < a.size) :
    frame * marcoSize + a.offset + j ∈ (Fase.copia a frame j).celdas marcoSize := by
  rw [Fase.celdas, mem_span]
  omega

/-- What a request has come to use it goes on using. -/
structure Crece (f g : Fase) : Prop where
  tabla : ∀ pid, f.tabla = some pid → g.tabla = some pid
  traslado : ∀ a, f.traslado = some a → g.traslado = some a
  celdas : ∀ m, f.celdas m ⊆ g.celdas m
  guarda : f.Guarda → g.Guarda

/-- A phase in which no frame is known yet. -/
theorem crece_sin_celdas (f g : Fase) (htabla : f.tabla = g.tabla)
    (htraslado : f.traslado = g.traslado) (hceldas : ∀ m, f.celdas m = []) (hguarda : ¬ f.Guarda) :
    Crece f g where
  tabla := fun _ h => htabla ▸ h
  traslado := fun _ h => htraslado ▸ h
  celdas := fun m c hc => by
    rw [hceldas m] at hc
    exact absurd hc List.not_mem_nil
  guarda := fun h => absurd h hguarda

theorem crece_conFrame (a : Traslado) (hpid : 0 < a.pid) (i : Nat) (frame : Int) (fase : Fase)
    (h : a.conFrame frame = some fase) : Crece (.busca a hpid i) fase := by
  rcases conFrame_cases a frame fase h with rfl | rfl
  · exact crece_sin_celdas _ _ rfl rfl (fun _ => rfl) id
  · exact crece_sin_celdas _ _ rfl rfl (fun _ => rfl) id

/-- What a step does: it writes at most one row or one cell, of those its request uses, and if it
    does not end the request, that goes on using them. -/
def Efecto (server server' : ServerState) (f f' : Fase) : Prop :=
  ∃ w, server' = server.escribe w ∧ Permitida server f w ∧ (¬ f'.Ociosa → Crece f f')

/-- A step that writes nothing. -/
theorem efecto_callado (server : ServerState) (f f' : Fase) (h : ¬ f'.Ociosa → Crece f f') :
    Efecto server server f f' := ⟨.nada, rfl, trivial, h⟩

/-- A step between two phases of `set_pages` or `clear_pages` that writes nothing. -/
theorem efecto_tabla (server : ServerState) (f f' : Fase) (htabla : f.tabla = f'.tabla)
    (htraslado : f.traslado = f'.traslado) (hceldas : ∀ m, f.celdas m = []) (hguarda : ¬ f.Guarda) :
    Efecto server server f f' :=
  efecto_callado server f f' fun _ => crece_sin_celdas f f' htabla htraslado hceldas hguarda

/-- And one that writes a row. -/
theorem efecto_fila (server : ServerState) (f f' : Fase) (pid : Int) (i : Nat) (row row' : Row)
    (hpid : f.tabla = some pid) (hrow : server.pageTable[i]? = some row)
    (hold : row.pid = 0 ∨ row.pid = pid) (hnew : row'.pid = 0 ∨ row'.pid = pid)
    (htabla : f.tabla = f'.tabla) (htraslado : f.traslado = f'.traslado)
    (hceldas : ∀ m, f.celdas m = []) (hguarda : ¬ f.Guarda) :
    Efecto server (server.escribe (.fila i row')) f f' :=
  ⟨.fila i row', rfl, ⟨pid, row, hpid, hrow, hold, hnew⟩, fun _ =>
    crece_sin_celdas f f' htabla htraslado hceldas hguarda⟩

/-- In a copy, the request and its frame stay the same. -/
theorem crece_copia (a : Traslado) (frame : Int) (j : Nat) (f' : Fase)
    (h : f' = .copia a frame (j + 1) ∨ f' = .entrega a frame true) :
    Crece (.copia a frame j) f' := by
  rcases h with rfl | rfl
  · exact ⟨fun _ h => h, fun _ h => h, fun _ => List.Subset.refl _, fun h => h⟩
  · exact ⟨fun _ h => h, fun _ h => h, fun _ => List.Subset.refl _, fun h => h⟩

theorem efecto_avanza (server server' : ServerState) (h h' : Hebra)
    (hstep : h.avanza server = some (server', h')) : Efecto server server' h.fase h'.fase := by
  unfold Hebra.avanza at hstep
  cases hf : h.fase with
  | espera =>
      -- No request has been under way, so there is nothing that it would go on using.
      simp only [hf, Option.map_eq_some_iff, Prod.mk.injEq] at hstep
      rcases hstep with ⟨_, -, rfl, rfl⟩
      refine efecto_callado server _ _ fun _ => ⟨fun pid hpid => ?_, fun a ha => ?_,
        fun m c hc => ?_, fun hguarda => absurd hguarda id⟩
      · exact absurd hpid.symm (Option.some_ne_none _)
      · exact absurd ha.symm (Option.some_ne_none _)
      · exact absurd hc List.not_mem_nil
  | cuenta pid pages i r =>
      simp only [hf] at hstep
      split at hstep
      · simp only [Option.some.injEq, Prod.mk.injEq] at hstep
        rcases hstep with ⟨rfl, rfl⟩
        exact efecto_tabla server _ _ rfl rfl (fun _ => rfl) id
      · split at hstep
        · simp only [Option.some.injEq, Prod.mk.injEq] at hstep
          rcases hstep with ⟨rfl, rfl⟩
          exact efecto_tabla server _ _ rfl rfl (fun _ => rfl) id
        · simp only [Option.some.injEq, Prod.mk.injEq] at hstep
          rcases hstep with ⟨rfl, rfl⟩
          exact efecto_tabla server _ _ rfl rfl (fun _ => rfl) id
  | asigna pid pages i =>
      cases pages with
      | zero =>
          simp only [hf, Option.some.injEq, Prod.mk.injEq] at hstep
          rcases hstep with ⟨rfl, rfl⟩
          exact efecto_tabla server _ _ rfl rfl (fun _ => rfl) id
      | succ pages =>
          simp only [hf] at hstep
          rcases hrow : server.pageTable[i]? with _ | row
          · simp only [hrow, Option.some.injEq, Prod.mk.injEq] at hstep
            rcases hstep with ⟨rfl, rfl⟩
            exact efecto_tabla server _ _ rfl rfl (fun _ => rfl) id
          · simp only [hrow] at hstep
            split at hstep
            · -- A free row becomes the process's.
              rename_i hzero
              simp only [Option.some.injEq, Prod.mk.injEq] at hstep
              rcases hstep with ⟨rfl, rfl⟩
              exact efecto_fila server _ _ pid i row _ rfl hrow (Or.inl (beq_iff_eq.mp hzero))
                (Or.inr rfl) rfl rfl (fun _ => rfl) id
            · simp only [Option.some.injEq, Prod.mk.injEq] at hstep
              rcases hstep with ⟨rfl, rfl⟩
              exact efecto_tabla server _ _ rfl rfl (fun _ => rfl) id
  | limpia pid i =>
      simp only [hf] at hstep
      rcases hrow : server.pageTable[i]? with _ | row
      · simp only [hrow, Option.some.injEq, Prod.mk.injEq] at hstep
        rcases hstep with ⟨rfl, rfl⟩
        exact efecto_tabla server _ _ rfl rfl (fun _ => rfl) id
      · simp only [hrow] at hstep
        split at hstep
        · -- A row of the process becomes free.
          rename_i hown
          simp only [Option.some.injEq, Prod.mk.injEq] at hstep
          rcases hstep with ⟨rfl, rfl⟩
          exact efecto_fila server _ _ pid i row _ rfl hrow (Or.inr (beq_iff_eq.mp hown))
            (Or.inl rfl) rfl rfl (fun _ => rfl) id
        · simp only [Option.some.injEq, Prod.mk.injEq] at hstep
          rcases hstep with ⟨rfl, rfl⟩
          exact efecto_tabla server _ _ rfl rfl (fun _ => rfl) id
  | contesta pid res =>
      -- The reply ends the request.
      simp only [hf, Option.some.injEq, Prod.mk.injEq] at hstep
      rcases hstep with ⟨rfl, rfl⟩
      exact efecto_callado server _ _ fun hbusy => absurd trivial hbusy
  | busca a hpid i =>
      -- The cells come to be used when the frame is found.
      simp only [hf] at hstep
      split at hstep
      · split at hstep
        · simp only [Option.map_eq_some_iff, Prod.mk.injEq] at hstep
          rcases hstep with ⟨fase, hconf, rfl, rfl⟩
          exact efecto_callado server _ _ fun _ => crece_conFrame a hpid i _ fase hconf
        · simp only [Option.some.injEq, Prod.mk.injEq] at hstep
          rcases hstep with ⟨rfl, rfl⟩
          exact efecto_tabla server _ _ rfl rfl (fun _ => rfl) id
      · simp only [Option.map_eq_some_iff, Prod.mk.injEq] at hstep
        rcases hstep with ⟨fase, hconf, rfl, rfl⟩
        exact efecto_callado server _ _ fun _ => crece_conFrame a hpid i _ fase hconf
  | copia a frame j =>
      simp only [hf] at hstep
      split at hstep
      · rename_i hj
        rcases hdato : a.dato with _ | dato
        · simp only [hdato, Option.some.injEq, Prod.mk.injEq] at hstep
          rcases hstep with ⟨rfl, rfl⟩
          exact efecto_callado server _ _ fun _ => crece_copia a frame j _ (Or.inl rfl)
        · -- A store writes the cell, a read only its own buffer.
          simp only [hdato, Option.some.injEq, Prod.mk.injEq] at hstep
          rcases hstep with ⟨rfl, rfl⟩
          refine ⟨.celda _ _, rfl, ⟨?_, mem_celdas_copia server.marcoSize a frame j hj⟩,
            fun _ => crece_copia a frame j _ (Or.inl rfl)⟩
          rw [Fase.Guarda, hdato]
          rfl
      · simp only [Option.some.injEq, Prod.mk.injEq] at hstep
        rcases hstep with ⟨rfl, rfl⟩
        exact efecto_callado server _ _ fun _ => crece_copia a frame j _ (Or.inr rfl)
  | entrega a frame ok =>
      simp only [hf, Option.some.injEq, Prod.mk.injEq] at hstep
      rcases hstep with ⟨rfl, rfl⟩
      exact efecto_callado server _ _ fun hbusy => absurd trivial hbusy
  | cerrada => simp only [hf, reduceCtorEq] at hstep

/-- A row that is written is not seen by who looks for those of another process. -/
theorem avanza_fila (server : ServerState) (h : Hebra) (i : Nat) (row : Row)
    (hw : Ajena server h.fase (.fila i row)) :
    h.avanza (server.escribe (.fila i row)) =
      (h.avanza server).map fun p => (p.1.escribe (.fila i row), p.2) := by
  rcases hw with ⟨htabla, hw⟩
  unfold Hebra.avanza
  cases hf : h.fase with
  | espera =>
      simp only [ServerState.escribe, List.length_set, Option.map_map]
      rfl
  | busca a hpid k =>
      have hajena := hw a
      simp only [hf] at hajena
      -- The row is looked at and is not the one, before and after.
      have hlook : ∀ p : Row, (p.pid ≠ a.pid) → (p.pid == a.pid && p.page == a.page) = false := by
        intro p hp
        rw [beq_eq_false_iff_ne.mpr hp, Bool.false_and]
      simp only [ServerState.escribe]
      by_cases hik : i = k
      · subst hik
        rw [List.getElem?_set_self']
        rcases hrow : server.pageTable[i]? with _ | old
        · simp only [Option.map_eq_map, Option.map_none, Option.map_map]
          rfl
        · rcases hajena old rfl hpid hrow with ⟨hold, hnew⟩
          simp only [Option.map_eq_map, Option.map_some, Function.const_apply, hlook old hold,
            hlook row hnew, Bool.false_eq_true, if_false]
      · rw [List.getElem?_set_ne hik]
        rcases server.pageTable[k]? with _ | old
        · simp only [Option.map_map]
          rfl
        · simp only
          split
          · simp only [Option.map_map]
            rfl
          · rfl
  | copia a frame j =>
      simp only [ServerState.escribe]
      split
      · split
        · rfl
        · rfl
      · rfl
  | entrega a frame ok => rfl
  | cerrada => rfl
  | _ =>
      -- Who goes through all rows is not meant here.
      rw [hf] at htabla
      exact absurd htabla (by simp only [Fase.tabla, reduceCtorEq, not_false_eq_true])

/-- A cell that is written is not seen by who does not use it. -/
theorem avanza_celda (server : ServerState) (h : Hebra) (c : Int) (v : UInt8)
    (hw : Ajena server h.fase (.celda c v)) :
    h.avanza (server.escribe (.celda c v)) =
      (h.avanza server).map fun p => (p.1.escribe (.celda c v), p.2) := by
  unfold Hebra.avanza
  cases hf : h.fase with
  | espera =>
      simp only [ServerState.escribe, Option.map_map]
      rfl
  | cuenta pid pages i r =>
      simp only [ServerState.escribe]
      split
      · rfl
      · split
        · rfl
        · rfl
  | asigna pid pages i =>
      cases pages with
      | zero => rfl
      | succ pages =>
          simp only [ServerState.escribe]
          split
          · split
            · rfl
            · rfl
          · rfl
  | limpia pid i =>
      simp only [ServerState.escribe]
      split
      · split
        · rfl
        · rfl
      · rfl
  | contesta pid res => rfl
  | busca a hpid i =>
      simp only [ServerState.escribe]
      split
      · split
        · simp only [Option.map_map]
          rfl
        · rfl
      · simp only [Option.map_map]
        rfl
  | copia a frame j =>
      simp only [ServerState.escribe]
      split
      · rename_i hj
        -- The cell that is copied is one of those used.
        have hne : frame * server.marcoSize + a.offset + j ≠ c := by
          intro heq
          have hmem := mem_celdas_copia server.marcoSize a frame j hj
          rw [heq] at hmem
          rw [hf] at hw
          exact hw hmem
        split
        · rw [Function.update_of_ne hne]
          rfl
        · rw [Function.update_comm hne.symm]
          rfl
      · rfl
  | entrega a frame ok => rfl
  | cerrada => rfl

/-- Who does not look at what is written makes the same step before and after it is. -/
theorem avanza_ajena (server : ServerState) (h : Hebra) (w : Escritura)
    (hw : Ajena server h.fase w) :
    h.avanza (server.escribe w) = (h.avanza server).map fun p => (p.1.escribe w, p.2) := by
  cases w with
  | nada => exact (Option.map_id' (x := h.avanza server)).symm
  | fila i row => exact avanza_fila server h i row hw
  | celda c v => exact avanza_celda server h c v hw

/-! ### Requests that do not meet -/

theorem Aparte.symm (marcoSize : Int) (f g : Fase) (h : Aparte marcoSize f g) :
    Aparte marcoSize g f where
  tabla := h.tabla.symm
  izquierda := h.derecha
  derecha := h.izquierda
  celdas := fun hguarda c hg hf => h.celdas hguarda.symm c hf hg

/-- What one of two such requests writes, the other one does not look at. -/
theorem ajena_of_aparte (server : ServerState) (f g : Fase) (w : Escritura)
    (h : Aparte server.marcoSize f g) (hw : Permitida server f w) : Ajena server g w := by
  cases w with
  | nada => trivial
  | fila i row =>
      rcases hw with ⟨pid, old, htabla, hrow, hold, hnew⟩
      refine ⟨?_, fun a old' ha hpid hrow' => ?_⟩
      · rcases h.tabla with hf | hg
        · rw [htabla] at hf
          exact absurd hf (Option.some_ne_none _)
        · exact hg
      · obtain rfl : old = old' := Option.some.inj (hrow.symm.trans hrow')
        have hne := h.izquierda pid a htabla ha
        omega
  | celda c v => exact h.celdas (Or.inl hw.1) c hw.2

/-- They can write in any order. -/
theorem escribe_comm (server : ServerState) (f g : Fase) (w w' : Escritura)
    (h : Aparte server.marcoSize f g) (hw : Permitida server f w) (hw' : Permitida server g w') :
    (server.escribe w).escribe w' = (server.escribe w').escribe w := by
  cases w with
  | nada => rfl
  | fila i row => cases w' with
    | nada => rfl
    | fila i' row' =>
        -- Two requests that write rows are not apart.
        rcases hw with ⟨pid, -, htabla, -⟩
        rcases hw' with ⟨pid', -, htabla', -⟩
        rcases h.tabla with hf | hg
        · exact absurd (htabla.symm.trans hf) (Option.some_ne_none _)
        · exact absurd (htabla'.symm.trans hg) (Option.some_ne_none _)
    | celda c' v' => rfl
  | celda c v => cases w' with
    | nada => rfl
    | fila i' row' => rfl
    | celda c' v' =>
        have hne : c ≠ c' := by
          intro heq
          exact h.celdas (Or.inl hw.1) c hw.2 (heq ▸ hw'.2)
        simp only [ServerState.escribe, Function.update_comm hne]

/-- Two steps of such requests, in the other order. -/
theorem avanza_comm (server s₁ s₂ : ServerState) (ht ht' hu hu' : Hebra)
    (hap : Aparte server.marcoSize ht.fase hu.fase)
    (hfirst : hu.avanza server = some (s₁, hu')) (hsecond : ht.avanza s₁ = some (s₂, ht')) :
    ∃ r, ht.avanza server = some (r, ht') ∧ hu.avanza r = some (s₂, hu') := by
  -- Each thread does not look at what the other one writes, and both writings are made.
  rcases efecto_avanza server s₁ hu hu' hfirst with ⟨w, rfl, hw, -⟩
  rw [avanza_ajena server ht w (ajena_of_aparte server hu.fase ht.fase w hap.symm hw),
    Option.map_eq_some_iff] at hsecond
  rcases hsecond with ⟨⟨r, ht''⟩, hthird, heq⟩
  simp only [Prod.mk.injEq] at heq
  rcases heq with ⟨rfl, rfl⟩
  rcases efecto_avanza server r ht ht'' hthird with ⟨w', rfl, hw', -⟩
  refine ⟨_, hthird, ?_⟩
  rw [avanza_ajena server hu w' (ajena_of_aparte server ht.fase hu.fase w' hap hw'), hfirst,
    Option.map_some, escribe_comm server ht.fase hu.fase w' w hap hw' hw]

/-- Requests that do not meet later have not met before. -/
theorem aparte_crece (marcoSize : Int) (f f' g g' : Fase) (hf : Crece f f') (hg : Crece g g')
    (h : Aparte marcoSize f' g') : Aparte marcoSize f g where
  tabla := by
    have hnone : ∀ p q : Fase, Crece p q → q.tabla = none → p.tabla = none := by
      intro p q hpq hq
      rcases hp : p.tabla with _ | pid
      · rfl
      · rw [hpq.tabla pid hp] at hq
        exact absurd hq (Option.some_ne_none _)
    rcases h.tabla with hnil | hnil
    · exact Or.inl (hnone f f' hf hnil)
    · exact Or.inr (hnone g g' hg hnil)
  izquierda := fun pid a hpid ha => h.izquierda pid a (hf.tabla pid hpid) (hg.traslado a ha)
  derecha := fun pid a hpid ha => h.derecha pid a (hg.tabla pid hpid) (hf.traslado a ha)
  celdas := fun hguarda c hcf hcg =>
    h.celdas (hguarda.imp hf.guarda hg.guarda) c (hf.celdas marcoSize hcf)
      (hg.celdas marcoSize hcg)

/-! ### The server -/

section Server

variable {ι : Type} [DecidableEq ι]

/-- The requests of two threads can be brought together. -/
theorem hebras_independent : Independent (Hebras.paso (ι := ι)) Hebras.Ociosa Hebras.Aparte where
  frame := by
    intro s s' t u hstep hne
    simp only [Hebras.paso, Option.map_eq_some_iff] at hstep
    rcases hstep with ⟨p, -, rfl⟩
    unfold Hebras.Ociosa
    simp only [Function.update_of_ne hne]
  grows := by
    intro s s' x t u hstep hbusy _ hap
    simp only [Hebras.paso, Option.map_eq_some_iff] at hstep
    rcases hstep with ⟨⟨server, h⟩, havanza, rfl⟩
    rcases efecto_avanza s.server server (s.hebras x) h havanza with ⟨w, hw, -, hmore⟩
    have hsame : server.marcoSize = s.server.marcoSize := by
      rw [hw, escribe_marcoSize]
    -- A request that goes on touches what it has touched; the others stay as they are.
    have hcrece : ∀ y, Crece (s.hebras y).fase (Function.update s.hebras x h y).fase := by
      intro y
      by_cases hyx : y = x
      · subst hyx
        unfold Hebras.Ociosa at hbusy
        simp only [Function.update_self] at hbusy ⊢
        exact hmore hbusy
      · rw [Function.update_of_ne hyx]
        exact ⟨fun _ h => h, fun _ h => h, fun _ => List.Subset.refl _, fun h => h⟩
    unfold Hebras.Aparte at hap ⊢
    simp only [hsame] at hap
    exact aparte_crece _ _ _ _ _ (hcrece t) (hcrece u) hap
  comm := by
    intro s s₁ s₂ t u htu hap hu ht
    simp only [Hebras.paso, Option.map_eq_some_iff] at hu
    rcases hu with ⟨⟨server₁, h₁⟩, hfirst, rfl⟩
    simp only [Hebras.paso, Option.map_eq_some_iff, Function.update_of_ne htu] at ht
    rcases ht with ⟨⟨server₂, h₂⟩, hsecond, rfl⟩
    rcases avanza_comm s.server server₁ server₂ (s.hebras t) h₂ (s.hebras u) h₁ hap hfirst hsecond
      with ⟨r, hr, hlast⟩
    refine ⟨{ server := r, hebras := Function.update s.hebras t h₂ }, ?_, ?_⟩
    · simp only [Hebras.paso, hr, Option.map_some]
    · simp only [Hebras.paso, Function.update_of_ne htu.symm, hlast, Option.map_some,
        Function.update_comm htu.symm]

/-- What the request of a thread still does, in one piece. -/
def Hebras.resto (s : Hebras ι) (t : ι) : Option (Hebras ι) :=
  ((s.hebras t).resto s.server).map fun p =>
    { server := p.1, hebras := Function.update s.hebras t p.2 }

theorem resto_paso (s s' : Hebras ι) (t : ι) (hstep : s.paso t = some s') :
    (s'.Ociosa t → s.resto t = some s') ∧ (¬ s'.Ociosa t → s.resto t = s'.resto t) := by
  simp only [Hebras.paso, Option.map_eq_some_iff] at hstep
  rcases hstep with ⟨⟨server, h⟩, havanza, rfl⟩
  rcases resto_avanza s.server server (s.hebras t) h havanza with ⟨hidle, hbusy⟩
  unfold Hebras.Ociosa Hebras.resto
  simp only [Function.update_self, Function.update_idem]
  refine ⟨fun ho => ?_, fun ho => ?_⟩
  · rw [hidle ho]
    rfl
  · rw [hbusy ho]

/-- The steps of a thread on its own, up to the one that ends its request, are one round of
    `cli_thread`. -/
theorem ronda_of_pasos (s m b : Hebras ι) (t : ι) (n : Nat) (hidle : s.Ociosa t)
    (hrun : run Hebras.paso s (List.replicate n t) = some m)
    (hun : Unended Hebras.paso Hebras.Ociosa s (List.replicate n t))
    (hlast : m.paso t = some b) (hends : b.Ociosa t) : s.ronda t = some b := by
  have hresto : s.resto t = some b := by
    clear hidle
    -- By induction on the steps: none of them changes what is left, but the last one.
    induction n generalizing s with
    | zero =>
        rw [List.replicate_zero, run_nil, Option.some.injEq] at hrun
        rw [hrun]
        exact (resto_paso m b t hlast).1 hends
    | succ n ih =>
        rw [List.replicate_succ] at hrun hun
        rcases (run_cons _ s m t _).mp hrun with ⟨u, hu, hrest⟩
        rcases (unended_cons Hebras.paso Hebras.Ociosa s u t _ hu).mp hun with ⟨hbusy, hun'⟩
        rw [(resto_paso s u t hu).2 hbusy]
        exact ih u hrest hun'
  -- Between two requests, what is left of one is the next one.
  rw [← hresto]
  unfold Hebras.ronda Hebras.resto
  unfold Hebras.Ociosa at hidle
  cases hf : (s.hebras t).fase with
  | espera => simp only [Hebra.resto, hf]
  | cerrada => simp only [Hebra.resto, Hebra.atiende, hf]
  | _ =>
      rw [hf] at hidle
      exact absurd hidle id

/-- The threads whose requests have been answered, in the order of their replies. -/
def terminadas (s : Hebras ι) (es : List ι) : List ι :=
  record Hebras.paso (ends Hebras.paso Hebras.Ociosa) s es

/-- However the steps of the threads come in between each other, if no two requests under way
    meet at any time, the server comes where it comes by answering the requests that have been
    answered one after another, in the order of the replies, each in one piece, and by the steps
    that those still under way have made. So when no request is under way, the replies, the page
    table and main memory are those of a server that answers its clients one after another. -/
theorem requests_linearize (s c : Hebras ι) (es : List ι)
    (hidle : ∀ t, s.Ociosa t) (hsep : Throughout Hebras.paso Hebras.Separadas s es)
    (hrun : run Hebras.paso s es = some c) :
    ∃ a l, run Hebras.ronda s (terminadas s es) = some a ∧ run Hebras.paso a l = some c
      ∧ (∀ t ∈ l, ¬ c.Ociosa t) ∧ ((∀ t, c.Ociosa t) → a = c) := by
  rcases linearized Hebras.paso Hebras.Ociosa Hebras.Aparte Hebras.ronda hebras_independent
    (fun s m b t n => ronda_of_pasos s m b t n) s s c [] es hidle rfl trivial hsep hrun with
    ⟨a, l, hrondas, -, hl, hun⟩
  have hbusy : ∀ t ∈ l, ¬ c.Ociosa t := by
    intro t ht
    exact busy_of_mem Hebras.paso Hebras.Ociosa Hebras.Aparte hebras_independent a c t l hl hun ht
  refine ⟨a, l, hrondas, hl, hbusy, fun hdone => ?_⟩
  rcases l with _ | ⟨t, l⟩
  · exact Option.some.inj hl
  · exact absurd (hdone t) (hbusy t List.mem_cons_self)

end Server

/-- Two clients, each with its own thread. -/
instance decidableSeparadas (s : Hebras Bool) : Decidable s.Separadas :=
  inferInstanceAs (Decidable (∀ t u, t ≠ u → s.Aparte t u))

/-- Process 1 has the first frame and process 2 the second, with a 7 in its first cell. -/
def sampleServidor : ServerState :=
  { marcoSize := 4
    pageTable := [{ pid := 1, page := 0 }, { pid := 2, page := 0 }]
    main := fun i => if i = 4 then 7 else 0 }

def sampleHebra (pid : UInt8) (packet : Packet) : Hebra :=
  { conn := sampleConnection
    inbox := [({ packet with header := { packet.header with usrpid := pid } }, fun _ => 0)]
    enviados := []
    fase := .espera }

/-- One client reads the cell, the other one ends process 1. -/
def sampleHebras : Hebras Bool :=
  { server := sampleServidor
    hebras := fun t =>
      if t then sampleHebra 1 (paquete .OP_ME_FINPRO [])
      else sampleHebra 2 (paquete .OP_ME_SOLBYTPAG [0, 0, 1]) }

/-- The rows are gone through by both at once. -/
def sampleEntre : List Bool :=
  [true, false, true, false, true, false, true, false, false, false, true]

theorem sampleEntre_separadas :
    (∀ t, sampleHebras.Ociosa t)
      ∧ Throughout Hebras.paso Hebras.Separadas sampleHebras sampleEntre
      ∧ (run Hebras.paso sampleHebras sampleEntre).isSome
      ∧ (∀ c ∈ run Hebras.paso sampleHebras sampleEntre, ∀ t, c.Ociosa t)
      ∧ terminadas sampleHebras sampleEntre = [false, true] := by
  decide

/-- The read has been answered first, and all is as if the other request had come after it. -/
theorem sampleEntre_linearized :
    run Hebras.ronda sampleHebras [false, true] = run Hebras.paso sampleHebras sampleEntre := by
  rcases sampleEntre_separadas with ⟨hidle, hsep, hsome, hdone, hterminadas⟩
  rcases Option.isSome_iff_exists.mp hsome with ⟨c, hrun⟩
  rcases requests_linearize sampleHebras c sampleEntre hidle hsep hrun with
    ⟨a, l, hrondas, -, -, hsame⟩
  rw [← hterminadas, hrondas, hrun, hsame (hdone c hrun)]

end Memoria

end Esther
