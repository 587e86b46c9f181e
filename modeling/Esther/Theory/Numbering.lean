import Esther.Theory.Connection

/-!
# The Numbers of the Programs

Whether a program of a console gets its own number.

The kernel answers the programs in the order in which they were sent, and an answer does
not say which of them it is for. The console gives the number to the last program of its
list. That is the one the answer is for as long as no other has been started since, while
the program was read and sent, while it waited for the kernel, or while the answer was
under way. Then the later program gets the number, and the one it belongs to keeps none.

The number in the answer is one byte of that of the kernel, so two programs are also
confused when the kernel has created 256 others in between.

## Main definitions

* `Paso`: A start, a program that is sent or read by the kernel, or an answer.
* `numerar`: A step, with the numbers that have been given.
* `Propios`: Every program has the number of its answer, and no other has it.
* `ATiempo`: No program has been started since, and the number is a new one.

## Theorems

* `pids_paso`: The numbers of the programs after a step.
* `propios_step_iff`: The steps after which the programs have their own numbers.
* `own_numbers_iff`: The runs in which they have them.
* `late_answer`: An answer that another program gets.
-/

namespace Esther

namespace Consola

open Transition

/-- A program is started, sent, or read by the kernel, which answers, or an answer is
    received. -/
inductive Paso
  | run
  | envia (payload : List UInt8)
  | atiende (otros : Nat)
  | recibe (heap : Buf)

def Paso.evento : Paso → Evento
  | .run => .run
  | .envia payload => .envia payload
  | .atiende otros => .atiende otros
  | .recibe heap => .recibe heap

/-- A step, with the numbers that have been given, in order. -/
def numerar (s : Red × List Int) (p : Paso) : Option (Red × List Int) :=
  (s.1.step p.evento).map fun u => (u, s.2 ++ asignados s.1 p.evento)

/-- The program that was started in a certain place has the number that was given in that
    place, and no other has it. -/
def Propios (s : Red × List Int) : Prop :=
  ∀ (i : Nat) (n : Int), s.2[i]? = some n →
    (pids s.1)[i]? = some n ∧ ∀ j : Nat, (pids s.1)[j]? = some n → j = i

/-- When a number is given, the programs that have been started are one more than those that
    have been given one, and it is not one of theirs. -/
def ATiempo (s : Red × List Int) (p : Paso) : Prop :=
  ∀ n ∈ asignados s.1 p.evento, (pids s.1).length = s.2.length + 1 ∧ n ∉ s.2

instance (s : Red × List Int) (p : Paso) : Decidable (ATiempo s p) := by
  unfold ATiempo
  infer_instance

/-- Every program that was started has its number or waits for it. -/
structure Esperados (s : Red × List Int) : Prop where
  enlazada : Enlazada s.1
  total : pendientes s.1 + s.2.length = (pids s.1).length
  numeros : ∀ n ∈ s.2, n ≠ -1

/-- A start adds a program without a number, and an answer gives its number to the last. -/
theorem pids_paso (s u : Red) (p : Paso) (hs : Enlazada s) (h : s.step p.evento = some u) :
    (asignados s p.evento = [] ∧ pids u = pids s ++ if arranca s p.evento then [-1] else []) ∨
    ∃ n, asignados s p.evento = [n] ∧ arranca s p.evento = false ∧ pids s ≠ [] ∧
      pids u = (pids s).dropLast ++ [n] := by
  cases p with
  | run =>
      refine Or.inl ⟨rfl, ?_⟩
      rcases step_run s u h with ⟨harranca, rfl⟩ | ⟨harranca, rfl⟩
      · simp only [Paso.evento, harranca, Bool.false_eq_true, if_false, List.append_nil]
      · simp only [Paso.evento, harranca, if_true, pids, List.map_append, List.map_cons,
          List.map_nil]
  | envia payload =>
      refine Or.inl ⟨rfl, ?_⟩
      rw [(step_envia s u payload h).2]
      exact (List.append_nil _).symm
  | atiende otros =>
      refine Or.inl ⟨rfl, ?_⟩
      rcases step_atiende s u otros h with ⟨packet, _, ⟨_, rfl⟩ | ⟨_, rfl⟩⟩
      · exact (List.append_nil _).symm
      · exact (List.append_nil _).symm
  | recibe heap =>
      rcases step_recibe s u heap hs h with ⟨packet, canal, hcanal, hcases⟩
      rcases hcases with ⟨hnumero, program, hlast, rfl⟩ | ⟨hnumero, code, programs, hchanged, rfl⟩
      -- The answer to a start, or the notice of an end, which changes no number.
      · refine Or.inr ⟨packet.usrpid, ?_, rfl, ?_, ?_⟩
        · simp only [Paso.evento, asignados, hcanal, hnumero, if_true]
        · intro hnil
          rw [List.map_eq_nil_iff.mp hnil] at hlast
          exact absurd hlast (by simp only [List.getLast?_nil, reduceCtorEq, not_false_eq_true])
        · simp only [pids, List.map_append, List.map_cons, List.map_nil, List.map_dropLast]
      · refine Or.inl ⟨?_, ?_⟩
        · simp only [Paso.evento, asignados, hcanal, hnumero, Bool.false_eq_true, if_false]
        · exact (cambiar_map packet.usrpid (fun program =>
            { program with status := .PROGRAM_ENDED, exitcode := code })
            (fun program => program.pid) (fun _ => rfl) _ _ hchanged).trans
            (List.append_nil _).symm

theorem esperados_step (s u : Red × List Int) (p : Paso) (hs : Esperados s)
    (h : numerar s p = some u) : Esperados u := by
  rw [numerar, Option.map_eq_some_iff] at h
  rcases h with ⟨t, hstep, rfl⟩
  have hcambio := cambio_step s.1 t p.evento hs.enlazada hstep
  have htotal := hs.total
  have hpend := hcambio.pendientes
  have hnone : abandona p.evento = false := by cases p <;> rfl
  rw [hnone, Bool.toNat_false, Nat.add_zero] at hpend
  refine ⟨hcambio.enlazada, ?_, fun n hn => ?_⟩
  -- Every program waits for its number or has been given one.
  · show pendientes t + (s.2 ++ asignados s.1 p.evento).length = (pids t).length
    rw [List.length_append]
    rcases pids_paso s.1 t p hs.enlazada hstep with ⟨hasignados, hpids⟩
      | ⟨n, hasignados, harranca, hne, hpids⟩
    · rw [hasignados, List.length_nil, Nat.add_zero] at hpend
      rw [hasignados, hpids, List.length_append, List.length_nil]
      cases harranca : arranca s.1 p.evento with
      | false =>
          rw [harranca, Bool.toNat_false] at hpend
          simp only [Bool.false_eq_true, if_false, List.length_nil]
          omega
      | true =>
          rw [harranca, Bool.toNat_true] at hpend
          simp only [if_true, List.length_singleton]
          omega
    · have hpos := List.length_pos_iff.mpr hne
      rw [hasignados, harranca, Bool.toNat_false, List.length_singleton] at hpend
      rw [hasignados, hpids, List.length_append, List.length_dropLast, List.length_singleton]
      omega
  · rcases List.mem_append.mp hn with hold | hnew
    · exact hs.numeros n hold
    · exact mem_asignados s.1 p.evento n hnew

/-- A start gives no program a number that another has been given. -/
theorem propios_arranca (s : Red × List Int) (t : Red) (l : List Int) (hs : Esperados s)
    (hpropios : Propios s) (hpids : pids t = pids s.1 ++ l) (hl : ∀ x ∈ l, x = -1) :
    Propios (t, s.2) := by
  intro i n hgiven
  rcases hpropios i n hgiven with ⟨hown, hother⟩
  have hi := (List.getElem?_eq_some_iff.mp hown).1
  show (pids t)[i]? = some n ∧ ∀ j : Nat, (pids t)[j]? = some n → j = i
  rw [hpids]
  refine ⟨(List.getElem?_append_left hi).trans hown, fun j hj => ?_⟩
  by_cases hlt : j < (pids s.1).length
  · rw [List.getElem?_append_left hlt] at hj
    exact hother j hj
  · rw [List.getElem?_append_right (by omega)] at hj
    exact absurd (hl n (List.mem_of_getElem? hj)) (hs.numeros n (List.mem_of_getElem? hgiven))

/-- A number that is given to the last program is its own if it is the only one without one,
    and if no other has that number. -/
theorem propios_recibe (s : Red × List Int) (t : Red) (n : Int) (hpropios : Propios s)
    (hpids : pids t = (pids s.1).dropLast ++ [n]) (htotal : s.2.length < (pids s.1).length) :
    Propios (t, s.2 ++ [n]) ↔ (pids s.1).length = s.2.length + 1 ∧ n ∉ s.2 := by
  have hlen : (pids s.1).dropLast.length = (pids s.1).length - 1 := List.length_dropLast
  have hlast : (pids t)[(pids s.1).length - 1]? = some n := by
    rw [hpids, List.getElem?_append_right (by omega), hlen, Nat.sub_self]
    rfl
  have hfirst : ∀ j, j < (pids s.1).length - 1 → (pids t)[j]? = (pids s.1)[j]? := by
    intro j hj
    rw [hpids, List.getElem?_append_left (by omega), List.getElem?_dropLast, if_pos hj]
  have hnew : (s.2 ++ [n])[s.2.length]? = some n := by
    rw [List.getElem?_append_right (Nat.le_refl _), Nat.sub_self]
    rfl
  constructor
  · intro h
    have hplace : (pids s.1).length - 1 = s.2.length := (h s.2.length n hnew).2 _ hlast
    refine ⟨by omega, fun hmem => ?_⟩
    -- A program that was given the same number has it still.
    rcases List.getElem?_of_mem hmem with ⟨i, hi⟩
    have hlt := (List.getElem?_eq_some_iff.mp hi).1
    have hsame := (h i n ((List.getElem?_append_left hlt).trans hi)).2 _ hlast
    omega
  · rintro ⟨hplace, hfresh⟩ i x hgiven
    show (pids t)[i]? = some x ∧ ∀ j : Nat, (pids t)[j]? = some x → j = i
    by_cases hlt : i < s.2.length
    · -- The numbers that were given before are not touched.
      rw [List.getElem?_append_left hlt] at hgiven
      rcases hpropios i x hgiven with ⟨hown, hother⟩
      refine ⟨(hfirst i (by omega)).trans hown, fun j hj => ?_⟩
      by_cases hjlt : j < (pids s.1).length - 1
      · exact hother j ((hfirst j hjlt).symm.trans hj)
      · have hjlen := (List.getElem?_eq_some_iff.mp hj).1
        rw [hpids, List.length_append, hlen, List.length_singleton] at hjlen
        obtain rfl : j = (pids s.1).length - 1 := by omega
        rw [hlast, Option.some.injEq] at hj
        exact absurd (hj ▸ List.mem_of_getElem? hgiven) hfresh
    · have hilen := (List.getElem?_eq_some_iff.mp hgiven).1
      rw [List.length_append, List.length_singleton] at hilen
      obtain rfl : i = s.2.length := by omega
      rw [hnew, Option.some.injEq] at hgiven
      have hend : s.2.length = (pids s.1).length - 1 := by omega
      refine ⟨by rw [hend, hlast, hgiven], fun j hj => ?_⟩
      by_cases hjlt : j < s.2.length
      · -- A program before has the number that it was given.
        rw [hfirst j (by omega)] at hj
        have hgot := List.getElem?_eq_getElem hjlt
        have hown := (hpropios j _ hgot).1
        rw [hown, Option.some.injEq] at hj
        exact absurd (hgiven ▸ hj ▸ List.getElem_mem hjlt) hfresh
      · have hjlen := (List.getElem?_eq_some_iff.mp hj).1
        rw [hpids, List.length_append, hlen, List.length_singleton] at hjlen
        omega

/-- From a state in which the programs have their own numbers, they have them after a step
    exactly if it gives none, or in time. -/
theorem propios_step_iff (s u : Red × List Int) (p : Paso) (hs : Esperados s)
    (hpropios : Propios s) (h : numerar s p = some u) : Propios u ↔ ATiempo s p := by
  have hexpected := esperados_step s u p hs h
  rw [numerar, Option.map_eq_some_iff] at h
  rcases h with ⟨t, hstep, rfl⟩
  rcases pids_paso s.1 t p hs.enlazada hstep with ⟨hasignados, hpids⟩
    | ⟨n, hasignados, harranca, hne, hpids⟩
  · rw [ATiempo, hasignados, List.append_nil]
    refine iff_of_true ?_ fun n hn => absurd hn List.not_mem_nil
    refine propios_arranca s t _ hs hpropios hpids fun x hx => ?_
    split at hx
    · exact List.mem_singleton.mp hx
    · exact absurd hx List.not_mem_nil
  · have htotal : pendientes t + (s.2 ++ asignados s.1 p.evento).length = (pids t).length :=
      hexpected.total
    have hpos := List.length_pos_iff.mpr hne
    rw [hasignados, hpids, List.length_append, List.length_append, List.length_dropLast,
      List.length_singleton] at htotal
    rw [ATiempo, hasignados, propios_recibe s t n hpropios hpids (by omega)]
    simp only [List.mem_singleton, forall_eq]

theorem esperados_init (generatorPid : Int) : Esperados (Red.init generatorPid, []) :=
  ⟨enlazada_init generatorPid, rfl, fun _ hmem => absurd hmem List.not_mem_nil⟩

/-- The programs of a console have their own numbers, each from its answer on, exactly if
    every answer is received before another program is started, and gives a new number. -/
theorem own_numbers_iff (generatorPid : Int) (pasos : List Paso) (t : Red × List Int)
    (hrun : run numerar (Red.init generatorPid, []) pasos = some t) :
    Throughout numerar Propios (Red.init generatorPid, []) pasos ↔
      Along numerar ATiempo (Red.init generatorPid, []) pasos := by
  refine throughout_iff_along numerar ATiempo Esperados Propios
    (fun s p u hs _ _ h => esperados_step s u p hs h)
    (fun s p u hs hpropios h => propios_step_iff s u p hs hpropios h) _ t pasos
    (esperados_init generatorPid) ?_ hrun
  intro i n hgiven
  exact absurd hgiven (by simp only [List.getElem?_nil, reduceCtorEq, not_false_eq_true])

/-- Two programs, the second of which is started when the first has its number. -/
def samplePasos : List Paso :=
  [.run, .envia [], .atiende 3, .recibe fun _ => 0, .run, .envia [], .atiende 0,
    .recibe fun _ => 0]

theorem samplePasos_own : ∃ t, run numerar (Red.init 0, []) samplePasos = some t ∧
    pids t.1 = [4, 5] ∧ Throughout numerar Propios (Red.init 0, []) samplePasos :=
  ⟨_, rfl, by decide, (own_numbers_iff 0 samplePasos _ rfl).mpr (by decide)⟩

/-- Two programs are started, sent and read before the first answer is received. It is for
    the first of them, and the second gets it. -/
theorem late_answer : ∃ t, run numerar (Red.init 0, [])
      [.run, .run, .envia [], .envia [], .atiende 0, .atiende 0, .recibe fun _ => 0] = some t ∧
    pids t.1 = [-1, 1] ∧ ¬ Propios t := by
  refine ⟨_, rfl, by decide, fun hpropios => ?_⟩
  have hown := (hpropios 0 1 rfl).1
  exact absurd hown (by decide)

end Consola

end Esther
