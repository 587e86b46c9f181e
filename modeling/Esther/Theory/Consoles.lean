import Esther.Theory.Partition

/-!
# What a Console Takes with It

`destroy_console` as one statement about the five queues.

The loop looks each program of the console up again, in queues that the programs ended
before it have already left. None of that matters in the end: which programs are ended
can be told from the state the loop starts in (`State.ends`), and what is left of a queue
is what does not belong to one of them.

## Main definitions

* `State.ends`: `destroy_console` would end the program.
* `doomed`: The programs a console takes with it.
* `without`: A queue less the blocks of some programs.

## Theorems

* `ends_iff`: The programs that are ended, by where they are.
* `endConsolePrograms_eq`: The loop of `destroy_console`.
* `destroyConsole_eq`: `destroy_console`.
-/

namespace Esther

namespace Kernel

open Cells Serial

/-- `destroy_console` ends the program: it is in some queue and not running. -/
def State.ends (k : State) (pid : Int) : Bool :=
  match k.pcbById pid with
  | some pcb => k.pcbStatus pcb != some .EXEC
  | none => false

/-- The programs of a console that are ended with it. -/
def doomed (k : State) (pids : List Int) : List Int := pids.filter k.ends

/-- A queue less the blocks of some programs. -/
def without (pids : List Int) (list : List Pcb) : List Pcb :=
  list.filter fun pcb => !(pids.contains pcb.idProcess)

theorem without_nil (list : List Pcb) : without [] list = list := by
  simp [without]

theorem without_cons (pid : Int) (pids : List Int) (list : List Pcb) :
    without (pid :: pids) list = without pids (removePid pid list) := by
  simp only [without, removePid, List.filter_filter]
  refine List.filter_congr fun pcb _ => ?_
  by_cases hpid : pid = pcb.idProcess
  · simp [hpid]
  · have hne : ¬ pcb.idProcess = pid := fun h => hpid h.symm
    simp [hpid, hne]

theorem without_append (pids : List Int) (list list' : List Pcb) :
    without pids (list ++ list') = without pids list ++ without pids list' :=
  List.filter_append _ _

theorem occurrences_eq_zero (pid : Int) (list : List Pcb) :
    occurrences pid list = 0 ↔ ∀ pcb ∈ list, pcb.idProcess ≠ pid := by
  simp [occurrences, List.countP_eq_zero]

theorem exists_of_occurrences_pos (pid : Int) (list : List Pcb) (h : 0 < occurrences pid list) :
    ∃ pcb ∈ list, pcb.idProcess = pid := by
  rw [occurrences_pos, List.any_eq_true] at h
  rcases h with ⟨pcb, hpcb, hpid⟩
  exact ⟨pcb, hpcb, by simpa using hpid⟩

theorem occurrences_without (pid : Int) (pids : List Int) (list : List Pcb) :
    occurrences pid (without pids list) = if pid ∈ pids then 0 else occurrences pid list := by
  induction pids generalizing list with
  | nil => rw [without_nil, if_neg List.not_mem_nil]
  | cons first pids ih =>
      rw [without_cons, ih, occurrences_removePid]
      by_cases hfirst : first = pid
      · simp [hfirst]
      · have hne : ¬ pid = first := fun h => hfirst h.symm
        simp [hfirst, hne]

/-- A queue loses nothing when none of the programs is in it. -/
theorem without_eq_self_iff (pids : List Int) (list : List Pcb) :
    without pids list = list ↔ ∀ pid ∈ pids, occurrences pid list = 0 := by
  unfold without
  rw [List.filter_eq_self]
  constructor
  · intro h pid hpid
    rw [occurrences_eq_zero]
    intro pcb hpcb hc
    have hkept := h pcb hpcb
    simp [hc, hpid] at hkept
  · intro h pcb hpcb
    by_contra hc
    have hmem : pcb.idProcess ∈ pids := by simpa using hc
    exact (occurrences_eq_zero _ _).mp (h _ hmem) pcb hpcb rfl

/-- The block found for a number belongs to it. -/
theorem pcbById_idProcess (k : State) (pid : Int) (pcb : Pcb) (h : k.pcbById pid = some pcb) :
    pcb.idProcess = pid := by
  rcases List.exists_of_findSome?_eq_some h with ⟨status, -, hfind⟩
  have hpid := List.find?_some hfind
  simpa using hpid

/-- `find?` in a queue, as a count. -/
theorem find?_eq_none_iff (pid : Int) (list : List Pcb) :
    (list.find? fun elem => elem.idProcess == pid) = none ↔ occurrences pid list = 0 := by
  rw [List.find?_eq_none, occurrences_eq_zero]
  simp only [beq_iff_eq, ne_eq]

/-- A program is found when it is in some queue. -/
theorem pcbById_eq_none_iff (k : State) (pid : Int) : k.pcbById pid = none ↔ k.total pid = 0 := by
  unfold State.pcbById State.total
  rw [List.findSome?_eq_none_iff]
  simp only [statuses, List.forall_mem_cons, find?_eq_none_iff, State.statusQueue]
  constructor
  · rintro ⟨hnew, hready, hexec, hblock, hexit, -⟩
    omega
  · intro h
    exact ⟨by omega, by omega, by omega, by omega, by omega, by simp⟩

/-- The queue a program is taken to be in is the first one that has it. -/
theorem pcbStatus_eq_exec_iff (k : State) (pcb : Pcb) :
    k.pcbStatus pcb = some .EXEC ↔ occurrences pcb.idProcess k.pcbNew = 0
      ∧ occurrences pcb.idProcess k.pcbReady = 0 ∧ 0 < occurrences pcb.idProcess k.pcbExec := by
  unfold State.pcbStatus statuses
  simp only [any_pcbEquals, State.statusQueue, List.find?_cons]
  by_cases hnew : 0 < occurrences pcb.idProcess k.pcbNew
  · simp [hnew]
    omega
  by_cases hready : 0 < occurrences pcb.idProcess k.pcbReady
  · simp [hnew, hready]
    omega
  by_cases hexec : 0 < occurrences pcb.idProcess k.pcbExec
  · simp [hnew, hready, hexec]
    omega
  by_cases hblock : 0 < occurrences pcb.idProcess k.pcbBlock
  · simp [hnew, hready, hexec, hblock]
  by_cases hexit : 0 < occurrences pcb.idProcess k.pcbExit
  · simp [hnew, hready, hexec, hblock, hexit]
  · simp [hnew, hready, hexec, hblock, hexit]

/-- Ended are the programs in `pcb_new` and `pcb_ready`, and of those in `pcb_block` and
    `pcb_exit` the ones that are not running as well. -/
theorem ends_iff (k : State) (pid : Int) :
    k.ends pid ↔ 0 < occurrences pid k.pcbNew ∨ 0 < occurrences pid k.pcbReady
      ∨ (occurrences pid k.pcbExec = 0
        ∧ (0 < occurrences pid k.pcbBlock ∨ 0 < occurrences pid k.pcbExit)) := by
  unfold State.ends
  cases hfound : k.pcbById pid with
  | none =>
      have htotal := (pcbById_eq_none_iff k pid).mp hfound
      simp only [State.total] at htotal
      simp only [Bool.false_eq_true, false_iff]
      omega
  | some pcb =>
      have htotal : k.total pid ≠ 0 := by
        intro hc
        rw [(pcbById_eq_none_iff k pid).mpr hc] at hfound
        exact absurd hfound (by simp)
      simp only [State.total] at htotal
      simp only [bne_iff_ne, ne_eq, pcbStatus_eq_exec_iff, pcbById_idProcess k pid pcb hfound]
      omega

/-- A program that has been ended would be ended again; the others are where they were. -/
theorem ends_endProgram (k : State) (r : Residue) (pcb : Pcb) (code pid : Int) :
    (k.endProgram r pcb code).ends pid = (pid == pcb.idProcess || k.ends pid) := by
  rw [Bool.eq_iff_iff, Bool.or_eq_true, beq_iff_eq, ends_iff, ends_iff]
  rcases endProgram_eq k r pcb code with ⟨w, heq⟩
  rw [heq]
  simp only [occurrences_append, occurrences_removePid, occurrences_cons, occurrences_nil]
  by_cases hpid : pcb.idProcess = pid
  · simp [hpid]
  · have hne : ¬ pid = pcb.idProcess := fun h => hpid h.symm
    simp [hpid, hne]

/-- A program that is ended, in the loop of `destroy_console`. -/
theorem endConsolePrograms_ends (r : Residue) (k : State) (pid : Int) (pids : List Int)
    (h : k.ends pid) : ∃ pcb, pcb.idProcess = pid ∧ endConsolePrograms r k (pid :: pids)
      = endConsolePrograms r (k.endProgram r pcb exitConsoleKilled) pids := by
  unfold State.ends at h
  rw [endConsolePrograms]
  cases hfound : k.pcbById pid with
  | none => simp [hfound] at h
  | some pcb =>
      refine ⟨pcb, pcbById_idProcess k pid pcb hfound, ?_⟩
      simp only [hfound, bne_iff_ne, ne_eq] at h
      simp only
      rw [if_neg h]

/-- A program that is not found, or is running: nothing happens. -/
theorem endConsolePrograms_skips (r : Residue) (k : State) (pid : Int) (pids : List Int)
    (h : ¬ k.ends pid) : endConsolePrograms r k (pid :: pids) = endConsolePrograms r k pids := by
  unfold State.ends at h
  rw [endConsolePrograms]
  cases hfound : k.pcbById pid with
  | none => rfl
  | some pcb =>
      simp only [hfound, Bool.not_eq_true, bne_eq_false_iff_eq] at h
      simp only
      rw [if_pos h]

/-- The loop of `destroy_console`: the programs that are ended leave every queue, each
    has one block in `pcb_exit`, and of the requests only theirs are touched. -/
theorem endConsolePrograms_eq (r : Residue) (k : State) (pids : List Int) :
    ∃ ended f w, endConsolePrograms r k pids = { k with
        solicitudesSem := k.solicitudesSem.map fun queue => queue.map f
        pcbNew := without (doomed k pids) k.pcbNew
        pcbReady := without (doomed k pids) k.pcbReady
        pcbExec := without (doomed k pids) k.pcbExec
        pcbBlock := without (doomed k pids) k.pcbBlock
        pcbExit := without (doomed k pids) k.pcbExit ++ ended
        wire := w }
      ∧ (∀ pid, occurrences pid ended = if pid ∈ doomed k pids then 1 else 0)
      ∧ (∀ pcb ∈ ended, pcb.exitCode = exitConsoleKilled)
      ∧ ∀ aux, aux.idProcess ∉ doomed k pids → f aux = aux := by
  induction pids generalizing k with
  | nil =>
      refine ⟨[], id, k.wire, ?_, ?_, ?_, ?_⟩
      · simp only [endConsolePrograms, doomed, List.filter_nil, without_nil, List.append_nil,
          List.map_id_fun, id_eq, List.map_id_fun']
      · simp [doomed]
      · simp
      · simp
  | cons pid pids ih =>
      by_cases hends : k.ends pid
      · -- The program is ended; the rest of the loop ends what it would have anyway.
        rcases endConsolePrograms_ends r k pid pids hends with ⟨pcb, hpid, hloop⟩
        rcases ih (k.endProgram r pcb exitConsoleKilled) with ⟨ended, f, w, heq, hcount, hcode, hf⟩
        have hdoomed : ∀ other, other ∈ doomed (k.endProgram r pcb exitConsoleKilled) pids
            ↔ other ∈ pids ∧ (other = pid ∨ k.ends other) := by
          intro other
          simp only [doomed, List.mem_filter, ends_endProgram, hpid, Bool.or_eq_true, beq_iff_eq]
        have hcons : ∀ other, other ∈ doomed k (pid :: pids)
            ↔ other = pid ∨ (other ∈ pids ∧ k.ends other) := by
          intro other
          simp only [doomed, List.filter_cons_of_pos hends, List.mem_cons, List.mem_filter]
        -- A queue loses the first program and then the others.
        have hqueue : ∀ list, without (doomed (k.endProgram r pcb exitConsoleKilled) pids)
            (removePid pid list) = without (doomed k (pid :: pids)) list := by
          intro list
          unfold without removePid
          rw [List.filter_filter]
          refine List.filter_congr fun aux _ => ?_
          rw [Bool.eq_iff_iff]
          simp only [Bool.and_eq_true, Bool.not_eq_true', ← Bool.not_eq_true, List.contains_iff_mem,
            hdoomed, hcons, beq_iff_eq]
          by_cases haux : aux.idProcess = pid
          · simp [haux]
          · have hne : ¬ pid = aux.idProcess := fun h => haux h.symm
            simp [haux, hne]
        rcases endProgram_eq k r pcb exitConsoleKilled with ⟨w', hend⟩
        -- The block of the first program is in `pcb_exit` when the others are ended.
        refine ⟨without (doomed (k.endProgram r pcb exitConsoleKilled) pids)
            [{ pcb with exitCode := exitConsoleKilled }] ++ ended,
          fun aux => f (if pid == aux.idProcess then r.freed aux else aux), w, ?_, ?_, ?_, ?_⟩
        · rw [hloop, heq]
          generalize hdoom : doomed (k.endProgram r pcb exitConsoleKilled) pids = gone
          rw [hdoom] at hqueue
          rw [hend]
          simp only [orphaned, hpid, hqueue, without_append, List.append_assoc, List.map_map]
          congr 1
          refine List.map_congr_left fun queue _ => ?_
          simp only [Function.comp_apply, List.map_map]
          rfl
        · intro other
          rw [occurrences_append, occurrences_without, hcount, occurrences_cons, occurrences_nil]
          by_cases hlater : other ∈ doomed (k.endProgram r pcb exitConsoleKilled) pids
          · rw [if_pos hlater, if_pos hlater, if_pos]
            rw [hdoomed] at hlater
            rw [hcons]
            rcases hlater with ⟨hin, heq | hends'⟩
            · exact Or.inl heq
            · exact Or.inr ⟨hin, hends'⟩
          · rw [if_neg hlater, if_neg hlater]
            by_cases hself : other = pid
            · rw [if_pos (by rw [hself]; exact hpid), if_pos ((hcons other).mpr (Or.inl hself))]
            · have hne : ¬ pcb.idProcess = other := fun h => hself (h.symm.trans hpid)
              rw [if_neg hne, if_neg]
              rw [hcons]
              rintro (heq | ⟨hin, hends'⟩)
              · exact hself heq
              · exact hlater ((hdoomed other).mpr ⟨hin, Or.inr hends'⟩)
        · intro aux haux
          rcases List.mem_append.mp haux with hfirst | hlater
          · have hsame := List.mem_of_mem_filter hfirst
            rw [List.mem_singleton] at hsame
            rw [hsame]
          · exact hcode aux hlater
        · intro aux haux
          rw [hcons, not_or] at haux
          have hne : ¬ pid = aux.idProcess := fun h => haux.1 h.symm
          simp only [beq_iff_eq, if_neg hne]
          refine hf aux fun hc => ?_
          rw [hdoomed] at hc
          rcases hc with ⟨hin, heq | hends'⟩
          · exact haux.1 heq
          · exact haux.2 ⟨hin, hends'⟩
      · have hloop := endConsolePrograms_skips r k pid pids hends
        have hdoomed : doomed k (pid :: pids) = doomed k pids := List.filter_cons_of_neg hends
        rw [hloop, hdoomed]
        exact ih k

/-- `destroy_console`. -/
theorem destroyConsole_eq (k : State) (r : Residue) (client : Client) :
    ∃ consolas ended f w, destroyConsole k r client = { k with
        consolasConectadas := consolas
        solicitudesSem := k.solicitudesSem.map fun queue => queue.map f
        pcbNew := without (doomed k client.pids) k.pcbNew
        pcbReady := without (doomed k client.pids) k.pcbReady
        pcbExec := without (doomed k client.pids) k.pcbExec
        pcbBlock := without (doomed k client.pids) k.pcbBlock
        pcbExit := without (doomed k client.pids) k.pcbExit ++ ended
        wire := w }
      ∧ (∀ pid, occurrences pid ended = if pid ∈ doomed k client.pids then 1 else 0)
      ∧ (∀ pcb ∈ ended, pcb.exitCode = exitConsoleKilled)
      ∧ ∀ aux, aux.idProcess ∉ doomed k client.pids → f aux = aux := by
  rcases endConsolePrograms_eq r { k with
      consolasConectadas := k.consolasConectadas.filter fun elem =>
        !(elem.clientID == client.clientID) } client.pids with ⟨ended, f, w, heq, hrest⟩
  exact ⟨_, ended, f, w, heq, hrest⟩

end Kernel

end Esther
