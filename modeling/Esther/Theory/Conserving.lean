import Esther.Theory.Identity
import Esther.Theory.Live

/-!
# Free Slots

What a scheduling round leaves waiting.

The two halves of `planificacion` are written differently. The second is a loop, and it
goes on until there is no ready process or no free CPU. The first is a condition: of the
programs that have arrived it admits one, whatever the level leaves room for. The next
one is looked at when the next message arrives, which need not have anything to do with
it.

So nothing is left waiting only if one admission is enough, because there is one program
at most, or no room, or room for one program that gets its pages.

## Main definitions

* `State.WorkConserving`: Nobody waits for what is free.
* `AdmiteBasta`: One admission is enough.

## Theorems

* `dispatch_conserves`: No ready process waits while a CPU is free.
* `planificacion_conserves_iff`: The rounds after which nobody waits for what is free.
* `second_program_waits`: A program that waits while there is room for it.
-/

namespace Esther

namespace Kernel

open Transition

/-- No new program waits unless the level has been reached, and no ready process unless all
    CPUs are busy. -/
def State.WorkConserving (k : State) : Prop :=
  (k.pcbNew = [] ∨ k.multipgLevel ≤ k.system.length) ∧ (k.pcbReady = [] ∨ k.cpuConectadas = [])

instance (k : State) : Decidable k.WorkConserving :=
  inferInstanceAs (Decidable ((k.pcbNew = [] ∨ k.multipgLevel ≤ k.system.length) ∧
    (k.pcbReady = [] ∨ k.cpuConectadas = [])))

/-- There is one new program at most, or no room, or room for one that gets its pages. -/
def AdmiteBasta (k : State) (res : Int) : Prop :=
  k.pcbNew.length ≤ 1 ∨ k.multipgLevel ≤ k.system.length
    ∨ (res ≠ 0 ∧ k.multipgLevel ≤ k.system.length + 1)

/-- The second half of a round goes on while there are both. It moves processes within the
    system and touches nothing of the first. -/
theorem dispatch_conserves (r : Residue) (k u : State)
    (h : despachar r k k.pcbReady k.cpuConectadas = some u) :
    (u.pcbReady = [] ∨ u.cpuConectadas = []) ∧ u.pcbNew = k.pcbNew
      ∧ u.multipgLevel = k.multipgLevel ∧ u.system.length = k.system.length := by
  rcases despachar_eq r k u _ _ rfl rfl h with ⟨n, w, hn, rfl⟩
  refine ⟨?_, rfl, rfl, ?_⟩
  · simp only [List.drop_eq_nil_iff]
    omega
  · simp only [length_system, List.length_drop, List.length_append, List.length_take]
    omega

/-- The first half admits one program and no more. -/
theorem admitir_conserves_iff (config : Config) (k u : State) (r : Residue) (res : Int)
    (h : admitir config k r res = some u) :
    (u.pcbNew = [] ∨ u.multipgLevel ≤ u.system.length) ↔ AdmiteBasta k res := by
  unfold AdmiteBasta
  by_cases hidle : k.pcbNew = []
      ∨ ¬ (k.pcbReady.length + k.pcbExec.length + k.pcbBlock.length : Int) < k.multipgLevel
  · -- Nobody waits, or there is no room.
    rw [admitir_idle config k u r res hidle h]
    rcases hidle with hnil | hlevel
    · exact iff_of_true (Or.inl hnil) (Or.inl (by rw [hnil]; exact Nat.zero_le 1))
    · have hfull : k.multipgLevel ≤ k.system.length := by
        rw [length_system]
        push_cast
        omega
      exact iff_of_true (Or.inr hfull) (Or.inr (Or.inl hfull))
  · rw [not_or, not_not] at hidle
    rcases List.exists_cons_of_ne_nil hidle.1 with ⟨pcb, pcbNew, hnew⟩
    have hroom : (k.system.length : Int) < k.multipgLevel := by
      rw [length_system]
      push_cast
      exact hidle.2
    have hpops := admitir_pops config k u r res pcb pcbNew hnew hidle.2 h
    -- The queue is one shorter, and the system one longer if the memory server said so.
    have hone : u.pcbNew = [] ↔ k.pcbNew.length ≤ 1 := by
      rw [hpops, hnew, List.length_cons, ← List.length_eq_zero_iff]
      omega
    rcases admitir_cases config k u r res h with rfl
      | ⟨pcb', pcbNew', code, _, hnew', -, -, ⟨hres, w, rfl⟩ | ⟨hres, w, rfl⟩⟩
    · exact absurd (hnew.symm.trans hpops) (List.cons_ne_self _ _)
    · rw [hone]
      simp only [length_system, List.length_append, List.length_singleton] at hroom ⊢
      push_cast at hroom ⊢
      constructor
      · rintro (hshort | hlevel)
        · exact Or.inl hshort
        · exact Or.inr (Or.inr ⟨hres, by omega⟩)
      · rintro (hshort | hfull | ⟨_, hlevel⟩)
        · exact Or.inl hshort
        · omega
        · exact Or.inr (by omega)
    · rw [hone]
      simp only [length_system] at hroom ⊢
      push_cast at hroom ⊢
      constructor
      · rintro (hshort | hlevel)
        · exact Or.inl hshort
        · omega
      · rintro (hshort | hfull | ⟨hgranted, _⟩)
        · exact Or.inl hshort
        · omega
        · exact absurd hres hgranted

/-- After a round nobody waits for what is free if and only if one admission was enough. -/
theorem planificacion_conserves_iff (config : Config) (k u : State) (r : Residue) (res : Int)
    (h : planificacion config k r res = some u) :
    u.WorkConserving ↔ AdmiteBasta k res := by
  rw [planificacion] at h
  split at h
  · rename_i k₁ hadm
    rcases dispatch_conserves r k₁ u h with ⟨hready, hnew, hlevel, hsystem⟩
    rw [← admitir_conserves_iff config k k₁ r res hadm, State.WorkConserving, hnew, hlevel, hsystem]
    exact and_iff_left hready
  · exact absurd h (by simp only [reduceCtorEq, not_false_eq_true])

set_option maxRecDepth 2000

/-- Two programs arrive in the same round of `select`. -/
def sampleTwoNew : List (Residue × Event) := [sampleNew, sampleNew]

theorem sampleTwoNew_taken :
    (run (State.step sampleParser sampleConfig) (State.init 2 4 [1] 1) sampleTwoNew).isSome := by
  decide

/-- They wait, with a level of two. -/
def sampleTwo : State :=
  (run (State.step sampleParser sampleConfig) (State.init 2 4 [1] 1) sampleTwoNew).get
    sampleTwoNew_taken

theorem sampleTwo_admitted : (planificacion sampleConfig sampleTwo sampleResidue 1).isSome := by
  decide

theorem sampleTwo_conserves_iff :
    ((planificacion sampleConfig sampleTwo sampleResidue 1).get sampleTwo_admitted).WorkConserving
      ↔ AdmiteBasta sampleTwo 1 :=
  planificacion_conserves_iff sampleConfig sampleTwo _ sampleResidue 1 (Option.some_get _).symm

/-- The second of them is still in `pcb_new` when the first has been admitted. -/
theorem second_program_waits :
    ¬ ∀ (parser : Parser) (config : Config) (multipgLevel memfd : Int) (semInit : List Int)
        (shared : Nat) (es : List (Residue × Event)) (r : Residue) (res : Int) (k u : State),
      run (State.step parser config) (State.init multipgLevel memfd semInit shared) es = some k →
      planificacion config k r res = some u → u.WorkConserving := by
  intro hall
  have hend := hall _ _ _ _ _ _ sampleTwoNew _ _ sampleTwo _
    (Option.some_get sampleTwoNew_taken).symm (Option.some_get sampleTwo_admitted).symm
  revert hend
  decide

end Kernel

end Esther
