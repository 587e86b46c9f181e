import Esther.Theory.Consoles
import Esther.Theory.Loading

/-!
# Whose Code Is Loaded

The texts of the programs waiting for admission are in a list of their own, `codes_ms`,
and a text belongs to the program at the same place in `pcb_new`.

A new program enters both lists and an admission leaves both. But a program can also
leave `pcb_new` by being ended, and nothing that ends programs knows about `codes_ms`: the
text stays, the lists are out of step from then on, and the programs after it are loaded
with the texts of their predecessors.

Which text a program was built from is written down beside the kernel, by the number of
the program.

## Main definitions

* `serveTexts`: The kernel, and the texts its programs were built from.
* `Aligned`: Every program waiting has its own text at its own place.
* `LoadsOwn`: An admission loads the program's own text.
* `CodeKeeps`: The steps that keep the lists aligned.

## Theorems

* `aligned_step_iff`: One step keeps the lists aligned exactly when `CodeKeeps`.
* `codes_aligned_iff`: A run keeps them so exactly when all its steps do.
* `killed_new_program_shifts_codes`: A run that does not.
-/

namespace Esther

namespace Kernel

open Cells Serial Transition

/-- The text each program was built from, by its number. -/
abbrev Texts := Int → List UInt8

/-- A new program's text, written down under the number it is given. -/
def recordText (k : State) (e : Residue × Event) (texts : Texts) : Texts :=
  match e.2 with
  | .newProgram _ program => Function.update texts (k.generatorPid + 1) program.payload
  | _ => texts

/-- The kernel and the texts, together. -/
def serveTexts (parser : Parser) (config : Config) (s : State × Texts) (e : Residue × Event) :
    Option (State × Texts) :=
  (s.1.serve parser config e).map fun u => (u, recordText s.1 e s.2)

/-- The texts waiting are those of the programs waiting, place by place. -/
structure Aligned (s : State × Texts) : Prop where
  length : s.1.codesMs.length = s.1.pcbNew.length
  own : ∀ (i : Nat) (pcb : Pcb) (code : List UInt8), s.1.pcbNew[i]? = some pcb →
    s.1.codesMs[i]? = some code → code = s.2 pcb.idProcess

/-- What an admission sends to the memory server is made from the program's own text. -/
def LoadsOwn (config : Config) (s : State × Texts) (e : Residue × Event) : Prop :=
  match e.2 with
  | .planificacion res => ∀ pcb pcbNew u, s.1.pcbNew = pcb :: pcbNew →
      (s.1.pcbReady.length + s.1.pcbExec.length + s.1.pcbBlock.length : Int) < s.1.multipgLevel →
      res ≠ 0 → admitir config s.1 e.1 res = some u →
      u.wire s.1.memfd = s.1.wire s.1.memfd
        ++ loadPackets config e.1 pcb (s.2 pcb.idProcess)
  | _ => True

/-- The steps that end no program that is waiting for admission. -/
def CodeKeeps (s : State × Texts) (e : Residue × Event) : Prop :=
  match e.2 with
  | .kill pid => occurrences pid s.1.pcbNew = 0
  | .destroyConsole client => ∀ pid ∈ client.pids, occurrences pid s.1.pcbNew = 0
  | .syscall _ packet _ => packet.header.opcode = .OP_CPU_PROGRAM_END →
      occurrences (syscallPid e.1 packet) s.1.pcbNew = 0
  | _ => True

/-- The programs waiting have numbers that have been given. -/
def Numbered (k : State) : Prop := ∀ pcb ∈ k.pcbNew, pcb.idProcess ≤ k.generatorPid

theorem aligned_iff (s : State × Texts) :
    Aligned s ↔ s.1.codesMs = s.1.pcbNew.map fun pcb => s.2 pcb.idProcess := by
  constructor
  · intro h
    -- Two lists of one length that agree at each index.
    refine List.ext_getElem? fun i => ?_
    rw [List.getElem?_map]
    cases hcode : s.1.codesMs[i]? with
    | none =>
        have hlen := List.getElem?_eq_none_iff.mp hcode
        rw [h.length] at hlen
        rw [List.getElem?_eq_none hlen]
        rfl
    | some code =>
        rcases List.getElem?_eq_some_iff.mp hcode with ⟨hlt, -⟩
        rw [h.length] at hlt
        rw [List.getElem?_eq_getElem hlt, Option.map_some]
        exact congrArg some (h.own i _ code (List.getElem?_eq_getElem hlt) hcode)
  · intro h
    refine ⟨by rw [h, List.length_map], fun i pcb code hpcb hcode => ?_⟩
    rw [h, List.getElem?_map, hpcb, Option.map_some, Option.some.injEq] at hcode
    exact hcode.symm

/-- Taking programs out of `pcb_new` alone keeps the lists aligned only if none is taken
    out. -/
theorem aligned_of_sublist_iff (k u : State) (texts : Texts) (h : Aligned (k, texts))
    (hcodes : u.codesMs = k.codesMs) (hsub : u.pcbNew.Sublist k.pcbNew) :
    Aligned (u, texts) ↔ u.pcbNew = k.pcbNew := by
  rw [aligned_iff] at h ⊢
  simp only [hcodes] at h ⊢
  constructor
  · intro hu
    have hlen := congrArg List.length (h.symm.trans hu)
    rw [List.length_map, List.length_map] at hlen
    exact hsub.eq_of_length hlen.symm
  · intro hsame
    rw [hsame]
    exact h

/-- A new program, or an admission, changes both lists at the same place. -/
theorem aligned_newProgram (parser : Parser) (config : Config) (k u : State) (texts : Texts)
    (r : Residue) (program : Packet) (console : Int) (h : Aligned (k, texts)) (hn : Numbered k)
    (hnew : gestionDatosNewPcb parser config k r program console = some u) :
    Aligned (u, Function.update texts (k.generatorPid + 1) program.payload) := by
  rcases gestionDatosNewPcb_cases parser config k u r program console hnew with
    ⟨pcb, consolas, w, hpid, -, -, rfl⟩
  rw [aligned_iff] at h ⊢
  simp only [List.map_append, List.map_cons, List.map_nil, hpid, Function.update_self]
  -- The programs that were waiting have smaller numbers.
  have hold : k.pcbNew.map (fun pcb =>
        Function.update texts (k.generatorPid + 1) program.payload pcb.idProcess)
      = k.pcbNew.map fun pcb => texts pcb.idProcess := by
    refine List.map_congr_left fun other hother => ?_
    have hle := hn other hother
    rw [Function.update_of_ne (by omega)]
  rw [hold, h]

theorem aligned_planificacion (config : Config) (k u : State) (texts : Texts) (r : Residue)
    (res : Int) (h : Aligned (k, texts)) (hplan : planificacion config k r res = some u) :
    Aligned (u, texts) := by
  rcases planificacion_cases config k u r res hplan with ⟨k₁, hadm, n, w, -, rfl⟩
  rw [aligned_iff] at h ⊢
  rcases admitir_cases config k k₁ r res hadm with rfl
    | ⟨pcb, pcbNew, code, codesMs, hnew, hcodes, -, ⟨-, w', rfl⟩ | ⟨-, w', rfl⟩⟩
  · exact h
  · simp only [hnew, hcodes, List.map_cons, List.cons.injEq] at h
    exact h.2
  · simp only [hnew, hcodes, List.map_cons, List.cons.injEq] at h
    exact h.2

/-- `kill` leaves a queue alone exactly when the process is not in it. -/
theorem killIn_eq_self_iff (pid : Int) (queue : List Pcb) :
    (killIn pid queue).1 = queue ↔ occurrences pid queue = 0 := by
  have hcount := occurrences_killIn pid pid queue
  unfold killIn at hcount ⊢
  cases hfind : queue.find? fun aux => aux.idProcess == pid with
  | none =>
      simp only [find?_eq_none_iff] at hfind
      simp only [hfind]
  | some aux =>
      have haux : aux.idProcess = pid := by simpa using List.find?_some hfind
      simp only [hfind, occurrences_cons, occurrences_nil, haux, if_true] at hcount ⊢
      constructor
      · intro hsame
        rw [hsame] at hcount
        omega
      · intro hnone
        omega

theorem killIn_sublist (pid : Int) (queue : List Pcb) :
    (killIn pid queue).1.Sublist queue := by
  unfold killIn
  split
  · exact List.eraseP_sublist
  · exact List.Sublist.refl _

/-- A message of a CPU takes programs out of `pcb_new` only by ending them. -/
theorem pcbNew_gestionSyscall (config : Config) (k u : State) (r : Residue) (cpu : Client)
    (packet : Packet) (siguientes rest : List Packet)
    (h : gestionSyscall config k r packet cpu siguientes = some (u, rest)) :
    u.codesMs = k.codesMs ∧ u.generatorPid = k.generatorPid
      ∧ u.pcbNew = if packet.header.opcode = .OP_CPU_PROGRAM_END
          then removePid (syscallPid r packet) k.pcbNew else k.pcbNew := by
  rcases gestionSyscall_cases config k u r cpu packet siguientes rest h with
    ⟨hop, rfl⟩ | ⟨hop, packetSem, -, ⟨-, k₁, hsem, rfl⟩ | ⟨-, k₁, hsem, rfl⟩⟩
      | ⟨hop, values, w, rfl⟩ | ⟨hop, -, -, rfl⟩
  · rcases endProgram_eq (k.leaveExec (syscallPid r packet)) r (syscallPcb r packet)
      exitSuccessful with ⟨w, heq⟩
    rw [heq]
    exact ⟨rfl, rfl, (if_pos hop).symm⟩
  · -- No other syscall takes a process out of the queue.
    have hne : ¬ packet.header.opcode = .OP_CPU_PROGRAM_END := by simp [hop]
    rcases semWait_cases _ _ _ _ hsem with ⟨_, _, -, -, ⟨-, rfl⟩ | ⟨-, rfl⟩⟩
    · exact ⟨rfl, rfl, (if_neg hne).symm⟩
    · exact ⟨rfl, rfl, (if_neg hne).symm⟩
  · have hne : ¬ packet.header.opcode = .OP_CPU_PROGRAM_END := by simp [hop]
    rcases semSignal_cases _ _ _ _ _ hsem with ⟨_, _, _, _, -, -, -, rfl⟩
    exact ⟨rfl, rfl, (if_neg hne).symm⟩
  · have hne : ¬ packet.header.opcode = .OP_CPU_PROGRAM_END := by simp [hop]
    exact ⟨rfl, rfl, (if_neg hne).symm⟩
  · exact ⟨rfl, rfl, (if_neg hop).symm⟩

theorem removePid_eq_self_iff (pid : Int) (list : List Pcb) :
    removePid pid list = list ↔ occurrences pid list = 0 := by
  have hone := without_eq_self_iff [pid] list
  rw [without_cons, without_nil] at hone
  simpa using hone

/-- A console takes a program out of `pcb_new` exactly when it has one there. -/
theorem doomed_new_iff (k : State) (pids : List Int) :
    (∀ pid ∈ doomed k pids, occurrences pid k.pcbNew = 0)
      ↔ ∀ pid ∈ pids, occurrences pid k.pcbNew = 0 := by
  unfold doomed
  constructor
  · intro h pid hpid
    by_contra hne
    refine hne (h pid (List.mem_filter.mpr ⟨hpid, ?_⟩))
    rw [ends_iff]
    omega
  · intro h pid hpid
    exact h pid (List.mem_filter.mp hpid).1

/-- Numbers are only given to new programs. -/
theorem numbered_serve (parser : Parser) (config : Config) (k u : State) (e : Residue × Event)
    (hn : Numbered k) (h : k.serve parser config e = some u) : Numbered u := by
  rcases e with ⟨r, event⟩
  -- Everything but a new program takes blocks out of `pcb_new` at most.
  have hsub : ∀ v : State, v.generatorPid = k.generatorPid → v.pcbNew.Sublist k.pcbNew →
      Numbered v := by
    intro v hgen hv pcb hpcb
    rw [hgen]
    exact hn pcb (hv.subset hpcb)
  cases event with
  | connectConsole fd =>
      obtain rfl := step_connectConsole parser config k u r fd h
      exact hn
  | connectCpu fd =>
      obtain rfl := step_connectCpu parser config k u r fd h
      exact hn
  | newProgram console program =>
      rcases gestionDatosNewPcb_cases parser config k u r program console h with
        ⟨pcb, consolas, w, hpid, -, -, rfl⟩
      intro other hother
      rcases List.mem_append.mp hother with hold | hlast
      · have hle := hn other hold
        simp only
        omega
      · rw [List.mem_singleton.mp hlast, hpid]
  | planificacion res =>
      rcases planificacion_cases config k u r res h with ⟨k₁, hadm, n, w, -, rfl⟩
      rcases admitir_cases config k k₁ r res hadm with rfl
        | ⟨pcb, pcbNew, _, _, hnew, -, -, ⟨-, w', rfl⟩ | ⟨-, w', rfl⟩⟩
      · exact hn
      · exact hsub _ rfl (hnew ▸ List.sublist_cons_self pcb pcbNew)
      · exact hsub _ rfl (hnew ▸ List.sublist_cons_self pcb pcbNew)
  | destroyConsole client =>
      obtain rfl := step_destroyConsole parser config k u r client h
      rcases destroyConsole_eq k r client with ⟨_, _, _, _, heq, -⟩
      rw [heq]
      exact hsub _ rfl List.filter_sublist
  | kill pid =>
      rcases step_kill parser config k u r pid h with ⟨-, rfl⟩
      exact hsub _ rfl (killIn_sublist pid k.pcbNew)
  | syscall cpu packet siguientes =>
      rcases serve_syscall parser config k u r cpu packet siguientes h with ⟨rest, hsyscall⟩
      rcases pcbNew_gestionSyscall config k u r cpu packet siguientes rest hsyscall with
        ⟨-, hgen, hnew⟩
      refine hsub u hgen ?_
      rw [hnew]
      split
      · exact List.filter_sublist
      · exact List.Sublist.refl _

/-- A step from aligned lists leads to aligned lists exactly when it ends no program that
    is waiting. -/
theorem aligned_step_iff (parser : Parser) (config : Config) (s t : State × Texts)
    (e : Residue × Event) (hn : Numbered s.1) (hs : Aligned s)
    (h : serveTexts parser config s e = some t) : Aligned t ↔ CodeKeeps s e := by
  rcases s with ⟨k, texts⟩
  rcases e with ⟨r, event⟩
  unfold serveTexts at h
  rw [Option.map_eq_some_iff] at h
  rcases h with ⟨u, hserve, rfl⟩
  cases event with
  | connectConsole fd =>
      obtain rfl := step_connectConsole parser config k u r fd hserve
      exact iff_true_intro ⟨hs.length, hs.own⟩
  | connectCpu fd =>
      obtain rfl := step_connectCpu parser config k u r fd hserve
      exact iff_true_intro ⟨hs.length, hs.own⟩
  | newProgram console program =>
      exact iff_true_intro (aligned_newProgram parser config k u texts r program console hs hn
        hserve)
  | planificacion res =>
      exact iff_true_intro (aligned_planificacion config k u texts r res hs hserve)
  | destroyConsole client =>
      rcases destroyConsole_eq k r client with ⟨_, _, _, _, heq, -⟩
      rw [← step_destroyConsole parser config k u r client hserve] at heq
      have hnew : u.pcbNew = without (doomed k client.pids) k.pcbNew := by rw [heq]
      have hcodes : u.codesMs = k.codesMs := by rw [heq]
      have hsub : u.pcbNew.Sublist k.pcbNew := hnew ▸ List.filter_sublist
      -- Only the programs that end are taken out, and no text with them.
      simp only [recordText, CodeKeeps]
      rw [aligned_of_sublist_iff k u texts hs hcodes hsub, hnew, without_eq_self_iff,
        doomed_new_iff]
  | kill pid =>
      rcases step_kill parser config k u r pid hserve with ⟨-, hkill⟩
      have hnew : u.pcbNew = (killIn pid k.pcbNew).1 := by
        rw [hkill]
        rfl
      have hcodes : u.codesMs = k.codesMs := by
        rw [hkill]
        rfl
      have hsub : u.pcbNew.Sublist k.pcbNew := hnew ▸ killIn_sublist pid k.pcbNew
      simp only [recordText, CodeKeeps]
      rw [aligned_of_sublist_iff k u texts hs hcodes hsub, hnew, killIn_eq_self_iff]
  | syscall cpu packet siguientes =>
      rcases serve_syscall parser config k u r cpu packet siguientes hserve with ⟨rest, hsyscall⟩
      rcases pcbNew_gestionSyscall config k u r cpu packet siguientes rest hsyscall with
        ⟨hcodes, -, hnew⟩
      simp only [recordText, CodeKeeps]
      by_cases hop : packet.header.opcode = .OP_CPU_PROGRAM_END
      -- The end of a program looks for it in `pcb_new` too.
      · rw [if_pos hop] at hnew
        have hsub : u.pcbNew.Sublist k.pcbNew := hnew ▸ List.filter_sublist
        rw [aligned_of_sublist_iff k u texts hs hcodes hsub, hnew, removePid_eq_self_iff]
        exact ⟨fun hnone _ => hnone, fun hnone => hnone hop⟩
      · rw [if_neg hop] at hnew
        rw [aligned_of_sublist_iff k u texts hs hcodes (hnew ▸ List.Sublist.refl _)]
        exact iff_of_true hnew fun hc => absurd hc hop

/-- From aligned lists, an admission takes the program's own text. -/
theorem loadsOwn_of_aligned (config : Config) (s : State × Texts) (e : Residue × Event)
    (hs : Aligned s) : LoadsOwn config s e := by
  rcases s with ⟨k, texts⟩
  rcases e with ⟨r, event⟩
  rw [aligned_iff] at hs
  cases event with
  | planificacion res =>
      intro pcb pcbNew u hnew hlevel hres hadm
      have hcodes : k.codesMs = texts pcb.idProcess :: pcbNew.map fun pcb => texts pcb.idProcess :=
        hs.trans (congrArg _ hnew)
      exact (admitir_wire config k u r res pcb pcbNew _ _ hnew hcodes hlevel hres hadm).2.2
  | _ => trivial

/-- In a run from start-up the texts waiting are in step with the programs waiting, in all
    the states the run goes through, and every admission loads the program's own text, if
    and only if no step of the run ends a program that is waiting for admission. -/
theorem codes_aligned_iff (parser : Parser) (config : Config) (multipgLevel memfd : Int)
    (semInit : List Int) (shared : Nat) (t : State × Texts) (es : List (Residue × Event))
    (hrun : run (serveTexts parser config)
      (State.init multipgLevel memfd semInit shared, fun _ => []) es = some t) :
    (Throughout (serveTexts parser config) Aligned
          (State.init multipgLevel memfd semInit shared, fun _ => []) es
        ∧ Along (serveTexts parser config) (LoadsOwn config)
          (State.init multipgLevel memfd semInit shared, fun _ => []) es)
      ↔ Along (serveTexts parser config) CodeKeeps
        (State.init multipgLevel memfd semInit shared, fun _ => []) es := by
  have hiff := throughout_iff_along (serveTexts parser config) CodeKeeps
    (fun s => Numbered s.1) Aligned
    (fun s e u hn _ _ h => by
      unfold serveTexts at h
      rw [Option.map_eq_some_iff] at h
      rcases h with ⟨v, hserve, rfl⟩
      exact numbered_serve parser config s.1 v e hn hserve)
    (fun s e u hn hs _ => aligned_step_iff parser config s u e hn hs ‹_›)
    (State.init multipgLevel memfd semInit shared, fun _ => []) t es
    (fun pcb hpcb => absurd hpcb List.not_mem_nil)
    ((aligned_iff _).mpr rfl) hrun
  -- The loads are right in every state that is aligned, and need no condition of their own.
  rw [← hiff]
  constructor
  · intro h
    exact h.1
  · intro h
    exact ⟨h, along_of_throughout _ _ _ (fun s e => loadsOwn_of_aligned config s e) _ _ h⟩

set_option maxRecDepth 2000

theorem sampleArrival_texts_taken :
    (run (serveTexts sampleParser sampleConfig) (State.init 3 4 [1] 1, fun _ => [])
      sampleArrival).isSome := by
  decide

theorem sampleArrival_aligned_iff :
    (Throughout (serveTexts sampleParser sampleConfig) Aligned
          (State.init 3 4 [1] 1, fun _ => []) sampleArrival
        ∧ Along (serveTexts sampleParser sampleConfig) (LoadsOwn sampleConfig)
          (State.init 3 4 [1] 1, fun _ => []) sampleArrival)
      ↔ Along (serveTexts sampleParser sampleConfig) CodeKeeps
        (State.init 3 4 [1] 1, fun _ => []) sampleArrival :=
  codes_aligned_iff sampleParser sampleConfig 3 4 [1] 1 _ sampleArrival
    (Option.some_get sampleArrival_texts_taken).symm

/-- A program is killed before it is admitted. -/
def sampleKillNew : List (Residue × Event) :=
  sampleArrival.take 3 ++ [(sampleResidue, .kill 1)]

theorem sampleKillNew_taken :
    (run (serveTexts sampleParser sampleConfig) (State.init 3 4 [1] 1, fun _ => [])
      sampleKillNew).isSome := by
  decide

/-- The text of a program killed while it waits is left behind. -/
theorem killed_new_program_shifts_codes :
    ¬ ∀ (parser : Parser) (config : Config) (multipgLevel memfd : Int) (semInit : List Int)
        (shared : Nat) (t : State × Texts) (es : List (Residue × Event)),
      run (serveTexts parser config) (State.init multipgLevel memfd semInit shared, fun _ => []) es
        = some t →
      Throughout (serveTexts parser config) Aligned
        (State.init multipgLevel memfd semInit shared, fun _ => []) es := by
  intro hall
  have hrun := (Option.some_get sampleKillNew_taken).symm
  have hend := throughout_last _ _ _ _ _ (hall _ _ _ _ _ _ _ _ hrun) hrun
  have hlength := hend.length
  revert hlength
  decide

end Kernel

end Esther
