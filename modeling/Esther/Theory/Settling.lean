import Esther.Core.Events
import Esther.Core.Pcbutils
import Esther.Theory.Kernel
import Esther.Theory.Partition

/-!
# Settling a Process

What `end_program` and the command `kill` leave in the queues.

`end_program` takes its copy before it removes anything, so that it does not matter where
the block came from: the block may be one that is freed on the way. The removal asks for
the number of the process only and goes through all five queues, however often the
process is in them. It reads every block of the queues, though, and frees the block of the
process wherever it finds it. So it needs all of them to be allocated, and none to be there
twice.

`kill` goes through three queues, and takes one block from each that has the process. It
goes on until it has taken one. What it does is right for a process that is in one of the
three. A process in two of them leaves two blocks in `pcb_exit`, and for one that is in
none of them, a number nobody has or a process that runs, it never ends.

## Main definitions

* `Settled`: The queues before and after the end of a process.
* `KillSettles`: `kill` ends and takes one block, or none if there is none.
* `WaitsOnce`: The process is in one of the three queues.

## Theorems

* `mlistRemove_eq`: The removal from one list.
* `pcbRemove_eq`: The removal from all of them.
* `endProgram_blocks`: What `end_program` does to the queues.
* `end_program_settles`: What it leaves is settled.
* `end_program_reads_freed`: Queues it does not settle.
* `killIn_cases`: What `kill` does to one queue.
* `kill_settles_iff`: The processes `kill` is right for.
* `kill_goes_on`: A command that never ends.
-/

namespace Esther

namespace Kernel

open Transition

/-! ### end_program -/

/-- After the end of a process its number is in the queues once, at the end of `pcb_exit`
    with the exit code, and the other blocks are where they were. -/
structure Settled (pcb : Pcb) (code : Int) (queue queue' : Status → List Pcb) : Prop where
  once : (statuses.flatMap queue').countP (fun other => other.idProcess == pcb.idProcess) = 1
  last : ∃ others, queue' .EXIT = others ++ [{ pcb with exitCode := code }]
  rest : ∀ status, removePid pcb.idProcess (queue' status) = removePid pcb.idProcess (queue status)

theorem removePid_removePid (pid : Int) (list : List Pcb) :
    removePid pid (removePid pid list) = removePid pid list := by
  rw [removePid, removePid, List.filter_filter]
  simp only [Bool.and_self]

theorem countP_removePid (pid : Int) (list : List Pcb) :
    (removePid pid list).countP (fun other => other.idProcess == pid) = 0 := by
  rw [List.countP_eq_zero]
  intro other hother
  have hkept := (List.mem_filter.mp hother).2
  rw [Bool.not_eq_true', beq_eq_false_iff_ne] at hkept
  rw [beq_iff_eq]
  exact Ne.symm hkept

/-- Queues without the process, and then its block at the end of `pcb_exit`. -/
theorem settled_of_removePid (pcb : Pcb) (code : Int) (queue queue' : Status → List Pcb)
    (h : ∀ status, queue' status = removePid pcb.idProcess (queue status)
      ++ if status = .EXIT then [{ pcb with exitCode := code }] else []) :
    Settled pcb code queue queue' := by
  refine ⟨?_, ⟨_, by rw [h, if_pos rfl]⟩, fun status => ?_⟩
  · simp only [statuses, List.flatMap_cons, List.flatMap_nil, h, reduceCtorEq, if_false, if_true,
      List.countP_append, countP_removePid, List.countP_nil, List.countP_singleton,
      beq_self_eq_true]
  · -- The block that is added has the number of the process.
    have hadded : removePid pcb.idProcess
        (if status = .EXIT then [{ pcb with exitCode := code }] else []) = [] := by
      split
      · simp only [removePid, List.filter_cons, beq_self_eq_true, Bool.not_true, Bool.false_eq_true,
          if_false, List.filter_nil]
      · rfl
    have happend : ∀ xs ys : List Pcb, removePid pcb.idProcess (xs ++ ys)
        = removePid pcb.idProcess xs ++ removePid pcb.idProcess ys :=
      fun xs ys => List.filter_append ..
    rw [h, happend, removePid_removePid, hadded, List.append_nil]

theorem statusQueue_endProgram (k : State) (r : Residue) (pcb : Pcb) (code : Int)
    (status : Status) :
    (k.endProgram r pcb code).statusQueue status
      = removePid pcb.idProcess (k.statusQueue status)
        ++ if status = .EXIT then [{ pcb with exitCode := code }] else [] := by
  rcases endProgram_eq k r pcb code with ⟨w, heq⟩
  rw [heq]
  cases status with
  | EXIT => rfl
  | NEW => exact (List.append_nil _).symm
  | READY => exact (List.append_nil _).symm
  | EXEC => exact (List.append_nil _).symm
  | BLOCK => exact (List.append_nil _).symm

section Pointers

/-- A pointer to a block of another process. -/
def ajeno (heap : Nat → Option Pcb) (pid : Int) (p : Nat) : Bool :=
  !(heap p).any fun block => pid == block.idProcess

/-- The pointers to blocks of the process leave the list, and nothing is freed that is not
    in the list or that belongs to another process. -/
theorem mlistRemove_eq (dup : Nat) (block : Pcb) (heap : Nat → Option Pcb) (list : List Nat)
    (hdup : heap dup = some block) (hlive : ∀ p ∈ list, (heap p).isSome) (hnodup : list.Nodup)
    (hout : dup ∉ list) :
    ∃ heap', mlistRemove dup heap list
        = some (heap', list.filter (ajeno heap block.idProcess)) ∧
      ∀ p, p ∉ list ∨ ajeno heap block.idProcess p = true → heap' p = heap p := by
  induction list generalizing heap with
  | nil => exact ⟨heap, rfl, fun p _ => rfl⟩
  | cons elem list ih =>
      rcases List.nodup_cons.mp hnodup with ⟨hfresh, htail⟩
      rcases List.ne_and_not_mem_of_not_mem_cons hout with ⟨hne, hrest⟩
      rcases Option.isSome_iff_exists.mp (hlive elem List.mem_cons_self) with ⟨other, helem⟩
      have hlive' : ∀ p ∈ list, (heap p).isSome := fun p hp => hlive p (List.mem_cons_of_mem _ hp)
      -- What is not in the list, or of another process, is so for the rest of it.
      have hrests : ∀ p, p ∉ elem :: list ∨ ajeno heap block.idProcess p = true →
          p ∉ list ∨ ajeno heap block.idProcess p = true :=
        fun p hp => hp.imp_left fun hnot hmem => hnot (List.mem_cons_of_mem _ hmem)
      rw [mlistRemove, hdup, helem]
      by_cases hsame : pcbEquals block other = true
      · -- The block is freed. No other pointer of the list is to it.
        have hstays : ∀ p, p ≠ elem → Function.update heap elem none p = heap p :=
          fun p hp => Function.update_of_ne hp none heap
        have helem' : ajeno heap block.idProcess elem = false := by
          rw [ajeno, helem, Option.any_some, Bool.not_eq_false']
          exact hsame
        have hin : ∀ p ∈ list, ajeno (Function.update heap elem none) block.idProcess p
            = ajeno heap block.idProcess p := by
          intro p hp
          rw [ajeno, ajeno, hstays p fun hc => hfresh (hc ▸ hp)]
        rcases ih (Function.update heap elem none) (by rw [hstays dup hne, hdup])
          (fun p hp => by rw [hstays p fun hc => hfresh (hc ▸ hp)]; exact hlive' p hp) htail hrest
          with ⟨heap', hremove, hkept⟩
        refine ⟨heap', ?_, fun p hp => ?_⟩
        · simp only [if_pos hsame, hremove, List.filter_cons, helem', Bool.false_eq_true, if_false]
          rw [List.filter_congr hin]
        · have hp' : p ≠ elem := by
            rintro rfl
            rcases hp with hnot | hother
            · exact hnot List.mem_cons_self
            · rw [helem'] at hother
              exact absurd hother (by decide)
          rw [hkept p ?_, hstays p hp']
          rw [ajeno, hstays p hp']
          exact hrests p hp
      · -- The pointer stays in the list.
        rcases ih heap hdup hlive' htail hrest with ⟨heap', hremove, hkept⟩
        have helem' : ajeno heap block.idProcess elem = true := by
          rw [ajeno, helem, Option.any_some, Bool.not_eq_true']
          exact Bool.eq_false_iff.mpr hsame
        refine ⟨heap', ?_, fun p hp => hkept p (hrests p hp)⟩
        simp only [if_neg hsame, hremove, List.filter_cons, helem', if_true]

/-- The same for several of the queues. -/
theorem pcbRemove_eq (dup : Nat) (block : Pcb) (m : Bloques) (queues : List Status)
    (hdup : m.heap dup = some block)
    (hlive : ∀ status ∈ queues, ∀ p ∈ m.queue status, (m.heap p).isSome)
    (hnodup : (queues.flatMap m.queue).Nodup) (hqueues : queues.Nodup)
    (hout : ∀ status ∈ queues, dup ∉ m.queue status) :
    ∃ m', m.pcbRemove dup queues = some m' ∧
      (∀ status, m'.queue status = if status ∈ queues
        then (m.queue status).filter (ajeno m.heap block.idProcess) else m.queue status) ∧
      ∀ p, p ∉ queues.flatMap m.queue ∨ ajeno m.heap block.idProcess p = true →
        m'.heap p = m.heap p := by
  induction queues generalizing m with
  | nil => exact ⟨m, rfl, fun status => (if_neg List.not_mem_nil).symm, fun p _ => rfl⟩
  | cons first queues ih =>
      rw [List.flatMap_cons, List.nodup_append'] at hnodup
      rcases hnodup with ⟨hfirst, hrest, hdisjoint⟩
      rcases List.nodup_cons.mp hqueues with ⟨hother, hqueues'⟩
      rcases mlistRemove_eq dup block m.heap (m.queue first) hdup (hlive first List.mem_cons_self)
        hfirst (hout first List.mem_cons_self) with ⟨heap', hremove, hkept⟩
      set queue' := Function.update m.queue first
        ((m.queue first).filter (ajeno m.heap block.idProcess)) with hdef
      -- The other queues are as they were, and so are the blocks they point to.
      have hqueue : ∀ status ∈ queues, queue' status = m.queue status := by
        intro status hs
        have hne : status ≠ first := fun hc => hother (hc ▸ hs)
        rw [hdef, Function.update_of_ne hne]
      have hheap : ∀ p ∈ queues.flatMap m.queue, heap' p = m.heap p :=
        fun p hp => hkept p (Or.inl fun hc => hdisjoint hc hp)
      have hmem : ∀ status ∈ queues, ∀ p ∈ m.queue status, p ∈ queues.flatMap m.queue :=
        fun status hs p hp => List.mem_flatMap.mpr ⟨status, hs, hp⟩
      have hflat : queues.flatMap queue' = queues.flatMap m.queue := List.flatMap_congr hqueue
      have hlive' : ∀ status ∈ queues, ∀ p ∈ queue' status, (heap' p).isSome := by
        intro status hs p hp
        rw [hqueue status hs] at hp
        rw [hheap p (hmem status hs p hp)]
        exact hlive status (List.mem_cons_of_mem _ hs) p hp
      have hout' : ∀ status ∈ queues, dup ∉ queue' status := by
        intro status hs
        rw [hqueue status hs]
        exact hout status (List.mem_cons_of_mem _ hs)
      have hdup' : heap' dup = some block := by
        rw [← hdup]
        exact hkept dup (Or.inl (hout first List.mem_cons_self))
      rcases ih { heap := heap', queue := queue' } hdup' hlive' (by rw [hflat]; exact hrest) hqueues'
        hout' with ⟨m', hremove', hqueue', hkept'⟩
      simp only at hqueue' hkept'
      refine ⟨m', by rw [Bloques.pcbRemove, hremove]; exact hremove', fun status => ?_, fun p hp => ?_⟩
      · rw [hqueue']
        by_cases hs : status ∈ queues
        · rw [if_pos hs, if_pos (List.mem_cons_of_mem _ hs), hqueue status hs]
          refine List.filter_congr fun p hp => ?_
          rw [ajeno, ajeno, hheap p (hmem status hs p hp)]
        · rw [if_neg hs]
          by_cases heq : status = first
          · rw [heq, if_pos List.mem_cons_self]
            exact Function.update_self first _ m.queue
          · rw [if_neg fun hc => (List.mem_cons.mp hc).elim heq hs]
            exact Function.update_of_ne heq _ m.queue
      · rw [List.flatMap_cons, List.mem_append, not_or] at hp
        have hkeeps : p ∉ m.queue first ∨ ajeno m.heap block.idProcess p = true :=
          hp.imp_left fun hnot => hnot.1
        rw [hkept' p ?_]
        · exact hkept p hkeeps
        rw [hflat]
        refine hp.imp (fun hnot => hnot.2) fun hajeno => ?_
        rw [ajeno, hkept p hkeeps]
        exact hajeno

/-- `end_program` of a block that is allocated, wherever it is pointed to from: the pointers
    to blocks of the process are gone, one to the copy is at the end of `pcb_exit`, and the
    other pointers are to the blocks they were to. -/
theorem endProgram_blocks (m : Colas) (dup pcb : Nat) (block : Pcb) (code : Int)
    (hdup : m.heap dup = none) (hpcb : m.heap pcb = some block) :
    ∃ m' : Colas, m.toBloques.endProgram dup pcb code = some m'.toBloques ∧
      m'.heap dup = some { block with exitCode := code } ∧
      (∀ status, m'.queue status = (m.queue status).filter (ajeno m.heap block.idProcess)
        ++ if status = .EXIT then [dup] else []) ∧
      ∀ p, ajeno m.heap block.idProcess p = true → (m.heap p).isSome → m'.heap p = m.heap p := by
  -- The copy is to an address that nothing points to.
  have hout : ∀ status, dup ∉ m.queue status := by
    intro status hmem
    have hlive := m.live status dup hmem
    rw [hdup] at hlive
    exact absurd hlive (by decide)
  have hne : pcb ≠ dup := by
    rintro rfl
    rw [hdup] at hpcb
    exact absurd hpcb (by simp only [reduceCtorEq, not_false_eq_true])
  set block' : Pcb := { block with exitCode := code } with hblock'
  set heap' := Function.update (Function.update m.heap pcb (some block')) dup (some block') with hheap'
  -- To the blocks of other processes nothing has happened.
  have hheap : ∀ p, p ≠ pcb → p ≠ dup → heap' p = m.heap p := by
    intro p hp hd
    rw [hheap', Function.update_of_ne hd, Function.update_of_ne hp]
  have hajeno : ∀ p, p ≠ dup → ajeno heap' block.idProcess p = ajeno m.heap block.idProcess p := by
    intro p hd
    by_cases hp : p = pcb
    · rw [hp, ajeno, ajeno, hpcb, hheap', Function.update_of_ne hne, Function.update_self]
      rfl
    · rw [ajeno, ajeno, hheap p hp hd]
  have hlive : ∀ status ∈ statuses, ∀ p ∈ m.queue status, (heap' p).isSome := by
    intro status _ p hp
    have hd : p ≠ dup := fun hc => hout status (hc ▸ hp)
    by_cases heq : p = pcb
    · rw [heq, hheap', Function.update_of_ne hne, Function.update_self]
      rfl
    · rw [hheap p heq hd]
      exact m.live status p hp
  rcases pcbRemove_eq dup block' { heap := heap', queue := m.queue } statuses
    (Function.update_self dup _ _) hlive m.nodup (by decide) (fun status _ => hout status)
    with ⟨u, hremove, hqueue, hkept⟩
  simp only at hqueue hkept
  have hall : ∀ status, status ∈ statuses := fun status => by cases status <;> decide
  have hqueue' : ∀ status, u.queue status
      = (m.queue status).filter (ajeno m.heap block.idProcess) := by
    intro status
    rw [hqueue, if_pos (hall status)]
    exact List.filter_congr fun p hp => hajeno p fun hc => hout status (hc ▸ hp)
  have hadded : ∀ status, Function.update u.queue .EXIT (u.queue .EXIT ++ [dup]) status
      = (m.queue status).filter (ajeno m.heap block.idProcess)
        ++ if status = .EXIT then [dup] else [] := by
    intro status
    by_cases hexit : status = .EXIT
    · rw [hexit, Function.update_self, hqueue', if_pos rfl]
    · rw [Function.update_of_ne hexit, hqueue', if_neg hexit, List.append_nil]
  have hnew : u.heap dup = some block' := by
    rw [hkept dup (Or.inl ?_), hheap', Function.update_self]
    intro hmem
    rcases List.mem_flatMap.mp hmem with ⟨status, _, hp⟩
    exact hout status hp
  have hold : ∀ p, ajeno m.heap block.idProcess p = true → (m.heap p).isSome →
      u.heap p = m.heap p := by
    intro p hother hsome
    have hd : p ≠ dup := by
      rintro rfl
      rw [hdup] at hsome
      exact absurd hsome (by decide)
    have hp : p ≠ pcb := by
      rintro rfl
      rw [ajeno, hpcb, Option.any_some, beq_self_eq_true] at hother
      exact absurd hother (by decide)
    rw [hkept p (Or.inr ((hajeno p hd).trans hother)), hheap p hp hd]
  refine ⟨{ heap := u.heap
            queue := Function.update u.queue .EXIT (u.queue .EXIT ++ [dup])
            live := fun status p hp => ?_
            nodup := ?_ }, ?_, hnew, hadded, hold⟩
  · -- A pointer of the queues is an old one, or the one to the copy.
    rw [hadded] at hp
    rcases List.mem_append.mp hp with hin | hcopy
    · rcases List.mem_filter.mp hin with ⟨hin, hother⟩
      have hsome := m.live status p hin
      rw [hold p hother hsome]
      exact hsome
    · split at hcopy
      · rw [List.mem_singleton.mp hcopy, hnew]
        rfl
      · exact absurd hcopy List.not_mem_nil
  · have hflat : statuses.flatMap (Function.update u.queue .EXIT (u.queue .EXIT ++ [dup]))
        = (statuses.flatMap m.queue).filter (ajeno m.heap block.idProcess) ++ [dup] := by
      simp only [statuses, List.flatMap_cons, List.flatMap_nil, hadded, reduceCtorEq, if_false,
        if_true, List.append_nil, List.filter_append, List.append_assoc]
    rw [hflat, List.nodup_append']
    refine ⟨m.nodup.filter _, List.nodup_singleton dup, fun p hp hcopy => ?_⟩
    rw [List.mem_singleton.mp hcopy] at hp
    rcases List.mem_flatMap.mp (List.mem_filter.mp hp).1 with ⟨status, _, hin⟩
    exact hout status hin
  · have hread : Function.update m.heap pcb (some block') pcb = some block' :=
      Function.update_self ..
    simp only [Bloques.endProgram, hpcb, Bloques.pcbDuplicate, ← hblock', hread, ← hheap', hremove]

/-- The blocks of the queues after that. -/
theorem contents_endProgram (m m' : Colas) (dup : Nat) (block : Pcb) (code : Int)
    (hnew : m'.heap dup = some { block with exitCode := code })
    (hqueue : ∀ status, m'.queue status = (m.queue status).filter (ajeno m.heap block.idProcess)
      ++ if status = .EXIT then [dup] else [])
    (hold : ∀ p, ajeno m.heap block.idProcess p = true → (m.heap p).isSome → m'.heap p = m.heap p)
    (status : Status) :
    m'.contents status = removePid block.idProcess (m.contents status)
      ++ if status = .EXIT then [{ block with exitCode := code }] else [] := by
  have hkept : ∀ list : List Nat, (∀ p ∈ list, (m.heap p).isSome) →
      (list.filter (ajeno m.heap block.idProcess)).filterMap m'.heap
        = removePid block.idProcess (list.filterMap m.heap) := by
    intro list hlive
    induction list with
    | nil => rfl
    | cons p list ih =>
        have ih := ih fun q hq => hlive q (List.mem_cons_of_mem _ hq)
        have hsome := hlive p List.mem_cons_self
        rcases Option.isSome_iff_exists.mp hsome with ⟨other, hp⟩
        rw [List.filterMap_cons_some hp, List.filter_cons, removePid, List.filter_cons]
        have hread : ajeno m.heap block.idProcess p = !(block.idProcess == other.idProcess) := by
          rw [ajeno, hp, Option.any_some]
        by_cases hother : ajeno m.heap block.idProcess p = true
        · rw [if_pos hother, if_pos (hread.symm.trans hother),
            List.filterMap_cons_some ((hold p hother hsome).trans hp), ih]
          rfl
        · rw [if_neg hother, if_neg fun hc => hother (hread.trans hc), ih]
          rfl
  rw [Bloques.contents, hqueue, List.filterMap_append, hkept _ (m.live status)]
  refine congrArg _ ?_
  split
  · rw [List.filterMap_cons_some hnew, List.filterMap_nil]
  · rfl

end Pointers

/-- `end_program` settles the process in every state of the queues, and it does so when the
    queues hold pointers, all to blocks that are allocated and no two to the same one:
    whatever block it is called with, one of theirs or another one, it reads and frees
    allocated blocks only, the queues it leaves have the blocks that those of the state would
    have, and every other pointer stays. -/
theorem end_program_settles :
    (∀ (k : State) (r : Residue) (pcb : Pcb) (code : Int),
      Settled pcb code k.statusQueue (k.endProgram r pcb code).statusQueue) ∧
    ∀ (m : Colas) (dup pcb : Nat) (block : Pcb) (code : Int),
      m.heap dup = none → m.heap pcb = some block →
      ∃ m' : Colas, m.toBloques.endProgram dup pcb code = some m'.toBloques ∧
        Settled block code m.contents m'.contents ∧
        (∀ status, m'.queue status = (m.queue status).filter (ajeno m.heap block.idProcess)
          ++ if status = .EXIT then [dup] else []) ∧
        ∀ (k : State) (r : Residue), k.statusQueue = m.contents →
          (k.endProgram r block code).statusQueue = m'.contents := by
  refine ⟨fun k r pcb code => ?_, fun m dup pcb block code hdup hpcb => ?_⟩
  · exact settled_of_removePid pcb code _ _ (statusQueue_endProgram k r pcb code)
  · rcases endProgram_blocks m dup pcb block code hdup hpcb with ⟨m', hend, hnew, hqueue, hold⟩
    have hcontents := contents_endProgram m m' dup block code hnew hqueue hold
    refine ⟨m', hend, settled_of_removePid block code _ _ hcontents, hqueue, fun k r hk => ?_⟩
    ext1 status
    rw [statusQueue_endProgram, hcontents, hk]

/-- Two copies of the block of process 1, and one of process 2 between them. -/
def sampleColas : Colas where
  heap p := ([{ (default : Pcb) with idProcess := 1 }, { (default : Pcb) with idProcess := 2 },
    { (default : Pcb) with idProcess := 1 }] : List Pcb)[p]?
  queue status := match status with
    | .READY => [0, 1]
    | .BLOCK => [2]
    | _ => []
  live := fun status => by cases status <;> decide
  nodup := by decide

/-- The argument is one of the blocks that are freed. -/
theorem sampleColas_settles :
    ∃ m' : Colas, sampleColas.toBloques.endProgram 3 0 exitSuccessful = some m'.toBloques ∧
      Settled { (default : Pcb) with idProcess := 1 } exitSuccessful sampleColas.contents
        m'.contents :=
  let ⟨m', hend, hsettled, _⟩ := end_program_settles.2 sampleColas 3 0
    { (default : Pcb) with idProcess := 1 } exitSuccessful rfl rfl
  ⟨m', hend, hsettled⟩

/-- After a signal: `pcb_ready` has the block of process 1, which has been freed. Process 2 is
    in `pcb_new`. -/
def sampleFreedReady : Bloques where
  heap p := if p = 1 then some { (default : Pcb) with idProcess := 2 } else none
  queue status := match status with
    | .NEW => [1]
    | .READY => [0]
    | _ => []

/-- After the process has been killed while it waited, and signalled: its block is in
    `pcb_ready` and in `pcb_exit`. -/
def sampleTwice : Bloques where
  heap p := if p = 0 then some { (default : Pcb) with idProcess := 1 } else none
  queue status := match status with
    | .READY => [0]
    | .EXIT => [0]
    | _ => []

/-- `end_program` reads a block that is not allocated, or frees one and reads it then, unless
    all blocks in the queues are allocated and none is there twice. -/
theorem end_program_reads_freed :
    (¬ ∀ (m : Bloques) (dup pcb : Nat) (block : Pcb) (code : Int),
      m.heap dup = none → m.heap pcb = some block → (statuses.flatMap m.queue).Nodup →
      ∃ m', m.endProgram dup pcb code = some m' ∧ Settled block code m.contents m'.contents) ∧
    ¬ ∀ (m : Bloques) (dup pcb : Nat) (block : Pcb) (code : Int),
      m.heap dup = none → m.heap pcb = some block →
      (∀ status, ∀ p ∈ m.queue status, (m.heap p).isSome) →
      ∃ m', m.endProgram dup pcb code = some m' ∧ Settled block code m.contents m'.contents := by
  constructor
  · intro hall
    rcases hall sampleFreedReady 2 1 { (default : Pcb) with idProcess := 2 } exitConsoleKilled
      rfl rfl (by decide) with ⟨m', hend, -⟩
    have hnone : sampleFreedReady.endProgram 2 1 exitConsoleKilled = none := rfl
    rw [hnone] at hend
    exact absurd hend (by simp only [reduceCtorEq, not_false_eq_true])
  · intro hall
    rcases hall sampleTwice 1 0 { (default : Pcb) with idProcess := 1 } exitConsoleKilled rfl rfl
      (fun status => by cases status <;> decide) with ⟨m', hend, -⟩
    have hnone : sampleTwice.endProgram 1 0 exitConsoleKilled = none := rfl
    rw [hnone] at hend
    exact absurd hend (by simp only [reduceCtorEq, not_false_eq_true])

/-! ### kill -/

/-- The queues `kill` goes through. -/
def searched : List Status := [.NEW, .BLOCK, .READY]

/-- The process is in the queue. -/
def State.has (k : State) (pid : Int) (status : Status) : Bool :=
  (k.statusQueue status).any fun pcb => pcb.idProcess == pid

/-- One block of the process leaves one of the three queues for the end of `pcb_exit`, and
    nothing else changes. -/
def MovedOnce (pid : Int) (k u : State) : Prop :=
  ∃ status ∈ searched, ∃ before pcb after, pcb.idProcess = pid ∧
    k.statusQueue status = before ++ pcb :: after ∧ u.statusQueue status = before ++ after ∧
    u.pcbExit = k.pcbExit ++ [{ pcb with exitCode := -2, status := exitStatus }] ∧
    ∀ other, other ≠ status → other ≠ .EXIT → u.statusQueue other = k.statusQueue other

/-- `kill` ends, and has moved one block if it could find the process, and nothing
    otherwise. -/
def KillSettles (pid : Int) (k : State) : Prop :=
  ∃ n u, killLoop pid n k = some u ∧
    ((∃ status ∈ searched, k.has pid status = true) → MovedOnce pid k u) ∧
    ((¬ ∃ status ∈ searched, k.has pid status = true) → u.statusQueue = k.statusQueue)

/-- The process is in one of the three queues and not in another. -/
def WaitsOnce (pid : Int) (k : State) : Prop :=
  ∃ status ∈ searched, k.has pid status = true ∧
    ∀ other ∈ searched, k.has pid other = true → other = status

/-- The first block of the process is taken out, if there is one. -/
theorem killIn_cases (pid : Int) (queue : List Pcb) :
    (queue.any (fun pcb => pcb.idProcess == pid) = false ∧ killIn pid queue = (queue, [])) ∨
    (queue.any (fun pcb => pcb.idProcess == pid) = true ∧ ∃ before pcb after,
      pcb.idProcess = pid ∧ queue = before ++ pcb :: after ∧
      killIn pid queue
        = (before ++ after, [{ pcb with exitCode := -2, status := exitStatus }])) := by
  induction queue with
  | nil => exact Or.inl ⟨rfl, rfl⟩
  | cons first queue ih =>
      by_cases hfirst : first.idProcess = pid
      · have hfound : (first.idProcess == pid) = true := beq_iff_eq.mpr hfirst
        refine Or.inr ⟨?_, [], first, queue, hfirst, rfl, ?_⟩
        · rw [List.any_cons, hfound, Bool.true_or]
        · simp only [killIn, List.find?_cons, hfound, List.eraseP_cons, cond_true, List.nil_append]
      · -- The search goes on behind the first block, which stays.
        have hpassed : (first.idProcess == pid) = false := beq_eq_false_iff_ne.mpr hfirst
        have hkill : killIn pid (first :: queue)
            = (first :: (killIn pid queue).1, (killIn pid queue).2) := by
          simp only [killIn, List.find?_cons, hpassed, List.eraseP_cons]
          cases queue.find? fun aux => aux.idProcess == pid <;> rfl
        rw [List.any_cons, hpassed, Bool.false_or, hkill]
        rcases ih with ⟨hnone, heq⟩ | ⟨hsome, before, pcb, after, hpid, hqueue, heq⟩
        · exact Or.inl ⟨hnone, by rw [heq]⟩
        · exact Or.inr ⟨hsome, first :: before, pcb, after, hpid, by rw [hqueue]; rfl, by
            rw [heq]; rfl⟩

theorem killIn_none (pid : Int) (queue : List Pcb)
    (h : queue.any (fun pcb => pcb.idProcess == pid) = false) : killIn pid queue = (queue, []) := by
  rcases killIn_cases pid queue with ⟨_, heq⟩ | ⟨hsome, _⟩
  · exact heq
  · rw [h] at hsome
    exact absurd hsome (by decide)

theorem killIn_length (pid : Int) (queue : List Pcb) :
    (killIn pid queue).2.length = (queue.any fun pcb => pcb.idProcess == pid).toNat := by
  rcases killIn_cases pid queue with ⟨hnone, heq⟩ | ⟨hsome, _, _, _, _, _, heq⟩
  · rw [hnone, heq]
    rfl
  · rw [hsome, heq]
    rfl

theorem killable_iff (k : State) (pid : Int) :
    k.killable pid = true ↔ ∃ status ∈ searched, k.has pid status = true := by
  simp only [State.killable, searched, State.has, State.statusQueue, List.any_append,
    Bool.or_eq_true, List.mem_cons, List.not_mem_nil, or_false, exists_eq_or_imp,
    exists_eq_left, or_assoc]

/-- The loop ends in the first round or in none: a round that finds nothing changes nothing. -/
theorem killLoop_eq (pid : Int) (n : Nat) (k : State) :
    killLoop pid (n + 1) k = if k.killable pid then some (terminalKill k pid) else none := by
  by_cases hfound : k.killable pid = true
  · rw [killLoop, if_pos hfound, if_pos hfound]
  · rw [if_neg hfound]
    have hsame : terminalKill k pid = k := by
      have hnone : ∀ status ∈ searched, killIn pid (k.statusQueue status)
          = (k.statusQueue status, []) := fun status hs =>
        killIn_none pid _ (Bool.eq_false_iff.mpr fun hc =>
          hfound ((killable_iff k pid).mpr ⟨status, hs, hc⟩))
      have hnew := hnone .NEW (by decide)
      have hblock := hnone .BLOCK (by decide)
      have hready := hnone .READY (by decide)
      simp only [State.statusQueue] at hnew hblock hready
      simp only [terminalKill, hnew, hblock, hready, List.append_nil, if_true]
    induction n with
    | zero => rw [killLoop, if_neg hfound, hsame, killLoop]
    | succ n ih => rw [killLoop, if_neg hfound, hsame, ih]

/-- What a round does to the queues. -/
theorem statusQueue_terminalKill (k : State) (pid : Int) (status : Status) (h : status ≠ .EXIT) :
    (terminalKill k pid).statusQueue status = if status ∈ searched
      then (killIn pid (k.statusQueue status)).1 else k.statusQueue status := by
  cases status with
  | NEW => rfl
  | READY => rfl
  | EXEC => rfl
  | BLOCK => rfl
  | EXIT => exact absurd rfl h

/-- A process that is in one of the queues leaves it. -/
theorem movedOnce_of_waitsOnce (pid : Int) (k : State) (h : WaitsOnce pid k) :
    MovedOnce pid k (terminalKill k pid) := by
  rcases h with ⟨status, hs, hhas, honly⟩
  have hothers : ∀ other ∈ searched, other ≠ status →
      killIn pid (k.statusQueue other) = (k.statusQueue other, []) := fun other ho hne =>
    killIn_none pid _ (Bool.eq_false_iff.mpr fun hc => hne (honly other ho hc))
  have hexit : status ≠ .EXIT := fun hc => absurd (hc ▸ hs) (by decide)
  rcases killIn_cases pid (k.statusQueue status)
    with ⟨hnone, _⟩ | ⟨_, before, pcb, after, hpid, hqueue, hkill⟩
  · rw [State.has, hnone] at hhas
    exact absurd hhas (by decide)
  · refine ⟨status, hs, before, pcb, after, hpid, hqueue, ?_, ?_, fun other hne hne' => ?_⟩
    · rw [statusQueue_terminalKill k pid status hexit, if_pos hs, hkill]
    · -- Nothing comes from the other two.
      have hparts : (terminalKill k pid).pcbExit
          = k.pcbExit ++ searched.flatMap fun other => (killIn pid (k.statusQueue other)).2 := by
        simp only [terminalKill, searched, List.flatMap_cons, List.flatMap_nil, State.statusQueue,
          List.append_nil, List.append_assoc]
      rw [hparts]
      refine congrArg _ ?_
      cases status with
      | NEW =>
          simp only [searched, List.flatMap_cons, List.flatMap_nil, hkill,
            hothers .BLOCK (by decide) (by decide), hothers .READY (by decide) (by decide),
            List.append_nil]
      | BLOCK =>
          simp only [searched, List.flatMap_cons, List.flatMap_nil, hkill,
            hothers .NEW (by decide) (by decide), hothers .READY (by decide) (by decide),
            List.append_nil, List.nil_append]
      | READY =>
          simp only [searched, List.flatMap_cons, List.flatMap_nil, hkill,
            hothers .NEW (by decide) (by decide), hothers .BLOCK (by decide) (by decide),
            List.append_nil, List.nil_append]
      | EXEC => exact absurd hs (by decide)
      | EXIT => exact absurd rfl hexit
    · rw [statusQueue_terminalKill k pid other hne']
      split
      · rename_i hin
        rw [hothers other hin hne]
      · rfl

/-- `kill` ends and does what it is for if and only if the process is in one of `pcb_new`,
    `pcb_block` and `pcb_ready`, and not in two of them. -/
theorem kill_settles_iff (pid : Int) (k : State) : KillSettles pid k ↔ WaitsOnce pid k := by
  constructor
  · rintro ⟨n, u, hloop, hmoves, _⟩
    cases n with
    | zero => exact absurd hloop (by simp only [killLoop, reduceCtorEq, not_false_eq_true])
    | succ n =>
        rw [killLoop_eq] at hloop
        split at hloop
        · rename_i hfound
          obtain rfl := Option.some.inj hloop
          have hfound := (killable_iff k pid).mp hfound
          rcases hmoves hfound with ⟨_, _, _, _, _, _, _, _, hexit, _⟩
          -- One block has been added to `pcb_exit`, and each queue with the process gives one.
          have hone : (k.has pid .NEW).toNat + (k.has pid .BLOCK).toNat
              + (k.has pid .READY).toNat = 1 := by
            have hlength := congrArg List.length hexit
            simp only [terminalKill, List.length_append, killIn_length, List.length_singleton]
              at hlength
            simp only [State.has, State.statusQueue]
            omega
          rcases hfound with ⟨status, hs, hhas⟩
          refine ⟨status, hs, hhas, fun other ho hhas' => ?_⟩
          by_contra hne
          simp only [searched, List.mem_cons, List.not_mem_nil, or_false] at hs ho
          rcases hs with rfl | rfl | rfl <;> rcases ho with rfl | rfl | rfl <;>
            first
            | exact hne rfl
            | (rw [hhas, hhas', Bool.toNat_true] at hone; omega)
        · exact absurd hloop (by simp only [reduceCtorEq, not_false_eq_true])
  · intro h
    have hfound : ∃ status ∈ searched, k.has pid status = true :=
      Exists.imp (fun _ hstatus => ⟨hstatus.1, hstatus.2.1⟩) h
    refine ⟨1, terminalKill k pid, ?_, fun _ => movedOnce_of_waitsOnce pid k h,
      fun hc => absurd hfound hc⟩
    rw [killLoop_eq, if_pos ((killable_iff k pid).mpr hfound)]

set_option maxRecDepth 2000

theorem sampleArrival_taken :
    (run (State.step sampleParser sampleConfig) (State.init 3 4 [1] 1) sampleArrival).isSome := by
  decide

/-- A process that runs is looked for and never found. -/
theorem kill_goes_on :
    ¬ ∀ (parser : Parser) (config : Config) (multipgLevel memfd : Int) (semInit : List Int)
        (shared : Nat) (es : List (Residue × Event)) (k : State) (pid : Int),
      run (State.step parser config) (State.init multipgLevel memfd semInit shared) es = some k →
      KillSettles pid k := by
  intro hall
  rcases hall _ _ _ _ _ _ sampleArrival _ 1 (Option.some_get sampleArrival_taken).symm
    with ⟨n, u, hloop, _⟩
  cases n with
  | zero => exact absurd hloop (by simp only [killLoop, reduceCtorEq, not_false_eq_true])
  | succ n =>
      rw [killLoop_eq, if_neg (by decide)] at hloop
      exact absurd hloop (by simp only [reduceCtorEq, not_false_eq_true])

end Kernel

end Esther
