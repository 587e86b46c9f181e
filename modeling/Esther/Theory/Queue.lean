import Esther.Core.Queue
import Esther.Lib.Turns
import Esther.Theory.Sequence

/-!
# First In First Out, Last In First Out

What the queues and the stacks of the common library are for.

Both adapters are one list of which the last element goes next. In a queue new elements are
put before the others and in a stack after them, so that the elements that wait are those
of the list from its end to its start. An empty list has no element at `length - 1`, which
is -1, and that is why an empty queue or stack gives null and stays as it is.

## Main definitions

* `Adaptador`: A queue or a stack in use, with what has come and what has gone.
* `Sirve`: What its functions say about the elements that wait.

## Theorems

* `simula_mueve`: A move of the adapter and of the elements that wait.
* `queue_stack_laws`: Queues and stacks after any moves.
-/

namespace Esther

namespace Common

open Chain Transition Turns

variable {α : Type}

/-- A queue or a stack in use: its list, the memory, what the last function has returned, the
    elements that have been pushed, and those that have been popped. -/
structure Adaptador (α : Type) where
  content : Mlist
  memory : Memory α
  result : Option α
  pushed : List (Option α)
  popped : List (Option α)

/-- A new queue or stack, in a memory that others use. -/
def Adaptador.init (d : Discipline) (m : Memory α) : Adaptador α :=
  { content := match d with
      | .fifo => queueCreate.content
      | .lifo => stackCreate.content
    memory := m
    result := none
    pushed := []
    popped := [] }

/-- `queue_next` or `stack_top`. -/
def Adaptador.next (d : Discipline) (s : Adaptador α) : Option (Option α) :=
  match d with
  | .fifo => queueNext { content := s.content } s.memory
  | .lifo => stackTop { content := s.content } s.memory

/-- `queue_empty` or `stack_empty`. -/
def Adaptador.empty (d : Discipline) (s : Adaptador α) : Bool :=
  match d with
  | .fifo => queueEmpty { content := s.content }
  | .lifo => stackEmpty { content := s.content }

/-- `queue_push` or `stack_push`. -/
def Adaptador.push (malloc : Nat → Finmap (fun _ : Nat => Node α) → Nat) (d : Discipline)
    (s : Adaptador α) (element : Option α) : Option (Mlist × Memory α) :=
  match d with
  | .fifo => (queuePush malloc { content := s.content } element s.memory).map fun r =>
      (r.1.content, r.2)
  | .lifo => (stackPush malloc { content := s.content } element s.memory).map fun r =>
      (r.1.content, r.2)

/-- `queue_pop` or `stack_pop`. -/
def Adaptador.pop (d : Discipline) (s : Adaptador α) : Option (Option α × Mlist × Memory α) :=
  match d with
  | .fifo => (queuePop { content := s.content } s.memory).map fun r =>
      (r.1, r.2.1.content, r.2.2)
  | .lifo => (stackPop { content := s.content } s.memory).map fun r =>
      (r.1, r.2.1.content, r.2.2)

/-- A push or a pop. What an empty queue or stack returns is not an element that has gone. -/
def Adaptador.step (malloc : Nat → Finmap (fun _ : Nat => Node α) → Nat) (d : Discipline)
    (s : Adaptador α) : Move (Option α) → Option (Adaptador α)
  | .push element => (s.push malloc d element).map fun r =>
      { s with
        content := r.1
        memory := r.2
        result := none
        pushed := s.pushed ++ [element] }
  | .pop => (s.pop d).map fun r =>
      { s with
        content := r.2.1
        memory := r.2.2
        result := r.1
        popped := if s.empty d then s.popped else s.popped ++ [r.1] }

/-- What the functions say about a queue or a stack: what the last one has returned, what has
    come and gone, and which element will go next. -/
structure Sirve (d : Discipline) (s : Adaptador α) (q : Line (Option α)) : Prop where
  result : s.result = q.result.join
  pushed : s.pushed = q.pushed
  popped : s.popped = q.popped
  empty : s.empty d = q.waiting.isEmpty
  next : s.next d = some q.waiting.head?.join
  pop : ∃ content m, s.pop d = some (q.waiting.head?.join, content, m)
  nothing : q.waiting = [] → s.pop d = some (none, s.content, s.memory)

/-- Which lengths an `int` can count. -/
def cabe (n : Nat) : Bool := fitsInt n

/-! ### Moves as operations on the list -/

/-- The operation that a push is. -/
def alta (d : Discipline) (element : Option α) : Operacion α Unit :=
  match d with
  | .fifo => .insert 0 element
  | .lifo => .append element

/-- The list of an adapter in use. -/
def Adaptador.estado (s : Adaptador α) : Estado α Unit :=
  { list := s.content, memory := s.memory, world := (), result := s.result }

/-- The sequence of that list, the next element last. -/
def secuencia (q : Line (Option α)) : Secuencia α Unit :=
  { elems := q.waiting.reverse, world := (), result := q.result.join }

/-- A push is an insertion at the start or at the end. -/
theorem estado_push (malloc : Nat → Finmap (fun _ : Nat => Node α) → Nat) (d : Discipline)
    (s : Adaptador α) (element : Option α) :
    s.estado.step malloc (alta d element) = (s.push malloc d element).map fun r =>
      { list := r.1, memory := r.2, world := (), result := none } := by
  cases d with
  | fifo =>
      simp only [alta, Estado.step, Adaptador.estado, Adaptador.push, queuePush]
      cases mlistInsert malloc s.content 0 element s.memory with
      | none => rfl
      | some r => rfl
  | lifo =>
      simp only [alta, Estado.step, Adaptador.estado, Adaptador.push, stackPush]
      cases mlistAppend malloc s.content element s.memory with
      | none => rfl
      | some r => rfl

/-- Both adapters take the last element. -/
theorem pop_eq (d : Discipline) (s : Adaptador α) :
    s.pop d = mlistPop s.content (s.content.length - 1) s.memory := by
  cases d with
  | fifo =>
      simp only [Adaptador.pop, queuePop, queueLength, mlistLength]
      cases mlistPop s.content (s.content.length - 1) s.memory with
      | none => rfl
      | some r => rfl
  | lifo =>
      simp only [Adaptador.pop, stackPop, stackLength, mlistLength]
      cases mlistPop s.content (s.content.length - 1) s.memory with
      | none => rfl
      | some r => rfl

theorem estado_pop (malloc : Nat → Finmap (fun _ : Nat => Node α) → Nat) (d : Discipline)
    (s : Adaptador α) :
    s.estado.step malloc (.pop (s.content.length - 1)) = (s.pop d).map fun r =>
      { list := r.2.1, memory := r.2.2, world := (), result := r.1 } := by
  rw [pop_eq]
  simp only [Estado.step, Adaptador.estado]
  cases mlistPop s.content (s.content.length - 1) s.memory with
  | none => rfl
  | some r => rfl

theorem empty_eq (d : Discipline) (s : Adaptador α) : s.empty d = mlistEmpty s.content := by
  cases d with
  | fifo => rfl
  | lifo => rfl

theorem next_eq (d : Discipline) (s : Adaptador α) : s.next d = mlistLast s.content s.memory := by
  cases d with
  | fifo => rfl
  | lifo => rfl

theorem step_insert_zero (q : Secuencia α Unit) (element : Option α) :
    q.step (.insert 0 element) = q.grow (element :: q.elems) := by
  simp only [Secuencia.step]
  rw [if_pos ⟨Int.le_refl 0, Int.natCast_nonneg _⟩]
  rfl

/-- The sequence after a push has the new element where the discipline puts it. -/
theorem secuencia_push (d : Discipline) (q : Line (Option α)) (element : Option α) :
    (secuencia q).step (alta d element) =
      if cabe (q.waiting.length + 1) then
        some { elems := (d.join q.waiting element).reverse, world := (), result := none }
      else none := by
  have hlength : (d.join q.waiting element).reverse.length = q.waiting.length + 1 := by
    rw [List.length_reverse, (join_perm d q.waiting element).length_eq, List.length_append,
      List.length_singleton]
  have hgrow : (secuencia q).step (alta d element) =
      (secuencia q).grow (d.join q.waiting element).reverse := by
    cases d with
    | fifo =>
        rw [alta, step_insert_zero, Discipline.join, List.reverse_append]
        rfl
    | lifo =>
        rw [alta, Discipline.join, List.reverse_cons]
        rfl
  rw [hgrow, Secuencia.grow, hlength]
  rfl

/-- The sequence after a pop has lost its last element. -/
theorem secuencia_pop (q : Line (Option α)) :
    (secuencia q).step (.pop (q.waiting.length - 1)) =
      some { elems := q.waiting.tail.reverse, world := (), result := q.waiting.head?.join } := by
  cases hwaiting : q.waiting with
  | nil =>
      simp only [Secuencia.step, secuencia, hwaiting, List.reverse_nil, List.length_nil]
      rfl
  | cons element rest =>
      have hindex : ((element :: rest).length : Int) - 1 = (rest.reverse.length : Nat) := by
        rw [List.length_cons, List.length_reverse]
        omega
      simp only [Secuencia.step, secuencia, hwaiting, hindex, Int.toNat_natCast,
        List.reverse_cons, List.length_append, List.length_singleton]
      rw [if_pos (by omega), List.eraseIdx_append_of_length_le (Nat.le_refl _), Nat.sub_self,
        List.getElem?_append_right (Nat.le_refl _), Nat.sub_self]
      simp only [List.eraseIdx_cons_zero, List.append_nil, List.getElem?_cons_zero, List.tail_cons,
        List.head?_cons]

/-! ### Moves -/

/-- The list of an adapter holds the elements that wait, the one that goes next last. -/
structure Simulado (m₀ : Memory α) (s : Adaptador α) (q : Line (Option α)) : Prop where
  lista : Simula m₀ s.estado (secuencia q)
  pushed : s.pushed = q.pushed
  popped : s.popped = q.popped

theorem simulado_length (m₀ : Memory α) (s : Adaptador α) (q : Line (Option α))
    (h : Simulado m₀ s q) : s.content.length = q.waiting.length := by
  have hlength := simula_length m₀ s.estado (secuencia q) h.lista
  rw [secuencia, List.length_reverse] at hlength
  exact hlength

theorem simulado_empty (m₀ : Memory α) (d : Discipline) (s : Adaptador α) (q : Line (Option α))
    (h : Simulado m₀ s q) : s.empty d = q.waiting.isEmpty := by
  rw [empty_eq, mlistEmpty, simulado_length m₀ s q h]
  cases q.waiting with
  | nil => rfl
  | cons element rest => rfl

theorem simulado_push (malloc : Nat → Finmap (fun _ : Nat => Node α) → Nat)
    (hmalloc : ∀ n nodes, malloc n nodes ∉ nodes) (m₀ : Memory α) (d : Discipline)
    (s : Adaptador α) (q : Line (Option α)) (element : Option α) (h : Simulado m₀ s q) :
    Option.Rel (Simulado m₀) (s.step malloc d (.push element))
      (q.step cabe d (.push element)) := by
  have hrel := simula_step malloc hmalloc m₀ s.estado (secuencia q) (alta d element) h.lista
  rw [estado_push, secuencia_push] at hrel
  simp only [Adaptador.step, Line.step]
  revert hrel
  cases s.push malloc d element with
  | none =>
      split
      next => exact fun hrel => absurd hrel Option.not_rel_none_some
      next => exact fun _ => Option.Rel.none
  | some r =>
      split
      next =>
        intro hrel
        refine Option.Rel.some ⟨Option.rel_some_some.mp hrel, ?_, h.popped⟩
        rw [h.pushed]
      next => exact fun hrel => absurd hrel Option.not_rel_some_none

theorem simulado_pop (malloc : Nat → Finmap (fun _ : Nat => Node α) → Nat)
    (hmalloc : ∀ n nodes, malloc n nodes ∉ nodes) (m₀ : Memory α) (d : Discipline)
    (s : Adaptador α) (q : Line (Option α)) (h : Simulado m₀ s q) :
    ∃ content m, s.pop d = some (q.waiting.head?.join, content, m) ∧
      Option.Rel (Simulado m₀) (s.step malloc d .pop) (q.step cabe d .pop) := by
  have hrel := simula_step malloc hmalloc m₀ s.estado (secuencia q) (.pop (s.content.length - 1))
    h.lista
  have hempty := simulado_empty m₀ d s q h
  rw [estado_pop malloc d, simulado_length m₀ s q h, secuencia_pop] at hrel
  cases hpop : s.pop d with
  | none =>
      rw [hpop] at hrel
      exact absurd hrel Option.not_rel_none_some
  | some r =>
      rcases r with ⟨elem, content, m⟩
      rw [hpop] at hrel
      have hlista := Option.rel_some_some.mp hrel
      have helem : elem = q.waiting.head?.join := hlista.result
      refine ⟨content, m, by rw [helem], ?_⟩
      simp only [Adaptador.step, hpop, Line.step, hempty, Option.map_some]
      cases hwaiting : q.waiting with
      | nil =>
          rw [hwaiting] at hlista
          exact Option.Rel.some ⟨⟨hlista.rep, rfl, hlista.result⟩, h.pushed, h.popped⟩
      | cons element rest =>
          rw [hwaiting] at hlista
          refine Option.Rel.some ⟨⟨hlista.rep, rfl, hlista.result⟩, h.pushed, ?_⟩
          have helement : elem = element := hlista.result
          rw [h.popped, helement]
          rfl

theorem simulado_step (malloc : Nat → Finmap (fun _ : Nat => Node α) → Nat)
    (hmalloc : ∀ n nodes, malloc n nodes ∉ nodes) (m₀ : Memory α) (d : Discipline)
    (s : Adaptador α) (q : Line (Option α)) (move : Move (Option α)) (h : Simulado m₀ s q) :
    Option.Rel (Simulado m₀) (s.step malloc d move) (q.step cabe d move) := by
  cases move with
  | push element => exact simulado_push malloc hmalloc m₀ d s q element h
  | pop =>
      rcases simulado_pop malloc hmalloc m₀ d s q h with ⟨_, _, _, hrel⟩
      exact hrel

theorem sirve_of_simulado (malloc : Nat → Finmap (fun _ : Nat => Node α) → Nat)
    (hmalloc : ∀ n nodes, malloc n nodes ∉ nodes) (m₀ : Memory α) (d : Discipline)
    (s : Adaptador α) (q : Line (Option α)) (h : Simulado m₀ s q) : Sirve d s q := by
  refine ⟨h.lista.result, h.pushed, h.popped, simulado_empty m₀ d s q h, ?_, ?_, ?_⟩
  · rw [next_eq]
    refine (holds_of_simula malloc hmalloc m₀ s.estado (secuencia q) h.lista).last.trans ?_
    rw [secuencia, List.getLast?_reverse]
  · rcases simulado_pop malloc hmalloc m₀ d s q h with ⟨content, m, hpop, _⟩
    exact ⟨content, m, hpop⟩
  · intro hwaiting
    have hlength := simulado_length m₀ s q h
    rw [hwaiting, List.length_nil] at hlength
    -- There is no element at -1.
    rw [pop_eq, mlistPop, getNode_out s.memory s.content _ (by omega)]
    rfl

/-- After any pushes and pops, a queue has its elements first in first out and a stack last in
    first out. None is lost and none goes twice, `queue_next` and `stack_top` are what the next
    pop returns, and a pop of nothing returns null and leaves everything as it is. Only a
    length that an `int` cannot count has no result. -/
theorem queue_stack_laws (malloc : Nat → Finmap (fun _ : Nat => Node α) → Nat)
    (hmalloc : ∀ n nodes, malloc n nodes ∉ nodes) (m : Memory α) (d : Discipline)
    (moves : List (Move (Option α))) :
    Option.Rel (Sirve d) (run (Adaptador.step malloc d) (Adaptador.init d m) moves)
        (run (Line.step cabe d) Line.init moves) ∧
      ∀ q, run (Line.step cabe d) Line.init moves = some q → Law d q := by
  refine ⟨?_, fun q hrun => law_run cabe d q moves hrun⟩
  refine rel_mono (Simulado m) (Sirve d)
    (fun s q h => sirve_of_simulado malloc hmalloc m d s q h) _ _ ?_
  refine run_rel (Adaptador.step malloc d) (Line.step cabe d) (Simulado m)
    (fun s q move h => simulado_step malloc hmalloc m d s q move h) _ _ moves
    ⟨⟨?_, rfl, rfl⟩, rfl, rfl⟩
  cases d with
  | fifo => exact ⟨[], rep_create m, rfl, Local.refl m.heap []⟩
  | lifo => exact ⟨[], rep_create m, rfl, Local.refl m.heap []⟩

/-- A queue that is emptied, popped once more, and used again. -/
theorem queue_refilled : ∃ s,
    run (Adaptador.step sampleMalloc .fifo) (Adaptador.init .fifo ⟨∅, 0⟩)
      [.push (some 1), .push (some 2), .pop, .pop, .pop, .push (some 3)] = some s ∧
    s.popped = [some 1, some 2] ∧ s.next .fifo = some (some 3) := by
  have hrel := (queue_stack_laws sampleMalloc sampleMalloc_fresh ⟨∅, 0⟩ .fifo
    [.push (some 1), .push (some 2), .pop, .pop, .pop, .push (some 3)]).1
  have hrun : run (Line.step cabe .fifo) Line.init
      [.push (some 1), .push (some 2), .pop, .pop, .pop, .push (some 3)]
      = some { waiting := [some 3], pushed := [some 1, some 2, some 3],
               popped := [some 1, some 2], result := none } := by
    decide
  rw [hrun] at hrel
  revert hrel
  cases run (Adaptador.step sampleMalloc .fifo) (Adaptador.init .fifo ⟨∅, 0⟩)
      [.push (some 1), .push (some 2), .pop, .pop, .pop, .push (some 3)] with
  | none => exact fun hrel => absurd hrel Option.not_rel_none_some
  | some s =>
      intro hrel
      have h := Option.rel_some_some.mp hrel
      exact ⟨s, rfl, h.popped, h.next⟩

end Common

end Esther
