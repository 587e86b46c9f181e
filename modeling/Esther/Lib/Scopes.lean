import Mathlib.Data.List.Basic

/-!
# Scopes

The variables of a program with functions, as the program sees them.

Every call of a function that has not come back has a scope, with the names of the variables
that have been declared in it. A name is looked up in the innermost scope only. Behind the
names there is one sequence of cells for all scopes, so that a variable can also be named by
the number of its cell, and the cells of a scope come after those of the scopes around it. A
cell has a value once one has been written.

What a call does to the scopes around it is nothing, as long as it writes no cell of theirs.
That is the rule behind `call_return`.

## Main definitions

* `Scope`, `Machine`: The open scopes and the values of their cells.
* `cells`: The cells of a scope whose names pass a test.
* `Machine.declare`, `Machine.enter`, `Machine.leave`, `Machine.find`, `Machine.read`,
  `Machine.write`: What a program does with them.
* `Op`: What changes them.
* `Inside`, `Within`: The operations of a call, and what they keep.

## Theorems

* `cells_append`: A name that is added.
* `read_write`, `read_declare`, `read_leave`: The values afterwards.
* `find_lt`: A variable that is found has a cell.
* `within_apply`: An operation of a call.
* `call_return`, `call_return_write`: A call that has come back.
-/

namespace Scopes

variable {ν α κ : Type*}

/-- The names of the variables in the order of their declarations, where control goes back to,
    and the cell the result goes to. -/
structure Scope (ν κ : Type*) where
  names : List ν
  back : κ
  result : Nat

/-- A scope without variables. -/
def Scope.empty (back : κ) (result : Nat) : Scope ν κ :=
  { names := [], back := back, result := result }

def Scope.add (scope : Scope ν κ) (name : ν) : Scope ν κ :=
  { scope with names := scope.names ++ [name] }

/-- How many cells the scopes have. -/
def size : List (Scope ν κ) → Nat
  | [] => 0
  | scope :: scopes => scope.names.length + size scopes

@[simp] theorem size_nil : size ([] : List (Scope ν κ)) = 0 := rfl

theorem size_concat (scopes above : List (Scope ν κ)) :
    size (scopes ++ above) = size scopes + size above := by
  induction scopes with
  | nil => rw [List.nil_append, size_nil, Nat.zero_add]
  | cons scope scopes ih => rw [List.cons_append, size, size, ih, Nat.add_assoc]

theorem size_append (scopes : List (Scope ν κ)) (scope : Scope ν κ) :
    size (scopes ++ [scope]) = size scopes + scope.names.length :=
  size_concat scopes [scope]

/-- The scopes from the outermost to the innermost, and the values of their cells. -/
structure Machine (ν α κ : Type*) where
  scopes : List (Scope ν κ)
  values : List (Option α)
  sized : values.length = size scopes

namespace Machine

/-- No scope is open. -/
def start : Machine ν α κ := { scopes := [], values := [], sized := rfl }

/-- The scopes around the innermost one. -/
def outer (m : Machine ν α κ) : List (Scope ν κ) := m.scopes.dropLast

/-- The innermost scope. For a first declaration one is opened. -/
def inner (m : Machine ν α κ) (back : κ) : Scope ν κ :=
  m.scopes.getLast?.getD (Scope.empty back 0)

theorem size_inner (m : Machine ν α κ) (back : κ) :
    size m.outer + (m.inner back).names.length = size m.scopes := by
  unfold outer inner
  cases hlast : m.scopes.getLast? with
  | none =>
      rw [List.getLast?_eq_none_iff.mp hlast]
      rfl
  | some scope =>
      rw [Option.getD_some, ← size_append, List.dropLast_append_getLast? scope hlast]

/-- A variable is declared in the innermost scope. Its cell has no value. -/
def declare (m : Machine ν α κ) (back : κ) (name : ν) : Machine ν α κ :=
  { scopes := m.outer ++ [(m.inner back).add name]
    values := m.values ++ [none]
    sized := by
      rw [size_append, Scope.add, List.length_append, List.length_append, m.sized,
        ← size_inner m back, Nat.add_assoc]
      rfl }

/-- A function is called. -/
def enter (m : Machine ν α κ) (back : κ) (result : Nat) : Machine ν α κ :=
  { scopes := m.scopes ++ [Scope.empty back result]
    values := m.values
    sized := by rw [size_append, m.sized]; rfl }

/-- A function comes back. Its cells are given up. -/
def leave (m : Machine ν α κ) : Machine ν α κ :=
  { scopes := m.outer
    values := m.values.take (size m.outer)
    sized := by
      have hle : size m.outer ≤ size m.scopes := by
        cases hlast : m.scopes.getLast? with
        | none => rw [outer, List.getLast?_eq_none_iff.mp hlast]; exact Nat.le_refl _
        | some scope =>
            rw [outer, ← List.dropLast_append_getLast? scope hlast, size_append,
              List.dropLast_concat]
            exact Nat.le_add_right _ _
      rw [List.length_take, m.sized, Nat.min_eq_left hle] }

/-- A cell that there is gets a value. -/
def write (m : Machine ν α κ) (cell : Nat) (value : α) : Machine ν α κ :=
  { m with
    values := m.values.set cell (some value)
    sized := by rw [List.length_set, m.sized] }

/-- The value of a cell, if it has one. -/
def read (m : Machine ν α κ) (cell : Nat) : Option α := m.values[cell]?.join

end Machine

/-- The cells of a scope that begins with the cell `base` whose names pass the test. -/
def cells (test : ν → Bool) : Nat → List ν → List Nat
  | _, [] => []
  | base, name :: names =>
      if test name then base :: cells test (base + 1) names else cells test (base + 1) names

/-- The `n`-th variable of the innermost scope whose name passes the test. -/
def Machine.find (m : Machine ν α κ) (test : ν → Bool) (n : Nat) : Option Nat :=
  match m.scopes.getLast? with
  | some scope => (cells test (size m.outer) scope.names)[n]?
  | none => none

theorem cells_append (test : ν → Bool) (base : Nat) (names : List ν) (name : ν) :
    cells test base (names ++ [name])
      = cells test base names ++ if test name then [base + names.length] else [] := by
  induction names generalizing base with
  | nil => simp only [List.nil_append, cells, List.length_nil, Nat.add_zero]
  | cons first names ih =>
      rw [List.cons_append, cells, cells, ih, List.length_cons,
        show base + 1 + names.length = base + (names.length + 1) by omega]
      split
      · rw [List.cons_append]
      · rfl

theorem mem_cells (test : ν → Bool) (base cell : Nat) (names : List ν)
    (h : cell ∈ cells test base names) : base ≤ cell ∧ cell < base + names.length := by
  induction names generalizing base with
  | nil => exact absurd h List.not_mem_nil
  | cons first names ih =>
      rw [cells] at h
      rw [List.length_cons]
      have hrest : cell ∈ cells test (base + 1) names → base ≤ cell ∧
          cell < base + (names.length + 1) := by
        intro hmem
        have hbounds := ih (base + 1) hmem
        omega
      split at h
      · rcases List.mem_cons.mp h with rfl | hmem
        · omega
        · exact hrest hmem
      · exact hrest h

namespace Machine

/-- A variable that is found has a cell, which is in the innermost scope. -/
theorem find_lt (m : Machine ν α κ) (test : ν → Bool) (n cell : Nat)
    (h : m.find test n = some cell) : size m.outer ≤ cell ∧ cell < m.values.length := by
  unfold find at h
  cases hlast : m.scopes.getLast? with
  | none =>
      rw [hlast] at h
      exact absurd h.symm (Option.some_ne_none _)
  | some scope =>
      rw [hlast] at h
      have hbounds := mem_cells test _ _ _ (List.mem_of_getElem? h)
      have hsize : size m.outer + scope.names.length = size m.scopes := by
        rw [outer, ← size_append, List.dropLast_append_getLast? scope hlast]
      rw [m.sized]
      omega

theorem read_write (m : Machine ν α κ) (cell other : Nat) (value : α)
    (h : cell < m.values.length) :
    (m.write cell value).read other = if other = cell then some value else m.read other := by
  unfold read write
  rw [List.getElem?_set]
  by_cases hsame : cell = other
  · rw [if_pos hsame, if_pos h, if_pos hsame.symm]
    rfl
  · rw [if_neg hsame, if_neg fun hc => hsame hc.symm]

/-- A new cell has no value. -/
theorem read_declare (m : Machine ν α κ) (back : κ) (name : ν) (cell : Nat) :
    (m.declare back name).read cell = m.read cell := by
  unfold read declare
  rcases Nat.lt_trichotomy cell m.values.length with hlt | heq | hgt
  · rw [List.getElem?_append_left hlt]
  · rw [heq, List.getElem?_concat_length, List.getElem?_eq_none (Nat.le_refl _)]
    rfl
  · rw [List.getElem?_eq_none (by rw [List.length_append, List.length_singleton]; omega),
      List.getElem?_eq_none (by omega)]

theorem read_leave (m : Machine ν α κ) (cell : Nat) (value : α)
    (h : m.leave.read cell = some value) : m.read cell = some value := by
  unfold read leave at h
  rw [List.getElem?_take] at h
  split at h
  · exact h
  · exact absurd h.symm (Option.some_ne_none _)

theorem read_lt (m : Machine ν α κ) (cell : Nat) (value : α) (h : m.read cell = some value) :
    cell < m.values.length := by
  unfold read at h
  by_contra hc
  rw [List.getElem?_eq_none (by omega)] at h
  exact absurd h.symm (Option.some_ne_none _)

end Machine

/-! ### Calls -/

/-- What changes the scopes and the values. -/
inductive Op (ν α κ : Type*)
  | declare (back : κ) (name : ν)
  | enter (back : κ) (result : Nat)
  | leave
  | write (cell : Nat) (value : α)

def Op.apply (m : Machine ν α κ) : Op ν α κ → Machine ν α κ
  | .declare back name => m.declare back name
  | .enter back result => m.enter back result
  | .leave => m.leave
  | .write cell value => m.write cell value

/-- The operation of a call that was made when so many scopes were open, with so many cells: it
    closes no scope but those it has opened, and writes none of the cells that were there. -/
def Inside (depth held : Nat) (m : Machine ν α κ) : Op ν α κ → Prop
  | .declare _ _ => True
  | .enter _ _ => True
  | .leave => depth + 1 < m.scopes.length
  | .write cell _ => held ≤ cell

/-- The scopes and the values that were there when the call was made are there still, and the
    scope of the call comes after them. -/
structure Within (caller : Machine ν α κ) (back : κ) (result : Nat) (m : Machine ν α κ) :
    Prop where
  scopes : ∃ scope above, m.scopes = caller.scopes ++ scope :: above ∧ scope.back = back ∧
    scope.result = result
  values : ∃ above, m.values = caller.values ++ above

theorem within_enter (caller : Machine ν α κ) (back : κ) (result : Nat) :
    Within caller back result (caller.enter back result) :=
  ⟨⟨Scope.empty back result, [], rfl, rfl, rfl⟩, ⟨[], (List.append_nil _).symm⟩⟩

/-- An operation of a call. -/
theorem within_apply (caller m : Machine ν α κ) (back : κ) (result : Nat) (op : Op ν α κ)
    (h : Within caller back result m)
    (hinside : Inside caller.scopes.length caller.values.length m op) :
    Within caller back result (op.apply m) := by
  rcases h.scopes with ⟨scope, above, hscopes, hback, hresult⟩
  rcases h.values with ⟨values, hvalues⟩
  cases op with
  | declare back' name =>
      have hdeclared : (m.declare back' name).values = caller.values ++ (values ++ [none]) := by
        rw [← List.append_assoc, ← hvalues]
        rfl
      -- The name goes to the innermost scope, which may be that of the call.
      rcases List.eq_nil_or_concat' above with rfl | ⟨middle, last, rfl⟩
      · refine ⟨⟨scope.add name, [], ?_, hback, hresult⟩, ⟨_, hdeclared⟩⟩
        change m.outer ++ [(m.inner back').add name] = _
        rw [Machine.outer, Machine.inner, hscopes, List.dropLast_concat, List.getLast?_concat]
        rfl
      · refine ⟨⟨scope, middle ++ [last.add name], ?_, hback, hresult⟩, ⟨_, hdeclared⟩⟩
        change m.outer ++ [(m.inner back').add name] = _
        rw [Machine.outer, Machine.inner, hscopes, ← List.cons_append, ← List.append_assoc,
          List.dropLast_concat, List.getLast?_concat, ← List.cons_append, ← List.append_assoc]
        rfl
  | enter back' result' =>
      refine ⟨⟨scope, above ++ [Scope.empty back' result'], ?_, hback, hresult⟩,
        ⟨values, hvalues⟩⟩
      rw [← List.cons_append, ← List.append_assoc, ← hscopes]
      rfl
  | leave =>
      rcases List.eq_nil_or_concat' above with rfl | ⟨middle, last, rfl⟩
      · -- The scope of the call is not given up.
        have hdepth : caller.scopes.length + 1 < m.scopes.length := hinside
        rw [hscopes, List.length_append, List.length_singleton] at hdepth
        exact absurd hdepth (Nat.lt_irrefl _)
      · have houter : m.outer = caller.scopes ++ scope :: middle := by
          rw [Machine.outer, hscopes, ← List.cons_append, ← List.append_assoc,
            List.dropLast_concat]
        refine ⟨⟨scope, middle, houter, hback, hresult⟩,
          ⟨values.take (size (scope :: middle)), ?_⟩⟩
        -- The cells that are kept are those of the caller and of the scopes above it.
        change m.values.take (size m.outer) = _
        rw [houter, size_concat, hvalues, ← caller.sized, List.take_length_add_append]
  | write cell value =>
      refine ⟨⟨scope, above, hscopes, hback, hresult⟩,
        ⟨values.set (cell - caller.values.length) (some value), ?_⟩⟩
      change m.values.set cell (some value) = _
      rw [hvalues, List.set_append_right _ _ hinside]

/-- When the scope of the call is the innermost one again, it says where to go back to. -/
theorem within_last (caller m : Machine ν α κ) (back : κ) (result : Nat)
    (h : Within caller back result m) (hdepth : m.scopes.length = caller.scopes.length + 1) :
    ∃ scope, m.scopes = caller.scopes ++ [scope] ∧ scope.back = back ∧ scope.result = result := by
  rcases h.scopes with ⟨scope, above, hscopes, hback, hresult⟩
  have hlength := congrArg List.length hscopes
  rw [List.length_append, List.length_cons, hdepth] at hlength
  have hnil : above = [] := List.length_eq_zero_iff.mp (by omega)
  rw [hnil] at hscopes
  exact ⟨scope, hscopes, hback, hresult⟩

theorem Machine.eq_of_eq (m n : Machine ν α κ) (hscopes : m.scopes = n.scopes)
    (hvalues : m.values = n.values) : m = n := by
  cases m
  cases n
  cases hscopes
  cases hvalues
  rfl

/-- A call that has come back leaves the machine of its caller. -/
theorem call_return (caller m : Machine ν α κ) (back : κ) (result : Nat)
    (h : Within caller back result m) (hdepth : m.scopes.length = caller.scopes.length + 1) :
    m.leave = caller := by
  rcases within_last caller m back result h hdepth with ⟨scope, hscopes, _, _⟩
  rcases h.values with ⟨values, hvalues⟩
  have houter : m.outer = caller.scopes := by rw [Machine.outer, hscopes, List.dropLast_concat]
  refine Machine.eq_of_eq _ _ houter ?_
  change m.values.take (size m.outer) = _
  rw [houter, ← caller.sized, hvalues, List.take_left]

/-- With a result for its caller, it leaves the result there. -/
theorem call_return_write (caller m : Machine ν α κ) (back : κ) (result : Nat) (value : α)
    (h : Within caller back result m) (hdepth : m.scopes.length = caller.scopes.length + 1) :
    (m.write result value).leave = caller.write result value := by
  have hleave := call_return caller m back result h hdepth
  have hscopes : m.outer = caller.scopes := congrArg Machine.scopes hleave
  have hvalues : m.values.take (size m.outer) = caller.values := congrArg Machine.values hleave
  refine Machine.eq_of_eq _ _ hscopes ?_
  change (m.values.set result (some value)).take (size m.outer) = caller.values.set _ _
  rw [List.take_set, hvalues]

end Scopes
