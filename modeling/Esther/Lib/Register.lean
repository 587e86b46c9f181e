import Mathlib.Data.List.Basic
import Mathlib.Logic.Function.Basic

/-!
# Registers Served to Clients

Named registers that a server keeps for clients, who ask it to read and write them.

A client's calls are served in the order in which it has made them, and the calls of
different clients in any order. What makes the registers atomic is that serving a call is
one step: the calls that have been served are a history, one after the other, and the
answer to a read is the value of the last write to its register before it in the history.

A server does not have the history. It has cells, and `Holds` says that they are as good.

## Main definitions

* `Call`: A read, or a write of a value.
* `last`: The value of the last write to a register in a history.
* `Service`: The history, the calls that are waiting, and the answers.
* `Service.call`, `Service.serve`: A client makes a call; its oldest call is served.
* `Holds`: Cells have the values of the last writes.

## Theorems

* `last_append_write`, `last_append_read`: What a call changes.
* `holds_write`, `holds_read`: The cells after a call.
-/

namespace Register

/-- A read or a write of one of the registers. -/
inductive Call (κ ν : Type*)
  | read (name : κ)
  | write (name : κ) (value : ν)
deriving DecidableEq

variable {ι κ ν : Type*} [DecidableEq ι] [DecidableEq κ]

/-- The value a call writes. -/
def Call.written : Call κ ν → Option ν
  | .read _ => none
  | .write _ value => some value

/-- The value of a register after a call. -/
def Call.effect (name : κ) (value : ν) : Call κ ν → ν
  | .read _ => value
  | .write other new => if other = name then new else value

/-- The value of the last write to a register in a history, or `zero` if there is none. -/
def last (zero : ν) (name : κ) (served : List (Call κ ν)) : ν :=
  served.foldl (fun value call => call.effect name value) zero

@[simp] theorem last_nil (zero : ν) (name : κ) : last zero name [] = zero := rfl

theorem last_append_read (zero : ν) (name other : κ) (served : List (Call κ ν)) :
    last zero name (served ++ [.read other]) = last zero name served := by
  unfold last
  rw [List.foldl_append]
  rfl

theorem last_append_write (zero value : ν) (name other : κ) (served : List (Call κ ν)) :
    last zero name (served ++ [.write other value])
      = if other = name then value else last zero name served := by
  unfold last
  rw [List.foldl_append]
  rfl

/-- The calls that have been served, oldest first; those of each client that are waiting;
    and the answer each client has been given since its last call. -/
structure Service (ι κ ν : Type*) where
  served : List (Call κ ν)
  queue : ι → List (Call κ ν)
  answer : ι → Option ν

/-- A service nobody has called. -/
def Service.init : Service ι κ ν :=
  { served := [], queue := fun _ => [], answer := fun _ => none }

/-- A client makes a call. -/
def Service.call (s : Service ι κ ν) (client : ι) (call : Call κ ν) : Service ι κ ν :=
  { s with
    queue := Function.update s.queue client (s.queue client ++ [call])
    answer := Function.update s.answer client none }

/-- The oldest call of a client is served. -/
def Service.serve (zero : ν) (s : Service ι κ ν) (client : ι) : Service ι κ ν :=
  match s.queue client with
  | [] => s
  | .read name :: calls =>
      { served := s.served ++ [.read name]
        queue := Function.update s.queue client calls
        answer := Function.update s.answer client (some (last zero name s.served)) }
  | .write name value :: calls =>
      { s with
        served := s.served ++ [.write name value]
        queue := Function.update s.queue client calls }

theorem serve_read (zero : ν) (s : Service ι κ ν) (client : ι) (name : κ) (calls : List (Call κ ν))
    (h : s.queue client = .read name :: calls) :
    s.serve zero client =
      { served := s.served ++ [.read name]
        queue := Function.update s.queue client calls
        answer := Function.update s.answer client (some (last zero name s.served)) } := by
  unfold Service.serve
  rw [h]

theorem serve_write (zero value : ν) (s : Service ι κ ν) (client : ι) (name : κ)
    (calls : List (Call κ ν)) (h : s.queue client = .write name value :: calls) :
    s.serve zero client =
      { s with
        served := s.served ++ [.write name value]
        queue := Function.update s.queue client calls } := by
  unfold Service.serve
  rw [h]

/-- The cell of each register that has one has the value of the last write to it. -/
def Holds (zero : ν) (index : κ → Nat) (cells : List ν) (served : List (Call κ ν)) : Prop :=
  ∀ name, index name < cells.length → cells[index name]? = some (last zero name served)

theorem holds_replicate (zero : ν) (index : κ → Nat) (n : Nat) :
    Holds zero index (List.replicate n zero) [] := by
  intro name hname
  rw [List.length_replicate] at hname
  rw [last_nil, List.getElem?_replicate, if_pos hname]

theorem holds_read (zero : ν) (index : κ → Nat) (cells : List ν) (served : List (Call κ ν))
    (name : κ) (h : Holds zero index cells served) :
    Holds zero index cells (served ++ [.read name]) := by
  intro other hother
  rw [last_append_read]
  exact h other hother

/-- A write to the cell of its register, if no other register has the same one. -/
theorem holds_write (zero value : ν) (index : κ → Nat) (cells : List ν)
    (served : List (Call κ ν)) (name : κ) (h : Holds zero index cells served)
    (hindex : ∀ other, index other = index name → index other < cells.length → other = name) :
    Holds zero index (cells.set (index name) value) (served ++ [.write name value]) := by
  intro other hother
  rw [List.length_set] at hother
  rw [last_append_write]
  by_cases heq : name = other
  · rw [if_pos heq, ← heq, List.getElem?_set_self (heq ▸ hother)]
  · have hne : index name ≠ index other := fun hc => heq (hindex other hc.symm hother).symm
    rw [if_neg heq, List.getElem?_set_ne hne]
    exact h other hother

end Register
