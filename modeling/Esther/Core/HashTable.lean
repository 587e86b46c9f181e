import Esther.Core.Structures
import Esther.Lib.Probing

/-!
# The Hash Table

`hash_table.c`: which page of which process is in which frame, by a key made of both.

A slot that holds nothing has zeros in it, which is what `NULL` is converted to. The
number of slots, `CANT_MAX_FRAME`, is the length of the table.

The counter of the loop of `table_complete` is not initialized, so that the loop starts
wherever it happens to: `i` is where. A subscript that is not that of a slot has no
result.

## Main definitions

* `ElementHash`, `HashTable`: An element, and the variable `hash_table`.
* `createTableHash`: The table when the server starts.
* `createKeys`: The slot a page is first looked for in.
* `tableComplete`, `addElement`: What stores an element.
* `elementSearch`, `deleteElement`: What finds one, and what clears its slot.
-/

namespace Esther

namespace Memoria

open Probing

/-- `t_element_hash`. -/
structure ElementHash where
  idProcess : Int
  page : Int
deriving DecidableEq, Repr

/-- The variable `hash_table`. -/
abbrev HashTable := List ElementHash

/-- What an empty slot holds. -/
def ElementHash.null : ElementHash := { idProcess := 0, page := 0 }

/-- `create_table_hash`. -/
def createTableHash (marcos : Nat) : HashTable := List.replicate marcos ElementHash.null

/-- `hash_table[i]`. -/
def elementAt (table : HashTable) (i : Int) : Option ElementHash :=
  if i < 0 then none else table[i.toNat]?

/-- `sprintf` with the format `"%d"`. -/
def sprintfD (n : Int) : List Char :=
  if n < 0 then '-' :: Nat.toDigits 10 n.natAbs else Nat.toDigits 10 n.natAbs

/-- `isspace`: the blank, and the characters from the tabulator to the carriage return. -/
def isSpace (c : Char) : Bool := c.toNat == 32 || (9 ≤ c.toNat && c.toNat ≤ 13)

/-- The digits a string starts with, as a number. -/
def leadingDigits (str : List Char) : Int := Nat.ofDigitChars 10 (str.takeWhile Char.isDigit) 0

/-- `atoi`: blanks, a sign, and digits. A number that is not an `int` has no result. -/
def atoi (str : List Char) : Option Int :=
  let n := match str.dropWhile isSpace with
    | '-' :: rest => -leadingDigits rest
    | '+' :: rest => leadingDigits rest
    | rest => leadingDigits rest
  if fitsInt n then some n else none

/-- The size of `str1` and of `str2`. -/
def strSize : Nat := 15

/-- `create_keys`. Both numbers are written in `str1`, with the terminator. -/
def createKeys (table : HashTable) (page idProcess : Int) : Option Int :=
  let str := sprintfD idProcess ++ sprintfD page
  if strSize < str.length + 1 ∨ table.length = 0 then none
  else (atoi str).map fun n => n.tmod table.length

/-- `table_complete`, whose loop starts at `i`. It returns `no_final`, which is 1, at the
    first page that is zero, and `final`, which is 0, when there is none. -/
def tableComplete (table : HashTable) (i : Int) : Option Bool :=
  if table.length ≤ i then some false
  else if i < 0 then none
  else some ((table.drop i.toNat).any fun element => element.page == 0)

/-- The variables of `add_element` that its loops change. -/
structure Adding where
  table : HashTable
  keys : Nat
  finalArrays : Bool

/-- A round of the first loop of `add_element`, which tests `hash_table[keys]`. -/
def Adding.round (element : ElementHash) (s : Adding) (i : Nat) : Adding :=
  match s.table[s.keys]? with
  | none => s
  | some current =>
      if current.page = 0 then
        { table := s.table.set i element, keys := i, finalArrays := false }
      else s

/-- The second loop of `add_element`, which changes the bound it is tested against. It ends
    before it has made as many rounds as the bound was at the start. -/
def storeLoop (element : ElementHash) : Nat → Nat → HashTable → Nat → HashTable × Nat
  | 0, _, table, keys => (table, keys)
  | fuel + 1, i, table, keys =>
      if i < keys then storeLoop element fuel (i + 1) (table.set i element) i else (table, keys)

/-- `add_element`: the table afterwards, and the result. -/
def addElement (table : HashTable) (i page idPro : Int) : Option (HashTable × Int) := do
  let element := { idProcess := idPro, page := page : ElementHash }
  let complete ← tableComplete table i
  if complete then some (table, -1)
  else
    let keys ← createKeys table page idPro
    let current ← elementAt table keys
    if current.page = 0 then some (table.set keys.toNat element, keys)
    else
      let after := table.length - (keys.toNat + 1)
      let s := (List.range' (keys.toNat + 1) after).foldl (Adding.round element)
        { table := table, keys := keys.toNat, finalArrays := true }
      if s.finalArrays then
        let (table, keys) := storeLoop element s.keys 0 s.table s.keys
        some (table, keys)
      else some (s.table, s.keys)

/-- The test of `element_search`. -/
def holds (table : HashTable) (page idProcess : Int) (i : Nat) : Bool :=
  match table[i]? with
  | none => false
  | some element => element.idProcess == idProcess && element.page == page

/-- `element_search`. -/
def elementSearch (table : HashTable) (page idProcess : Int) : Option Int := do
  let keys ← createKeys table page idProcess
  let element ← elementAt table keys
  let after := table.length - (keys.toNat + 1)
  if element.idProcess = idProcess ∧ element.page = page then some keys
  else match scan (holds table page idProcess) (keys.toNat + 1) after with
    | some i => some i
    | none => match scan (holds table page idProcess) 0 keys.toNat with
      | some i => some i
      | none => some (-1)

/-- `delete_element`: the table afterwards, and the result. -/
def deleteElement (table : HashTable) (page idProcess : Int) : Option (HashTable × Bool) := do
  let indice ← elementSearch table page idProcess
  if indice = -1 then some (table, false)
  else
    let _ ← elementAt table indice
    some (table.set indice.toNat ElementHash.null, true)

/-- A call of one of the functions that change the table. -/
inductive HashOp
  | add (i page idPro : Int)
  | delete (page idProcess : Int)

end Memoria

end Esther
