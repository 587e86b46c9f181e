import Esther.Theory.HashTable
import Esther.Lib.Slots
import Esther.Lib.Transition

/-!
# Storing Pages

When the hash table is a finite map.

Three things go wrong when an element is added. The loop that looks for a free slot starts
wherever its counter happens to, and what it finds makes `add_element` return that the
table is full. A slot counts as free when its page is zero, which is also the first page
of every process. And when the home is taken nothing looks for a free slot: the element is
stored in slot 0, or, if that is the home, nowhere.

`Cumple` says of one call when none of this shows. A run all of whose calls meet it is one
of a finite map, and the first call that does not is the first that does something else.

## Main definitions

* `Registro`: The table, with the pairs that have been added and not deleted since.
* `Contrato`: What adding an element should do.
* `Exacto`: A call does what it should, and all pairs are found afterwards.
* `Cumple`: The condition on a call.

## Theorems

* `addElement_eq`: What adding an element does.
* `Fiel`: What relates the table to the pairs in it.
* `exacto_iff`: One call is exact exactly if it meets the condition.
* `storing_iff`: A run is exact exactly if its calls meet the condition.
* `storing_fails`: An empty table that is full.
-/

namespace Esther

namespace Memoria

open Probing Transition

/-! ### What adding an element does -/

/-- The first loop of `add_element` tests the home again and again. -/
theorem foldl_round (element current : ElementHash) (s : Adding) (l : List Nat)
    (hget : s.table[s.keys]? = some current) (hpage : current.page ≠ 0) :
    l.foldl (Adding.round element) s = s := by
  induction l with
  | nil => rfl
  | cons i l ih =>
      have hround : s.round element i = s := by simp only [Adding.round, hget, if_neg hpage]
      rw [List.foldl_cons, hround, ih]

/-- The second loop stores the element in slot 0, and that is the end of it. -/
theorem storeLoop_eq (element : ElementHash) (table : HashTable) (keys : Nat) :
    storeLoop element keys 0 table keys = if keys = 0 then (table, 0) else
      (table.set 0 element, 0) := by
  cases keys with
  | zero => rfl
  | succ keys =>
      rw [storeLoop, if_pos (Nat.succ_pos keys), if_neg (Nat.succ_ne_zero keys)]
      cases keys with
      | zero => rfl
      | succ keys => rw [storeLoop, if_neg (by omega)]

/-- There is a page 0 from slot `i` on. -/
def HuecoDesde (table : HashTable) (i : Int) : Prop :=
  ∃ j : Nat, i ≤ j ∧ ∃ element, table[j]? = some element ∧ element.page = 0

theorem tableComplete_hueco (table : HashTable) (i : Int) (hi : 0 ≤ i)
    (h : HuecoDesde table i) : tableComplete table i = some true := by
  rcases h with ⟨j, hij, element, hget, hpage⟩
  rcases List.getElem?_eq_some_iff.mp hget with ⟨hj, _⟩
  rw [tableComplete, if_neg (by omega), if_neg (by omega), Option.some.injEq, List.any_eq_true]
  refine ⟨element, List.mem_iff_getElem?.mpr ⟨j - i.toNat, ?_⟩, beq_iff_eq.mpr hpage⟩
  rw [List.getElem?_drop, ← hget]
  congr 1
  omega

theorem tableComplete_lleno (table : HashTable) (i : Int) (hi : 0 ≤ i)
    (h : ¬ HuecoDesde table i) : tableComplete table i = some false := by
  unfold tableComplete
  split
  next => rfl
  next hlt =>
    rw [if_neg (by omega), Option.some.injEq, List.any_eq_false]
    intro element hmem hpage
    rcases List.mem_iff_getElem?.mp hmem with ⟨j, hget⟩
    rw [List.getElem?_drop] at hget
    exact h ⟨i.toNat + j, by omega, element, hget, beq_iff_eq.mp hpage⟩

/-- A counter that starts below zero is not a subscript. -/
theorem addElement_none (table : HashTable) (i page idPro : Int) (hi : i < 0) :
    addElement table i page idPro = none := by
  have hcomplete : tableComplete table i = none := by
    rw [tableComplete, if_neg (by omega), if_pos hi]
  simp only [addElement, hcomplete, Option.bind_eq_bind, Option.bind_none]

/-- A page 0 from where the loop starts on makes the table full. -/
theorem addElement_hueco (table : HashTable) (i page idPro : Int) (hi : 0 ≤ i)
    (h : HuecoDesde table i) : addElement table i page idPro = some (table, -1) := by
  simp only [addElement, tableComplete_hueco table i hi h, Option.bind_eq_bind, Option.bind_some,
    if_true]

/-- Otherwise the home is looked at, and if it is taken slot 0 is. -/
theorem addElement_eq (table : HashTable) (i page idPro : Int) (keys : Nat)
    (current : ElementHash) (hi : 0 ≤ i) (h : ¬ HuecoDesde table i)
    (hkeys : createKeys table page idPro = some (keys : Int)) (hget : table[keys]? = some current) :
    addElement table i page idPro = some (
      if current.page = 0 then (table.set keys { idProcess := idPro, page := page }, (keys : Int))
      else if keys = 0 then (table, 0)
      else (table.set 0 { idProcess := idPro, page := page }, 0)) := by
  simp only [addElement, tableComplete_lleno table i hi h, hkeys, elementAt_nat, hget,
    Option.bind_eq_bind, Option.bind_some, Bool.false_eq_true, if_false, Int.toNat_natCast]
  by_cases hpage : current.page = 0
  · rw [if_pos hpage, if_pos hpage]
  · rw [if_neg hpage, if_neg hpage, foldl_round _ current _ _ hget hpage]
    simp only [if_true, storeLoop_eq]
    split
    next => rfl
    next => rfl

/-! ### What it should do -/

/-- A live element is one of a process. -/
def vivo (element : ElementHash) : Bool := element.idProcess != 0

/-- A free slot is one that has no live element. -/
def libre (table : HashTable) (i : Nat) : Bool :=
  match table[i]? with
  | some element => !vivo element
  | none => false

/-- What `add_element` should do: return -1 if all slots hold live elements, and otherwise store
    the element in the first free slot from its home on and return the slot. -/
structure Contrato (table : HashTable) (page idPro : Int) (table' : HashTable) (r : Int) :
    Prop where
  lleno : r = -1 ↔ ∀ element ∈ table, vivo element = true
  guarda : r ≠ -1 → ∃ keys k : Nat, createKeys table page idPro = some (keys : Int) ∧
    k < table.length ∧ r = ((keys + k) % table.length : Nat) ∧
    libre table ((keys + k) % table.length) = true ∧
    (∀ j < k, libre table ((keys + j) % table.length) = false) ∧
    table' = table.set ((keys + k) % table.length) { idProcess := idPro, page := page }
  conserva : r = -1 → table' = table

/-- The table after an element is stored in the slot that is found, and the result. -/
def agregar (table : HashTable) (element : ElementHash) : Option Nat → HashTable × Int
  | some i => (table.set i element, i)
  | none => (table, -1)

theorem vivos_iff (table : HashTable) (keys : Nat) (hlt : keys < table.length) :
    (∀ element ∈ table, vivo element = true) ↔ first table.length keys (libre table) = none := by
  rw [first_eq_none _ _ _ hlt, List.forall_mem_iff_forall_getElem]
  refine forall_congr' fun i => forall_congr' fun hi => ?_
  rw [libre, List.getElem?_eq_getElem hi, Bool.not_eq_false']

/-- The contract is about the first free slot. -/
theorem contrato_iff (table : HashTable) (page idPro : Int) (keys : Nat) (table' : HashTable)
    (r : Int) (hkeys : createKeys table page idPro = some (keys : Int))
    (hlt : keys < table.length) :
    Contrato table page idPro table' r ↔
      (table', r) = agregar table { idProcess := idPro, page := page }
        (first table.length keys (libre table)) := by
  constructor
  · rintro ⟨hlleno, hguarda, hconserva⟩
    by_cases hr : r = -1
    · -- The table is full, so there is no free slot.
      rw [(vivos_iff table keys hlt).mp (hlleno.mp hr), hconserva hr, hr]
      rfl
    · rcases hguarda hr with ⟨keys', k, hkeys', hk, rfl, hlibre, hantes, rfl⟩
      obtain rfl : keys = keys' := by
        rw [hkeys, Option.some.injEq, Int.natCast_inj] at hkeys'
        exact hkeys'
      rw [(first_eq_some _ _ _ _).mpr ⟨k, hk, rfl, hlibre, hantes⟩]
      rfl
  · intro h
    cases hfirst : first table.length keys (libre table) with
    | none =>
        rw [hfirst] at h
        obtain ⟨rfl, rfl⟩ := Prod.mk.inj h
        refine ⟨?_, fun hr => absurd rfl hr, fun _ => rfl⟩
        exact iff_of_true rfl ((vivos_iff _ keys hlt).mpr hfirst)
    | some i =>
        rw [hfirst] at h
        obtain ⟨rfl, rfl⟩ := Prod.mk.inj h
        have hpos : ((i : Int) = -1) ↔ False := iff_of_false (by omega) id
        rcases (first_eq_some _ _ _ _).mp hfirst with ⟨k, hk, rfl, hlibre, hantes⟩
        refine ⟨?_, fun _ => ⟨keys, k, hkeys, hk, rfl, hlibre, hantes, rfl⟩, ?_⟩
        · rw [hpos, vivos_iff table keys hlt, hfirst]
          simp only [reduceCtorEq]
        · intro hr
          exact absurd hr (fun hr => hpos.mp hr)

/-! ### Runs -/

/-- The table, with the pairs of page and process that are in it. -/
structure Registro where
  table : HashTable
  presentes : List (Int × Int)

/-- What `create_table_hash` leaves. -/
def Registro.init (marcos : Nat) : Registro :=
  { table := createTableHash marcos, presentes := [] }

/-- A call. A pair has been added unless the result is -1. -/
def anotar (s : Registro) : HashOp → Option Registro
  | .add i page idPro => (addElement s.table i page idPro).map fun (table, r) =>
      { table := table, presentes := if r = -1 then s.presentes else (page, idPro) :: s.presentes }
  | .delete page idProcess => (deleteElement s.table page idProcess).map fun (table, _) =>
      { table := table, presentes := s.presentes.filter fun par => par != (page, idProcess) }

/-- The calls there are: no pair is added while it is present. -/
def Valida (s : Registro) : HashOp → Prop
  | .add _ page idPro => Clave page idPro ∧ (page, idPro) ∉ s.presentes
  | .delete page idProcess => Clave page idProcess

/-- A pair is found exactly if it is present. -/
def Encuentra (s : Registro) : Prop :=
  ∀ page idProcess, Clave page idProcess → ∃ r, elementSearch s.table page idProcess = some r ∧
    (r ≠ -1 ↔ (page, idProcess) ∈ s.presentes)

/-- A call does what it should, and all pairs are found afterwards. -/
def Exacta (s : Registro) (op : HashOp) : Prop :=
  (match op with
    | .add i page idPro => ∃ table r, addElement s.table i page idPro = some (table, r) ∧
        Contrato s.table page idPro table r
    | .delete page idProcess => ∃ r, elementSearch s.table page idProcess = some r ∧
        ∃ table borrado, deleteElement s.table page idProcess = some (table, borrado) ∧
          Borra s.table r table borrado ∧
          (borrado = true ↔ (page, idProcess) ∈ s.presentes)) ∧
    ∀ u, anotar s op = some u → Encuentra u

/-- The condition on a call: the counter of `table_complete` is not negative, and either it
    starts before a page 0 and the table is full, or it does not and the element can go to
    its home, or to slot 0 from a home with a page other than 0. -/
def Cumple (s : Registro) : HashOp → Prop
  | .add i page idPro => 0 ≤ i ∧ ∃ (keys : Nat) (current : ElementHash),
      createKeys s.table page idPro = some (keys : Int) ∧ s.table[keys]? = some current ∧
      (HuecoDesde s.table i ∧ (∀ element ∈ s.table, vivo element = true) ∨
        ¬ HuecoDesde s.table i ∧ (libre s.table keys = true ∨
          current.page ≠ 0 ∧ first s.table.length keys (libre s.table) = some 0))
  | .delete _ _ => True

/-! ### The table and the pairs in it -/

/-- The element a slot holds, if it is a live one. -/
def etiqueta (element : ElementHash) : Option ElementHash :=
  if vivo element then some element else none

/-- What relates the table to the pairs in it: slots are empty or hold pairs, no two of them the
    same one, and the pairs are those that are present. -/
structure Fiel (s : Registro) : Prop where
  marcos : 1 ≤ s.table.length
  validos : ∀ element ∈ s.table, element = ElementHash.null ∨ Clave element.page element.idProcess
  distintos : Slots.Distinct etiqueta s.table
  presentes : ∀ page idProcess, Clave page idProcess →
    ((page, idProcess) ∈ s.presentes ↔ { idProcess := idProcess, page := page } ∈ s.table)

theorem clave_vivo (element : ElementHash) (h : Clave element.page element.idProcess) :
    vivo element = true := by
  have hproceso := h.proceso.1
  rw [vivo, bne_iff_ne]
  omega

theorem etiqueta_vivo (element : ElementHash) (h : vivo element = true) :
    etiqueta element = some element := by
  rw [etiqueta, if_pos h]

theorem fiel_init (marcos : Nat) (h : 1 ≤ marcos) : Fiel (Registro.init marcos) := by
  have hnull : ∀ element ∈ createTableHash marcos, element = ElementHash.null :=
    fun element hmem => List.eq_of_mem_replicate hmem
  refine ⟨?_, fun element hmem => Or.inl (hnull element hmem), ?_, ?_⟩
  · show 1 ≤ (List.replicate marcos ElementHash.null).length
    rw [List.length_replicate]
    exact h
  · refine Slots.distinct_of_blank etiqueta _ ?_
    intro element hmem
    rw [hnull element hmem]
    rfl
  · intro page idProcess hclave
    refine iff_of_false List.not_mem_nil fun hmem => ?_
    have hproceso := hclave.proceso.1
    have hzero : idProcess = 0 := congrArg ElementHash.idProcess (hnull _ hmem)
    omega

theorem fiel_encuentra (s : Registro) (h : Fiel s) : Encuentra s := by
  intro page idProcess hclave
  rcases createKeys_lt s.table page idProcess h.marcos hclave with ⟨keys, hkeys, hlt⟩
  refine ⟨_, elementSearch_eq s.table page idProcess keys hkeys hlt, ?_⟩
  rw [h.presentes page idProcess hclave, ne_eq,
    (busca_first s.table page idProcess keys hlt).ausente]
  constructor
  · intro hnone
    by_contra hmem
    exact hnone fun element helement heq => hmem (heq ▸ helement)
  · exact fun hmem hnone => hnone _ hmem rfl

/-- A free slot is empty. -/
theorem fiel_libre (s : Registro) (h : Fiel s) (i : Nat) (hi : libre s.table i = true) :
    s.table[i]? = some ElementHash.null := by
  unfold libre at hi
  split at hi
  next element hget =>
    rcases h.validos element (List.mem_of_getElem? hget) with rfl | hclave
    · exact hget
    · rw [clave_vivo element hclave] at hi
      exact absurd hi Bool.false_ne_true
  next => exact absurd hi Bool.false_ne_true

/-- A page other than 0 is that of a live element. -/
theorem fiel_vivo (s : Registro) (h : Fiel s) (i : Nat) (current : ElementHash)
    (hget : s.table[i]? = some current) (hpage : current.page ≠ 0) :
    libre s.table i = false := by
  rcases h.validos current (List.mem_of_getElem? hget) with rfl | hclave
  · exact absurd rfl hpage
  · rw [libre, hget]
    exact Bool.not_eq_false' .. ▸ clave_vivo current hclave

/-- An element is stored in a free slot. -/
theorem fiel_agregar (s : Registro) (h : Fiel s) (page idPro : Int) (hclave : Clave page idPro)
    (hfuera : (page, idPro) ∉ s.presentes) (i : Nat) (hi : libre s.table i = true) :
    Fiel { table := s.table.set i { idProcess := idPro, page := page }
           presentes := (page, idPro) :: s.presentes } := by
  have hvivo : vivo { idProcess := idPro, page := page } = true := clave_vivo _ hclave
  rcases Slots.set_perm s.table i ElementHash.null { idProcess := idPro, page := page }
    (fiel_libre s h i hi) with ⟨rest, hperm, hperm'⟩
  have hnuevo : ∀ element ∈ rest, element ∈ s.table := fun element hmem =>
    hperm.mem_iff.mpr (List.mem_cons_of_mem _ hmem)
  refine ⟨?_, ?_, ?_, ?_⟩
  · rw [List.length_set]
    exact h.marcos
  · intro element hmem
    rcases List.mem_cons.mp (hperm'.mem_iff.mp hmem) with rfl | hrest
    · exact Or.inr hclave
    · exact h.validos element (hnuevo element hrest)
  · refine Slots.distinct_perm etiqueta _ _ hperm'.symm ?_
    refine Slots.distinct_refill etiqueta ElementHash.null _ rest _
      (Slots.distinct_perm etiqueta _ _ hperm h.distintos) (etiqueta_vivo _ hvivo) (Or.inr ?_)
    intro element hmem hetiqueta
    -- The pair would be in the table already.
    have heq : element = { idProcess := idPro, page := page } := by
      unfold etiqueta at hetiqueta
      split at hetiqueta
      next => exact Option.some.inj hetiqueta
      next => exact absurd hetiqueta.symm (Option.some_ne_none _)
    exact hfuera ((h.presentes page idPro hclave).mpr (heq ▸ hnuevo element hmem))
  · intro page' idProcess' hclave'
    rw [List.mem_cons, h.presentes page' idProcess' hclave', hperm'.mem_iff, List.mem_cons,
      hperm.mem_iff, List.mem_cons]
    have hnull : ({ idProcess := idProcess', page := page' } : ElementHash) ≠ ElementHash.null := by
      intro hnull
      have hzero : idProcess' = 0 := congrArg ElementHash.idProcess hnull
      have hproceso := hclave'.proceso.1
      omega
    simp only [Prod.mk.injEq, ElementHash.mk.injEq, hnull, false_or]
    exact or_congr_left And.comm

/-- The slot of a live element is cleared. -/
theorem fiel_borrar (s : Registro) (h : Fiel s) (page idProcess : Int)
    (hclave : Clave page idProcess) (i : Nat)
    (hget : s.table[i]? = some { idProcess := idProcess, page := page }) :
    Fiel { table := s.table.set i ElementHash.null
           presentes := s.presentes.filter fun par => par != (page, idProcess) } := by
  have hvivo : vivo { idProcess := idProcess, page := page } = true := clave_vivo _ hclave
  rcases Slots.set_perm s.table i _ ElementHash.null hget with ⟨rest, hperm, hperm'⟩
  have hdistintos := Slots.distinct_perm etiqueta _ _ hperm h.distintos
  refine ⟨?_, ?_, ?_, ?_⟩
  · rw [List.length_set]
    exact h.marcos
  · intro element hmem
    rcases List.mem_cons.mp (hperm'.mem_iff.mp hmem) with rfl | hrest
    · exact Or.inl rfl
    · exact h.validos element (hperm.mem_iff.mpr (List.mem_cons_of_mem _ hrest))
  · refine Slots.distinct_perm etiqueta _ _ hperm'.symm ?_
    exact Slots.distinct_empty etiqueta _ _ rest hdistintos rfl
  · intro page' idProcess' hclave'
    have hvivo' : vivo { idProcess := idProcess', page := page' } = true := clave_vivo _ hclave'
    have hnull : ({ idProcess := idProcess', page := page' } : ElementHash) ≠ ElementHash.null := by
      intro hnull
      rw [hnull] at hvivo'
      exact absurd hvivo' (by decide)
    rw [List.mem_filter, h.presentes page' idProcess' hclave', hperm'.mem_iff, List.mem_cons,
      hperm.mem_iff, List.mem_cons, bne_iff_ne]
    constructor
    · rintro ⟨heq | hrest, hne⟩
      · exact absurd (by rw [ElementHash.mk.injEq] at heq; rw [heq.1, heq.2]) hne
      · exact Or.inr hrest
    · rintro (heq | hrest)
      · exact absurd heq hnull
      · refine ⟨Or.inr hrest, fun hpar => ?_⟩
        -- The pair was in one slot only.
        obtain ⟨rfl, rfl⟩ := Prod.mk.inj hpar
        exact Slots.distinct_fresh etiqueta _ rest _ hdistintos (etiqueta_vivo _ hvivo) _ hrest
          (etiqueta_vivo _ hvivo)

/-! ### One call -/

/-- Adding an element keeps the contract exactly if the call meets the condition. -/
theorem contrato_add (s : Registro) (h : Fiel s) (i page idPro : Int)
    (hclave : Clave page idPro) :
    (∃ table r, addElement s.table i page idPro = some (table, r) ∧
      Contrato s.table page idPro table r) ↔ Cumple s (.add i page idPro) := by
  rcases createKeys_lt s.table page idPro h.marcos hclave with ⟨keys, hkeys, hlt⟩
  have hget : s.table[keys]? = some s.table[keys] := List.getElem?_eq_getElem hlt
  have hresult : ∀ result, addElement s.table i page idPro = some result →
      ((∃ table r, addElement s.table i page idPro = some (table, r) ∧
        Contrato s.table page idPro table r) ↔
        result = agregar s.table { idProcess := idPro, page := page }
          (first s.table.length keys (libre s.table))) := by
    rintro ⟨table', r'⟩ hadd
    rw [← contrato_iff s.table page idPro keys table' r' hkeys hlt]
    constructor
    · rintro ⟨table, r, hadd', hcontrato⟩
      rw [hadd, Option.some.injEq, Prod.mk.injEq] at hadd'
      rw [hadd'.1, hadd'.2]
      exact hcontrato
    · exact fun hcontrato => ⟨table', r', hadd, hcontrato⟩
  -- The home and what it holds are those of the condition.
  have hcumple : Cumple s (.add i page idPro) ↔ 0 ≤ i ∧
      (HuecoDesde s.table i ∧ (∀ element ∈ s.table, vivo element = true) ∨
        ¬ HuecoDesde s.table i ∧ (libre s.table keys = true ∨
          s.table[keys].page ≠ 0 ∧ first s.table.length keys (libre s.table) = some 0)) := by
    constructor
    · rintro ⟨hi, keys', current, hkeys', hcurrent, hcases⟩
      rw [hkeys, Option.some.injEq, Int.natCast_inj] at hkeys'
      subst hkeys'
      rw [hget, Option.some.injEq] at hcurrent
      subst hcurrent
      exact ⟨hi, hcases⟩
    · rintro ⟨hi, hcases⟩
      exact ⟨hi, keys, _, hkeys, hget, hcases⟩
  rw [hcumple]
  by_cases hi : 0 ≤ i
  · rw [and_iff_right hi]
    by_cases hhueco : HuecoDesde s.table i
    · -- The result is -1, and nothing changes.
      rw [hresult _ (addElement_hueco s.table i page idPro hi hhueco), vivos_iff s.table keys hlt]
      simp only [hhueco, true_and, not_true_eq_false, false_and, or_false]
      cases first s.table.length keys (libre s.table) with
      | none => exact iff_of_true rfl rfl
      | some j =>
          exact iff_of_false (fun heq => nomatch congrArg Prod.snd heq) (fun heq => nomatch heq)
    · rw [hresult _ (addElement_eq s.table i page idPro keys _ hi hhueco hkeys hget)]
      simp only [hhueco, false_and, not_false_eq_true, true_and, false_or]
      by_cases hpage : s.table[keys].page = 0
      · -- The element goes to its home, whatever is there.
        rw [if_pos hpage]
        simp only [hpage, ne_eq, not_true_eq_false, false_and, or_false]
        constructor
        · intro heq
          cases hfirst : first s.table.length keys (libre s.table) with
          | none =>
              rw [hfirst] at heq
              exact nomatch congrArg Prod.snd heq
          | some j =>
              rw [hfirst] at heq
              have hj : keys = j := Int.ofNat_inj.mp (congrArg Prod.snd heq)
              exact hj ▸ (first_lt _ _ _ _ hlt hfirst).2
        · intro hlibre
          rw [first_home _ _ _ hlt hlibre]
          rfl
      · -- The home is taken, and the element goes to slot 0 unless that is the home.
        have hocupada : libre s.table keys = false := fiel_vivo s h keys _ hget hpage
        rw [if_neg hpage]
        simp only [hocupada, Bool.false_eq_true, false_or, ne_eq, hpage, not_false_eq_true,
          true_and]
        constructor
        · intro heq
          cases hfirst : first s.table.length keys (libre s.table) with
          | none =>
              rw [hfirst] at heq
              split at heq
              next => exact nomatch congrArg Prod.snd heq
              next => exact nomatch congrArg Prod.snd heq
          | some j =>
              rw [hfirst] at heq
              have hj : (0 : Int) = j := by
                split at heq
                next => exact congrArg Prod.snd heq
                next => exact congrArg Prod.snd heq
              rw [Int.ofNat_inj.mp hj.symm]
        · intro hfirst
          have hkeys0 : keys ≠ 0 := by
            rintro rfl
            rw [(first_lt _ _ _ _ hlt hfirst).2] at hocupada
            exact Bool.false_ne_true hocupada.symm
          rw [if_neg hkeys0, hfirst]
          rfl
  · refine iff_of_false ?_ fun hall => hi hall.1
    rintro ⟨table, r, hadd, _⟩
    rw [addElement_none s.table i page idPro (by omega)] at hadd
    exact absurd hadd.symm (Option.some_ne_none _)

/-- A call that meets the condition keeps the table and the pairs in it together. -/
theorem fiel_step (s u : Registro) (op : HashOp) (h : Fiel s) (hvalida : Valida s op)
    (hcumple : Cumple s op) (hu : anotar s op = some u) : Fiel u := by
  cases op with
  | add i page idPro =>
      rcases hvalida with ⟨hclave, hfuera⟩
      rcases (contrato_add s h i page idPro hclave).mpr hcumple with ⟨table, r, hadd, hcontrato⟩
      rcases createKeys_lt s.table page idPro h.marcos hclave with ⟨keys, hkeys, hlt⟩
      have heq := (contrato_iff s.table page idPro keys table r hkeys hlt).mp hcontrato
      simp only [anotar, hadd, Option.map_some, Option.some.injEq] at hu
      subst hu
      cases hfirst : first s.table.length keys (libre s.table) with
      | none =>
          rw [hfirst] at heq
          obtain ⟨rfl, rfl⟩ := Prod.mk.inj heq
          exact h
      | some j =>
          rw [hfirst] at heq
          obtain ⟨rfl, rfl⟩ := Prod.mk.inj heq
          have hlibre := (first_lt _ _ _ _ hlt hfirst).2
          rw [if_neg (by omega)]
          exact fiel_agregar s h page idPro hclave hfuera j hlibre
  | delete page idProcess =>
      rcases createKeys_lt s.table page idProcess h.marcos hvalida with ⟨keys, hkeys, hlt⟩
      simp only [anotar, deleteElement_eq s.table page idProcess keys hkeys hlt, Option.map_some,
        Option.some.injEq] at hu
      subst hu
      cases hfirst : first s.table.length keys (holds s.table page idProcess) with
      | none =>
          -- The pair is not there, neither in the table nor among those present.
          have hausente := (busca_first s.table page idProcess keys hlt).ausente.mp
            ((indice_eq _).mpr hfirst)
          have hfuera : (page, idProcess) ∉ s.presentes := fun hmem =>
            hausente _ ((h.presentes page idProcess hvalida).mp hmem) rfl
          have hmisma : s.presentes.filter (fun par => par != (page, idProcess)) = s.presentes := by
            rw [List.filter_eq_self]
            intro par hpar
            rw [bne_iff_ne]
            exact fun heq => hfuera (heq ▸ hpar)
          rw [hmisma]
          exact h
      | some j =>
          have hholds := (holds_iff _ _ _ _).mp (first_lt _ _ _ _ hlt hfirst).2
          exact fiel_borrar s h page idProcess hvalida j hholds

/-- One call is exact exactly if it meets the condition. -/
theorem exacta_iff (s : Registro) (op : HashOp) (h : Fiel s) (hvalida : Valida s op) :
    Exacta s op ↔ Cumple s op := by
  have hdespues : Cumple s op → ∀ u, anotar s op = some u → Encuentra u := fun hcumple u hu =>
    fiel_encuentra u (fiel_step s u op h hvalida hcumple hu)
  cases op with
  | add i page idPro =>
      have hcontrato := contrato_add s h i page idPro hvalida.1
      exact ⟨fun hexacta => hcontrato.mp hexacta.1, fun hcumple =>
        ⟨hcontrato.mpr hcumple, hdespues hcumple⟩⟩
  | delete page idProcess =>
      refine iff_of_true ⟨?_, hdespues trivial⟩ trivial
      rcases createKeys_lt s.table page idProcess h.marcos hvalida with ⟨keys, hkeys, hlt⟩
      rcases borra_first s.table page idProcess keys hkeys hlt with
        ⟨table, borrado, hdelete, hborra⟩
      refine ⟨_, elementSearch_eq s.table page idProcess keys hkeys hlt, table, borrado, hdelete,
        hborra, ?_⟩
      rcases fiel_encuentra s h page idProcess hvalida with ⟨r, hsearch, hpresente⟩
      rw [elementSearch_eq s.table page idProcess keys hkeys hlt, Option.some.injEq] at hsearch
      rw [hborra.exito, hsearch, hpresente]

/-- From a new table, all calls are exact exactly if all of them meet the condition. -/
theorem storing_iff (marcos : Nat) (ops : List HashOp) (hmarcos : 1 ≤ marcos)
    (hvalidas : Along anotar Valida (Registro.init marcos) ops) :
    Encuentra (Registro.init marcos) ∧ Along anotar Exacta (Registro.init marcos) ops ↔
      Along anotar Cumple (Registro.init marcos) ops := by
  have hinit := fiel_init marcos hmarcos
  rw [and_iff_right (fiel_encuentra _ hinit)]
  exact along_iff_kept anotar Valida Cumple Exacta Fiel
    (fun s op u h hvalida hcumple hu => fiel_step s u op h hvalida hcumple hu)
    (fun s op h hvalida => exacta_iff s op h hvalida) _ ops hinit hvalidas

/-- Two slots and one page, with a counter that is past the end: the page is stored. -/
theorem storing_iff_past :
    Encuentra (Registro.init 2) ∧ Along anotar Exacta (Registro.init 2) [.add 2 5 1] := by
  have hclave : Clave 5 1 := ⟨by decide, by decide⟩
  have hvalidas : Along anotar Valida (Registro.init 2) [.add 2 5 1] :=
    ⟨⟨hclave, List.not_mem_nil⟩, fun _ _ => trivial⟩
  refine (storing_iff 2 [.add 2 5 1] (by decide) hvalidas).mpr ⟨?_, fun _ _ => trivial⟩
  refine ⟨by decide, 1, ElementHash.null, by decide, rfl, Or.inr ⟨?_, Or.inl rfl⟩⟩
  rintro ⟨j, hj, element, hget, _⟩
  have hlt : j < 2 := (List.getElem?_eq_some_iff.mp hget).1
  omega

/-- With a counter that starts at the first slot an empty table is full: nothing is stored. -/
theorem storing_fails :
    Along anotar Valida (Registro.init 2) [.add 0 5 1] ∧
      addElement (createTableHash 2) 0 5 1 = some (createTableHash 2, -1) ∧
      ¬ Along anotar Exacta (Registro.init 2) [.add 0 5 1] := by
  have hadd : addElement (createTableHash 2) 0 5 1 = some (createTableHash 2, -1) := by decide
  refine ⟨⟨⟨⟨by decide, by decide⟩, List.not_mem_nil⟩, fun _ _ => trivial⟩, hadd, ?_⟩
  rintro ⟨⟨⟨table, r, hadd', hcontrato⟩, _⟩, _⟩
  have hr : r = -1 := by
    have heq := hadd.symm.trans hadd'
    rw [Option.some.injEq, Prod.mk.injEq] at heq
    exact heq.2.symm
  exact Bool.false_ne_true (hcontrato.lleno.mp hr ElementHash.null List.mem_cons_self)

end Memoria

end Esther
