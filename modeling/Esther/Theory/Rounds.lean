import Esther.Core.Hebras

/-!
# A Request on Its Own

What a thread of the memory server does step by step, with nobody else at work, is what
`cli_thread` does in one piece.

A request under way has done something already, and what it will still do is known: the rest of
the rows to be counted, given or taken away, the rest of the search, the rest of the copy. A
step does a part of this and leaves the rest. So what is left does not change, if what has been
done is taken with it, and at the beginning it is the whole request.

## Main definitions

* `Traslado.acaba`, `Traslado.sigue`: The rest of a read or a store.
* `Hebra.resto`: What the request under way still does, in one piece.
* `Continua`: A step, and the rest of the request.

## Theorems

* `resto_cuenta`, `resto_asigna`, `resto_limpia`, `resto_busca`, `resto_copia`: The loops.
* `sigue_lee`, `sigue_guarda`: A read and a store whose frame is known.
* `resto_iniPro`, `resto_finPro`, `resto_solBytPag`, `resto_almBytPag`: How a request begins.
* `resto_espera`: The step that takes a request.
* `resto_avanza`: Every step.
-/

namespace Esther

namespace Memoria

open Cells Serial

/-- What is done once the frame is known: the rest of the copy, and the reply. -/
def Traslado.acaba (a : Traslado) (frame : Int) (j n : Nat) (server : ServerState) (h : Hebra) :
    ServerState × Hebra :=
  let base := frame * server.marcoSize + a.offset
  match a.dato with
  | none =>
      let buffer := copy h.conn.buffer server.main j (base + j) n
      (server, h.envia (a.respuesta true { h.conn with buffer := buffer }))
  | some dato =>
      ({ server with main := copy server.main dato (base + j) j n },
        h.envia (a.respuesta true h.conn))

/-- What the request under way still does, in one piece. -/
def Hebra.resto (server : ServerState) (h : Hebra) : Option (ServerState × Hebra) :=
  match h.fase with
  | .espera => h.atiende server
  | .cuenta pid pages i r =>
      if ((r + freeRows (server.pageTable.drop i) : Nat) : Int) < pages then
        some (server, h.envia (h.conn.replyInt 0))
      else
        some ({ server with pageTable := assignPages pid server.pageTable pages.toNat },
          h.envia (h.conn.replyInt 1))
  | .asigna pid pages i =>
      some ({ server with
          pageTable :=
            server.pageTable.take i ++ assignPages pid (server.pageTable.drop i) pages },
        h.envia (h.conn.replyInt 1))
  | .limpia pid i =>
      some ({ server with
          pageTable := server.pageTable.take i ++ (server.pageTable.drop i).map fun row =>
            if row.pid == pid then { pid := 0, page := 0 } else row },
        h.envia (h.conn.replyInt 1))
  | .contesta _ res => some (server, h.envia (h.conn.replyInt res))
  | .busca a _ i =>
      let frame : Int :=
        match (server.pageTable.drop i).findIdx? fun row =>
          row.pid == a.pid && row.page == a.page with
        | some k => ((i + k : Nat) : Int)
        | none => 0
      match a.conFrame frame with
      | some (.copia a frame j) => some (a.acaba frame j a.size.toNat server h)
      | some (.entrega a _ ok) => some (server, h.envia (a.respuesta ok h.conn))
      | _ => none
  | .copia a frame j => some (a.acaba frame j (a.size.toNat - j) server h)
  | .entrega a _ ok => some (server, h.envia (a.respuesta ok h.conn))
  | .cerrada => none

/-- A row, and those after it. -/
theorem drop_of_some (table : PageTable) (i : Nat) (row : Row) (h : table[i]? = some row) :
    table.drop i = row :: table.drop (i + 1) := by
  rcases List.getElem?_eq_some_iff.mp h with ⟨hi, rfl⟩
  exact List.drop_eq_getElem_cons hi

theorem drop_of_none (table : PageTable) (i : Nat) (h : table[i]? = none) :
    table.drop i = [] ∧ table.take i = table := by
  have hi := List.getElem?_eq_none_iff.mp h
  exact ⟨List.drop_eq_nil_of_le hi, List.take_of_length_le hi⟩

theorem take_of_some (table : PageTable) (i : Nat) (row : Row) (h : table[i]? = some row) :
    table.take (i + 1) = table.take i ++ [row] := by
  rcases List.getElem?_eq_some_iff.mp h with ⟨hi, rfl⟩
  exact (List.take_concat_get' table i hi).symm

/-- A row that has been written is the last of those gone through. -/
theorem take_set (table : PageTable) (i : Nat) (row row' : Row) (h : table[i]? = some row) :
    (table.set i row').take (i + 1) = table.take i ++ [row'] := by
  rcases List.getElem?_eq_some_iff.mp h with ⟨hi, -⟩
  rw [take_of_some (table.set i row') i row' (by rw [List.getElem?_set_self hi])]
  rw [List.take_set_of_le (Nat.le_refl i)]

theorem assignPages_zero (pid : Int) (table : PageTable) : assignPages pid table 0 = table := by
  cases table with
  | nil => rfl
  | cons row table => rfl

/-- Once the frame is known there is a copy to be made, or nothing. -/
theorem conFrame_cases (a : Traslado) (frame : Int) (fase : Fase)
    (h : a.conFrame frame = some fase) :
    fase = .entrega a frame false ∨ fase = .copia a frame 0 := by
  unfold Traslado.conFrame at h
  split at h
  · exact Or.inl (Option.some.inj h).symm
  split at h
  · exact Or.inl (Option.some.inj h).symm
  split at h
  · exact absurd h (by simp only [reduceCtorEq, not_false_eq_true])
  · exact Or.inr (Option.some.inj h).symm

/-- The rest of a request whose frame is known. -/
def Traslado.sigue (a : Traslado) (frame : Int) (server : ServerState) (h : Hebra) :
    Option (ServerState × Hebra) :=
  match a.conFrame frame with
  | some (.copia a frame j) => some (a.acaba frame j a.size.toNat server h)
  | some (.entrega a _ ok) => some (server, h.envia (a.respuesta ok h.conn))
  | _ => none

theorem resto_conFrame (a : Traslado) (frame : Int) (fase : Fase) (server : ServerState)
    (h : Hebra) (hfase : a.conFrame frame = some fase) :
    ¬ fase.Ociosa ∧ a.sigue frame server h = Hebra.resto server { h with fase := fase } := by
  unfold Traslado.sigue
  rw [hfase]
  rcases conFrame_cases a frame fase hfase with rfl | rfl
  · exact ⟨id, rfl⟩
  · exact ⟨id, rfl⟩

/-- What a step is to the rest of the request: if it ends the request, it does what was left of
    it; if it does not, the same is done by it and the rest. -/
def Continua (server server' : ServerState) (h h' : Hebra) : Prop :=
  (h'.fase.Ociosa → h.resto server = some (server', h')) ∧
    (¬ h'.fase.Ociosa → h.resto server = h'.resto server')

/-- A row is counted, or all of them are. -/
theorem resto_cuenta (server server' : ServerState) (h h' : Hebra) (pid pages : Int) (i r : Nat)
    (hf : h.fase = .cuenta pid pages i r) (hstep : h.avanza server = some (server', h')) :
    Continua server server' h h' := by
  unfold Hebra.avanza at hstep
  simp only [hf] at hstep
  rcases hrow : server.pageTable[i]? with _ | row
  · simp only [hrow] at hstep
    have hfree : freeRows (server.pageTable.drop i) = 0 := by
      rw [(drop_of_none server.pageTable i hrow).1]
      rfl
    by_cases hless : (r : Int) < pages
    · -- Too few are free, and the request is refused.
      rw [if_pos hless, Option.some.injEq, Prod.mk.injEq] at hstep
      rcases hstep with ⟨rfl, rfl⟩
      refine ⟨fun hidle => absurd hidle id, fun _ => ?_⟩
      simp only [Hebra.resto, hf, hfree, Nat.add_zero, if_pos hless]
      rfl
    · -- The second loop begins at the first row.
      rw [if_neg hless, Option.some.injEq, Prod.mk.injEq] at hstep
      rcases hstep with ⟨rfl, rfl⟩
      refine ⟨fun hidle => absurd hidle id, fun _ => ?_⟩
      simp only [Hebra.resto, hf, hfree, Nat.add_zero, if_neg hless, List.take_zero,
        List.drop_zero, List.nil_append]
      rfl
  · simp only [hrow, Option.some.injEq, Prod.mk.injEq] at hstep
    rcases hstep with ⟨rfl, rfl⟩
    refine ⟨fun hidle => absurd hidle id, fun _ => ?_⟩
    -- The row is counted now and not with the rest.
    have hfree : r + freeRows (server.pageTable.drop i)
        = (if row.pid == 0 then r + 1 else r) + freeRows (server.pageTable.drop (i + 1)) := by
      rw [drop_of_some server.pageTable i row hrow, freeRows, List.countP_cons, ← freeRows]
      split
      · omega
      · rfl
    simp only [Hebra.resto, hf, hfree]
    rfl

/-- A row is given to the process, if it is free and one is still to be given. -/
theorem resto_asigna (server server' : ServerState) (h h' : Hebra) (pid : Int) (pages i : Nat)
    (hf : h.fase = .asigna pid pages i) (hstep : h.avanza server = some (server', h')) :
    Continua server server' h h' := by
  unfold Hebra.avanza at hstep
  cases pages with
  | zero =>
      -- All pages have been given, and the rows behind stay.
      simp only [hf, Option.some.injEq, Prod.mk.injEq] at hstep
      rcases hstep with ⟨rfl, rfl⟩
      refine ⟨fun hidle => absurd hidle id, fun _ => ?_⟩
      simp only [Hebra.resto, hf, assignPages_zero, List.take_append_drop]
      rfl
  | succ pages =>
      simp only [hf] at hstep
      rcases hrow : server.pageTable[i]? with _ | row
      · simp only [hrow, Option.some.injEq, Prod.mk.injEq] at hstep
        rcases hstep with ⟨rfl, rfl⟩
        refine ⟨fun hidle => absurd hidle id, fun _ => ?_⟩
        rcases drop_of_none server.pageTable i hrow with ⟨hdrop, htake⟩
        simp only [Hebra.resto, hf, hdrop, htake, assignPages, List.append_nil]
        rfl
      · simp only [hrow] at hstep
        have hdrop := drop_of_some server.pageTable i row hrow
        by_cases hzero : (row.pid == 0) = true
        · -- The row goes from the rest to what has been gone through, with its new owner.
          rw [if_pos hzero, Option.some.injEq, Prod.mk.injEq] at hstep
          rcases hstep with ⟨rfl, rfl⟩
          refine ⟨fun hidle => absurd hidle id, fun _ => ?_⟩
          simp only [Hebra.resto, hf, hdrop, assignPages, if_pos hzero,
            take_set server.pageTable i row _ hrow, List.drop_set_of_lt (Nat.lt_succ_self i),
            List.append_assoc, List.singleton_append]
          rfl
        · rw [if_neg hzero, Option.some.injEq, Prod.mk.injEq] at hstep
          rcases hstep with ⟨rfl, rfl⟩
          refine ⟨fun hidle => absurd hidle id, fun _ => ?_⟩
          simp only [Hebra.resto, hf, hdrop, assignPages, if_neg hzero,
            take_of_some server.pageTable i row hrow, List.append_assoc,
            List.singleton_append]
          rfl

/-- A row is taken away, if it is the process's. -/
theorem resto_limpia (server server' : ServerState) (h h' : Hebra) (pid : Int) (i : Nat)
    (hf : h.fase = .limpia pid i) (hstep : h.avanza server = some (server', h')) :
    Continua server server' h h' := by
  unfold Hebra.avanza at hstep
  simp only [hf] at hstep
  rcases hrow : server.pageTable[i]? with _ | row
  · simp only [hrow, Option.some.injEq, Prod.mk.injEq] at hstep
    rcases hstep with ⟨rfl, rfl⟩
    refine ⟨fun hidle => absurd hidle id, fun _ => ?_⟩
    rcases drop_of_none server.pageTable i hrow with ⟨hdrop, htake⟩
    simp only [Hebra.resto, hf, hdrop, htake, List.map_nil, List.append_nil]
    rfl
  · simp only [hrow] at hstep
    have hdrop := drop_of_some server.pageTable i row hrow
    by_cases hown : (row.pid == pid) = true
    · rw [if_pos hown, Option.some.injEq, Prod.mk.injEq] at hstep
      rcases hstep with ⟨rfl, rfl⟩
      refine ⟨fun hidle => absurd hidle id, fun _ => ?_⟩
      simp only [Hebra.resto, hf, hdrop, List.map_cons, if_pos hown,
        take_set server.pageTable i row _ hrow, List.drop_set_of_lt (Nat.lt_succ_self i),
        List.append_assoc, List.singleton_append]
      rfl
    · rw [if_neg hown, Option.some.injEq, Prod.mk.injEq] at hstep
      rcases hstep with ⟨rfl, rfl⟩
      refine ⟨fun hidle => absurd hidle id, fun _ => ?_⟩
      simp only [Hebra.resto, hf, hdrop, List.map_cons, if_neg hown,
        take_of_some server.pageTable i row hrow, List.append_assoc, List.singleton_append]
      rfl

/-- A row is looked at. -/
theorem resto_busca (server server' : ServerState) (h h' : Hebra) (a : Traslado)
    (hpid : 0 < a.pid) (i : Nat)
    (hf : h.fase = .busca a hpid i) (hstep : h.avanza server = some (server', h')) :
    Continua server server' h h' := by
  unfold Hebra.avanza at hstep
  simp only [hf] at hstep
  have hresto : h.resto server = a.sigue
      (match (server.pageTable.drop i).findIdx? fun row =>
        row.pid == a.pid && row.page == a.page with
      | some k => ((i + k : Nat) : Int)
      | none => 0) server h := by
    simp only [Hebra.resto, hf, Traslado.sigue]
  unfold Continua
  rw [hresto]
  rcases hrow : server.pageTable[i]? with _ | row
  · simp only [hrow, Option.map_eq_some_iff, Prod.mk.injEq] at hstep
    rcases hstep with ⟨fase, hconf, rfl, rfl⟩
    rcases resto_conFrame a 0 fase server h hconf with ⟨hbusy, heq⟩
    rw [(drop_of_none server.pageTable i hrow).1]
    exact ⟨fun hidle => absurd hidle hbusy, fun _ => heq⟩
  · simp only [hrow] at hstep
    rw [drop_of_some server.pageTable i row hrow, List.findIdx?_cons]
    by_cases hfound : (row.pid == a.pid && row.page == a.page) = true
    · rw [if_pos hfound, Option.map_eq_some_iff] at hstep
      simp only [Prod.mk.injEq] at hstep
      rcases hstep with ⟨fase, hconf, rfl, rfl⟩
      rcases resto_conFrame a i fase server h hconf with ⟨hbusy, heq⟩
      rw [if_pos hfound]
      exact ⟨fun hidle => absurd hidle hbusy, fun _ => heq⟩
    · rw [if_neg hfound, Option.some.injEq, Prod.mk.injEq] at hstep
      rcases hstep with ⟨rfl, rfl⟩
      refine ⟨fun hidle => absurd hidle id, fun _ => ?_⟩
      -- The rows are numbered from the next one on.
      rw [if_neg hfound]
      simp only [Hebra.resto, Traslado.sigue]
      cases (server.pageTable.drop (i + 1)).findIdx? fun row =>
        row.pid == a.pid && row.page == a.page with
      | none => rfl
      | some k =>
          simp only [Option.map_some]
          rw [show i + (k + 1) = i + 1 + k by omega]
          rfl

/-- A cell is copied. -/
theorem resto_copia (server server' : ServerState) (h h' : Hebra) (a : Traslado) (frame : Int)
    (j : Nat)
    (hf : h.fase = .copia a frame j) (hstep : h.avanza server = some (server', h')) :
    Continua server server' h h' := by
  unfold Hebra.avanza at hstep
  simp only [hf] at hstep
  by_cases hmore : (j : Int) < a.size
  · -- One cell less is left, and the next one is the first of the rest.
    rw [if_pos hmore] at hstep
    obtain ⟨n, hn⟩ : ∃ n, a.size.toNat - j = n + 1 := ⟨a.size.toNat - j - 1, by omega⟩
    have hn' : a.size.toNat - (j + 1) = n := by omega
    rcases hdato : a.dato with _ | dato
    · simp only [hdato, Option.some.injEq, Prod.mk.injEq] at hstep
      rcases hstep with ⟨rfl, rfl⟩
      refine ⟨fun hidle => absurd hidle id, fun _ => ?_⟩
      simp only [Hebra.resto, hf, Traslado.acaba, hdato, hn, hn', copy, Nat.cast_add,
        Nat.cast_one, Int.add_assoc]
      rfl
    · simp only [hdato, Option.some.injEq, Prod.mk.injEq] at hstep
      rcases hstep with ⟨rfl, rfl⟩
      refine ⟨fun hidle => absurd hidle id, fun _ => ?_⟩
      simp only [Hebra.resto, hf, Traslado.acaba, hdato, hn, hn', copy, Nat.cast_add,
        Nat.cast_one, Int.add_assoc]
      rfl
  · -- Nothing is left to be copied.
    rw [if_neg hmore, Option.some.injEq, Prod.mk.injEq] at hstep
    rcases hstep with ⟨rfl, rfl⟩
    refine ⟨fun hidle => absurd hidle id, fun _ => ?_⟩
    have hn : a.size.toNat - j = 0 := by omega
    rcases hdato : a.dato with _ | dato
    · simp only [Hebra.resto, hf, Traslado.acaba, hdato, hn, copy]
      rfl
    · simp only [Hebra.resto, hf, Traslado.acaba, hdato, hn, copy]
      rfl

/-- A step of a request, but for the one that takes it. -/
theorem resto_fase (server server' : ServerState) (h h' : Hebra) (hfase : ¬ h.fase.Ociosa)
    (hstep : h.avanza server = some (server', h')) : Continua server server' h h' := by
  cases hf : h.fase with
  | espera =>
      rw [hf] at hfase
      exact absurd trivial hfase
  | cerrada =>
      rw [hf] at hfase
      exact absurd trivial hfase
  | cuenta pid pages i r => exact resto_cuenta server server' h h' pid pages i r hf hstep
  | asigna pid pages i => exact resto_asigna server server' h h' pid pages i hf hstep
  | limpia pid i => exact resto_limpia server server' h h' pid i hf hstep
  | busca a hpid i => exact resto_busca server server' h h' a hpid i hf hstep
  | copia a frame j => exact resto_copia server server' h h' a frame j hf hstep
  | contesta pid res =>
      unfold Hebra.avanza at hstep
      simp only [hf, Option.some.injEq, Prod.mk.injEq] at hstep
      rcases hstep with ⟨rfl, rfl⟩
      refine ⟨fun _ => ?_, fun hbusy => absurd trivial hbusy⟩
      simp only [Hebra.resto, hf]
  | entrega a frame ok =>
      unfold Hebra.avanza at hstep
      simp only [hf, Option.some.injEq, Prod.mk.injEq] at hstep
      rcases hstep with ⟨rfl, rfl⟩
      refine ⟨fun _ => ?_, fun hbusy => absurd trivial hbusy⟩
      simp only [Hebra.resto, hf]

/-- The search from its beginning is `get_frame`. -/
theorem resto_empieza (a : Traslado) (fase : Fase) (server : ServerState) (h : Hebra)
    (hfase : a.empieza server.pageTable.length = some fase) :
    ¬ fase.Ociosa ∧ Hebra.resto server { h with fase := fase }
      = a.sigue (getFrame server.pageTable a.pid a.page) server h := by
  unfold Traslado.empieza at hfase
  unfold getFrame
  by_cases hpid : a.pid ≤ 0
  · rw [dif_pos hpid] at hfase
    rw [if_pos hpid]
    rcases resto_conFrame a 0 fase server h hfase with ⟨hbusy, heq⟩
    exact ⟨hbusy, heq.symm⟩
  · rw [dif_neg hpid] at hfase
    rw [if_neg hpid]
    by_cases hpage : a.page < 0
    · rw [if_pos hpage] at hfase
      rw [if_pos hpage]
      rcases resto_conFrame a 0 fase server h hfase with ⟨hbusy, heq⟩
      exact ⟨hbusy, heq.symm⟩
    · rw [if_neg hpage] at hfase
      rw [if_neg hpage]
      -- The last thing that is looked at before the search is the number of rows.
      by_cases hrows : (server.pageTable.length : Int) ≤ a.page
      · rw [if_pos hrows] at hfase
        rw [if_pos hrows]
        rcases resto_conFrame a 0 fase server h hfase with ⟨hbusy, heq⟩
        exact ⟨hbusy, heq.symm⟩
      · rw [if_neg hrows, Option.some.injEq] at hfase
        rw [if_neg hrows, ← hfase]
        refine ⟨id, ?_⟩
        simp only [Hebra.resto, Traslado.sigue, List.drop_zero, Nat.zero_add]
        rfl

/-- A read whose frame is known. -/
theorem sigue_lee (server : ServerState) (conn : Connection) (heap : Buf) (packet : Packet)
    (inbox : List (Packet × Buf)) (enviados : List Packet) :
    (traslado packet heap packet.usrpid none).sigue
        (getFrame server.pageTable packet.usrpid (traslado packet heap packet.usrpid none).page)
        server { conn := conn, inbox := inbox, enviados := enviados, fase := .espera }
      = (solBytPag server conn heap packet).map fun r =>
          (r.1, { conn := r.2.1, inbox := inbox, enviados := enviados ++ [r.2.2],
                  fase := .espera }) := by
  simp only [Traslado.sigue, Traslado.conFrame, traslado, solBytPag, getBytes, Option.isNone_none,
    true_and]
  by_cases hoffset : unpacki16 (packet.pointer heap) 2 < 0
  · simp only [if_pos hoffset]
    rfl
  · simp only [if_neg hoffset]
    by_cases hsize : unpacki16 (packet.pointer heap) 4 ≤ 0
    · simp only [if_pos hsize]
      rfl
    · simp only [if_neg hsize, one_ne_zero, if_false]
      by_cases hroom : (bufferCapacity : Int) < unpacki16 (packet.pointer heap) 4
      · simp only [if_pos hroom]
        rfl
      · simp only [if_neg hroom, Traslado.acaba, Nat.cast_zero, Int.add_zero]
        rfl

/-- A store whose frame is known. -/
theorem sigue_guarda (server : ServerState) (conn : Connection) (heap heapData : Buf)
    (packet data : Packet) (inbox : List (Packet × Buf)) (enviados : List Packet) :
    (traslado packet heap data.usrpid (some (data.pointer heapData))).sigue
        (getFrame server.pageTable data.usrpid
          (traslado packet heap data.usrpid (some (data.pointer heapData))).page)
        server { conn := conn, inbox := inbox, enviados := enviados, fase := .espera }
      = some ((almBytPag server conn heap packet heapData data).1,
          { conn := (almBytPag server conn heap packet heapData data).2.1
            inbox := inbox
            enviados := enviados ++ [(almBytPag server conn heap packet heapData data).2.2]
            fase := .espera }) := by
  simp only [Traslado.sigue, Traslado.conFrame, traslado, almBytPag, setBytes, Option.isNone_some,
    Bool.false_eq_true, false_and, if_false]
  by_cases hoffset : unpacki16 (packet.pointer heap) 2 < 0
  · simp only [if_pos hoffset]
    rfl
  · simp only [if_neg hoffset]
    by_cases hsize : unpacki16 (packet.pointer heap) 4 ≤ 0
    · simp only [if_pos hsize]
      rfl
    · simp only [if_neg hsize, one_ne_zero, if_false, Traslado.acaba, Nat.cast_zero, Int.add_zero]
      rfl

/-- What is left of the inbox after its first packets. -/
theorem drop_inbox (first rest : List (Packet × Buf)) (n : Nat) (hn : n = rest.length) :
    (first ++ rest).drop ((first ++ rest).length - n) = rest := by
  rw [hn, List.length_append, Nat.add_sub_cancel, List.drop_left]

section Espera

variable (server : ServerState) (conn : Connection) (packet : Packet) (heap : Buf)
  (inbox : List (Packet × Buf)) (enviados : List Packet) (h' : Hebra)

/-- What `cli_thread` has not taken from the inbox when it took one packet. -/
theorem drop_first :
    ((packet, heap) :: inbox).drop
      (((packet, heap) :: inbox).length - (inbox.map Prod.fst).length) = inbox :=
  drop_inbox [(packet, heap)] inbox _ (List.length_map _)

/-- The request for pages is refused at once, or the free rows are counted from the first. -/
theorem resto_iniPro (hop : packet.header.opcode = .OP_ME_INIPRO)
    (htoma : Hebra.toma server.pageTable.length
      { conn := conn, inbox := (packet, heap) :: inbox, enviados := enviados, fase := .espera }
      = some h') :
    Continua server server
      { conn := conn, inbox := (packet, heap) :: inbox, enviados := enviados, fase := .espera }
      h' := by
  simp only [Hebra.toma, hop, Option.some.injEq] at htoma
  have hatiende : Hebra.resto server
      { conn := conn, inbox := (packet, heap) :: inbox, enviados := enviados, fase := .espera }
    = some ((iniPro server conn heap packet).1,
        Hebra.envia { conn := conn, inbox := inbox, enviados := enviados, fase := .espera }
          (iniPro server conn heap packet).2) := by
    simp only [Hebra.resto, Hebra.atiende, Hebra.detras, List.map_cons, cliThread, hop, drop_first]
    rfl
  unfold Continua
  rw [hatiende]
  simp only [iniPro, setPages]
  by_cases hpid : packet.usrpid ≤ 0
  · simp only [if_pos hpid] at htoma ⊢
    rw [← htoma]
    exact ⟨fun hidle => absurd hidle id, fun _ => rfl⟩
  · simp only [if_neg hpid] at htoma ⊢
    by_cases hpages : unpacki16 (packet.pointer heap) 0 ≤ 0
    · simp only [if_pos hpages] at htoma ⊢
      rw [← htoma]
      exact ⟨fun hidle => absurd hidle id, fun _ => rfl⟩
    · -- Nothing has been counted yet, so all rows are in what is left.
      simp only [if_neg hpages] at htoma ⊢
      rw [← htoma]
      refine ⟨fun hidle => absurd hidle id, fun _ => ?_⟩
      simp only [Hebra.resto, List.drop_zero, Nat.zero_add]
      split
      · rfl
      · rfl

/-- The rows of the process that ends are taken away from the first on. -/
theorem resto_finPro (hop : packet.header.opcode = .OP_ME_FINPRO)
    (htoma : Hebra.toma server.pageTable.length
      { conn := conn, inbox := (packet, heap) :: inbox, enviados := enviados, fase := .espera }
      = some h') :
    Continua server server
      { conn := conn, inbox := (packet, heap) :: inbox, enviados := enviados, fase := .espera }
      h' := by
  simp only [Hebra.toma, hop, Option.some.injEq] at htoma
  have hatiende : Hebra.resto server
      { conn := conn, inbox := (packet, heap) :: inbox, enviados := enviados, fase := .espera }
    = some ((finPro server conn packet).1,
        Hebra.envia { conn := conn, inbox := inbox, enviados := enviados, fase := .espera }
          (finPro server conn packet).2) := by
    simp only [Hebra.resto, Hebra.atiende, List.map_cons, cliThread, hop, drop_first]
    rfl
  unfold Continua
  rw [hatiende]
  simp only [finPro, clearPages]
  by_cases hpid : packet.usrpid ≤ 0
  · simp only [if_pos hpid] at htoma ⊢
    rw [← htoma]
    exact ⟨fun hidle => absurd hidle id, fun _ => rfl⟩
  · simp only [if_neg hpid] at htoma ⊢
    rw [← htoma]
    exact ⟨fun hidle => absurd hidle id, fun _ => rfl⟩

/-- A read begins with the search for its frame. -/
theorem resto_solBytPag (hop : packet.header.opcode = .OP_ME_SOLBYTPAG)
    (htoma : Hebra.toma server.pageTable.length
      { conn := conn, inbox := (packet, heap) :: inbox, enviados := enviados, fase := .espera }
      = some h') :
    Continua server server
      { conn := conn, inbox := (packet, heap) :: inbox, enviados := enviados, fase := .espera }
      h' := by
  simp only [Hebra.toma, hop, Option.map_eq_some_iff] at htoma
  rcases htoma with ⟨fase, hempieza, rfl⟩
  rcases resto_empieza _ fase server
    { conn := conn, inbox := inbox, enviados := enviados, fase := .espera } hempieza with
    ⟨hbusy, heq⟩
  refine ⟨fun hidle => absurd hidle hbusy, fun _ => ?_⟩
  refine Eq.trans ?_ heq.symm
  refine Eq.trans ?_ (sigue_lee server conn heap packet inbox enviados).symm
  simp only [Hebra.resto, Hebra.atiende, Hebra.detras, List.map_cons, cliThread, hop]
  cases hsol : solBytPag server conn heap packet with
  | none =>
      simp only [List.getElem?_cons_zero, hsol]
      rfl
  | some r =>
      simp only [List.getElem?_cons_zero, hsol, drop_first]
      rfl

/-- So does a store, which takes the packet behind it as well. -/
theorem resto_almBytPag (hop : packet.header.opcode = .OP_ME_ALMBYTPAG)
    (htoma : Hebra.toma server.pageTable.length
      { conn := conn, inbox := (packet, heap) :: inbox, enviados := enviados, fase := .espera }
      = some h') :
    Continua server server
      { conn := conn, inbox := (packet, heap) :: inbox, enviados := enviados, fase := .espera }
      h' := by
  rcases inbox with _ | ⟨⟨data, heapData⟩, inbox⟩
  · simp only [Hebra.toma, hop, reduceCtorEq] at htoma
  simp only [Hebra.toma, hop, Option.map_eq_some_iff] at htoma
  rcases htoma with ⟨fase, hempieza, rfl⟩
  rcases resto_empieza _ fase server
    { conn := conn, inbox := inbox, enviados := enviados, fase := .espera } hempieza with
    ⟨hbusy, heq⟩
  refine ⟨fun hidle => absurd hidle hbusy, fun _ => ?_⟩
  refine Eq.trans ?_ heq.symm
  refine Eq.trans ?_ (sigue_guarda server conn heap heapData packet data inbox enviados).symm
  have hdrop : ((packet, heap) :: (data, heapData) :: inbox).drop
      (((packet, heap) :: (data, heapData) :: inbox).length
        - (inbox.map Prod.fst).length) = inbox :=
    drop_inbox [(packet, heap), (data, heapData)] inbox _ (List.length_map _)
  simp only [Hebra.resto, Hebra.atiende, Hebra.detras, List.map_cons, cliThread, hop, hdrop,
    List.getElem?_cons_zero, List.getElem?_cons_succ]

end Espera

/-- The step that takes a request. -/
theorem resto_espera (server server' : ServerState) (h h' : Hebra) (hfase : h.fase = .espera)
    (hstep : h.avanza server = some (server', h')) :
    Continua server server' h h' := by
  rcases h with ⟨conn, inbox, enviados, fase⟩
  obtain rfl : fase = .espera := hfase
  simp only [Hebra.avanza, Option.map_eq_some_iff, Prod.mk.injEq] at hstep
  rcases hstep with ⟨h', htoma, rfl, rfl⟩
  rcases inbox with _ | ⟨⟨packet, heap⟩, inbox⟩
  · simp only [Hebra.toma, reduceCtorEq] at htoma
  cases hop : packet.header.opcode with
  | OP_ME_INIPRO => exact resto_iniPro server conn packet heap inbox enviados h' hop htoma
  | OP_ME_SOLBYTPAG => exact resto_solBytPag server conn packet heap inbox enviados h' hop htoma
  | OP_ME_ALMBYTPAG => exact resto_almBytPag server conn packet heap inbox enviados h' hop htoma
  | OP_ME_FINPRO => exact resto_finPro server conn packet heap inbox enviados h' hop htoma
  | OP_ME_ASIPAGPRO =>
      -- The case of the switch is empty: the server answers nothing and reads on.
      simp only [Hebra.toma, hop, Option.some.injEq] at htoma
      rw [← htoma]
      refine ⟨fun _ => ?_, fun hbusy => absurd trivial hbusy⟩
      simp only [Hebra.resto, Hebra.atiende, List.map_cons, cliThread, hop, drop_first]
  | _ =>
      -- The thread ends with its connection.
      simp only [Hebra.toma, hop, Option.some.injEq] at htoma
      rw [← htoma]
      refine ⟨fun _ => ?_, fun hbusy => absurd trivial hbusy⟩
      simp only [Hebra.resto, Hebra.atiende, List.map_cons, cliThread, hop, List.tail_cons]

theorem resto_avanza (server server' : ServerState) (h h' : Hebra)
    (hstep : h.avanza server = some (server', h')) :
    Continua server server' h h' := by
  by_cases hfase : h.fase.Ociosa
  · cases hf : h.fase with
    | espera => exact resto_espera server server' h h' hf hstep
    | cerrada =>
        unfold Hebra.avanza at hstep
        simp only [hf, reduceCtorEq] at hstep
    | _ =>
        rw [hf] at hfase
        exact absurd hfase id
  · exact resto_fase server server' h h' hfase hstep

end Memoria

end Esther
