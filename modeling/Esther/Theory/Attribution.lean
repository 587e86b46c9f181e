import Esther.Core.Server

/-!
# Who Has Sent It

Whether `init_server` acts on the client whose descriptor is ready.

It does whenever there is such a client: the search stops at the first one. When there is
none the search has no way of saying so. Its variable is then what the last client it has
looked at left in it, and `init_server` reads from that client and takes its message for
what has arrived. The memory server is in no list and its descriptor is waited for.

## Main definitions

* `State.clientes`: The clients in the order of the search.
* `Atribuido`: A round acts on the client it should.

## Theorems

* `buscarProceso_eq`: The search returns the first client, or the last one it has seen.
* `atiende_last`: The client that is taken for one that is not there.
* `ronda_serve`: A round for the descriptor of a client is an event of that client.
* `atribuido_iff`: A round acts on the right client exactly if there is one.
* `memory_is_console`: A message of the memory server taken for one of a console.
-/

namespace Esther

namespace Kernel

/-- The clients, in the order in which `buscar_proceso` goes through them. -/
def State.clientes (k : State) : List Client :=
  k.cpuConectadas ++ k.cpuExecuting ++ k.consolasConectadas

/-- A round for a descriptor acts on the client that has it, and on none if no client does. -/
structure Atribuido (k : State) (aux : Puntero) (i : Int) : Prop where
  alguno : (∃ client ∈ k.clientes, client.clientID = i) →
    ∃ client ∈ k.clientes, client.clientID = i ∧ k.atiende aux i = some (.cliente client)
  ninguno : (∀ client ∈ k.clientes, client.clientID ≠ i) → k.atiende aux i = none

/-! ### The search -/

/-- The client a loop returns with, or else the last one of the list. -/
def hallado (client : Int) (elems : List Client) (aux : Puntero) : Puntero :=
  match elems.find? fun elem => elem.clientID == client with
  | some elem => .cliente elem
  | none => match elems.getLast? with
    | some elem => .cliente elem
    | none => aux

theorem buscarEn_eq (client : Int) (elems : List Client) (aux : Puntero) :
    buscarEn client elems aux =
      (hallado client elems aux, elems.any fun elem => elem.clientID == client) := by
  induction elems generalizing aux with
  | nil => rfl
  | cons elem elems ih =>
      rw [buscarEn, hallado, List.any_cons, List.find?_cons]
      by_cases hid : elem.clientID = client
      · rw [if_pos hid, beq_iff_eq.mpr hid, Bool.true_or]
      · rw [if_neg hid, beq_eq_false_iff_ne.mpr hid, Bool.false_or, ih, hallado]
        cases elems.find? fun elem => elem.clientID == client with
        | some found => rfl
        | none => cases elems with
          | nil => rfl
          | cons next rest => rfl

/-- A loop over two lists is one over each, the second going on with what the first has left. -/
theorem buscarEn_append (client : Int) (xs ys : List Client) (aux : Puntero) :
    buscarEn client (xs ++ ys) aux =
      if (buscarEn client xs aux).2 then buscarEn client xs aux
      else buscarEn client ys (buscarEn client xs aux).1 := by
  induction xs generalizing aux with
  | nil => rfl
  | cons x xs ih =>
      rw [List.cons_append, buscarEn, buscarEn]
      by_cases hid : x.clientID = client
      · rw [if_pos hid, if_pos hid]
        rfl
      · rw [if_neg hid, if_neg hid, ih]

/-- The three loops are one over all clients: the first with the descriptor is returned, or else
    the last one there is. -/
theorem buscarProceso_eq (k : State) (aux : Puntero) (client : Int) :
    k.buscarProceso aux client = hallado client k.clientes aux := by
  have hloop : k.buscarProceso aux client = (buscarEn client k.clientes aux).1 := by
    rw [State.clientes, buscarEn_append, buscarEn_append, State.buscarProceso]
    by_cases hfirst : (buscarEn client k.cpuConectadas aux).2 = true
    · simp only [if_pos hfirst]
    · simp only [if_neg hfirst]
      by_cases hsecond :
          (buscarEn client k.cpuExecuting (buscarEn client k.cpuConectadas aux).1).2 = true
      · simp only [if_pos hsecond]
      · simp only [if_neg hsecond]
  rw [hloop, buscarEn_eq]

theorem hallado_some (client : Int) (elems : List Client) (aux : Puntero)
    (h : ∃ elem ∈ elems, elem.clientID = client) :
    ∃ elem ∈ elems, elem.clientID = client ∧ hallado client elems aux = .cliente elem := by
  rcases h with ⟨elem, hmem, hid⟩
  have hsome : (elems.find? fun elem => elem.clientID == client).isSome = true :=
    List.find?_isSome.mpr ⟨elem, hmem, beq_iff_eq.mpr hid⟩
  rcases Option.isSome_iff_exists.mp hsome with ⟨found, hfound⟩
  have hbeq := List.find?_some hfound
  refine ⟨found, List.mem_of_find?_eq_some hfound, beq_iff_eq.mp hbeq, ?_⟩
  rw [hallado, hfound]

/-- When no client has the descriptor, the last client there is stands for it. -/
theorem hallado_last (client : Int) (elems : List Client) (aux : Puntero) (last : Client)
    (h : ∀ elem ∈ elems, elem.clientID ≠ client) (hlast : elems.getLast? = some last) :
    hallado client elems aux = .cliente last := by
  have hnone : elems.find? (fun elem => elem.clientID == client) = none := by
    rw [List.find?_eq_none]
    intro elem hmem hid
    exact h elem hmem (beq_iff_eq.mp hid)
  rw [hallado, hnone, hlast]

/-- When no client has the descriptor, a round acts on the last client there is. -/
theorem atiende_last (k : State) (aux : Puntero) (i : Int) (last : Client)
    (h : ∀ client ∈ k.clientes, client.clientID ≠ i) (hlast : k.clientes.getLast? = some last) :
    k.atiende aux i = some (.cliente last) := by
  rw [State.atiende, buscarProceso_eq, hallado_last i k.clientes aux last h hlast]

/-! ### Rounds -/

/-- The event that a packet of a client is, if it is one. -/
def evento (client : Client) (packet : Packet) (siguientes : List Packet) : Option Event :=
  if packet.header.opcode = .OP_UNDEFINED then
    if client.process = .CONSOLE then some (.destroyConsole client) else none
  else if client.process = .CONSOLE then
    if packet.header.opcode = .OP_NEW_PROGRAM then some (.newProgram client.clientID packet)
    else none
  else if client.process = .CPU then some (.syscall client packet siguientes)
  else none

/-- What a round does with a packet is the event that the packet is, or nothing. -/
theorem despacha_serve (parser : Parser) (config : Config) (k : State) (r : Residue)
    (client : Client) (packet : Packet) (siguientes : List Packet) :
    (k.despacha parser config r client packet siguientes).map Prod.fst =
      match evento client packet siguientes with
      | some e => k.serve parser config (r, e)
      | none => some k := by
  unfold State.despacha evento
  by_cases hend : packet.header.opcode = .OP_UNDEFINED
  · rw [if_pos hend, if_pos hend]
    by_cases hconsole : client.process = .CONSOLE
    · rw [if_pos hconsole, if_pos hconsole]
      rfl
    · rw [if_neg hconsole, if_neg hconsole]
      rfl
  · rw [if_neg hend, if_neg hend]
    by_cases hconsole : client.process = .CONSOLE
    · rw [if_pos hconsole, if_pos hconsole]
      by_cases hnew : packet.header.opcode = .OP_NEW_PROGRAM
      · rw [if_pos hnew, if_pos hnew, Option.map_map]
        exact Option.map_id'
      · rw [if_neg hnew, if_neg hnew]
        rfl
    · rw [if_neg hconsole, if_neg hconsole]
      by_cases hcpu : client.process = .CPU
      · rw [if_pos hcpu, if_pos hcpu, Option.map_map]
        rfl
      · rw [if_neg hcpu, if_neg hcpu]
        rfl

/-- A round for the descriptor of a client is an event of a client with that descriptor. -/
theorem ronda_serve (parser : Parser) (config : Config) (k : State) (r : Residue) (aux : Puntero)
    (i : Int) (entrada : Int → Packet × List Packet)
    (h : ∃ client ∈ k.clientes, client.clientID = i) :
    ∃ client ∈ k.clientes, client.clientID = i ∧
      (k.ronda parser config r aux i entrada).map Prod.fst =
        match evento client (entrada i).1 (entrada i).2 with
        | some e => k.serve parser config (r, e)
        | none => some k := by
  rcases hallado_some i k.clientes aux h with ⟨client, hmem, hid, hfound⟩
  refine ⟨client, hmem, hid, ?_⟩
  rw [← despacha_serve]
  simp only [State.ronda, State.atiende, buscarProceso_eq, hfound, hid]

/-- A round acts on the client it should exactly if some client has the descriptor. -/
theorem atribuido_iff (k : State) (aux : Puntero) (i : Int) :
    Atribuido k aux i ↔ ∃ client ∈ k.clientes, client.clientID = i := by
  constructor
  · intro h
    by_contra hno
    have hninguno := h.ninguno fun client hmem hid => hno ⟨client, hmem, hid⟩
    exact Option.some_ne_none _ hninguno
  · intro h
    refine ⟨fun _ => ?_, fun hno => ?_⟩
    · rcases hallado_some i k.clientes aux h with ⟨client, hmem, hid, hfound⟩
      exact ⟨client, hmem, hid, by rw [State.atiende, buscarProceso_eq, hfound]⟩
    · rcases h with ⟨client, hmem, hid⟩
      exact absurd hid (hno client hmem)

/-- A kernel with the console 5, whose memory server is at 3. -/
def memoryKernel : State :=
  { State.init 1 3 [] 0 with
    consolasConectadas := [{ clientID := 5, process := .CONSOLE, pids := [] }] }

/-- When the connection to the memory server is ready, the round acts on the console, whose
    connection it reads from. If that is at its end, the console is destroyed and the
    descriptor of the memory server closed. -/
theorem memory_is_console :
    (∀ client ∈ memoryKernel.clientes, client.clientID ≠ memoryKernel.memfd) ∧
      memoryKernel.atiende .suelto memoryKernel.memfd =
        some (.cliente { clientID := 5, process := .CONSOLE, pids := [] }) ∧
      ¬ Atribuido memoryKernel .suelto memoryKernel.memfd := by
  have hninguno : ∀ client ∈ memoryKernel.clientes, client.clientID ≠ memoryKernel.memfd := by
    decide
  refine ⟨hninguno, atiende_last memoryKernel .suelto memoryKernel.memfd _ hninguno rfl, ?_⟩
  intro h
  exact Option.some_ne_none _ (h.ninguno hninguno)

end Kernel

end Esther
