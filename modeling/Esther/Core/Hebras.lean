import Esther.Core.Memoria

/-!
# The Threads of the Memory Server

The memory server has a thread for every client, and all of them work on one page table and one
main memory. There is no lock around them.

`cli_thread` in `Esther.Core.Memoria` answers a request in one piece. Here a thread answers it
in as many steps as the loops of `page_table.c` have iterations, and the steps of the other
threads come in between: an iteration looks at one row or one cell and may write it, and all
threads are taken to see the steps in the same order. What is not a loop over shared data is
done in the step that takes the request, and in the one that sends the reply.

The packets a client is going to send are in its thread's `inbox` from the start. A thread does
not see more of them than it has received.

## Main definitions

* `Traslado`: What a read or a store is for.
* `Fase`: Where a thread is.
* `Hebra`, `Hebras`: A thread, and the server with all its threads.
* `Hebra.avanza`, `Hebras.paso`: A step.
* `Hebra.atiende`, `Hebras.ronda`: A request answered in one piece.
-/

namespace Esther

namespace Memoria

open Cells Serial

/-- What a read is for, or a store of `dato`. -/
structure Traslado where
  pid : Int
  page : Int
  offset : Int
  size : Int
  dato : Option Buf

/-- Where a thread is: in `protocol_packet_receive`; in the two loops of `set_pages`; in that of
    `clear_pages`; about to send the result of one of them; in the loop of `get_frame`, which is
    only reached for a positive number; in that of `get_bytes` or `set_bytes`; about to send
    what comes of these; or at its end. -/
inductive Fase
  | espera
  | cuenta (pid pages : Int) (i r : Nat)
  | asigna (pid : Int) (pages i : Nat)
  | limpia (pid : Int) (i : Nat)
  | contesta (pid res : Int)
  | busca (a : Traslado) (hpid : 0 < a.pid) (i : Nat)
  | copia (a : Traslado) (frame : Int) (j : Nat)
  | entrega (a : Traslado) (frame : Int) (ok : Bool)
  | cerrada

/-- A thread: its locals, the packets its client sends, each with what lies behind its payload,
    what has been sent to the client, and where it is. -/
structure Hebra where
  conn : Connection
  inbox : List (Packet × Buf)
  enviados : List Packet
  fase : Fase

/-- The data of the server, and its threads. -/
structure Hebras (ι : Type) where
  server : ServerState
  hebras : ι → Hebra

/-- Between two requests, or at its end. -/
def Fase.Ociosa : Fase → Prop
  | .espera => True
  | .cerrada => True
  | _ => False

instance decidableOciosa : (fase : Fase) → Decidable fase.Ociosa
  | .espera | .cerrada => isTrue trivial
  | .cuenta .. | .asigna .. | .limpia .. | .contesta .. | .busca .. | .copia .. | .entrega .. =>
      isFalse id

/-- The frame is known. What `get_bytes` and `set_bytes` look at first, and the length that
    `buffer` may not be exceeded by. -/
def Traslado.conFrame (a : Traslado) (frame : Int) : Option Fase :=
  if a.offset < 0 then some (.entrega a frame false)
  else if a.size ≤ 0 then some (.entrega a frame false)
  else if a.dato.isNone ∧ (bufferCapacity : Int) < a.size then none
  else some (.copia a frame 0)

/-- What `get_frame` looks at first. -/
def Traslado.empieza (rows : Nat) (a : Traslado) : Option Fase :=
  if hpid : a.pid ≤ 0 then a.conFrame 0
  else if a.page < 0 then a.conFrame 0
  else if (rows : Int) ≤ a.page then a.conFrame 0
  else some (.busca a (not_le.mp hpid) 0)

/-- What a read or a store asks for. -/
def traslado (packet : Packet) (heap : Buf) (pid : Int) (dato : Option Buf) : Traslado :=
  let payload := packet.pointer heap
  { pid := pid
    page := unpacki16 payload 0
    offset := unpacki16 payload 2
    size := unpacki16 payload 4
    dato := dato }

/-- A request is received, the server having so many rows. -/
def Hebra.toma (rows : Nat) (h : Hebra) : Option Hebra :=
  match h.inbox with
  | [] => none
  | (packet, heap) :: inbox => match packet.header.opcode with
    | .OP_ME_INIPRO =>
        let pages := unpacki16 (packet.pointer heap) 0
        some { h with
          inbox := inbox
          fase :=
            if packet.usrpid ≤ 0 then .contesta packet.usrpid 0
            else if pages ≤ 0 then .contesta packet.usrpid 0
            else .cuenta packet.usrpid pages 0 0 }
    | .OP_ME_SOLBYTPAG =>
        ((traslado packet heap packet.usrpid none).empieza rows).map fun fase =>
          { h with inbox := inbox, fase := fase }
    | .OP_ME_ALMBYTPAG => match inbox with
      | [] => none
      | (data, heapData) :: inbox =>
          ((traslado packet heap data.usrpid (some (data.pointer heapData))).empieza rows).map
            fun fase => { h with inbox := inbox, fase := fase }
    | .OP_ME_ASIPAGPRO => some { h with inbox := inbox }
    | .OP_ME_FINPRO =>
        some { h with
          inbox := inbox
          fase :=
            if packet.usrpid ≤ 0 then .contesta packet.usrpid 0 else .limpia packet.usrpid 0 }
    | _ => some { h with inbox := inbox, fase := .cerrada }

/-- A reply is sent, and the thread goes back to its client. -/
def Hebra.envia (h : Hebra) (r : Connection × Packet) : Hebra :=
  { h with conn := r.1, enviados := h.enviados ++ [r.2], fase := .espera }

/-- The reply to a read or a store. -/
def Traslado.respuesta (a : Traslado) (ok : Bool) (conn : Connection) : Connection × Packet :=
  if ok then
    match a.dato with
    | none => conn.reply conn.buffer a.size.toNat
    | some _ => conn.replyInt 1
  else conn.reply conn.buffer 0

/-- A step of a thread: an iteration of the loop it is in, or what comes after the loop. -/
def Hebra.avanza (server : ServerState) (h : Hebra) : Option (ServerState × Hebra) :=
  match h.fase with
  | .espera => (h.toma server.pageTable.length).map fun h => (server, h)
  | .cuenta pid pages i r => match server.pageTable[i]? with
    | some row =>
        let r := if row.pid == 0 then r + 1 else r
        some (server, { h with fase := .cuenta pid pages (i + 1) r })
    | none =>
        -- What has been counted need not be free any more when the rows are given out.
        if (r : Int) < pages then some (server, { h with fase := .contesta pid 0 })
        else some (server, { h with fase := .asigna pid pages.toNat 0 })
  | .asigna pid 0 _ => some (server, { h with fase := .contesta pid 1 })
  | .asigna pid (pages + 1) i => match server.pageTable[i]? with
    | some row =>
        if row.pid == 0 then
          some ({ server with pageTable := server.pageTable.set i { pid := pid, page := pages } },
            { h with fase := .asigna pid pages (i + 1) })
        else some (server, { h with fase := .asigna pid (pages + 1) (i + 1) })
    -- The rows are at an end before the pages: `set_pages` returns 1 all the same.
    | none => some (server, { h with fase := .contesta pid 1 })
  | .limpia pid i => match server.pageTable[i]? with
    | some row =>
        if row.pid == pid then
          some ({ server with pageTable := server.pageTable.set i { pid := 0, page := 0 } },
            { h with fase := .limpia pid (i + 1) })
        else some (server, { h with fase := .limpia pid (i + 1) })
    | none => some (server, { h with fase := .contesta pid 1 })
  | .contesta _ res => some (server, h.envia (h.conn.replyInt res))
  | .busca a hpid i => match server.pageTable[i]? with
    | some row =>
        if row.pid == a.pid && row.page == a.page then
          (a.conFrame i).map fun fase => (server, { h with fase := fase })
        else some (server, { h with fase := .busca a hpid (i + 1) })
    -- A page that is not found has frame 0.
    | none => (a.conFrame 0).map fun fase => (server, { h with fase := fase })
  | .copia a frame j =>
      let base := frame * server.marcoSize + a.offset
      if (j : Int) < a.size then
        match a.dato with
        | none =>
            let buffer := Function.update h.conn.buffer j (server.main (base + j))
            some (server,
              { h with conn := { h.conn with buffer := buffer }, fase := .copia a frame (j + 1) })
        | some dato =>
            some ({ server with main := Function.update server.main (base + j) (dato j) },
              { h with fase := .copia a frame (j + 1) })
      else some (server, { h with fase := .entrega a frame true })
  | .entrega a _ ok => some (server, h.envia (a.respuesta ok h.conn))
  | .cerrada => none

/-- A step of one of the threads. -/
def Hebras.paso {ι : Type} [DecidableEq ι] (s : Hebras ι) (t : ι) : Option (Hebras ι) :=
  ((s.hebras t).avanza s.server).map fun p =>
    { server := p.1, hebras := Function.update s.hebras t p.2 }

/-- What lies behind the payload of one of the packets that come next. -/
def Hebra.detras (h : Hebra) (n : Nat) : Buf :=
  match h.inbox[n]? with
  | some p => p.2
  | none => fun _ => 0

/-- A request answered in one piece, by a thread that waits for one. -/
def Hebra.atiende (server : ServerState) (h : Hebra) : Option (ServerState × Hebra) :=
  match h.fase with
  | .espera =>
      match cliThread server h.conn (h.detras 0) (h.detras 1) (h.inbox.map Prod.fst) with
      | some (.replied server conn reply rest) =>
          some (server,
            { h with
              inbox := h.inbox.drop (h.inbox.length - rest.length)
              conn := conn
              enviados := h.enviados ++ [reply] })
      | some (.silent rest) =>
          some (server, { h with inbox := h.inbox.drop (h.inbox.length - rest.length) })
      | some .closed => some (server, { h with inbox := h.inbox.tail, fase := .cerrada })
      | none => none
  | _ => none

/-- A request of one of the clients, answered in one piece. -/
def Hebras.ronda {ι : Type} [DecidableEq ι] (s : Hebras ι) (t : ι) : Option (Hebras ι) :=
  ((s.hebras t).atiende s.server).map fun p =>
    { server := p.1, hebras := Function.update s.hebras t p.2 }

end Memoria

end Esther
