/-
server/: the client slots.

A connected client is recorded in four places: the socket in its slot, the
count of clients, the block that a handler's data points to
(`monikor_server_handler_t`), and the list of I/O handlers. There is one
server, so the pointer to it in that block is left out.

What the system answers is an argument: the descriptors of socket(2) and
accept4(2), the addresses of `malloc`, how far a message gets
(`ClientMessage`; the message itself is in Receive.lean). `none` is a block
that is not live, read or freed.
-/
import Mathlib.Data.List.FinRange
import Monikor.IoHandler.Poll
import Monikor.Server.Receive

namespace Monikor

open Bytes Linked

variable {μ : Type}

/-- `MONIKOR_SRV_MAX_CLIENTS`. -/
def srvMaxClients : Nat := 10

/-- `MONIKOR_CLIENT_INACTIVE_SOCKET`. -/
def clientInactiveSocket : Int := -1

/-- The place of a client in `server->clients`. -/
abbrev Slot := Fin srvMaxClients

/-- The address of the code of `monikor_server_handle_any`. -/
def serverHandleAnyAddr : Addr := 1

/-- `monikor_client_t`. -/
structure ServerClient where
  socket : Int
  header : SerializedMetricListHdr
  data : Option Addr
deriving DecidableEq

/-- `monikor_server_handler_t`. -/
structure ServerHandler where
  client : Option Slot
  handler : Addr
deriving DecidableEq

/-- `monikor_server_t`, with what it points to: the blocks of the handlers,
the blocks of received data, and the agent's handlers. -/
structure Server (μ : Type) where
  socket : Int
  nClients : UInt64
  clients : Slot → ServerClient
  handler : Option Addr
  srvHandlers : Addr → Option ServerHandler
  blocks : Addr → Bool
  poll : PollState μ

-- ================================================================= init.c

/-- `monikor_client_init`. -/
def clientInit : ServerClient := ⟨clientInactiveSocket, ⟨0, 0, 0⟩, none⟩

/-- `monikor_server_handler_new`, with the two addresses `malloc` answers.
The first block is freed again when there is no second. -/
def serverHandlerNew (s : Server μ) (client : Option Slot)
    (srv io : Option Addr) : Server μ × Option Addr :=
  match srv, io with
  | some b, some a =>
      let fd := match client with
        | some i => (s.clients i).socket
        | none => s.socket
      let list := ioHandlerNew s.poll.list a fd ioHandlerRd
        (some serverHandleAnyAddr) b
      ({ s with
          srvHandlers := Function.update s.srvHandlers b (some ⟨client, a⟩)
          poll := { s.poll with list } }, some a)
  | _, _ => (s, none)

/-- `monikor_register_io_handler`. -/
def registerIoHandler (s : Server μ) (a : Addr) : Option (Server μ) := do
  let list ← ioHandlerListPush s.poll.list a
  return { s with poll := { s.poll with list } }

/-- `monikor_unregister_io_handler`. -/
def unregisterIoHandler (s : Server μ) (a : Addr) : Option (Server μ) := do
  let list ← ioHandlerListRemove s.poll.list a
  return { s with poll := { s.poll with list } }

/-- `close`. -/
def closeSocket (s : Server μ) (fd : Int) : Server μ :=
  { s with poll :=
      { s.poll with opened := s.poll.opened.filter (· ≠ fd) } }

/-- `monikor_server_init`: the descriptor of socket(2), if the path and the
owner are found and it succeeds, and whether bind(2) and what follows
does. The socket is left open on the failing paths: `server->handler` is
null there. -/
def serverInit (poll : PollState μ) (socket : Option Int) (bound : Bool)
    (srv io : Option Addr) : Option (Int × Server μ) :=
  let s : Server μ := ⟨-1, 0, fun _ => clientInit, none, fun _ => none,
    fun _ => false, poll⟩
  match socket with
  | none => some (-1, s)
  | some fd =>
      let s := { s with
        socket := fd, poll := { s.poll with opened := fd :: s.poll.opened } }
      if !bound then some (-1, s)
      else
        match serverHandlerNew s none srv io with
        | (s, none) => some (-1, s)
        | (s, some a) => do
            let s ← registerIoHandler { s with handler := some a } a
            return (0, s)

-- ====================================== cleanup.c, disconnect.c, handle.c

/-- `monikor_server_handler_free`. -/
def serverHandlerFree (s : Server μ) (a : Addr) : Option (Server μ) := do
  let n ← s.poll.list.handlers.node a
  let _ ← s.srvHandlers n.val.data
  let handlers ← s.poll.list.handlers.free a
  let list := { s.poll.list with handlers }
  return { s with
    srvHandlers := Function.update s.srvHandlers n.val.data none
    poll := { s.poll with list } }

/-- `free` of received data. -/
def freeData (s : Server μ) (data : Option Addr) : Option (Server μ) :=
  match data with
  | none => some s
  | some b =>
      if s.blocks b then
        some { s with blocks := Function.update s.blocks b false }
      else none

/-- `monikor_server_disconnect`, of the handler whose block is at `b`. -/
def serverDisconnect (s : Server μ) (b : Addr) : Option (Server μ) := do
  let h ← s.srvHandlers b
  let i ← h.client
  let c := s.clients i
  let s := if c.socket ≠ -1 then closeSocket s c.socket else s
  let s ← freeData s c.data
  let s := { s with
    clients := Function.update s.clients i clientInit
    nClients := s.nClients - 1 }
  let s ← unregisterIoHandler s h.handler
  serverHandlerFree s h.handler

/-- `monikor_server_handle_connection`. -/
def serverHandleConnection (s : Server μ) (accepted : Option Int)
    (srv io : Option Addr) : Option (Int × Server μ) :=
  if srvMaxClients ≤ s.nClients.toNat then some (-1, s)
  else
    match (List.finRange srvMaxClients).find? fun i =>
        (s.clients i).socket = clientInactiveSocket with
    | none => some (1, s)
    | some i =>
        let c := { s.clients i with socket := accepted.getD (-1) }
        let s := { s with
          clients := Function.update s.clients i c
          poll := { s.poll with
            opened := accepted.toList ++ s.poll.opened } }
        if c.socket = -1 then some (-1, s)
        else
          match serverHandlerNew s (some i) srv io with
          | (s, none) =>
              let s := closeSocket s c.socket
              some (-1, { s with
                clients := Function.update s.clients i clientInit })
          | (s, some a) => do
              let s ← registerIoHandler s a
              return (0, { s with nClients := s.nClients + 1 })

/-- How far `monikor_server_handle_client` gets: the header is not read in
full; it is read, but there is no memory for the data; the data is at
`block`, and read(2) fails; or it is read in full. -/
inductive ClientMessage where
  | short
  | noMemory (header : SerializedMetricListHdr)
  | readError (header : SerializedMetricListHdr) (block : Addr)
  | whole (header : SerializedMetricListHdr) (block : Addr)

/-- What `malloc` answered. -/
def ClientMessage.block? : ClientMessage → Option Addr
  | readError _ b => some b
  | whole _ b => some b
  | _ => none

/-- What `monikor_server_handle_client` returns. -/
def ClientMessage.code : ClientMessage → Int
  | whole _ _ => 0
  | _ => -1

/-- What is assigned to the client on the way, `header.count = 0` of the
error path included. -/
def ClientMessage.assign (c : ServerClient) : ClientMessage → ServerClient
  | short => { c with header := { c.header with count := 0 } }
  | noMemory header =>
      { c with header := { header with count := 0 }, data := none }
  | readError header b =>
      { c with header := { header with count := 0 }, data := some b }
  | whole header b => { c with header, data := some b }

/-- `monikor_server_handle_client`, on the slot of the handler whose block
is at `b`. -/
def serverHandleClient (s : Server μ) (b : Addr) (message : ClientMessage) :
    Option (Int × Server μ) := do
  let h ← s.srvHandlers b
  let i ← h.client
  let s := { s with
    clients := Function.update s.clients i (message.assign (s.clients i))
    blocks := fun b => s.blocks b || message.block? = some b }
  let s ← serverDisconnect s b
  return (message.code, s)

/-- `monikor_server_handle_any`, with what the system answers to either
function. -/
def serverHandleAny (s : Server μ) (handler : Addr) (accepted : Option Int)
    (srv io : Option Addr) (message : ClientMessage) :
    Option (Int × Server μ) := do
  let n ← s.poll.list.handlers.node handler
  let h ← s.srvHandlers n.val.data
  match h.client with
  | some _ => serverHandleClient s n.val.data message
  | none => serverHandleConnection s accepted srv io

/-- How far `handleClient` gets with the bytes of a connection, the data
going to `block`; `none` while it is still reading. -/
def clientMessage (e : Endian) (fuel : Nat) (a : Allocs) (block : Addr)
    (c : Conn) : Option ClientMessage :=
  match c.read serializedMetricListHdrSize with
  | (none, _) => some .short
  | (some buf, c) =>
      if buf.length < serializedMetricListHdrSize then some .short
      else
        match metricListHeaderUnserialize e buf with
        | .error _ => none
        | .ok hdr =>
            match a.malloc with
            | (false, _) => some (.noMemory hdr)
            | (true, _) =>
                match receiveLoop fuel c hdr.dataSize.toNat [] with
                | none => none
                | some (none, _) => some (.readError hdr block)
                | some (some data, _) =>
                    if data.length < hdr.dataSize.toNat then
                      some (.readError hdr block)
                    else some (.whole hdr block)

-- =================================================================== runs

/-- A call to the server, or something the agent does elsewhere. -/
inductive ServerCall (μ : Type) where
  | handleConnection (accepted : Option Int) (srv io : Option Addr)
  | handleClient (b : Addr) (message : ClientMessage)
  | elsewhere (act : HandlerAct μ)

/-- No handler of the server's is made, rewritten or released. -/
def HandlerAct.Foreign (s : PollState μ) : HandlerAct μ → Prop
  | register _ v => v.callback ≠ some serverHandleAnyAddr
  | rewrite a v => v.callback ≠ some serverHandleAnyAddr
      ∧ ∀ n, s.list.handlers.node a = some n →
        n.val.callback ≠ some serverHandleAnyAddr
  | release a _ => ∀ n, s.list.handlers.node a = some n →
      n.val.callback ≠ some serverHandleAnyAddr
  | _ => True

namespace Server

def step (s : Server μ) : ServerCall μ → Option (Server μ)
  | .handleConnection accepted srv io =>
      (serverHandleConnection s accepted srv io).map Prod.snd
  | .handleClient b message => (serverHandleClient s b message).map Prod.snd
  | .elsewhere act => (act.run s.poll).map fun poll => { s with poll }

/-- A sequence of calls; `none` once one reads or frees a block that is
not live. -/
def steps (s : Server μ) (calls : List (ServerCall μ)) : Option (Server μ) :=
  calls.foldlM step s

/-- The block of a connected client's handler. -/
def Connected (s : Server μ) (b : Addr) : Prop :=
  ∃ h, s.srvHandlers b = some h ∧ h.client ≠ none

/-- accept4(2) answers with a descriptor that was not open and `malloc`
with an address not in use, if they succeed; the clients that are handled
are connected. -/
def Allows (s : Server μ) : ServerCall μ → Prop
  | .handleConnection accepted srv io =>
      (∀ fd, accepted = some fd → 0 ≤ fd ∧ fd ∉ s.poll.opened)
        ∧ (∀ b, srv = some b → s.srvHandlers b = none)
        ∧ ∀ a, io = some a → s.poll.list.handlers.node a = none
  | .handleClient b message => s.Connected b
      ∧ ∀ d, message.block? = some d → s.blocks d = false
  | .elsewhere act => act.Legal s.poll ∧ act.Foreign s.poll

/-- Each call of a sequence is allowed in its turn. -/
def AllowsAll (s : Server μ) : List (ServerCall μ) → Prop
  | [] => True
  | call :: calls => s.Allows call
      ∧ ∀ s', s.step call = some s' → s'.AllowsAll calls

end Server

end Monikor
