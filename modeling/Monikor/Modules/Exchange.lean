/-
utils/net.c, memcached.c and redis.c: what the exchanges of the two modules
open and allocate.

Any number of instances poll their servers, each by one exchange at a time,
and their handlers are in one list. An exchange has a socket, a
`monikor_net_handler_data_t` and the addresses of its host. `none` is a use
of what is not there: a handler, data or addresses that were freed or that
never were, a descriptor that is not open, or the module of a callback.

The log says what is lost: a socket whose connection fails at once is not
closed, and a module that polls again, or is cleaned up, in the middle of an
exchange does not free all of it. What is sent and what is made of a
response are in Modules/Redis.lean and in the modules that read them.
-/
import Monikor.IoHandler.Poll
import Monikor.Lib.Log

namespace Monikor

open Linked

/-- `NULL`, as the `data` of a handler. -/
def nullData : Addr := 0

/-- `&handle_io_connect`. -/
def ioConnectCallback : Addr := 0

/-- `&handle_io_read`. -/
def ioReadCallback : Addr := 1

/-- `monikor_net_handler_data_t`: the module of its callback, the list of
`ai`, and how many of its addresses there are from `ai_cur` on. -/
structure NetData where
  mod : Nat
  ai : Addr
  left : Nat
deriving DecidableEq

/-- The I/O handlers, the open descriptors, the handler data, the lists of
addresses, and the `io_handler` of each module there is. -/
structure Exchanges where
  handlers : Dlist Addr IoHandler
  opened : List Int
  data : Addr → Option NetData
  ais : List Addr
  mods : Nat → Option (Option Addr)

/-- What is lost, and the calls of the modules. -/
inductive ExchangeDid where
  | lostSocket (fd : Int)
  | lostData (p : Addr)
  | lostAddrs (ai : Addr)
  | called (i : Nat)
deriving DecidableEq

/-- How `monikor_net_connect` ends: without a socket, with one whose
connection failed, or with one. -/
inductive SocketResult where
  | none
  | failed (fd : Int)
  | made (fd : Int)

/-- What the system answers to `monikor_net_exchange`: memory, the addresses
of the host (`none` if `getaddrinfo` fails), a socket, and a handler. -/
structure ExchangeStart where
  data : Option Addr
  ai : Option Addr
  addresses : Nat
  socket : SocketResult
  handler : Option Addr

/-- What the system answers to the callbacks of an exchange: whether
`SO_ERROR` is an error, the next socket, whether the command is sent, and
whether there is a response. -/
structure ExchangeReady where
  soError : Bool
  socket : SocketResult
  sends : Bool
  received : Bool

namespace Exchanges

def start : Exchanges := ⟨.empty, [], fun _ => .none, [], fun _ => .none⟩

-- ============================================================== the system

/-- `close`. -/
def close (s : Exchanges) (fd : Int) : Option Exchanges :=
  if fd ∈ s.opened then some { s with opened := s.opened.erase fd } else none

/-- `freeaddrinfo`. -/
def freeAddrs (s : Exchanges) (ai : Addr) : Option Exchanges :=
  if ai ∈ s.ais then some { s with ais := s.ais.erase ai } else none

/-- `free`, of handler data or of `NULL`. -/
def freeData (s : Exchanges) (p : Addr) : Option Exchanges :=
  if p = nullData then some s
  else if s.data p = none then none
  else some { s with data := Function.update s.data p .none }

-- =================================================================== net.c

/-- `monikor_net_connect`: its socket, if there is one to go on with. -/
def connect (s : Exchanges) : SocketResult →
    List ExchangeDid × Option Int × Exchanges
  | .none => ([], none, s)
  | .failed fd =>
      ([.lostSocket fd], none, { s with opened := fd :: s.opened })
  | .made fd => ([], some fd, { s with opened := fd :: s.opened })

/-- What both callbacks end an exchange with. -/
def finish (s : Exchanges) (a : Addr) : Option Exchanges := do
  let n ← s.handlers.node a
  let d ← s.data n.val.data
  let s ← s.close n.val.fd
  let s ← s.freeAddrs d.ai
  let s ← s.freeData n.val.data
  let handlers ← s.handlers.write a ⟨-1, 0, none, nullData⟩
  return { s with handlers }

/-- `handle_io_read`. -/
def handleIoRead (s : Exchanges) (a : Addr) (e : ExchangeReady) :
    Option (List ExchangeDid × Exchanges) := do
  let n ← s.handlers.node a
  let d ← s.data n.val.data
  let s ← s.finish a
  if e.received then do
    let _ ← s.mods d.mod
    return ([.called d.mod], s)
  else return ([], s)

/-- `handle_io_connect`. -/
def handleIoConnect (s : Exchanges) (a : Addr) (e : ExchangeReady) :
    Option (List ExchangeDid × Exchanges) := do
  let n ← s.handlers.node a
  let d ← s.data n.val.data
  if e.soError then
    if d.left ≤ 1 then do
      let s ← s.finish a
      return ([], s)
    else
      match s.connect e.socket with
      | (did, none, s) => do
          let s ← s.finish a
          return (did, s)
      | (did, some fd, s) => do
          let s ← s.close n.val.fd
          let handlers ← s.handlers.write a { n.val with fd }
          let data := Function.update s.data n.val.data
            (some { d with left := d.left - 1 })
          return (did, { s with handlers, data })
  else if e.sends then do
    let handlers ← s.handlers.write a
      { n.val with mode := ioHandlerRd, callback := some ioReadCallback }
    return ([], { s with handlers })
  else do
    let s ← s.finish a
    return ([], s)

/-- `monikor_net_exchange`, for a module: its handler. -/
def netExchange (s : Exchanges) (i : Nat) (e : ExchangeStart) :
    Option (List ExchangeDid × Option Addr × Exchanges) :=
  match e.data, e.ai with
  | none, _ => some ([], none, s)
  -- monikor_net_gai frees `ai`, which `malloc` left as it was
  | some _, none => none
  | some p, some ai =>
      let s := { s with
        data := Function.update s.data p (some ⟨i, ai, e.addresses⟩)
        ais := ai :: s.ais }
      match s.connect e.socket with
      | (did, none, s) => do
          let s ← s.freeAddrs ai
          let s ← s.freeData p
          return (did, none, s)
      | (did, some fd, s) =>
          match e.handler with
          | none => do
              let s ← s.freeAddrs ai
              let s ← s.freeData p
              let s ← s.close fd
              return (did, none, s)
          | some a =>
              let handlers :=
                s.handlers.create a ⟨fd, ioHandlerWr, some ioConnectCallback, p⟩
              some (did, some a, { s with handlers })

-- ============================================================= the modules

/-- What a module does with the handler it has: `frees` is whether its data
is freed. -/
def drop (s : Exchanges) (a : Addr) (frees : Bool) :
    Option (List ExchangeDid × Exchanges) := do
  let n ← s.handlers.node a
  let lost := match s.data n.val.data with
    | none => []
    | some d =>
        (if frees then [] else [.lostData n.val.data]) ++ [.lostAddrs d.ai]
  let handlers ← s.handlers.remove a
  let s := { s with handlers }
  let s ← if frees then s.freeData n.val.data else some s
  let s ← if n.val.fd ≠ -1 then s.close n.val.fd else some s
  let handlers ← s.handlers.free a
  return (lost, { s with handlers })

/-- The handler of a module, if it has one, dropped. -/
def dropHeld (s : Exchanges) (frees : Bool) :
    Option Addr → Option (List ExchangeDid × Exchanges)
  | none => some ([], s)
  | some a => s.drop a frees

/-- `memcached_poll` and `redis_poll`. -/
def poll (s : Exchanges) (i : Nat) (e : ExchangeStart) :
    Option (List ExchangeDid × Exchanges) :=
  match s.mods i with
  | none => some ([], s)
  | some held => do
      let (lost, s) ← s.dropHeld false held
      let s := { s with mods := Function.update s.mods i (some .none) }
      match ← s.netExchange i e with
      | (did, none, s) => return (lost ++ did, s)
      | (did, some a, s) => do
          let handlers ← s.handlers.push a
          let mods := Function.update s.mods i (some (some a))
          return (lost ++ did, { s with handlers, mods })

/-- `memcached_cleanup` and `redis_cleanup`. -/
def cleanup (s : Exchanges) (i : Nat) :
    Option (List ExchangeDid × Exchanges) :=
  match s.mods i with
  | none => some ([], s)
  | some held => do
      let (lost, s) ← s.dropHeld true held
      return (lost, { s with mods := Function.update s.mods i .none })

end Exchanges

-- ==================================================================== runs

/-- A module is loaded, polled or cleaned up, or `monikor_io_handler_poll`
comes to a handler that is ready. -/
inductive ExchangeOp where
  | init (i : Nat)
  | poll (i : Nat) (e : ExchangeStart)
  | ready (a : Addr) (e : ExchangeReady)
  | cleanup (i : Nat)

namespace ExchangeOp

def step (op : ExchangeOp) (s : Exchanges) :
    Option (List ExchangeDid × Exchanges) :=
  match op with
  | init i => some ([], { s with mods := Function.update s.mods i (some none) })
  | poll i e => s.poll i e
  | ready a e => do
      let n ← s.handlers.node a
      if n.val.fd = -1 then return ([], s)
      else if n.val.callback = some ioConnectCallback then s.handleIoConnect a e
      else if n.val.callback = some ioReadCallback then s.handleIoRead a e
      else return ([], s)
  | cleanup i => s.cleanup i

/-- A descriptor that `socket` answers with is not open. -/
def SocketOk (s : Exchanges) : SocketResult → Prop
  | .none => True
  | .failed fd | .made fd => 0 ≤ fd ∧ fd ∉ s.opened

/-- What a new exchange is given is not in use. -/
def StartOk (s : Exchanges) (e : ExchangeStart) : Prop :=
  (∀ p ∈ e.data, p ≠ nullData ∧ s.data p = none)
    ∧ (∀ ai ∈ e.ai, ai ∉ s.ais) ∧ SocketOk s e.socket
    ∧ ∀ a ∈ e.handler, s.handlers.node a = none

/-- `getaddrinfo` does not fail, if there is memory to call it. -/
def Resolves (e : ExchangeStart) : Prop :=
  e.data.isSome → e.ai.isSome

/-- What the allocators and the system answer is not in use, the handler of
the module being gone when it polls, and the name of its host is resolved; a
module is loaded once, and a handler that is ready is there. -/
def Legal (op : ExchangeOp) (s : Exchanges) : Prop :=
  match op with
  | init i => s.mods i = none
  | poll i e =>
      match (s.mods i).bind (s.dropHeld false) with
      | none => True
      | some (_, s) => StartOk s e ∧ Resolves e
  | ready a e => s.handlers.node a ≠ none ∧ SocketOk s e.socket
  | cleanup _ => True

instance (s : Exchanges) (r : SocketResult) : Decidable (SocketOk s r) :=
  match r with
  | .none => .isTrue trivial
  | .failed fd | .made fd =>
      inferInstanceAs (Decidable (0 ≤ fd ∧ fd ∉ s.opened))

instance (s : Exchanges) (e : ExchangeStart) : Decidable (StartOk s e) :=
  inferInstanceAs (Decidable ((∀ p ∈ e.data, p ≠ nullData ∧ s.data p = none)
    ∧ (∀ ai ∈ e.ai, ai ∉ s.ais) ∧ SocketOk s e.socket
    ∧ ∀ a ∈ e.handler, s.handlers.node a = none))

instance (e : ExchangeStart) : Decidable (Resolves e) :=
  inferInstanceAs (Decidable (e.data.isSome → e.ai.isSome))

instance (op : ExchangeOp) (s : Exchanges) : Decidable (op.Legal s) :=
  match op with
  | init i => inferInstanceAs (Decidable (s.mods i = none))
  | poll i e =>
      match h : (s.mods i).bind (s.dropHeld false) with
      | none => .isTrue (by simp only [Legal, h])
      | some (_, s') => decidable_of_iff (StartOk s' e ∧ Resolves e)
          (by simp only [Legal, h])
  | ready a e => inferInstanceAs (Decidable
      (s.handlers.node a ≠ none ∧ SocketOk s e.socket))
  | cleanup _ => .isTrue trivial

end ExchangeOp

/-- The sockets a log has lost. -/
def lostSockets (log : List ExchangeDid) : List Int :=
  log.filterMap fun
    | .lostSocket fd => some fd
    | _ => none

/-- The handler data a log has lost. -/
def lostDatas (log : List ExchangeDid) : List Addr :=
  log.filterMap fun
    | .lostData p => some p
    | _ => none

/-- The addresses a log has lost. -/
def lostAddrLists (log : List ExchangeDid) : List Addr :=
  log.filterMap fun
    | .lostAddrs ai => some ai
    | _ => none

end Monikor
