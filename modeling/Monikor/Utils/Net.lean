/-
utils/net.c: one exchange with a server, from the addresses its name
resolves to.

An address stands for the socket that is made for it. What becomes of a
`connect` is told at once or by the socket when it is writable (`Connect`).
Allocations succeed, and `getaddrinfo` has answered with a list.
-/
import Monikor.IoHandler.Poll
import Monikor.Utils.ReadFile

namespace Monikor

/-- `MNK_NET_RD_SZ`. -/
def netRdSz : Nat := 4096

/-- What becomes of a connection: `connect` fails, or it is in progress and
`SO_ERROR` has an error or none. -/
inductive Connect where
  | failsAtOnce
  | failsLater
  | succeeds
deriving DecidableEq

/-- The sockets of the system, by address: `sends` is whether `fcntl` and
`write` go through on a connection. -/
structure NetSystem (α : Type) where
  connect : α → Connect
  sends : α → Bool

/-- The callbacks of a handler. -/
inductive NetCallback where
  | connect
  | read
deriving DecidableEq

/-- The handler of an exchange: `fd` is its socket, `none` for -1, and `aiCur`
the addresses from `ai_cur` of its data on. -/
structure NetHandler (α : Type) where
  fd : Option α
  mode : UInt8
  callback : Option NetCallback
  aiCur : List α

variable {α : Type} (sys : NetSystem α)

/-- `monikor_net_connect`, of the address at `ai_cur`. -/
def netConnect (ai : α) : Option α :=
  if sys.connect ai = .failsAtOnce then none else some ai

/-- `monikor_net_recv`. -/
def netRecv (junk : Nat → UInt8) (reads : List ReadResult) :
    Option (Option (List UInt8)) :=
  readLoop junk netRdSz reads none 0

/-- A handler that is closed, without its data. -/
def NetHandler.closed : NetHandler α := ⟨none, 0, none, []⟩

/-- `handle_io_read`: what the callback of the exchange is called with, and
the handler. -/
def handleIoRead (junk : Nat → UInt8) (reads : List ReadResult) :
    Option (List (List UInt8) × NetHandler α) := do
  let received ← netRecv junk reads
  return (received.toList, .closed)

/-- The test of `handle_io_connect`: `SO_ERROR` cannot be had, or is one. -/
def NetHandler.connectFailed (handler : NetHandler α) : Bool :=
  match handler.fd with
  | none => true
  | some ai => sys.connect ai = .failsLater

/-- `handle_io_connect`. -/
def handleIoConnect (handler : NetHandler α) : NetHandler α :=
  if handler.connectFailed sys then
    match handler.aiCur.tail with
    | [] => .closed
    | ai :: rest =>
        match netConnect sys ai with
        | none => .closed
        | some fd => { handler with fd := some fd, aiCur := ai :: rest }
  else if handler.fd.any sys.sends then
    { handler with mode := ioHandlerRd, callback := some .read }
  else .closed

/-- `monikor_net_exchange`, of the addresses of the host. -/
def netExchange : List α → Option (NetHandler α)
  | [] => none
  | ai :: rest =>
      match netConnect sys ai with
      | none => none
      | some fd => some ⟨some fd, ioHandlerWr, some .connect, ai :: rest⟩

/-- A socket that is writable: the handler waits for it while it connects. -/
def NetHandler.writable (handler : NetHandler α) : NetHandler α :=
  if handler.callback = some .connect then handleIoConnect sys handler
  else handler

/-- The exchange once its socket has been writable for every address. -/
def netConnected (ais : List α) : Option (NetHandler α) :=
  (netExchange sys ais).map (NetHandler.writable sys)^[ais.length]

end Monikor
