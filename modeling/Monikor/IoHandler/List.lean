/-
io_handler.c and list.c: the three handler lists of the agent.

A handler is a node of a doubly linked list; what C keeps in it besides
its links is the node's payload. Each kind of handler lives in its own
store, beside the header of the list it goes to. An address comes with
each new handler: `malloc` may answer with any that is not in use.

libcurl is not part of the repository: what its multi handle becomes when
an easy handle is added or removed is the parameter `CurlOps`.
-/
import Monikor.Lib.Dlist
import Monikor.Lists.Heap

namespace Monikor

open Linked

/-- The calls on a curl multi handle that list.c makes. -/
structure CurlOps (μ : Type) where
  multiAddHandle : μ → Addr → μ
  multiRemoveHandle : μ → Addr → μ

/-- `monikor_io_handler_t`, without its links. -/
structure IoHandler where
  fd : Int
  mode : UInt8
  callback : Option Addr
  data : Addr
deriving DecidableEq

/-- `monikor_curl_handler_t`, without its links. -/
structure CurlHandler where
  curl : Addr
  callback : Option Addr
  data : Addr
deriving DecidableEq

/-- What is registered for a process: the exit of a command
(`handle_process_exit`), or a reaper (`reap_process_callback`). -/
inductive ProcessCallback where
  | handleProcessExit
  | reapProcessCallback
deriving DecidableEq

/-- `monikor_process_handler_t`, without its links. -/
structure ProcessHandler where
  pid : Int
  callback : Option ProcessCallback
  data : Addr
deriving DecidableEq

/-- `monikor_io_handler_list_t`, with the handlers there are. -/
structure HandlerList (μ : Type) where
  handlers : Dlist Addr IoHandler
  curl : Dlist Addr CurlHandler
  multi : μ
  processes : Dlist Addr ProcessHandler

variable {μ : Type}

-- ============================================================ io_handler.c

/-- `monikor_io_handler_new`, at the address `malloc` answered. -/
def ioHandlerNew (l : HandlerList μ) (a : Addr) (fd : Int) (mode : UInt8)
    (callback : Option Addr) (data : Addr) : HandlerList μ :=
  { l with handlers := l.handlers.create a { fd, mode, callback, data } }

/-- `monikor_curl_handler_new`, with the easy handle libcurl answered. -/
def curlHandlerNew (l : HandlerList μ) (a curl : Addr)
    (callback : Option Addr) (data : Addr) : HandlerList μ :=
  { l with curl := l.curl.create a { curl, callback, data } }

/-- `monikor_process_handler_new`. -/
def processHandlerNew (l : HandlerList μ) (a : Addr) (pid : Int)
    (callback : Option ProcessCallback) (data : Addr) : HandlerList μ :=
  { l with processes := l.processes.create a { pid, callback, data } }

-- ================================================================== list.c

/-- `monikor_io_handler_list_init`, with the multi handle libcurl
answered. -/
def ioHandlerListInit (multi : μ) : HandlerList μ :=
  ⟨.empty, .empty, multi, .empty⟩

/-- `monikor_io_handler_list_push`. -/
def ioHandlerListPush (l : HandlerList μ) (handler : Addr) :
    Option (HandlerList μ) := do
  let handlers ← l.handlers.push handler
  return { l with handlers }

/-- `monikor_io_handler_list_remove`. -/
def ioHandlerListRemove (l : HandlerList μ) (handler : Addr) :
    Option (HandlerList μ) := do
  let handlers ← l.handlers.remove handler
  return { l with handlers }

/-- `monikor_io_handler_list_push_curl`. -/
def ioHandlerListPushCurl (C : CurlOps μ) (l : HandlerList μ)
    (handler : Addr) : Option (HandlerList μ) := do
  let curl ← l.curl.push handler
  let n ← curl.node handler
  return { l with curl, multi := C.multiAddHandle l.multi n.val.curl }

/-- `monikor_io_handler_list_remove_curl`. -/
def ioHandlerListRemoveCurl (C : CurlOps μ) (l : HandlerList μ)
    (handler : Addr) : Option (HandlerList μ) := do
  let curl ← l.curl.remove handler
  let n ← curl.node handler
  return { l with curl, multi := C.multiRemoveHandle l.multi n.val.curl }

/-- `monikor_io_handler_list_push_process`. -/
def ioHandlerListPushProcess (l : HandlerList μ) (handler : Addr) :
    Option (HandlerList μ) := do
  let processes ← l.processes.push handler
  return { l with processes }

/-- `monikor_io_handler_list_remove_process`. -/
def ioHandlerListRemoveProcess (l : HandlerList μ) (handler : Addr) :
    Option (HandlerList μ) := do
  let processes ← l.processes.remove handler
  return { l with processes }

-- =============================================================== histories

/-- What happens to one of the three lists: a handler is created and
pushed, removed, or freed once removed. -/
inductive HandlerOp where
  | io (op : Dlist.Op Addr IoHandler)
  | curl (op : Dlist.Op Addr CurlHandler)
  | process (op : Dlist.Op Addr ProcessHandler)

namespace HandlerOp

/-- The operations on the I/O list. -/
def io? : HandlerOp → Option (Dlist.Op Addr IoHandler)
  | .io op => some op
  | _ => none

/-- The operations on the curl list. -/
def curl? : HandlerOp → Option (Dlist.Op Addr CurlHandler)
  | .curl op => some op
  | _ => none

/-- The operations on the process list. -/
def process? : HandlerOp → Option (Dlist.Op Addr ProcessHandler)
  | .process op => some op
  | _ => none

end HandlerOp

namespace HandlerList

def step (C : CurlOps μ) (l : HandlerList μ) :
    HandlerOp → Option (HandlerList μ)
  | .io (.push a v) =>
      ioHandlerListPush (ioHandlerNew l a v.fd v.mode v.callback v.data) a
  | .io (.remove a) => ioHandlerListRemove l a
  | .io (.free a) => do
      let handlers ← l.handlers.free a
      return { l with handlers }
  | .curl (.push a v) =>
      ioHandlerListPushCurl C (curlHandlerNew l a v.curl v.callback v.data) a
  | .curl (.remove a) => ioHandlerListRemoveCurl C l a
  | .curl (.free a) => do
      let curl ← l.curl.free a
      return { l with curl }
  | .process (.push a v) =>
      ioHandlerListPushProcess (processHandlerNew l a v.pid v.callback v.data) a
  | .process (.remove a) => ioHandlerListRemoveProcess l a
  | .process (.free a) => do
      let processes ← l.processes.free a
      return { l with processes }

/-- A sequence of operations; `none` once one reads a handler that is not
live. -/
def steps (C : CurlOps μ) (l : HandlerList μ) (ops : List HandlerOp) :
    Option (HandlerList μ) :=
  ops.foldlM (step C) l

end HandlerList

end Monikor
