/-
io_handler/poll.c: the transfers of libcurl, from their handlers to the
callbacks.

libcurl is not part of the repository: its calls are the parameter `Libcurl`,
and what its documentation says of them is `CurlDoc`. A message is at an
address. Its documentation has it survive until its handle is removed, and
poll.c reads the result behind that: a callback is called with whatever is
read there then.

A callback may start transfers, and does nothing else to their list. `none`
is a read of a handler that is not live, or a loop that does not end within
its fuel.
-/
import Mathlib.Data.Finset.Basic
import Mathlib.Data.Finset.Dedup
import Monikor.IoHandler.List
import Monikor.Lib.Log

namespace Monikor

open Linked

-- ================================================================= libcurl

/-- The calls of the agent on libcurl, which keeps `μ`; `ε` is what becomes
of its transfers in a `curl_multi_perform`. `easyHandle` and `dataResult`
read a message. -/
structure Libcurl (μ ε : Type) extends CurlOps μ where
  easyInit : μ → Addr → μ
  easyCleanup : μ → Addr → μ
  multiPerform : μ → ε → μ
  multiInfoRead : μ → Option Addr × μ
  easyHandle : μ → Addr → Addr
  dataResult : μ → Addr → Nat

/-- What libcurl has: the easy handles there are, those in the multi handle,
and the transfers that have ended, with their results, in the order of their
messages. -/
structure CurlView where
  easies : Finset Addr
  handles : Finset Addr
  ends : List (Addr × Nat)

/-- What is not said of a handle that a message is about. -/
def CurlView.Quiet (v : CurlView) (a : Addr) : Prop := a ∉ v.ends.map Prod.fst

/-- The documentation of the calls. -/
structure CurlDoc {μ ε : Type} (C : Libcurl μ ε) where
  view : μ → CurlView
  easyInit : ∀ m a, view (C.easyInit m a)
    = { view m with easies := insert a (view m).easies }
  easyCleanup : ∀ m a, a ∉ (view m).handles → (view m).Quiet a →
    view (C.easyCleanup m a)
      = { view m with easies := (view m).easies.erase a }
  multiAddHandle : ∀ m a, view (C.multiAddHandle m a)
    = { view m with handles := insert a (view m).handles }
  multiRemoveHandle : ∀ m a, (view m).Quiet a →
    view (C.multiRemoveHandle m a)
      = { view m with handles := (view m).handles.erase a }
  multiPerform : ∀ m e, ((view m).ends.map Prod.fst).Nodup → ∃ ends,
    view (C.multiPerform m e) = { view m with ends := (view m).ends ++ ends }
      ∧ (∀ x ∈ ends, x.1 ∈ (view m).handles)
      ∧ (((view m).ends ++ ends).map Prod.fst).Nodup
  infoReadNone : ∀ m, (view m).ends = [] →
    ∃ m', C.multiInfoRead m = (none, m') ∧ view m' = view m
  infoReadSome : ∀ m a result ends, (view m).ends = (a, result) :: ends →
    ∃ msg m', C.multiInfoRead m = (some msg, m')
      ∧ view m' = { view m with ends }
      ∧ C.easyHandle m' msg = a ∧ C.dataResult m' msg = result

/-- A message survives the removal of its handle, which the documentation
does not promise. -/
def Libcurl.Survives {μ ε : Type} (C : Libcurl μ ε) : Prop :=
  ∀ m a msg, C.dataResult (C.multiRemoveHandle m a) msg = C.dataResult m msg

-- =============================================================== transfers

/-- The handlers, and how many there are. -/
structure CurlState (μ : Type) where
  list : HandlerList μ
  count : Nat

/-- A callback, and what it is called with. -/
structure CurlCall where
  handler : CurlHandler
  result : Nat
deriving DecidableEq

/-- What happens to transfers: `ended` is what a message says as it is read. -/
inductive CurlDid where
  | started (handler : CurlHandler)
  | ended (easy : Addr) (result : Nat)
  | called (call : CurlCall)
deriving DecidableEq

variable {μ ε : Type} (C : Libcurl μ ε)

namespace CurlState

/-- `monikor_io_handler_list_init`. -/
def init (multi : μ) : CurlState μ := ⟨ioHandlerListInit multi, 0⟩

/-- What `monikor_send_metrics` and `monikor_http_get_with_headers` end with:
`monikor_curl_handler_new` and `monikor_io_handler_list_push_curl`. -/
def startTransfer (s : CurlState μ) (a : Addr) (v : CurlHandler) :
    Option (CurlState μ) := do
  let multi := C.easyInit s.list.multi v.curl
  let l := curlHandlerNew { s.list with multi } a v.curl v.callback v.data
  let list ← ioHandlerListPushCurl C.toCurlOps l a
  return ⟨list, s.count + 1⟩

def startAll : List (Addr × CurlHandler) → CurlState μ → Option (CurlState μ)
  | [], s => some s
  | (a, v) :: starts, s => do
      let s ← s.startTransfer C a v
      startAll starts s

variable {C} (D : CurlDoc C)

/-- A transfer has an address, an easy handle that there was not, and a
callback. -/
def Fresh (s : CurlState μ) (a : Addr) (v : CurlHandler) : Prop :=
  s.list.curl.node a = none ∧ v.curl ∉ (D.view s.list.multi).easies
    ∧ v.callback ≠ none

/-- Each of some transfers is new in its turn. -/
def FreshAll : List (Addr × CurlHandler) → CurlState μ → Prop
  | [], _ => True
  | (a, v) :: starts, s => s.Fresh D a v
      ∧ ∀ s', s.startTransfer C a v = some s' → FreshAll starts s'

end CurlState

/-- What the callbacks do: the transfers a call starts. -/
structure CurlCallbacks {C : Libcurl μ ε} (D : CurlDoc C) where
  starts : CurlState μ → CurlCall → List (Addr × CurlHandler)
  fresh : ∀ s call, CurlState.FreshAll D (starts s call) s

-- ================================================================== poll.c

/-- The search of `perform_curl_handling`, from a handler on. -/
def findCurl (l : HandlerList μ) (easy : Addr) :
    Nat → Option Addr → Option (Option Addr)
  | 0, _ => none
  | _ + 1, none => some none
  | fuel + 1, some handler => do
      let n ← l.curl.node handler
      if n.val.curl = easy then return some handler
      findCurl l easy fuel n.next

variable {C} {D : CurlDoc C} (κ : CurlCallbacks D)

/-- What is done with a message, once its handler has been looked up. -/
def curlDone (msg easy : Addr) (s : CurlState μ) :
    Option Addr → Option (List CurlDid × CurlState μ)
  | none =>
      some ([], { s with
        list := { s.list with multi := C.multiRemoveHandle s.list.multi easy } })
  | some handler => do
      let n ← s.list.curl.node handler
      let list ← ioHandlerListRemoveCurl C.toCurlOps s.list handler
      let s := { s with list }
      let (did, s) ←
        if n.val.callback = none then some ([], s)
        else do
          -- the message is read after its handle was removed
          let call := ⟨n.val, C.dataResult s.list.multi msg⟩
          let starts := κ.starts s call
          let s ← s.startAll C starts
          some (.called call :: starts.map fun x => .started x.2, s)
      let curl ← s.list.curl.free handler
      return (did, ⟨{ s.list with curl }, s.count - 1⟩)

/-- The loop of `perform_curl_handling`; every message is a
`CURLMSG_DONE`. -/
def curlLoop : Nat → CurlState μ → Option (List CurlDid × CurlState μ)
  | 0, _ => none
  | fuel + 1, s =>
      match C.multiInfoRead s.list.multi with
      | (none, multi) => some ([], { s with list := { s.list with multi } })
      | (some msg, multi) => do
          let s := { s with list := { s.list with multi } }
          let easy := C.easyHandle multi msg
          let handler ← findCurl s.list easy (s.count + 1) s.list.curl.first
          let (did, s) ← curlDone κ msg easy s handler
          let s := { s with list :=
            { s.list with multi := C.easyCleanup s.list.multi easy } }
          let (rest, s) ← curlLoop fuel s
          return (.ended easy (C.dataResult multi msg) :: did ++ rest, s)

/-- `perform_curl_handling`. -/
def performCurlHandling (e : ε) (s : CurlState μ) :
    Option (List CurlDid × CurlState μ) :=
  let multi := C.multiPerform s.list.multi e
  curlLoop κ (s.count + 1) { s with list := { s.list with multi } }

-- ==================================================================== runs

/-- What is done to transfers: one is started, or those that are done are
handled. -/
inductive CurlOp (ε : Type) where
  | start (a : Addr) (v : CurlHandler)
  | perform (e : ε)

namespace CurlOp

def step (op : CurlOp ε) (s : CurlState μ) :
    Option (List CurlDid × CurlState μ) :=
  match op with
  | start a v => do
      let s ← s.startTransfer C a v
      return ([.started v], s)
  | perform e => performCurlHandling κ e s

/-- A transfer that is started is new. -/
def Legal (D : CurlDoc C) (op : CurlOp ε) (s : CurlState μ) : Prop :=
  match op with
  | start a v => s.Fresh D a v
  | perform _ => True

instance (op : CurlOp ε) (s : CurlState μ) : Decidable (op.Legal D s) :=
  match op with
  | start a v => inferInstanceAs (Decidable
      (s.list.curl.node a = none ∧ v.curl ∉ (D.view s.list.multi).easies
        ∧ v.callback ≠ none))
  | perform _ => .isTrue trivial

end CurlOp

/-- The transfers a log has started. -/
def startedOf (log : List CurlDid) : List CurlHandler :=
  log.filterMap fun
    | .started v => some v
    | _ => none

/-- The ends of transfers that a log has read of. -/
def endedOf (log : List CurlDid) : List (Addr × Nat) :=
  log.filterMap fun
    | .ended easy result => some (easy, result)
    | _ => none

/-- The callbacks a log has called. -/
def calledOf (log : List CurlDid) : List CurlCall :=
  log.filterMap fun
    | .called call => some call
    | _ => none

-- ================================================================= cleanup

variable (C)

end Monikor
