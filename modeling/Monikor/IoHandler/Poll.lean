/-
io_handler/poll.c: what select(2) waits for, and the walk that calls the
handlers whose descriptors are ready.

The walk reads a handler's link before it calls the handler, and the
callback changes the list under the walk: `HandlerAct` is what the agent's
code does to the I/O handlers, with the descriptors it opens and closes on
the way. `none` is a read of a handler that is not live, or a walk that
does not end within its fuel.

What comes before `set_fd_sets` in `monikor_io_handler_poll`, libcurl's
transfers and the timeout, reads no I/O handler and is left out.
-/
import Monikor.IoHandler.List

namespace Monikor

open Linked

variable {μ : Type}

/-- `MONIKOR_IO_HANDLER_RD`. -/
def ioHandlerRd : UInt8 := 1

/-- `MONIKOR_IO_HANDLER_WR`. -/
def ioHandlerWr : UInt8 := 2

/-- Two `fd_set`s: for reading, and for writing. -/
structure FdSets where
  rdfds : List Int
  wrfds : List Int
deriving DecidableEq

def FdSets.zero : FdSets := ⟨[], []⟩

-- ============================================================= set_fd_sets

/-- The body of the loop of `set_fd_sets`; the second component is
`ndfs`. -/
def setFd (handler : IoHandler) (sets : FdSets) (ndfs : Int) : FdSets × Int :=
  if handler.fd = -1 then (sets, ndfs)
  else if handler.mode &&& ioHandlerRd ≠ 0 then
    ({ sets with rdfds := handler.fd :: sets.rdfds }, max handler.fd ndfs)
  else if handler.mode &&& ioHandlerWr ≠ 0 then
    ({ sets with wrfds := handler.fd :: sets.wrfds }, max handler.fd ndfs)
  else (sets, ndfs)

/-- The loop of `set_fd_sets`, from a handler on. -/
def setFdSetsLoop (l : HandlerList μ) :
    Nat → FdSets → Int → Option Addr → Option (FdSets × Int)
  | 0, _, _, _ => none
  | _ + 1, sets, ndfs, none => some (sets, ndfs)
  | fuel + 1, sets, ndfs, some handler => do
      let n ← l.handlers.node handler
      let r := setFd n.val sets ndfs
      setFdSetsLoop l fuel r.1 r.2 n.next

/-- `set_fd_sets`, with the sets and the `ndfs` that `curl_multi_fdset`
filled in. -/
def setFdSets (fuel : Nat) (l : HandlerList μ) (curl : FdSets)
    (ndfs : Int) : Option (FdSets × Int) := do
  let (sets, ndfs) ← setFdSetsLoop l fuel curl ndfs l.handlers.first
  return (sets, ndfs + 1)

-- =============================================================== the state

/-- The handler lists, and the descriptors the process has open. -/
structure PollState (μ : Type) where
  list : HandlerList μ
  opened : List Int

/-- What the agent does to an I/O handler, or to a descriptor. -/
inductive HandlerAct (μ : Type) where
  /-- A handler is made for a descriptor just opened, and registered. -/
  | register (a : Addr) (v : IoHandler)
  /-- The fields of a handler are assigned. A new descriptor is open
  already, and the one it replaces is closed. -/
  | rewrite (a : Addr) (v : IoHandler)
  /-- A handler is unregistered and freed; its descriptor is closed, or
  left open. -/
  | release (a : Addr) (closes : Bool)
  /-- A descriptor of no handler is opened. -/
  | openFd (fd : Int)
  /-- A descriptor of no handler is closed. -/
  | closeFd (fd : Int)
  /-- The curl handlers and the process handlers become those of `l`. -/
  | elsewhere (l : HandlerList μ)

/-- The open descriptors once a handler's descriptor `old` has been
replaced by `new`. -/
def replaceFd (opened : List Int) (old new : Int) : List Int :=
  if new = old then opened
  else if new = -1 then opened.filter (· ≠ old)
  else new :: opened.filter (· ≠ old)

namespace HandlerAct

def run (s : PollState μ) : HandlerAct μ → Option (PollState μ)
  | register a v => do
      let l := ioHandlerNew s.list a v.fd v.mode v.callback v.data
      let list ← ioHandlerListPush l a
      return ⟨list, v.fd :: s.opened⟩
  | rewrite a v => do
      let n ← s.list.handlers.node a
      let handlers ← s.list.handlers.write a v
      return ⟨{ s.list with handlers }, replaceFd s.opened n.val.fd v.fd⟩
  | release a closes => do
      let n ← s.list.handlers.node a
      let list ← ioHandlerListRemove s.list a
      let handlers ← list.handlers.free a
      let opened :=
        if closes then s.opened.filter (· ≠ n.val.fd) else s.opened
      return ⟨{ list with handlers }, opened⟩
  | openFd fd => some { s with opened := fd :: s.opened }
  | closeFd fd => some { s with opened := s.opened.filter (· ≠ fd) }
  | elsewhere l =>
      some { s with list := { l with handlers := s.list.handlers } }

def runAll (s : PollState μ) (acts : List (HandlerAct μ)) :
    Option (PollState μ) :=
  acts.foldlM run s

/-- The system keeps its word: `malloc` answers with an address not in
use, and a descriptor that is opened was not open. The agent releases and
rewrites handlers that are registered, and closes no descriptor of
another handler. -/
def Legal (s : PollState μ) : HandlerAct μ → Prop
  | register a v =>
      s.list.handlers.node a = none ∧ 0 ≤ v.fd ∧ v.fd ∉ s.opened
  | rewrite a v => ∃ n, s.list.handlers.node a = some n
      ∧ (v.fd = n.val.fd ∨ v.fd = -1 ∨ 0 ≤ v.fd ∧ v.fd ∉ s.opened)
  | release a _ => s.list.handlers.node a ≠ none
  | openFd fd => 0 ≤ fd ∧ fd ∉ s.opened
  | closeFd fd => ∀ a n, s.list.handlers.node a = some n → n.val.fd ≠ fd
  | elsewhere _ => True

/-- An act of a callback, `own` being its handler as long as it has not
released it, and `atSelect` the descriptors that were open when select
was called: it appends handlers for other descriptors, and releases or
rewrites no handler but its own. -/
def LegalIn (atSelect : List Int) (own : Option Addr) (s : PollState μ)
    (act : HandlerAct μ) : Prop :=
  act.Legal s ∧
    match act with
    | register _ v => v.fd ∉ atSelect
    | rewrite a _ => own = some a
    | release a _ => own = some a
    | _ => True

/-- The callback's own handler after an act. -/
def ownAfter (own : Option Addr) : HandlerAct μ → Option Addr
  | release _ _ => none
  | _ => own

/-- Each act of a callback is legal in its turn. -/
def LegalAll (atSelect : List Int) :
    Option Addr → PollState μ → List (HandlerAct μ) → Prop
  | _, _, [] => True
  | own, s, act :: acts => act.LegalIn atSelect own s
      ∧ ∀ s', act.run s = some s' →
        LegalAll atSelect (act.ownAfter own) s' acts

end HandlerAct

/-- A state the agent comes to from the empty list; what callbacks do
inside `monikor_io_handler_poll` counts too. -/
inductive PollState.Reachable : PollState μ → Prop where
  | start (multi : μ) (opened : List Int) :
      Reachable ⟨ioHandlerListInit multi, opened⟩
  | act {s s' : PollState μ} {act : HandlerAct μ} : Reachable s →
      act.Legal s → act.run s = some s' → Reachable s'

-- ================================================================ dispatch

/-- A call of a handler's callback. -/
structure PollCall where
  handler : Addr
  callback : Addr
  mode : UInt8
deriving DecidableEq

/-- What the callbacks do: the acts of a call, given the calls of the walk
before it and the state it is made in. -/
structure Callbacks (μ : Type) (atSelect : List Int) where
  acts : List PollCall → PollState μ → PollCall → List (HandlerAct μ)
  legal : ∀ calls s call,
    HandlerAct.LegalAll atSelect (some call.handler) s (acts calls s call)

/-- `(FD_ISSET(fd, &rdfds) ? RD : 0) | (FD_ISSET(fd, &wrfds) ? WR : 0)`. -/
def readyMode (ready : FdSets) (fd : Int) : UInt8 :=
  (if fd ∈ ready.rdfds then ioHandlerRd else 0)
    ||| (if fd ∈ ready.wrfds then ioHandlerWr else 0)

/-- The call the walk makes at a handler. -/
def pollCall (ready : FdSets) (a : Addr) (handler : IoHandler) :
    Option PollCall :=
  if handler.fd ≠ -1 ∧ readyMode ready handler.fd ≠ 0 then
    handler.callback.map (⟨a, ·, readyMode ready handler.fd⟩)
  else none

/-- The body of the walk, at a handler whose link has been read. -/
def pollHandler {atSelect : List Int} (κ : Callbacks μ atSelect)
    (ready : FdSets) (calls : List PollCall) (s : PollState μ) (a : Addr)
    (handler : IoHandler) : Option (List PollCall × PollState μ) :=
  match pollCall ready a handler with
  | none => some (calls, s)
  | some call => do
      let s' ← HandlerAct.runAll s (κ.acts calls s call)
      return (calls ++ [call], s')

/-- The walk of `monikor_io_handler_poll`. -/
def dispatchLoop {atSelect : List Int} (κ : Callbacks μ atSelect)
    (ready : FdSets) : Nat → List PollCall → PollState μ → Option Addr →
      Option (List PollCall × PollState μ)
  | 0, _, _, _ => none
  | _ + 1, calls, s, none => some (calls, s)
  | fuel + 1, calls, s, some a => do
      let n ← s.list.handlers.node a
      let r ← pollHandler κ ready calls s a n.val
      dispatchLoop κ ready fuel r.1 r.2 n.next

-- ============================================================ the function

/-- What `curl_multi_fdset` fills in: descriptors of libcurl's own, and
the highest of them. -/
structure CurlFds (s : PollState μ) where
  sets : FdSets
  ndfs : Int
  own : ∀ fd ∈ sets.rdfds ++ sets.wrfds, fd ∈ s.opened ∧ fd ≤ ndfs
    ∧ ∀ a n, s.list.handlers.node a = some n → n.val.fd ≠ fd

/-- select(2), called again while it is interrupted: what it returns, and
what it leaves of the sets it was given. -/
structure Select where
  answer : Int → FdSets → Int × FdSets
  within : ∀ ndfs sets,
    (∀ fd ∈ (answer ndfs sets).2.rdfds, fd ∈ sets.rdfds ∧ fd < ndfs)
      ∧ ∀ fd ∈ (answer ndfs sets).2.wrfds, fd ∈ sets.wrfds ∧ fd < ndfs

/-- `monikor_io_handler_poll` from `set_fd_sets` on: what it returns, the
calls it makes, and the state it leaves. -/
def ioHandlerPoll (fuel : Nat) (s : PollState μ) (curl : CurlFds s)
    (select : Select) (κ : Callbacks μ s.opened) :
    Option (Int × List PollCall × PollState μ) := do
  let (sets, ndfs) ← setFdSets fuel s.list curl.sets curl.ndfs
  if ndfs ≤ 0 then return (ndfs, [], s)
  let (err, ready) := select.answer ndfs sets
  if err ≤ 0 then return (err, [], s)
  let (calls, s') ← dispatchLoop κ ready fuel [] s s.list.handlers.first
  return (err, calls, s')

end Monikor
