/-
send.c and http.c: the batches in flight, and the transfers they go with.

A batch is sent with a transfer whose callback is `handle_server_response`:
it finds the batch in the `send_data_t` it is called with, and frees both.
The callbacks of http.c push metrics. What the callbacks of a
`perform_curl_handling` do to the store is done here in the order of their
calls, once the transfers are handled: the loop does not look at the store.

`Requests` is what all that is for: batches in flight, each under the name
of its transfer. It does not know libcurl: the ends of transfers come to it
as the callbacks are told of them (`toldEnds`).
-/
import Monikor.Core.Life
import Monikor.IoHandler.Curl

namespace Monikor

open Machine

/-- `&handle_server_response` of send.c; a callback with another address is
one of http.c. -/
def responseCallback : Addr := 0

/-- What answers a transfer of http.c: the metrics its callback pushes. -/
abbrev Pushes := Addr × Nat → List Metric

/-- What happens to the store and to the transfers. A `send` has what its
transfer is given, if there is one, and a `perform` what becomes of the
transfers, with their response codes. -/
inductive TransportOp (ε : Type) where
  | call (c : Call)
  | send (maxSendSize : Nat) (listOk sendOk : Bool) (a easy data : Addr)
  | get (a : Addr) (v : CurlHandler)
  | perform (updateInterval : Int) (e : ε) (httpCode : Addr → Int)

/-- What becomes of a batch: it is sent, and answered; and the end that a
callback is told of. -/
inductive BatchDid where
  | sent (easy : Addr)
  | told (easy : Addr) (result : Nat)
  | answered (easy : Addr) (result : Nat)
deriving DecidableEq

/-- The ends that the callbacks were told of. -/
def toldEnds (log : List BatchDid) : List (Addr × Nat) :=
  log.filterMap fun
    | .told easy result => some (easy, result)
    | _ => none

variable {μ ε : Type}

-- ============================================================ on pointers

/-- The agent and its transfers; `batch` is the `metrics` of the
`send_data_t` there are. -/
structure Transport (μ : Type) where
  life : Life
  curl : CurlState μ
  batch : Addr → Option Addr

namespace Transport

def start (multi : μ) (update : Update) : Transport μ :=
  ⟨Life.start update, CurlState.init multi, fun _ => none⟩

variable (F : FloatOps) (C : Libcurl μ ε) (W : Pushes)

/-- `monikor_send_all_metrics`: a batch that goes out is the last one in
flight. -/
def send (s : Transport μ) (maxSendSize : Nat) (listOk sendOk : Bool)
    (a easy data : Addr) : Option (List BatchDid × Transport μ) := do
  let (_, life) ← Life.step F (.send maxSendSize listOk sendOk) s.life
  match life.agent.inFlight.drop s.life.agent.inFlight.length with
  | [] => return ([], { s with life })
  | metrics :: _ => do
      let curl ←
        s.curl.startTransfer C a ⟨easy, some responseCallback, data⟩
      let batch := Function.update s.batch data (some metrics)
      return ([.sent easy], { life, curl, batch })

/-- What a callback does to the store. -/
def callback (updateInterval : Int) (httpCode : Addr → Int) (c : CurlCall)
    (s : Transport μ) : Option (List BatchDid × Transport μ) :=
  let easy := c.handler.curl
  if c.handler.callback = some responseCallback then do
    let metrics ← s.batch c.handler.data
    let i ← s.life.agent.inFlight.idxOf? metrics
    let (_, life) ← Life.step F
      (.respond updateInterval i c.result (httpCode easy)) s.life
    let batch := Function.update s.batch c.handler.data none
    return ([.told easy c.result, .answered easy c.result],
      { s with life, batch })
  else do
    let (_, life) ←
      Machine.run (Life.step F) ((W (easy, c.result)).map .push) s.life
    return ([.told easy c.result], { s with life })

/-- What some callbacks do to the store. -/
def callbacks (updateInterval : Int) (httpCode : Addr → Int)
    (calls : List CurlCall) (s : Transport μ) :
    Option (List BatchDid × Transport μ) := do
  let (did, s) ←
    Machine.run (callback F W updateInterval httpCode) calls s
  return (did.flatten, s)

variable {C} {D : CurlDoc C} (κ : CurlCallbacks D)

def step (op : TransportOp ε) (s : Transport μ) :
    Option (List BatchDid × Transport μ) :=
  match op with
  | .call c => do
      let (_, life) ← Life.step F c s.life
      return ([], { s with life })
  | .send maxSendSize listOk sendOk a easy data =>
      s.send F C maxSendSize listOk sendOk a easy data
  | .get a v => do
      let curl ← s.curl.startTransfer C a v
      return ([], { s with curl })
  | .perform updateInterval e httpCode => do
      let (did, curl) ← performCurlHandling κ e s.curl
      callbacks F W updateInterval httpCode (calledOf did) { s with curl }

/-- What the allocators and libcurl answer: a new transfer has a handler, an
easy handle and data that are not in use. A `call` is no `send` and no
`respond`. -/
def Legal (D : CurlDoc C) (op : TransportOp ε) (s : Transport μ) : Prop :=
  match op with
  | .call (.send ..) | .call (.respond ..) => False
  | .call _ => True
  | .send _ _ _ a easy data =>
      s.curl.Fresh D a ⟨easy, some responseCallback, data⟩ ∧ s.batch data = none
  | .get a v => s.curl.Fresh D a v ∧ v.callback ≠ some responseCallback
  | .perform .. => True

instance (op : TransportOp ε) (s : Transport μ) : Decidable (Legal D op s) :=
  match op with
  | .call (.send ..) | .call (.respond ..) =>
      inferInstanceAs (Decidable False)
  | .call (.push _) | .call (.receive _) | .call (.evict ..) | .call .flush
  | .call .reload | .perform .. => inferInstanceAs (Decidable True)
  | .send _ _ _ a easy data => inferInstanceAs (Decidable
      ((s.curl.list.curl.node a = none
        ∧ easy ∉ (D.view s.curl.list.multi).easies
        ∧ some responseCallback ≠ none) ∧ s.batch data = none))
  | .get a v => inferInstanceAs (Decidable
      ((s.curl.list.curl.node a = none
        ∧ v.curl ∉ (D.view s.curl.list.multi).easies
        ∧ v.callback ≠ none) ∧ v.callback ≠ some responseCallback))

end Transport

-- ============================================================ on requests

/-- The agent on sequences, and the names of the batches in flight. -/
structure Requests where
  agent : Seq.Agent Metric
  names : List Addr

namespace Requests

def start (update : Update) : Requests := ⟨Seq.Agent.start update, []⟩

variable (F : FloatOps) (W : Pushes)

/-- The end of a transfer: the answer to its batch, or some metrics. -/
def answer (updateInterval : Int) (httpCode : Addr → Int) (e : Addr × Nat)
    (r : Requests) : List BatchDid × Requests :=
  match r.names.idxOf? e.1 with
  | some i =>
      let (_, agent) :=
        Seq.call F (.respond updateInterval i e.2 (httpCode e.1)) r.agent
      ([.told e.1 e.2, .answered e.1 e.2], ⟨agent, r.names.eraseIdx i⟩)
  | none =>
      let (_, agent) := exec (Seq.call F) ((W e).map .push) r.agent
      ([.told e.1 e.2], { r with agent })

/-- An operation, with the ends that the callbacks are told of. -/
def step (op : TransportOp ε × List (Addr × Nat)) (r : Requests) :
    List BatchDid × Requests :=
  match op.1 with
  | .call c => ([], { r with agent := (Seq.call F c r.agent).2 })
  | .send maxSendSize listOk sendOk _ easy _ =>
      let (_, agent) :=
        Seq.call F (.send maxSendSize listOk sendOk) r.agent
      if agent.inFlight.length = r.agent.inFlight.length then
        ([], { r with agent })
      else ([.sent easy], ⟨agent, r.names ++ [easy]⟩)
  | .get _ _ => ([], r)
  | .perform updateInterval _ httpCode =>
      let (did, r) := exec (answer F W updateInterval httpCode) op.2 r
      (did.flatten, r)

end Requests

/-- The batches a log has sent. -/
def sentOf (log : List BatchDid) : List Addr :=
  log.filterMap fun
    | .sent easy => some easy
    | _ => none

/-- The batches a log has answered. -/
def answeredOf (log : List BatchDid) : List Addr :=
  log.filterMap fun
    | .answered easy _ => some easy
    | _ => none

end Monikor
