/-
server/handle.c: the clients of the agent, from their lists to its store.

A client is a program that sends one list, as test/client.c does: it
serializes it, writes it, and closes its end (`WireClient`). It is accepted
when the select loop finds the socket of the server ready, and handled when
it finds that of the client ready; `ServiceAnswers` is what the system answers to
either. Memory for a message and its metrics is there; what `malloc` answers
for the handlers is among the answers.

The agent is the one on sequences, which the one on pointers refines
(Core/Proofs/LifeRuns.lean). `elsewhere` is what else becomes of the
handlers, as in Slots.lean, and `call` what else is called on the agent.
-/
import Monikor.Core.Life
import Monikor.Server.Slots
import Monikor.Wire.Format
import Monikor.Wire.Serialize

namespace Monikor

open Bytes

variable {μ : Type}

/-- A client: its list, what the memory held that it serialized it to, and
how the stream is delivered. -/
structure WireClient where
  metrics : List Metric
  limits : WireLimits metrics
  memory : Nat → UInt8
  ending : Ending
  chunk : Nat → Nat

/-- The stream of a client. -/
def WireClient.conn (e : Endian) (c : WireClient) : Conn :=
  match metricListSerialize e (some c.memory) c.metrics with
  | .ok (_, bytes) => ⟨bytes, c.ending, c.chunk⟩
  | .error _ => ⟨[], c.ending, c.chunk⟩

/-- What the system answers to a callback: the descriptor of accept4(2), the
addresses of `malloc`, the client that is accepted, the `id`s that the memory
of the metrics held, and the address of the data. -/
structure ServiceAnswers where
  accepted : Option Int
  srv : Option Addr
  io : Option Addr
  client : WireClient
  ids : Nat → UInt16
  block : Addr

/-- What happens to the server, to the agent, or to other handlers. -/
inductive ServiceOp (μ : Type) where
  | ready (a : Addr) (answers : ServiceAnswers)
  | call (c : Call)
  | elsewhere (act : HandlerAct μ)

/-- What becomes of a client: it is connected, the metrics of its list are
pushed, as they were decoded, or it is refused; and what else is called. -/
inductive ServiceDid where
  | connected (c : WireClient)
  | pushed (c : WireClient) (metrics : List Metric)
  | refused (c : WireClient)
  | called (c : Call)

/-- The server, the client behind each block of a handler, and the agent. -/
structure Service (μ : Type) where
  server : Server μ
  clients : Addr → Option WireClient
  agent : Seq.Agent Metric

namespace Service

variable (F : FloatOps) (e : Endian)

/-- `monikor_metric_store_lpush` on the store of the agent, keeping what was
pushed. -/
def receive (_ : Allocs) (s : Seq.Agent Metric × List Metric)
    (ms : List Metric) : Seq.Agent Metric × List Metric :=
  ((Seq.call F (.receive ms) s.1).2, ms)

/-- The client in front of the socket is accepted, or not. -/
def connect (s : Service μ) (answers : ServiceAnswers) :
    Option (List ServiceDid × Service μ) := do
  let (code, server) ← serverHandleConnection s.server answers.accepted
    answers.srv answers.io
  match answers.srv with
  | some b =>
      if code = 0 then
        let clients := Function.update s.clients b (some answers.client)
        return ([.connected answers.client], { s with server, clients })
      else return ([], { s with server })
  | none => return ([], { s with server })

/-- The message of a client, whose handler's block is at `b`. A round of the
receive loop reads a byte, or is the last. -/
def serve (s : Service μ) (b : Addr) (answers : ServiceAnswers) :
    Option (List ServiceDid × Service μ) := do
  let c ← s.clients b
  let conn := c.conn e
  let allocs : Allocs := fun _ => true
  let fuel := conn.pending.length - serializedMetricListHdrSize + 1
  let message ← clientMessage e fuel allocs answers.block conn
  let (_, server) ← serverHandleClient s.server b message
  let clients := Function.update s.clients b none
  match ← handleClient (receive F) e answers.ids fuel allocs conn
      (s.agent, []) with
  | .ok (code, agent, metrics) =>
      let did := if code = 0 then .pushed c metrics else .refused c
      return ([did], { server, clients, agent })
  | .error _ => none

/-- `monikor_server_handle_any`, of the handler at `a`. -/
def handleAny (s : Service μ) (a : Addr) (answers : ServiceAnswers) :
    Option (List ServiceDid × Service μ) := do
  let n ← s.server.poll.list.handlers.node a
  let h ← s.server.srvHandlers n.val.data
  match h.client with
  | some _ => s.serve F e n.val.data answers
  | none => s.connect answers

def step (op : ServiceOp μ) (s : Service μ) :
    Option (List ServiceDid × Service μ) :=
  match op with
  | .ready a answers => s.handleAny F e a answers
  | .call c =>
      some ([.called c], { s with agent := (Seq.call F c s.agent).2 })
  | .elsewhere act => do
      let server ← s.server.step (.elsewhere act)
      return ([], { s with server })

/-- The handler that is ready is one of the server's, and what the system
answers is as in Slots.lean. -/
def Legal (op : ServiceOp μ) (s : Service μ) : Prop :=
  match op with
  | .ready a answers =>
      (∃ n, s.server.poll.list.handlers.node a = some n
        ∧ n.val.callback = some serverHandleAnyAddr)
      ∧ s.server.Allows (.handleConnection answers.accepted answers.srv
          answers.io)
      ∧ s.server.blocks answers.block = false
  | .call _ => True
  | .elsewhere act => s.server.Allows (.elsewhere act)

end Service

/-- The clients a log has connected. -/
def connectedOf (log : List ServiceDid) : List WireClient :=
  log.filterMap fun
    | .connected c => some c
    | _ => none

/-- The clients a log is done with. -/
def doneOf (log : List ServiceDid) : List WireClient :=
  log.filterMap fun
    | .pushed c _ => some c
    | .refused c => some c
    | _ => none

/-- What was called on the agent. -/
def agentCallsOf (log : List ServiceDid) : List Call :=
  log.filterMap fun
    | .pushed _ metrics => some (.receive metrics)
    | .called c => some c
    | _ => none

end Monikor
