/-
What goes out: `monikor_send_metrics`, and the body of the request that
`monikor_send_all_metrics` makes of a store.

The parts that are not in this repository (the HTTP headers from the host
name, the curl handle) only succeed or fail.
-/
import Monikor.Config.Setup
import Monikor.Send.Seq
import Monikor.Wire.Serialize

namespace Monikor

open Bytes

/-- What `monikor_send_metrics` may do that it must not: touch memory
outside the body, or hand `free` the `data` member of a block that
nothing was stored in. -/
inductive SendFault where
  | outside (f : Fault)
  | freeUninitialised
deriving DecidableEq

/-- How the allocations and the library calls of `monikor_send_metrics`
end; `block` is the memory for the body. -/
structure SendEnv where
  dataOk : Bool
  block : Option (Nat → UInt8)
  headersOk : Bool
  handlerOk : Bool

section Send

variable (e : Endian) (cfg : ServerConfig) (env : SendEnv)

/-- `monikor_send_metrics`: the code, and the `CURLOPT_POSTFIELDS` of the
request. -/
def sendMetrics (metrics : List Metric) :
    Except SendFault (Int × Option (List UInt8)) :=
  if cfg.url = none ∨ env.dataOk = false then .ok (-1, none)
  else
    match metricListSerialize e env.block metrics with
    | .error f => .error (.outside f)
    | .ok (rc, data) =>
        -- without a body `data->data` is not set, and is freed all the same
        if rc ≠ 0 then .error .freeUninitialised
        else if env.headersOk = false ∨ env.handlerOk = false then
          .ok (-1, none)
        else .ok (0, some data)

/-- The batch that `monikor_send_all_metrics` makes of a store. -/
def batchOf (s : Store Metric) : List Metric :=
  (Seq.takeBatch metricNodeSize cfg.maxSendSize.toNat s).1

/-- The body that `monikor_send_all_metrics` hands to a request, if it
makes one. -/
def sentBody (s : Store Metric) : Except SendFault (Option (List UInt8)) :=
  if s.current = [] ∧ s.cache = [] then .ok none
  else do
    let (_, body) ← sendMetrics e cfg env (batchOf cfg s)
    return body

end Send

end Monikor
