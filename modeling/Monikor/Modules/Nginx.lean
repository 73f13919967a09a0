/-
modules/nginx/poll.c: the metrics in the status page of nginx.

What is returned is the metrics that are pushed, and `none` is NULL handed to a
string function.
-/
import Monikor.Lib.Numerals
import Monikor.Lib.Search
import Monikor.Send.Agent
import Monikor.Utils.Http

namespace Monikor

open Numerals Search

/-- `fetch_qps`: the value it pushes. -/
def nginxFetchQps (status : List UInt8) : Option UInt64 := do
  let (_, metric) ←
    strstr (CString.ofString "server accepts handled requests").bytes status
  let (_, metric) ← strchr 10 metric
  let (_, next) := strtoull 10 metric
  let (_, next) := strtoull 10 next
  return (strtoull 10 next).1

/-- `fetch_conn_metric`. -/
def fetchConnMetric (status name : List UInt8) : Option UInt64 := do
  let (_, metric) ← strstr name status
  let (_, metric) ← strchr 32 metric
  return (strtoull 10 (32 :: metric)).1

/-- A metric of the connections: its name, and the word in front of its
number. -/
structure NginxMetric where
  name : CString
  word : CString
deriving DecidableEq

/-- The calls of `fetch_conn_metric`, in order. -/
def nginxConnMetrics : List NginxMetric :=
  [⟨.ofString "nginx.connections.reading", .ofString "Reading"⟩,
    ⟨.ofString "nginx.connections.writing", .ofString "Writing"⟩,
    ⟨.ofString "nginx.connections.waiting", .ofString "Waiting"⟩]

/-- `fetch_metrics` of nginx/poll.c. -/
def nginxFetchMetrics (clock : Timeval) (status : List UInt8) : List Metric :=
  ((nginxFetchQps status).map fun value =>
    metricInteger (.ofString "nginx.requests_per_second") clock value
      metricTimedelta).toList
    ++ nginxConnMetrics.filterMap fun m =>
      (fetchConnMetric status m.word.bytes).map fun value =>
        metricInteger m.name clock value 0

/-- `nginx_poll_metrics`. -/
def nginxPollMetrics (clock : Timeval) (status : HttpResponse) (result : Nat) :
    Option (List Metric) :=
  if result = curleOk ∧ status.code = 200 ∧ status.data ≠ none then do
    let data ← status.data
    return nginxFetchMetrics clock (cString data).bytes
  else some []

end Monikor
