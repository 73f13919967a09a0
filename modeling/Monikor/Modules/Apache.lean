/-
modules/apache/poll.c: the metrics in the status page of apache.

What is returned is the metrics that are pushed, and `none` is NULL handed to a
string function.
-/
import Monikor.Lib.Numerals
import Monikor.Lib.Search
import Monikor.Send.Agent
import Monikor.Utils.Http

namespace Monikor

open Numerals Search

/-- An entry of `apache_metrics`. -/
structure ApacheMetric where
  name : CString
  fieldName : CString
  flags : UInt8
deriving DecidableEq

/-- The string "apache.workers.busy". -/
def apacheBusy : CString := .ofString "apache.workers.busy"

/-- The string "apache.workers.idle". -/
def apacheIdle : CString := .ofString "apache.workers.idle"

/-- The string "apache.workers.bytes_per_second". -/
def apacheBytes : CString := .ofString "apache.workers.bytes_per_second"

/-- `apache_metrics`. -/
def apacheMetrics : List ApacheMetric :=
  [⟨apacheBusy, .ofString "BusyWorkers:", 0⟩,
    ⟨apacheIdle, .ofString "IdleWorkers:", 0⟩,
    ⟨.ofString "apache.workers.requests_per_second",
      .ofString "Total Accesses:", metricTimedelta⟩,
    ⟨apacheBytes, .ofString "Total kBytes:", metricTimedelta⟩]

/-- `fetch_metric` of apache/poll.c. -/
def apacheFetchMetric (apacheStatus name : List UInt8) : Option UInt64 := do
  let (_, line) ← strstr name apacheStatus
  return (strtoull 10 (line.drop name.length)).1

/-- The loop of `apache_fetch_metrics`, and the metric behind it. -/
def apacheFetchLoop (clock : Timeval) (status : List UInt8) :
    List ApacheMetric → UInt64 → List Metric
  | [], totalWorkers =>
      [metricInteger (.ofString "apache.workers.total") clock totalWorkers 0]
  | m :: ms, totalWorkers =>
      match apacheFetchMetric status m.fieldName.bytes with
      | none => apacheFetchLoop clock status ms totalWorkers
      | some value =>
          let value := if m.name = apacheBytes then value * 1024 else value
          let totalWorkers :=
            if m.name = apacheBusy ∨ m.name = apacheIdle then
              totalWorkers + value
            else totalWorkers
          metricInteger m.name clock value m.flags
            :: apacheFetchLoop clock status ms totalWorkers

/-- `apache_fetch_metrics`. -/
def apacheFetchMetrics (clock : Timeval) (status : HttpResponse)
    (result : Nat) : Option (List Metric) :=
  if result ≠ curleOk ∨ status.code ≠ 200 then some []
  else do
    let data ← status.data
    return apacheFetchLoop clock (cString data).bytes apacheMetrics 0

end Monikor
