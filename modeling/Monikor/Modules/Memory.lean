/-
modules/memory/poll.c: the metrics of /proc/meminfo and of /proc/vmstat.

A text is the bytes up to the terminator. What a poll returns is the metrics
it pushes, and the count the source returns is how many they are.
-/
import Monikor.Lib.Numerals
import Monikor.Lib.Search
import Monikor.Metric

namespace Monikor

open Numerals Search

/-- `monikor_memory_metric_t`. -/
structure MemoryMetric where
  name : CString
  fieldName : CString
  flags : UInt8
deriving DecidableEq

/-- `meminfo_metrics`. -/
def meminfoMetrics : List MemoryMetric :=
  [⟨.ofString "memory.total", .ofString "MemTotal:", 0⟩,
    ⟨.ofString "memory.free", .ofString "MemFree:", 0⟩,
    ⟨.ofString "memory.available", .ofString "MemAvailable:", 0⟩,
    ⟨.ofString "memory.buffers", .ofString "Buffers:", 0⟩,
    ⟨.ofString "memory.cached", .ofString "Cached:", 0⟩,
    ⟨.ofString "memory.active", .ofString "Active:", 0⟩,
    ⟨.ofString "memory.inactive", .ofString "Inactive:", 0⟩,
    ⟨.ofString "swap.total", .ofString "SwapTotal:", 0⟩,
    ⟨.ofString "swap.free", .ofString "SwapFree:", 0⟩]

/-- `vmstat_metrics`. -/
def vmstatMetrics : List MemoryMetric :=
  [⟨.ofString "swap.activity.pages_in", .ofString "pswpin", metricTimedelta⟩,
    ⟨.ofString "swap.activity.pages_out", .ofString "pswpout",
      metricTimedelta⟩]

/-- `fetch_metric` of memory/poll.c. -/
def memoryFetchMetric (info name : List UInt8) : Option UInt64 :=
  match strstr name info with
  | none => none
  | some (_, line) => some ((strtoull 10 (line.drop name.length)).1 * 1024)

/-- One round of the loop of `fetch_metrics_from_file`. -/
def MemoryMetric.poll (clock : Timeval) (info : List UInt8) (m : MemoryMetric) :
    Option Metric :=
  (memoryFetchMetric info m.fieldName.bytes).map fun value =>
    metricInteger m.name clock value m.flags

/-- `fetch_metrics_from_file`: `info` is what `monikor_read_file` returns. -/
def fetchMetricsFromFile (clock : Timeval) (info : Option (List UInt8))
    (metrics : List MemoryMetric) : List Metric :=
  match info with
  | none => []
  | some info => metrics.filterMap (MemoryMetric.poll clock info)

/-- `memory_poll_metrics`: `meminfo` and `vmstat` are what /proc/meminfo and
/proc/vmstat hold. -/
def memoryPollMetrics (clock : Timeval) (meminfo vmstat : Option (List UInt8)) :
    List Metric :=
  fetchMetricsFromFile clock meminfo meminfoMetrics
    ++ fetchMetricsFromFile clock vmstat vmstatMetrics

end Monikor
