/-
modules/varnish/poll.c: the counters in the output of `varnishstat -1`.

A text is the bytes up to the terminator, and `none` is a read beyond it. What
is returned is the metrics that are pushed. The name of an instance is cut at
127 bytes when the module is loaded, so each name fits the buffer it is printed
to (`VarnishMetric.metricName_fits`).
-/
import Monikor.Lib.Numerals
import Monikor.Lib.Search
import Monikor.Metric

namespace Monikor

open Numerals Search

/-- An entry of `metrics` in varnish/poll.c. -/
structure VarnishMetric where
  varnishName : CString
  name : CString
  flags : UInt8
deriving DecidableEq

/-- `metrics` of varnish/poll.c. -/
def varnishMetrics : List VarnishMetric :=
  [⟨.ofString "client_req", .ofString "varnish.requests_per_second",
      metricTimedelta⟩,
    ⟨.ofString "s_pipe", .ofString "varnish.requests.pipe", metricTimedelta⟩,
    ⟨.ofString "s_pass", .ofString "varnish.requests.pass", metricTimedelta⟩,
    ⟨.ofString "s_resp_hdrbytes", .ofString "varnish.bytes.headers",
      metricTimedelta⟩,
    ⟨.ofString "s_resp_bodybytes", .ofString "varnish.bytes.body",
      metricTimedelta⟩,
    ⟨.ofString "cache_hit", .ofString "varnish.cache.hits", metricDelta⟩,
    ⟨.ofString "cache_hitpass", .ofString "varnish.cache.hitpasses",
      metricDelta⟩,
    ⟨.ofString "cache_miss", .ofString "varnish.cache.misses", metricDelta⟩,
    ⟨.ofString "n_lru_nuked", .ofString "varnish.cache.evictions", metricDelta⟩,
    ⟨.ofString "n_expired", .ofString "varnish.cache.expires", metricDelta⟩,
    ⟨.ofString "sess_conn", .ofString "varnish.connections.total",
      metricTimedelta⟩,
    ⟨.ofString "sess_drop", .ofString "varnish.connections.drop",
      metricTimedelta⟩,
    ⟨.ofString "sess_fail", .ofString "varnish.connections.fail",
      metricTimedelta⟩,
    ⟨.ofString "sess_closed", .ofString "varnish.connections.close",
      metricTimedelta⟩,
    ⟨.ofString "sess_pipeline", .ofString "varnish.connections.pipeline",
      metricTimedelta⟩,
    ⟨.ofString "sess_herd", .ofString "varnish.connections.herd",
      metricTimedelta⟩,
    ⟨.ofString "sess_queued", .ofString "varnish.connections.queued",
      metricTimedelta⟩,
    ⟨.ofString "bans", .ofString "varnish.bans.count", 0⟩,
    ⟨.ofString "n_object", .ofString "varnish.memory.objects", 0⟩,
    ⟨.ofString "g_bytes", .ofString "varnish.memory.used", 0⟩,
    ⟨.ofString "g_space", .ofString "varnish.memory.free", 0⟩,
    ⟨.ofString "c_fail", .ofString "varnish.memory.alloc_fails", metricDelta⟩,
    ⟨.ofString "shm_records", .ofString "varnish.shm.records", metricTimedelta⟩,
    ⟨.ofString "shm_writes", .ofString "varnish.shm.writes", metricTimedelta⟩,
    ⟨.ofString "shm_flushes", .ofString "varnish.shm.flushes", metricTimedelta⟩,
    ⟨.ofString "n_backend", .ofString "varnish.backends.count", 0⟩,
    ⟨.ofString "backend_req", .ofString "varnish.backends.requests_per_second",
      metricTimedelta⟩,
    ⟨.ofString "backend_conn", .ofString "varnish.backends.connections.count",
      metricTimedelta⟩,
    ⟨.ofString "backend_unhealthy",
      .ofString "varnish.backends.connections.unhealthy",
      metricTimedelta⟩,
    ⟨.ofString "backend_busy", .ofString "varnish.backends.connections.busy",
      metricTimedelta⟩,
    ⟨.ofString "backend_fail", .ofString "varnish.backends.connections.fail",
      metricTimedelta⟩,
    ⟨.ofString "backend_reuse", .ofString "varnish.backends.connections.reuse",
      metricTimedelta⟩,
    ⟨.ofString "backend_recycle",
      .ofString "varnish.backends.connections.recycle",
      metricTimedelta⟩,
    ⟨.ofString "threads", .ofString "varnish.threads.count", 0⟩,
    ⟨.ofString "threads_failed", .ofString "varnish.threads.failed",
      metricDelta⟩,
    ⟨.ofString "esi_errors", .ofString "varnish.esi.errors", metricDelta⟩,
    ⟨.ofString "esi_warnings", .ofString "varnish.esi.warnings", metricDelta⟩,
    ⟨.ofString "uptime", .ofString "varnish.uptime", 0⟩]

/-- `VARNISH_SMA_TRANSIENT`: the string ".Transient.". -/
def varnishSmaTransient : List UInt8 :=
  [46, 84, 114, 97, 110, 115, 105, 101, 110, 116, 46]

/-- The `instance` of a module. -/
structure VarnishInstance where
  name : CString
  stripped : name.strlen < 128

/-- The name a metric is pushed with. -/
def VarnishMetric.metricName (inst : Option VarnishInstance)
    (m : VarnishMetric) : CString :=
  match inst with
  | none => m.name
  | some i => m.name ++ .ofString "." ++ i.name

/-- What is in front of a match ends with the name of the transient storage. -/
def isTransient (front : List UInt8) : Bool :=
  !(decide (front.length < varnishSmaTransient.length)
    || front.drop (front.length - varnishSmaTransient.length)
      != varnishSmaTransient)

/-- One round of the loop of `varnish_fetch_metrics`: the metric it pushes, if
there is one. -/
def VarnishMetric.poll (clock : Timeval) (inst : Option VarnishInstance)
    (output : List UInt8) (m : VarnishMetric) : Option (Option Metric) :=
  match strstr m.varnishName.bytes output with
  | none => some none
  | some (front, found) =>
      if isTransient front then some none
      else if found.length < m.name.strlen then none
      else
        let val := found.drop m.name.strlen
        let (value, endval) := strtoull 10 val
        if val = endval then some none
        else some (some
          (metricInteger (m.metricName inst) clock value m.flags))

/-- The loop of `varnish_fetch_metrics`. -/
def varnishFetchLoop (clock : Timeval) (inst : Option VarnishInstance)
    (output : List UInt8) : List VarnishMetric → Option (List Metric)
  | [] => some []
  | m :: ms => do
      let pushed ← m.poll clock inst output
      let later ← varnishFetchLoop clock inst output ms
      return pushed.toList ++ later

/-- `varnish_fetch_metrics`. -/
def varnishFetchMetrics (clock : Timeval)
    (inst : Option VarnishInstance) (output : List UInt8) :
    Option (List Metric) :=
  varnishFetchLoop clock inst output varnishMetrics

/-- The buffer of a name has 256 bytes. -/
theorem VarnishMetric.metricName_fits {m : VarnishMetric}
    (hm : m ∈ varnishMetrics) (inst : Option VarnishInstance) :
    (m.metricName inst).strlen < 256 := by
  have htable : ∀ m ∈ varnishMetrics, m.name.strlen ≤ 38 := by
    decide +kernel
  have hname := htable m hm
  cases inst with
  | none =>
      show m.name.strlen < 256
      omega
  | some i =>
      have hstripped := i.stripped
      have hdot : (CString.ofString ".").strlen = 1 := rfl
      show (m.name ++ CString.ofString "." ++ i.name).strlen < 256
      rw [CString.append_strlen, CString.append_strlen, hdot]
      omega

end Monikor
