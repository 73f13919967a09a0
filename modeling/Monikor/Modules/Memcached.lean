/-
modules/memcached/poll.c: the metrics in the answer of memcached to `stats`.

A text is the bytes up to the terminator, and what is returned is the metrics
that are pushed. `memcached_init` cuts the name of an instance at 41 bytes, so
each name fits the buffer it is printed to (`memcachedName_fits`).
-/
import Monikor.Lib.Tagged
import Monikor.Metric

namespace Monikor

open Search

/-- The `instance` of a memcached module. -/
structure MemcachedInstance where
  name : CString
  stripped : name.strlen < 42

/-- An entry of `hitmiss_metrics`. -/
structure HitmissMetric where
  hit : CString
  miss : CString
deriving DecidableEq

/-- `hitmiss_metrics`. -/
def hitmissMetrics : List HitmissMetric :=
  [⟨.ofString "get_hits", .ofString "get_misses"⟩,
    ⟨.ofString "delete_hits", .ofString "delete_misses"⟩,
    ⟨.ofString "incr_hits", .ofString "incr_misses"⟩,
    ⟨.ofString "decr_hits", .ofString "decr_misses"⟩,
    ⟨.ofString "cas_hits", .ofString "cas_misses"⟩,
    ⟨.ofString "touch_hits", .ofString "touch_misses"⟩]

/-- An entry of `metrics` in memcached/poll.c. -/
structure MemcachedMetric where
  field : CString
  name : CString
  flags : UInt8
deriving DecidableEq

/-- `metrics` of memcached/poll.c. -/
def memcachedMetrics : List MemcachedMetric :=
  [⟨.ofString "cmd_get", .ofString "queries.get", metricTimedelta⟩,
    ⟨.ofString "cmd_set", .ofString "queries.set", metricTimedelta⟩,
    ⟨.ofString "cmd_flush", .ofString "queries.flush", metricTimedelta⟩,
    ⟨.ofString "cmd_touch", .ofString "queries.touch", metricTimedelta⟩,
    ⟨.ofString "bytes_read", .ofString "rx.bytes", metricTimedelta⟩,
    ⟨.ofString "bytes_written", .ofString "tx.bytes", metricTimedelta⟩,
    ⟨.ofString "curr_connections", .ofString "connections.current", 0⟩,
    ⟨.ofString "threads", .ofString "threads", 0⟩,
    ⟨.ofString "bytes", .ofString "size", 0⟩,
    ⟨.ofString "limit_maxbytes", .ofString "total_size", 0⟩,
    ⟨.ofString "evictions", .ofString "cache.evictions", metricDelta⟩]

/-- "STAT %s ", of a field. -/
def statTag (field : List UInt8) : List UInt8 :=
  [83, 84, 65, 84] ++ 32 :: (field ++ [32])

/-- "memcached.%s.%s", of a name and the instance, or "memcached.%s". -/
def memcachedName (inst : Option MemcachedInstance) (name : CString) :
    CString :=
  match inst with
  | none => .ofString "memcached." ++ name
  | some i => .ofString "memcached." ++ name ++ .ofString "." ++ i.name

/-- The number behind the first tag of a field. -/
def fetchStat (status field : List UInt8) : Option UInt64 :=
  numberBehind (statTag field) status

/-- The loop of `fetch_hitmiss_metrics`. -/
def hitmissLoop (status : List UInt8) :
    List HitmissMetric → UInt64 × UInt64 → UInt64 × UInt64
  | [], sums => sums
  | m :: ms, (hits, misses) =>
      hitmissLoop status ms
        (hits + (fetchStat status m.hit.bytes).getD 0,
          misses + (fetchStat status m.miss.bytes).getD 0)

/-- `fetch_hitmiss_metrics`. -/
def fetchHitmissMetrics (clock : Timeval) (inst : Option MemcachedInstance)
    (status : List UInt8) : List Metric :=
  let (hits, misses) := hitmissLoop status hitmissMetrics (0, 0)
  [metricInteger (memcachedName inst (.ofString "cache.hits")) clock hits
      metricDelta,
    metricInteger (memcachedName inst (.ofString "cache.misses")) clock misses
      metricDelta]

/-- One round of the loop of `memcached_poll_metrics`. -/
def MemcachedMetric.poll (clock : Timeval) (inst : Option MemcachedInstance)
    (status : List UInt8) (m : MemcachedMetric) : Option Metric :=
  (fetchStat status m.field.bytes).map fun value =>
    metricInteger (memcachedName inst m.name) clock value m.flags

/-- `memcached_poll_metrics`. -/
def memcachedPollMetrics (clock : Timeval) (inst : Option MemcachedInstance)
    (status : List UInt8) : List Metric :=
  memcachedMetrics.filterMap (MemcachedMetric.poll clock inst status)
    ++ fetchHitmissMetrics clock inst status

/-- The buffer of a name has 256 bytes. -/
theorem memcachedName_fits {m : MemcachedMetric} (hm : m ∈ memcachedMetrics)
    (inst : Option MemcachedInstance) :
    (memcachedName inst m.name).strlen < 256
      ∧ (statTag m.field.bytes).length < 256 := by
  have htable : ∀ m ∈ memcachedMetrics,
      m.name.strlen ≤ 19 ∧ (statTag m.field.bytes).length ≤ 22 := by
    decide +kernel
  obtain ⟨hname, htag⟩ := htable m hm
  have hfront : (CString.ofString "memcached.").strlen = 10 := rfl
  refine ⟨?_, by omega⟩
  cases inst with
  | none =>
      show (CString.ofString "memcached." ++ m.name).strlen < 256
      rw [CString.append_strlen, hfront]
      omega
  | some i =>
      have hstripped := i.stripped
      have hdot : (CString.ofString ".").strlen = 1 := rfl
      show (CString.ofString "memcached." ++ m.name ++ CString.ofString "."
        ++ i.name).strlen < 256
      rw [CString.append_strlen, CString.append_strlen, CString.append_strlen,
        hfront, hdot]
      omega

end Monikor
