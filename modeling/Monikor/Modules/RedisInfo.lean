/-
modules/redis/poll.c: the metrics in the answer of redis to INFO.

A text is the bytes up to the terminator, and what is returned is the metrics
that are pushed. `redis_init` cuts the name of an instance at 41 bytes, so
each name fits the buffer it is printed to (`redisName_fits`).
-/
import Monikor.Lib.Tagged
import Monikor.Metric

namespace Monikor

open Numerals Search

/-- The `instance` of a `redis_module_t`. -/
structure RedisInstance where
  name : CString
  stripped : name.strlen < 42

/-- An entry of `metrics` in redis/poll.c. -/
structure RedisMetric where
  field : CString
  name : CString
  flags : UInt8
deriving DecidableEq

/-- `metrics` of redis/poll.c. -/
def redisMetrics : List RedisMetric :=
  [⟨.ofString "total_commands_processed", .ofString "requests_per_second",
      metricTimedelta⟩,
    ⟨.ofString "keyspace_hits", .ofString "keyspace.hits", metricDelta⟩,
    ⟨.ofString "keyspace_misses", .ofString "keyspace.misses", metricDelta⟩,
    ⟨.ofString "evicted_keys", .ofString "keyspace.evictions", metricDelta⟩,
    ⟨.ofString "expired_keys", .ofString "keyspace.expirations", metricDelta⟩,
    ⟨.ofString "used_memory", .ofString "size", 0⟩,
    ⟨.ofString "connected_clients", .ofString "connections.active", 0⟩,
    ⟨.ofString "blocked_clients", .ofString "connections.blocked", 0⟩]

/-- "%s:", of a field. -/
def infoTag (field : List UInt8) : List UInt8 := field ++ [58]

/-- "# Keyspace". -/
def keyspaceTag : List UInt8 := [35, 32, 75, 101, 121, 115, 112, 97, 99, 101]

/-- ":keys=". -/
def keysTag : List UInt8 := [58, 107, 101, 121, 115, 61]

/-- "redis.%s.%s", of a name and the instance, or "redis.%s". -/
def redisName (inst : Option RedisInstance) (name : CString) : CString :=
  match inst with
  | none => .ofString "redis." ++ name
  | some i => .ofString "redis." ++ name ++ .ofString "." ++ i.name

/-- One round of the loop of `poll_base_metrics`. -/
def RedisMetric.poll (clock : Timeval) (inst : Option RedisInstance)
    (status : List UInt8) (m : RedisMetric) : Option Metric :=
  (numberBehind (infoTag m.field.bytes) status).map fun value =>
    metricInteger (redisName inst m.name) clock value m.flags

/-- `poll_base_metrics`. -/
def pollBaseMetrics (clock : Timeval) (inst : Option RedisInstance)
    (status : List UInt8) : List Metric :=
  redisMetrics.filterMap (RedisMetric.poll clock inst status)

/-- The loop of `poll_keys_metrics`. -/
def keysLoop (metric : List UInt8) (count : UInt64) : UInt64 :=
  match _h : strstr keysTag metric with
  | none => count
  | some (_, place) =>
      keysLoop (place.drop keysTag.length)
        (count + (strtoull 0 (place.drop keysTag.length)).1)
termination_by metric.length
decreasing_by
  obtain ⟨htext, rest, hplace⟩ := strstr_some _h
  rw [htext, ← hplace, List.drop_left]
  simp [keysTag]
  omega

/-- `poll_keys_metrics`. -/
def pollKeysMetrics (clock : Timeval) (inst : Option RedisInstance)
    (status : List UInt8) : List Metric :=
  match strstr keyspaceTag status with
  | none => []
  | some (_, metric) =>
      [metricInteger (redisName inst (.ofString "keyspace.keys")) clock
        (keysLoop metric 0) 0]

/-- `redis_poll_metrics`. -/
def redisPollMetrics (clock : Timeval) (inst : Option RedisInstance)
    (status : List UInt8) : List Metric :=
  pollBaseMetrics clock inst status ++ pollKeysMetrics clock inst status

/-- The buffer of a name has 256 bytes. -/
theorem redisName_fits {m : RedisMetric} (hm : m ∈ redisMetrics)
    (inst : Option RedisInstance) :
    (redisName inst m.name).strlen < 256
      ∧ (infoTag m.field.bytes).length < 256 := by
  have htable : ∀ m ∈ redisMetrics,
      m.name.strlen ≤ 20 ∧ (infoTag m.field.bytes).length ≤ 25 := by
    decide +kernel
  obtain ⟨hname, htag⟩ := htable m hm
  have hfront : (CString.ofString "redis.").strlen = 6 := rfl
  refine ⟨?_, by omega⟩
  cases inst with
  | none =>
      show (CString.ofString "redis." ++ m.name).strlen < 256
      rw [CString.append_strlen, hfront]
      omega
  | some i =>
      have hstripped := i.stripped
      have hdot : (CString.ofString ".").strlen = 1 := rfl
      show (CString.ofString "redis." ++ m.name ++ CString.ofString "."
        ++ i.name).strlen < 256
      rw [CString.append_strlen, CString.append_strlen, CString.append_strlen,
        hfront, hdot]
      omega

end Monikor
