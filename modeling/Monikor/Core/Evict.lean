/-
evict.c: the two evictions of a turn.

The operands of the sum are evaluated in the order they are written in; they
work on two lists, and nothing depends on it.
-/
import Monikor.Config.Setup
import Monikor.Lists.Heap

namespace Monikor

/-- `monikor_evict_metrics`: `now` is what `gettimeofday` gives, and `maxSize`
is `cache.max_size`, which becomes a `size_t` in the call. -/
def Heap.evictMetrics (h : Heap) (st : StoreRef) (pollInterval maxSize : Int32)
    (now : Timeval) : Option (Nat × Heap) := do
  let maxDeltaClock := { now with sec := now.sec - (3 * pollInterval).toInt64 }
  let (deltas, h) ← h.metricStoreEvictDelta st maxDeltaClock
  let (cached, h) ← h.metricStoreEvictCache st (sizeOfInt maxSize).toNat
  return (deltas + cached, h)

end Monikor
