/-
metric_list.c and metric_store.c on sequences: what the pointer code
does to the contents of its lists, with allocations succeeding.

A list is the sequence of what its nodes hold, so `size` is its length
and `data_size` the sum of the elements' node sizes. The functions that
only move nodes are generic in the element (`α`, with the size `w` an
element adds to `data_size`); those that look into metrics are stated on
`Metric`. Lists/Proofs connects this level to Lists/Heap.lean.
-/
import Monikor.Lib.ReplaceFirst
import Monikor.Metric

namespace Monikor

/-- The contents of a metric store. -/
structure Store (α : Type*) where
  current : List α
  delta : List α
  cache : List α
deriving DecidableEq

namespace Seq

-- ====================================================== metric_list.c

section Moves

variable {α σ : Type*}

/-- `monikor_metric_list_push`. -/
def metricListPush (l : List α) (a : α) : List α := l ++ [a]

/-- `monikor_metric_list_pop`. -/
def metricListPop : List α → Option α × List α
  | [] => (none, [])
  | a :: l => (some a, l)

/-- `monikor_metric_list_concat`: the new head and the new tail. -/
def metricListConcat (head tail : List α) : List α × List α :=
  (head ++ tail, [])

/-- `monikor_metric_list_remove_if`: what is kept, and how many were
removed. -/
def metricListRemoveIf (f : σ → α → Bool × σ) : σ → List α → List α × Nat
  | _, [] => ([], 0)
  | data, a :: l =>
      match f data a with
      | (true, data) =>
          ((metricListRemoveIf f data l).1, (metricListRemoveIf f data l).2 + 1)
      | (false, data) =>
          (a :: (metricListRemoveIf f data l).1, (metricListRemoveIf f data l).2)

/-- For a predicate that leaves its data alone, what is kept is what it
rejects, and the count is of what it accepts. -/
theorem metricListRemoveIf_pure (p : σ → α → Bool) (data : σ) (l : List α) :
    metricListRemoveIf (fun s a => (p s a, s)) data l
      = (l.filter fun a => !p data a, l.countP (p data)) := by
  induction l with
  | nil => rfl
  | cons a l ih =>
      cases hp : p data a <;> simp [metricListRemoveIf, hp, ih]

/-- `data_size`. -/
def dataSize (w : α → Nat) (l : List α) : Nat := (l.map w).sum

-- ====================================================== metric_store.c

/-- `monikor_metric_store_new`. -/
def metricStoreNew : Store α := ⟨[], [], []⟩

/-- The loop of `monikor_metric_store_evict_cache`: what it frees, in
order, and what it keeps. -/
def evictCacheLoop (w : α → Nat) (maxSize : Nat) : List α → List α × List α
  | [] => ([], [])
  | a :: l =>
      if maxSize < dataSize w (a :: l) then
        (a :: (evictCacheLoop w maxSize l).1, (evictCacheLoop w maxSize l).2)
      else ([], a :: l)

theorem dataSize_map {β : Type*} {w : α → Nat} (f : β → α) (l : List β) :
    dataSize w (l.map f) = dataSize (fun b => w (f b)) l := by
  rw [dataSize, dataSize, List.map_map]
  rfl

/-- Eviction only looks at sizes. -/
theorem evictCacheLoop_map {β : Type*} {w : α → Nat} (f : β → α)
    (maxSize : Nat) (l : List β) :
    evictCacheLoop w maxSize (l.map f)
      = ((evictCacheLoop (fun b => w (f b)) maxSize l).1.map f,
        (evictCacheLoop (fun b => w (f b)) maxSize l).2.map f) := by
  induction l with
  | nil => rfl
  | cons b l ih =>
      have hsize := dataSize_map (w := w) f (b :: l)
      rw [List.map_cons] at hsize ⊢
      rw [evictCacheLoop, evictCacheLoop, hsize]
      split
      · simp [ih]
      · rfl

/-- What eviction frees and what it keeps. -/
theorem evictCacheLoop_append {w : α → Nat} (maxSize : Nat) (l : List α) :
    (evictCacheLoop w maxSize l).1 ++ (evictCacheLoop w maxSize l).2 = l := by
  induction l with
  | nil => rfl
  | cons a l ih =>
      unfold evictCacheLoop
      split
      · simp [ih]
      · rfl

/-- `monikor_metric_store_evict_cache`: the metrics freed, and the store
left. -/
def metricStoreEvictCache (w : α → Nat) (s : Store α) (maxSize : Nat) :
    List α × Store α :=
  ((evictCacheLoop w maxSize s.cache).1,
    { s with cache := (evictCacheLoop w maxSize s.cache).2 })

/-- `monikor_metric_store_flush`. -/
def metricStoreFlush (s : Store α) : Store α := { s with current := [] }

/-- `monikor_metric_store_cache`. -/
def metricStoreCache (s : Store α) : Store α :=
  { s with
    cache := (metricListConcat s.cache s.current).1
    current := (metricListConcat s.cache s.current).2 }

/-- `monikor_metric_store_uncache`. -/
def metricStoreUncache (s : Store α) : Store α :=
  let s := metricStoreCache s
  { s with
    current := (metricListConcat s.current s.cache).1
    cache := (metricListConcat s.current s.cache).2 }

/-- `monikor_metric_store_flush_all`. -/
def metricStoreFlushAll (_ : Store α) : Store α := ⟨[], [], []⟩

end Moves

/-- `monikor_metric_store_evict_delta`: how many were removed, and the
store left. -/
def metricStoreEvictDelta (s : Store Metric) (clock : Timeval) :
    Nat × Store Metric :=
  let r := metricListRemoveIf (fun data m => (evictDeltaPredicate m data, data))
    clock s.delta
  (r.2, { s with delta := r.1 })

section Push

variable (F : FloatOps)

/-- `monikor_metric_store_push_aggregate`. -/
def metricStorePushAggregate (s : Store Metric) (m : Metric) :
    Int × Store Metric :=
  match replaceFirst (aggregatedSum F m) s.current with
  | some (_, current) => (0, { s with current })
  | none => (0, { s with current := metricListPush s.current m })

/-- The branches of `monikor_metric_store_push` past its DELTA test. -/
def metricStorePushComputed (s : Store Metric) (m : Metric) :
    Int × Store Metric :=
  if m.isAggregate then metricStorePushAggregate F s m
  else (0, { s with current := metricListPush s.current m })

/-- `monikor_metric_store_push_delta`. -/
def metricStorePushDelta (s : Store Metric) (m : Metric) :
    Int × Store Metric :=
  match replaceFirst (fun c => if isCachedMetric m c then some m else none)
      s.delta with
  | some (stored, delta) =>
      match metricComputeDelta F stored m with
      | none => (-1, s)
      | some new => metricStorePushComputed F { s with delta } new
  | none => (0, { s with delta := metricListPush s.delta m })

/-- `monikor_metric_store_push`. -/
def metricStorePush (s : Store Metric) (m : Metric) : Int × Store Metric :=
  if m.isDelta then metricStorePushDelta F s m
  else metricStorePushComputed F s m

/-- `monikor_metric_store_lpush`, on the metrics popped in order. -/
def metricStoreLpush : Store Metric → List Metric → Int × Store Metric
  | s, [] => (0, s)
  | s, m :: l =>
      let r := metricStorePush F s m
      let rest := metricStoreLpush r.2 l
      (if r.1 ≠ 0 then -1 else rest.1, rest.2)

variable {F}

/-- The call that ends `monikor_metric_store_push_delta` is
`monikor_metric_store_push`, as the source has it: a computed delta is
not a delta metric. -/
theorem metricStorePushDelta_push (s : Store Metric) (m : Metric) :
    metricStorePushDelta F s m
      = match replaceFirst
          (fun c => if isCachedMetric m c then some m else none) s.delta with
        | some (stored, delta) =>
            match metricComputeDelta F stored m with
            | none => (-1, s)
            | some new => metricStorePush F { s with delta } new
        | none => (0, { s with delta := metricListPush s.delta m }) := by
  unfold metricStorePushDelta
  split
  · split
    · rfl
    · next hnew => simp [metricStorePush, metricComputeDelta_isDelta hnew]
  · rfl

end Push

end Seq

end Monikor
