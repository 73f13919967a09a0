/-
The count of a pushed body, against the batch it carries.

The batch is bounded by the bytes its metrics take in memory, the count
by its 16 bits. `fillBatch_length_le_iff` says when the first bound
implies the second, and `listBytes_count_iff` and `listBytes_decodes_iff`
what the body is worth when it does not: its count is the length modulo
2^16, and the decoder stops there.
-/
import Monikor.Send.Body
import Monikor.Send.Proofs.Simulate
import Monikor.Wire.Proofs.RoundTrip

namespace Monikor

open Bytes

-- ============================================================= the batch

namespace Seq

variable {α : Type*} {w : α → Nat} {maxSendSize : Nat}

theorem dataSize_append (l l' : List α) :
    dataSize w (l ++ l') = dataSize w l + dataSize w l' := by
  rw [dataSize, List.map_append, List.sum_append, dataSize, dataSize]

/-- What the loop had is in the batch it makes. -/
theorem fillBatch_length_ge (maxSendSize : Nat) (current : List α) :
    ∀ batch,
      batch.length ≤ (fillBatch w maxSendSize batch current).1.length := by
  induction current with
  | nil => exact fun batch => Nat.le_refl _
  | cons a current ih =>
      intro batch
      unfold fillBatch
      split
      · have hnext := ih (metricListPush batch a)
        unfold metricListPush at hnext
        rw [List.length_append] at hnext
        exact Nat.le_trans (Nat.le_add_right _ _) hnext
      · exact Nat.le_refl _

/-- A batch has at most `n` elements if there are no more, or if the
first `n` of them fill it. -/
theorem fillBatch_length_le_iff {n : Nat} (current : List α) :
    ∀ batch, batch.length ≤ n →
      ((fillBatch w maxSendSize batch current).1.length ≤ n
        ↔ (batch ++ current).length ≤ n
          ∨ maxSendSize ≤ dataSize w ((batch ++ current).take n)) := by
  induction current with
  | nil =>
      intro batch hn
      unfold fillBatch
      rw [List.append_nil]
      exact iff_of_true hn (.inl hn)
  | cons a current ih =>
      intro batch hn
      have hpush : metricListPush batch a ++ current = batch ++ a :: current := by
        unfold metricListPush
        rw [List.append_assoc, List.singleton_append]
      have htake : (batch ++ a :: current).take n
          = batch ++ (a :: current).take (n - batch.length) := by
        rw [List.take_append, List.take_of_length_le hn]
      unfold fillBatch
      split
      case isFalse hfull =>
          refine iff_of_true hn (.inr ?_)
          rw [htake, dataSize_append]
          omega
      case isTrue hroom =>
          by_cases hlt : batch.length < n
          · have hnext := ih (metricListPush batch a) (by
              unfold metricListPush
              rw [List.length_append, List.length_singleton]
              exact hlt)
            rwa [hpush] at hnext
          · -- one element more is one too many
            have hge := fillBatch_length_ge (w := w) maxSendSize current
              (metricListPush batch a)
            unfold metricListPush at hge
            rw [List.length_append, List.length_singleton] at hge
            have hzero : n - batch.length = 0 := by omega
            rw [htake, hzero, List.take_zero, List.append_nil,
              List.length_append, List.length_cons, metricListPush]
            exact iff_of_false (by omega) (by omega)

/-- A batch that everything fits into takes everything. -/
theorem fillBatch_all (current : List α) :
    ∀ batch, dataSize w (batch ++ current) < maxSendSize →
      fillBatch w maxSendSize batch current = (batch ++ current, []) := by
  induction current with
  | nil =>
      intro batch _
      unfold fillBatch
      rw [List.append_nil]
  | cons a current ih =>
      intro batch hroom
      have hpush : metricListPush batch a ++ current = batch ++ a :: current := by
        unfold metricListPush
        rw [List.append_assoc, List.singleton_append]
      have hbatch : dataSize w batch < maxSendSize := by
        rw [dataSize_append] at hroom
        omega
      unfold fillBatch
      rw [if_pos hbatch, ih _ (by rwa [hpush]), hpush]

end Seq

section Batch

variable {cfg : ServerConfig} {s : Store Metric}

/-- The metrics of a store that a body can carry with a count of 16 bits:
all of them, or the 65535 oldest, which fill the batch. -/
def CountFits (cfg : ServerConfig) (s : Store Metric) : Prop :=
  (s.cache ++ s.current).length ≤ 65535
    ∨ cfg.maxSendSize.toNat
      ≤ Seq.dataSize metricNodeSize ((s.cache ++ s.current).take 65535)

theorem batchOf_length_le_iff :
    (batchOf cfg s).length ≤ 65535 ↔ CountFits cfg s :=
  Seq.fillBatch_length_le_iff (s.cache ++ s.current) [] (Nat.zero_le _)

theorem batchOf_inMemory (h : InMemory (s.cache ++ s.current)) :
    InMemory (batchOf cfg s) := by
  have hsplit := Seq.takeBatch_append (w := metricNodeSize)
    cfg.maxSendSize.toNat s
  unfold InMemory at h ⊢
  rw [← hsplit, List.map_append, List.sum_append] at h
  exact Nat.lt_of_le_of_lt (Nat.le_add_right _ _) h

variable {e : Endian} {env : SendEnv}

/-- A send stays in bounds, and frees what was never set exactly if there
is a URL to send to and memory for the request but none for the body. -/
theorem sendMetrics_faults_iff {metrics : List Metric} (h : InMemory metrics)
    (f : SendFault) :
    sendMetrics e cfg env metrics = .error f
      ↔ cfg.url ≠ none ∧ env.dataOk = true ∧ env.block = none
        ∧ f = .freeUninitialised := by
  unfold sendMetrics
  by_cases hearly : cfg.url = none ∨ env.dataOk = false
  · rw [if_pos hearly]
    simp only [reduceCtorEq, false_iff]
    rintro ⟨hurl, hdata, -, -⟩
    simp [hurl, hdata] at hearly
  obtain ⟨hurl, hdata⟩ := not_or.mp hearly
  rw [if_neg hearly]
  cases hblock : env.block with
  | none =>
      have hser : metricListSerialize e none metrics = .ok (1, []) := rfl
      simp only [hser]
      simpa [hurl, hdata] using eq_comm
  | some junk =>
      simp only [metricListSerialize_spec e junk h, ne_eq, not_true_eq_false,
        if_false]
      split <;> simp

/-- A request that is made carries the encoding of its metrics. -/
theorem sendMetrics_body {metrics : List Metric} {r : Int × Option (List UInt8)}
    (h : InMemory metrics) (hsend : sendMetrics e cfg env metrics = .ok r) :
    r.2 = none ∨ r.2 = some (listBytes metrics) := by
  unfold sendMetrics at hsend
  split at hsend
  · cases hsend
    exact .inl rfl
  cases hblock : env.block with
  | none =>
      rw [hblock] at hsend
      cases hsend
  | some junk =>
      rw [hblock, metricListSerialize_spec e junk h] at hsend
      simp only [ne_eq, not_true_eq_false, if_false] at hsend
      split at hsend
      · cases hsend
        exact .inl rfl
      · cases hsend
        exact .inr rfl

/-- The body that is handed to a request is the batch's encoding. -/
theorem sentBody_some {body : List UInt8} (h : InMemory (batchOf cfg s))
    (hsent : sentBody e cfg env s = .ok (some body)) :
    body = listBytes (batchOf cfg s) := by
  unfold sentBody at hsent
  split at hsent
  · cases hsent
  cases hsend : sendMetrics e cfg env (batchOf cfg s) with
  | error f =>
      rw [hsend] at hsent
      cases hsent
  | ok r =>
      have hr := sendMetrics_body h hsend
      rw [hsend] at hsent
      have hbody : r.2 = some body := Except.ok.inj hsent
      obtain hnone | hsome := hr
      · rw [hbody] at hnone
        cases hnone
      · rw [hbody] at hsome
        exact Option.some.inj hsome

end Batch

-- =========================================================== on pointers

/-- The metrics of a store of items. -/
def Store.metrics (s : Store Item) : Store Metric where
  current := s.current.map Prod.snd
  delta := s.delta.map Prod.snd
  cache := s.cache.map Prod.snd

theorem batchOf_metrics (cfg : ServerConfig) (s : Store Item) :
    batchOf cfg s.metrics
      = (Seq.takeBatch Item.size cfg.maxSendSize.toNat s).1.map Prod.snd := by
  have hmap := Seq.fillBatch_map (w := metricNodeSize) cfg.maxSendSize.toNat
    Prod.snd (s.cache ++ s.current) []
  rw [List.map_append] at hmap
  exact congrArg Prod.fst hmap

/-- The request that the pointer code puts in flight holds the metrics of
`batchOf`. -/
theorem sendAllMetrics_batchOf {A : Lists} {a : Agent} {q : Seq.Agent Item}
    (hv : Viewed A a q) (cfg : ServerConfig) (ha : AllocsOk a.heap)
    (hsome : ¬ (q.store.current = [] ∧ q.store.cache = [])) :
    ∃ a' q' batch, a.sendAllMetrics cfg.maxSendSize.toNat true = some a'
      ∧ a'.view = some q' ∧ q'.inFlight = q.inFlight ++ [batch]
      ∧ batch.map Prod.snd = batchOf cfg q.store.metrics := by
  have hallocs : a.heap.allocs = (AgentOp.sendAll (β := PlainMetric)
      cfg.maxSendSize.toNat true true).allocs := by
    rw [ha]
    funext n
    cases n <;> rfl
  obtain ⟨a', hrun, ⟨A', hv'⟩, -⟩ := sendAllMetrics_viewed hv _ true true hallocs
  refine ⟨a', _, _, hrun, hv'.view_eq, ?_, (batchOf_metrics cfg q.store).symm⟩
  unfold Seq.sendAllMetrics
  rw [if_neg hsome, if_neg (by decide)]
  rfl

-- ============================================================== the count

section Count

variable (e : Endian) (ids : Nat → UInt16)

/-- The count field of a body, read back, is the number of metrics. -/
def CountRight (body : List UInt8) (metrics : List Metric) : Prop :=
  ∃ hdr, metricListHeaderUnserialize e
      (body.take serializedMetricListHdrSize) = .ok hdr
    ∧ hdr.count.toNat = metrics.length

/-- Decoding a body yields all the metrics, but for their `id`s. -/
def DecodesTo (body : List UInt8) (metrics : List Metric) : Prop :=
  ∃ hdr r, metricListHeaderUnserialize e
      (body.take serializedMetricListHdrSize) = .ok hdr
    ∧ metricListUnserialize e (body.drop serializedMetricListHdrSize) hdr ids
      okAllocs = .ok r
    ∧ r.metrics = some (withIds ids metrics)

variable {metrics : List Metric}

theorem listBytes_count_iff :
    CountRight e (listBytes metrics) metrics ↔ metrics.length ≤ 65535 := by
  have hcount := listHdr_count metrics
  constructor
  · intro h
    obtain ⟨hdr, hread, hlen⟩ := h
    rw [metricListHeaderUnserialize_listBytes] at hread
    rw [← Except.ok.inj hread, hcount] at hlen
    omega
  · intro h
    refine ⟨_, metricListHeaderUnserialize_listBytes e metrics, ?_⟩
    rw [hcount]
    omega

theorem listBytes_decodes_iff (hmem : InMemory metrics)
    (hnames : ∀ m ∈ metrics, m.name.strlen ≤ 65535) :
    DecodesTo e ids (listBytes metrics) metrics ↔ metrics.length ≤ 65535 := by
  have hread := metricListUnserialize_listBytes e ids hmem rfl
    fun m hm => hnames m (List.mem_of_mem_take hm)
  constructor
  · intro h
    obtain ⟨hdr, r, hhdr, hr, hall⟩ := h
    rw [metricListHeaderUnserialize_listBytes] at hhdr
    rw [← Except.ok.inj hhdr, hread] at hr
    rw [← Except.ok.inj hr] at hall
    have hlen := congrArg List.length (Option.some.inj hall)
    unfold withIds at hlen
    simp only [List.length_mapIdx, List.length_take] at hlen
    omega
  · intro h
    refine ⟨_, _, metricListHeaderUnserialize_listBytes e metrics, hread, ?_⟩
    rw [Nat.mod_eq_of_lt (Nat.lt_succ_of_le h), List.take_length]

end Count

/-- The count of a pushed body, exactly: for every content of current and
cache and every configuration, the count of the body that is handed to
the request is the number of metrics of the batch, and (for names that
the format can hold) the body decodes to the whole batch, if and only if
there are at most 65535 metrics or the 65535 oldest fill the batch. -/
theorem sent_count_iff (e : Endian) (scalar : String → Option CString)
    (env : SendEnv) (ids : Nat → UInt16) (s : Store Metric) (body : List UInt8)
    (hmem : InMemory (s.cache ++ s.current))
    (hsent : sentBody e (setupConfigServer scalar) env s = .ok (some body)) :
    (CountRight e body (batchOf (setupConfigServer scalar) s)
        ↔ CountFits (setupConfigServer scalar) s)
      ∧ ((∀ m ∈ batchOf (setupConfigServer scalar) s, m.name.strlen ≤ 65535) →
        (DecodesTo e ids body (batchOf (setupConfigServer scalar) s)
          ↔ CountFits (setupConfigServer scalar) s)) := by
  have hbatch : InMemory (batchOf (setupConfigServer scalar) s) :=
    batchOf_inMemory hmem
  rw [sentBody_some hbatch hsent, ← batchOf_length_le_iff]
  exact ⟨listBytes_count_iff e, listBytes_decodes_iff e ids hbatch⟩

/-- A configuration with a URL and nothing else. -/
def urlOnly : String → Option CString := fun key =>
  if key = "server.url" then some ⟨[104], by decide⟩ else none

/-- Nothing fails. -/
def okSend : SendEnv := ⟨true, some fun _ => 0, true, true⟩

/-- A metric of each type, two of them current and one in the cache, is
counted right. -/
theorem sent_count_each :
    CountRight .little (listBytes oneOfEach) oneOfEach := by
  have hbatch : batchOf (setupConfigServer urlOnly)
      ⟨oneOfEach.drop 1, [], oneOfEach.take 1⟩ = oneOfEach := by decide
  have hsent : sentBody .little (setupConfigServer urlOnly) okSend
      ⟨oneOfEach.drop 1, [], oneOfEach.take 1⟩
      = .ok (some (listBytes oneOfEach)) := by
    unfold sentBody
    rw [hbatch, if_neg (by decide), sendMetrics, if_neg (by decide)]
    unfold okSend
    simp only [metricListSerialize_spec .little (fun _ => 0)
      oneOfEach_limits.memory]
    rfl
  have hcount := (sent_count_iff .little urlOnly okSend (fun _ => 0)
    ⟨oneOfEach.drop 1, [], oneOfEach.take 1⟩ _ oneOfEach_limits.memory
    hsent).1
  rw [hbatch] at hcount
  exact hcount.mpr (.inl (by decide))

/-- An integer metric with a name of one character. -/
def oneCharMetric : Metric :=
  ⟨CString.a, 0, ⟨0, 0⟩, .int 0, 0⟩

/-- A store with `n` copies of that metric, all current. -/
def copies (n : Nat) : Store Metric := ⟨List.replicate n oneCharMetric, [], []⟩

theorem dataSize_replicate (n : Nat) :
    Seq.dataSize metricNodeSize (List.replicate n oneCharMetric) = n * 73 := by
  unfold Seq.dataSize
  rw [List.map_replicate, List.sum_replicate_nat]
  rfl

/-- As long as they stay below the default limit, they go out in one
batch. -/
theorem sentBody_copies {n : Nat} (h0 : 0 < n) (hn : n * 73 < 5242880) :
    batchOf (setupConfigServer urlOnly) (copies n)
        = List.replicate n oneCharMetric
      ∧ sentBody .little (setupConfigServer urlOnly) okSend (copies n)
        = .ok (some (listBytes (List.replicate n oneCharMetric))) := by
  have hsize := dataSize_replicate n
  have hbatch : batchOf (setupConfigServer urlOnly) (copies n)
      = List.replicate n oneCharMetric :=
    congrArg Prod.fst (Seq.fillBatch_all (List.replicate n oneCharMetric) []
      (show Seq.dataSize metricNodeSize (List.replicate n oneCharMetric)
        < 5242880 by omega))
  have hmem : InMemory (List.replicate n oneCharMetric) := by
    show Seq.dataSize metricNodeSize (List.replicate n oneCharMetric) < 2 ^ 64
    omega
  have hsome : ¬ ((copies n).current = [] ∧ (copies n).cache = []) := by
    intro h
    have hlen := congrArg List.length h.1
    unfold copies at hlen
    rw [List.length_replicate, List.length_nil] at hlen
    omega
  refine ⟨hbatch, ?_⟩
  unfold sentBody
  rw [if_neg hsome, hbatch, sendMetrics, if_neg (by decide)]
  unfold okSend
  simp only [metricListSerialize_spec .little (fun _ => 0) hmem]
  rfl

/-- With the default size limit, 65536 small metrics make one batch,
whose count wraps to 0. -/
theorem sent_count_wraps :
    ∃ body hdr,
      sentBody .little (setupConfigServer urlOnly) okSend (copies 65536)
        = .ok (some body)
      ∧ metricListHeaderUnserialize .little
        (body.take serializedMetricListHdrSize) = .ok hdr
      ∧ hdr.count = 0
      ∧ (batchOf (setupConfigServer urlOnly) (copies 65536)).length = 65536
      ∧ ¬ CountRight .little body
        (batchOf (setupConfigServer urlOnly) (copies 65536)) := by
  obtain ⟨hbatch, hsent⟩ := sentBody_copies (show 0 < 65536 by omega)
    (show 65536 * 73 < 5242880 by omega)
  refine ⟨_, _, hsent, metricListHeaderUnserialize_listBytes .little _, ?_⟩
  rw [hbatch, listBytes_count_iff, listHdr, List.length_replicate]
  exact ⟨rfl, rfl, by omega⟩

end Monikor
