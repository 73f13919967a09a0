/-
Remote ingestion against local ingestion: what a client's list leaves in
the store, against pushing the same list directly.

A list sent whole comes to `monikor_metric_store_lpush` on the decoded
metrics (`handleClient_listBytes`), and these carry the `id`s memory
held. The store keys on `id`, so the two paths agree on every store only
if that memory held zeros: the keys a store gains
(`mem_keys_metricStoreLpush`) tell them apart.
-/
import Monikor.Lists.Proofs.Keys
import Monikor.Server.Proofs.Chunking
import Monikor.Wire.Proofs.RoundTrip

namespace Monikor

open Bytes

variable {c : Conn} {metrics : List Metric}

-- ============================================================ the message

/-- A connection on which a list was sent, and nothing else. -/
theorem Conn.listBytes_fields (hm : InMemory metrics)
    (hc : c.pending = listBytes metrics) :
    c.header = listHdr metrics
      ∧ c.body = (listBytes metrics).drop serializedMetricListHdrSize
      ∧ c.declared = c.body.length := by
  have hread := metricListHeaderUnserialize_listBytes .little metrics
  rw [metricListHeaderUnserialize_ok _ (by
    rw [take_listBytes, listHeaderBytes_length])] at hread
  have hheader : c.header = listHdr metrics := by
    unfold Conn.header
    rw [hc]
    exact Except.ok.inj hread
  have hbody : c.body = (listBytes metrics).drop serializedMetricListHdrSize := by
    unfold Conn.body
    rw [hc]
  refine ⟨hheader, hbody, ?_⟩
  unfold Conn.declared
  rw [hheader, listHdr_dataSize hm, hbody, drop_listBytes]

section Client

variable {S : Type} (lpush : Allocs → S → List Metric → S) (e : Endian)
  (ids : Nat → UInt16) (s : S)

/-- The payload of a list decodes to its metrics, with the `id`s memory
held, and these are pushed. -/
theorem ingest_listBytes (h : WireLimits metrics)
    (hc : c.pending = listBytes metrics) :
    ingest lpush e ids c.header (c.body.take c.declared) okAllocs s
      = .ok (0, lpush okAllocs s (withIds ids metrics)) := by
  obtain ⟨hheader, hbody, hdeclared⟩ := Conn.listBytes_fields h.memory hc
  rw [hdeclared, List.take_length, ingest, hheader, hbody,
    metricListUnserialize_whole e ids h]

/-- What a list sent in full comes to. -/
theorem handleClient_listBytes (h : WireLimits metrics)
    (hc : c.pending = listBytes metrics) :
    ∃ fuel, handleClient lpush e ids fuel okAllocs c s
      = some (.ok (if c.HeaderFirst then
          (0, lpush okAllocs s (withIds ids metrics)) else (-1, s))) := by
  obtain ⟨-, -, hdeclared⟩ := Conn.listBytes_fields h.memory hc
  have hle : c.declared ≤ c.body.length := Nat.le_of_eq hdeclared
  obtain ⟨fuel, hrun⟩ := handleClient_outcome lpush e ids okAllocs s hle
  refine ⟨fuel, hrun.trans ?_⟩
  unfold outcome
  rw [malloc_okAllocs, ingest_listBytes lpush e ids s h hc]
  by_cases hf : c.HeaderFirst
  · rw [if_pos hf, if_pos ⟨hf, rfl⟩]
  · rw [if_neg hf, if_neg fun hh => hf hh.1]

end Client

-- ==================================================================== ids

variable {ids : Nat → UInt16}

theorem withIds_eq_self (h : ∀ m ∈ metrics, m.id = 0)
    (hids : ∀ i < metrics.length, ids i = 0) : withIds ids metrics = metrics := by
  apply List.ext_getElem (by simp [withIds])
  intro i h₁ h₂
  have hid := h _ (List.getElem_mem h₂)
  unfold withIds
  simp only [List.getElem_mapIdx, Metric.withId, hids i h₂, ← hid]

/-- The key a decoded metric is looked up by. -/
theorem key_mem_withIds (ids : Nat → UInt16) {i : Nat}
    (hi : i < metrics.length) :
    ∃ k ∈ (withIds ids metrics).map Metric.key, k.id = ids i := by
  have hlen : i < (withIds ids metrics).length := by simpa [withIds] using hi
  refine ⟨_, List.mem_map_of_mem (List.getElem_mem hlen), ?_⟩
  simp [withIds, Metric.key, Metric.withId]

/-- A store that was empty has entries of the keys pushed, and of no
others. -/
theorem mem_keys_lpush_new {F : FloatOps} {k : Key} :
    k ∈ (Seq.metricStoreLpush F Seq.metricStoreNew metrics).2.keys
      ↔ k ∈ metrics.map Metric.key := by
  rw [mem_keys_metricStoreLpush]
  simp [Store.keys, Seq.metricStoreNew]

-- ============================================================== ingestion

/-- `monikor_metric_store_lpush`, as the handler is given it. -/
def storeLpush (F : FloatOps) (_ : Allocs) (s : Store Metric)
    (l : List Metric) : Store Metric :=
  (Seq.metricStoreLpush F s l).2

/-- The lists of the store after the client `c` are those after pushing
`metrics` directly. -/
def IngestsAs (F : FloatOps) (e : Endian) (ids : Nat → UInt16) (c : Conn)
    (metrics : List Metric) (s : Store Metric) : Prop :=
  ∃ fuel code, handleClient (storeLpush F) e ids fuel okAllocs c s
    = some (.ok (code, (Seq.metricStoreLpush F s metrics).2))

/-- A run has one result, so agreement is about that one. -/
theorem ingestsAs_iff {F : FloatOps} {e : Endian} {s : Store Metric}
    (h : WireLimits metrics) (hc : c.pending = listBytes metrics) :
    IngestsAs F e ids c metrics s
      ↔ (if c.HeaderFirst then
          (Seq.metricStoreLpush F s (withIds ids metrics)).2 else s)
        = (Seq.metricStoreLpush F s metrics).2 := by
  obtain ⟨fuel, hrun⟩ := handleClient_listBytes (storeLpush F) e ids s h hc
  constructor
  · intro hingest
    obtain ⟨fuel', code, hrun'⟩ := hingest
    have hdet := handleClient_det _ _ _ _ _ hrun hrun'
    have hstore := congrArg Prod.snd (Except.ok.inj hdet)
    rwa [apply_ite Prod.snd] at hstore
  · intro heq
    refine ⟨fuel, if c.HeaderFirst then 0 else -1, hrun.trans ?_⟩
    rw [← heq]
    split <;> rfl

/-- Remote against local ingestion, exactly: a list of metrics with `id`
0 that a client sends in full leaves every store as pushing the list
directly does, if and only if the list is empty, or the header arrives in
the first read(2) and the memory the decoder takes for each metric holds
0 where `id` will be. -/
theorem remote_ingest_iff (F : FloatOps) (e : Endian) (block : Nat → UInt8)
    (ids : Nat → UInt16) (c : Conn) {metrics : List Metric}
    (h : WireLimits metrics) (h0 : ∀ m ∈ metrics, m.id = 0)
    (hser : metricListSerialize e (some block) metrics = .ok (0, c.pending)) :
    (∀ s, IngestsAs F e ids c metrics s)
      ↔ metrics = [] ∨ (c.HeaderFirst ∧ ∀ i < metrics.length, ids i = 0) := by
  have hc : c.pending = listBytes metrics := by
    rw [metricListSerialize_spec e block h.memory] at hser
    exact (congrArg Prod.snd (Except.ok.inj hser)).symm
  simp only [ingestsAs_iff h hc]
  constructor
  · intro hall
    -- the empty store shows what was pushed
    have hnew := hall Seq.metricStoreNew
    apply or_iff_not_imp_left.mpr
    intro hne
    by_cases hf : c.HeaderFirst
    case neg =>
        exfalso
        rw [if_neg hf] at hnew
        obtain ⟨m, hm⟩ := List.exists_mem_of_ne_nil _ hne
        have hin := (mem_keys_lpush_new (F := F)).mpr
          (List.mem_map_of_mem (f := Metric.key) hm)
        rw [← hnew] at hin
        simp [Store.keys, Seq.metricStoreNew] at hin
    rw [if_pos hf] at hnew
    refine ⟨hf, fun i hi => ?_⟩
    obtain ⟨k, hk, hid⟩ := key_mem_withIds ids hi
    have hin := mem_keys_lpush_new (F := F) |>.mpr hk
    rw [hnew, mem_keys_lpush_new] at hin
    obtain ⟨m, hm, rfl⟩ := List.mem_map.mp hin
    rw [← hid, ← h0 m hm]
    rfl
  · rintro (rfl | ⟨hf, hids⟩) s
    · simp [withIds, Seq.metricStoreLpush]
    · rw [if_pos hf, withIds_eq_self h0 hids]

/-- Memory that held zeros: the two paths agree on a metric of each
type. -/
theorem remote_ingest_zeros : IngestsAs hostFloat .little (fun _ => 0)
    ⟨listBytes oneOfEach, .eof, fun _ => 11⟩ oneOfEach Seq.metricStoreNew :=
  (remote_ingest_iff hostFloat .little (fun _ => 7) (fun _ => 0)
    ⟨listBytes oneOfEach, .eof, fun _ => 11⟩ oneOfEach_limits (by decide)
    (metricListSerialize_spec .little (fun _ => 7)
      oneOfEach_limits.memory)).mpr
    (.inr ⟨⟨by decide, by decide⟩, fun _ _ => rfl⟩) Seq.metricStoreNew

/-- A plain metric `a`. -/
def plainMetric (id : UInt16) : Metric :=
  ⟨CString.a, id, ⟨1, 2⟩, .int 5, 0⟩

/-- Memory that held a 1: a plain metric is filed under `id` 1. -/
theorem remote_ingest_differs :
    metricListSerialize .little (some fun _ => 0) [plainMetric 0]
        = .ok (0, listBytes [plainMetric 0])
      ∧ handleClient (storeLpush hostFloat) .little (fun _ => 1) 38 okAllocs
          ⟨listBytes [plainMetric 0], .eof, fun _ => 48⟩ Seq.metricStoreNew
        = some (.ok (0, ⟨[plainMetric 1], [], []⟩))
      ∧ ¬ IngestsAs hostFloat .little (fun _ => 1)
          ⟨listBytes [plainMetric 0], .eof, fun _ => 48⟩ [plainMetric 0]
          Seq.metricStoreNew := by
  have hrun : handleClient (storeLpush hostFloat) .little (fun _ => 1) 38
      okAllocs ⟨listBytes [plainMetric 0], .eof, fun _ => 48⟩
      Seq.metricStoreNew = some (.ok (0, ⟨[plainMetric 1], [], []⟩)) := rfl
  refine ⟨rfl, hrun, ?_⟩
  intro hingest
  obtain ⟨fuel, code, hrun'⟩ := hingest
  have hdet := handleClient_det _ _ _ _ _ hrun hrun'
  have hstore : (⟨[plainMetric 1], [], []⟩ : Store Metric)
      = ⟨[plainMetric 0], [], []⟩ := congrArg Prod.snd (Except.ok.inj hdet)
  exact absurd hstore (by decide)

end Monikor
