/-
What a client message leaves in the store: all its metrics, or some.

The handler looks at what read(2) and `malloc` return, and then pushes
whatever list the decoder left: the count the decoder returns is not
looked at. `walkRecords` is the payload read as the header announces it,
record after record, with no result if one of them is missing, outside
or of no type. `unserializeLoop_walk` and `walk_of_unserializeLoop` say
that the decoder's list is as long as announced exactly if the payload
reads so and memory does not run out; otherwise the metrics before the
failure are pushed, and the client is answered with 0.
-/
import Monikor.Server.Proofs.Chunking
import Monikor.Wire.Proofs.Rounds

namespace Monikor

open Bytes

variable {e : Endian} {mem : List UInt8} {ids : Nat → UInt16}
  {dataSize : UInt64}

-- ================================================================ the walk

/-- The next `n` metrics, the first of them record `i` and at an offset:
each record starts before the end of the payload, lies inside it and has
a type. -/
def walkRecords (mem : List UInt8) (ids : Nat → UInt16) :
    Nat → Nat → Nat → Option (List Metric)
  | 0, _, _ => some []
  | n + 1, i, off =>
      if off < mem.length ∧ RecordInside mem off then do
        let m ← recordAt mem off (ids i)
        let ms ← walkRecords mem ids n (i + 1)
          (off + (serializedMetricHdrSize + m.name.strlen + metricDataSize m))
        return m :: ms
      else none

/-- What decoding metrics allocates, the nodes of the list included. -/
def decodeAllocs (ms : List Metric) : Nat :=
  (ms.map fun m => metricAllocs m + 1).sum

/-- One more record of a walk. -/
theorem walkRecords_succ {n i off : Nat} {l : List Metric} :
    walkRecords mem ids (n + 1) i off = some l
      ↔ ∃ m ms, off < mem.length ∧ RecordInside mem off
        ∧ recordAt mem off (ids i) = some m
        ∧ walkRecords mem ids n (i + 1)
            (off + (serializedMetricHdrSize + m.name.strlen
              + metricDataSize m)) = some ms
        ∧ l = m :: ms := by
  rw [walkRecords]
  by_cases h : off < mem.length ∧ RecordInside mem off
  · rw [if_pos h]
    simp only [bind, Option.bind_eq_some_iff, pure, Option.some.injEq]
    constructor
    · rintro ⟨m, hm, ms, hms, rfl⟩
      exact ⟨m, ms, h.1, h.2, hm, hms, rfl⟩
    · rintro ⟨m, ms, -, -, hm, hms, rfl⟩
      exact ⟨m, hm, ms, hms, rfl⟩
  · rw [if_neg h]
    constructor
    · intro hn
      cases hn
    · rintro ⟨m, ms, hoff, hin, -⟩
      exact absurd ⟨hoff, hin⟩ h

/-- A walk with memory for all of it is what the loop does. -/
theorem unserializeLoop_walk (hsize : dataSize.toNat = mem.length) :
    ∀ (n i off : Nat) (l ms : List Metric) (a : Allocs),
      walkRecords mem ids n i off = some l → a.Grants (decodeAllocs l) →
      ∃ off' b, unserializeLoop e mem dataSize ids n i off ms a
        = .ok ⟨i + n, some (ms ++ l), off', b⟩ := by
  intro n
  induction n with
  | zero =>
      intro i off l ms a hw _
      cases hw
      exact ⟨off, a, by rw [unserializeLoop, List.append_nil]; rfl⟩
  | succ n ih =>
      intro i off l ms a hw hg
      obtain ⟨m, l, hoff, hin, hm, hnext, rfl⟩ := walkRecords_succ.mp hw
      unfold decodeAllocs at hg
      rw [List.map_cons, List.sum_cons, Allocs.grants_add,
        Allocs.grants_add, Allocs.grants_one] at hg
      obtain ⟨⟨hg, hnode⟩, hrest⟩ := hg
      rw [Allocs.skip, Nat.zero_add] at hnode
      obtain ⟨off', b, hloop⟩ := ih (i + 1) _ l (ms ++ [m]) _ hnext hrest
      refine ⟨off', b, ?_⟩
      rw [unserializeLoop_granted (hsize ▸ hoff) hin hm hg, if_pos hnode,
        hloop, List.append_assoc]
      congr 2
      omega

/-- The loop appends at most one metric a round; if it appended as many,
they are a walk, and there was memory for all of it. -/
theorem walk_of_unserializeLoop (hsize : dataSize.toNat = mem.length) :
    ∀ (n i off : Nat) (ms l : List Metric) (a : Allocs) (r : Unserialized),
      unserializeLoop e mem dataSize ids n i off ms a = .ok r →
      r.metrics = some l →
      l.length ≤ ms.length + n
        ∧ (l.length = ms.length + n →
          ∃ l', l = ms ++ l' ∧ walkRecords mem ids n i off = some l'
            ∧ a.Grants (decodeAllocs l')) := by
  intro n
  induction n with
  | zero =>
      intro i off ms l a r hr hl
      cases hr
      cases hl
      exact ⟨Nat.le_refl _, fun _ => ⟨[], (List.append_nil ms).symm, rfl,
        fun j hj => absurd hj (by simp [decodeAllocs])⟩⟩
  | succ n ih =>
      intro i off ms l a r hr hl
      by_cases hoff : off < dataSize.toNat
      case neg =>
          rw [unserializeLoop, if_neg hoff] at hr
          cases hr
          cases hl
          exact ⟨by omega, fun hlen => by omega⟩
      cases hrec : metricFromSerialized e mem off (ids i) a with
      | error f =>
          rw [unserializeLoop, if_pos hoff, hrec] at hr
          cases hr
      | ok p =>
      obtain ⟨o, b⟩ := p
      cases o with
      | none =>
          rw [unserializeLoop, if_pos hoff, hrec] at hr
          cases hr
          cases hl
          exact ⟨by omega, fun hlen => by omega⟩
      | some m =>
          obtain ⟨hin, hm, hg⟩ := metricFromSerialized_some hrec
          rw [unserializeLoop_granted hoff hin hm hg] at hr
          obtain ⟨hle, hwhole⟩ := ih _ _ _ _ _ _ hr hl
          by_cases hnode : a (metricAllocs m) = true
          · rw [if_pos hnode] at hle hwhole
            rw [List.length_append] at hle hwhole
            refine ⟨by simp at hle; omega, fun hlen => ?_⟩
            obtain ⟨l', rfl, hw, hrest⟩ := hwhole (by simp; omega)
            refine ⟨m :: l', by simp, ?_, ?_⟩
            · exact walkRecords_succ.mpr
                ⟨m, l', hsize ▸ hoff, hin, hm, hw, rfl⟩
            · unfold decodeAllocs
              rw [List.map_cons, List.sum_cons, Allocs.grants_add,
                Allocs.grants_add, Allocs.grants_one]
              exact ⟨⟨hg, by rwa [Allocs.skip, Nat.zero_add]⟩, hrest⟩
          · rw [if_neg hnode] at hle
            exact ⟨by omega, fun hlen => by omega⟩

-- ============================================================= the message

/-- The payload of the stream's first message. -/
def Conn.payload (c : Conn) : List UInt8 := c.body.take c.declared

/-- All the announced metrics, read off the payload. -/
def Conn.announced (ids : Nat → UInt16) (c : Conn) : Option (List Metric) :=
  walkRecords c.payload ids c.header.count.toNat 0 0

/-- The decoder is given memory for its list, and for all of the metrics
it is to hold. -/
def Remembers (a : Allocs) (ms : List Metric) : Prop :=
  a.Grants (1 + decodeAllocs ms)

section Ingest

variable {S : Type} (lpush : Allocs → S → List Metric → S) (s : S) {c : Conn}
  {a : Allocs} {ms : List Metric}

/-- A whole payload, decoded and pushed. -/
theorem ingest_announced (hbody : c.declared ≤ c.body.length)
    (hw : c.announced ids = some ms) (hg : Remembers a ms) :
    ∃ b, ingest lpush e ids c.header c.payload a s = .ok (0, lpush b s ms) := by
  have hsize : c.header.dataSize.toNat = c.payload.length :=
    (List.length_take_of_le hbody).symm
  obtain ⟨hlist, hmetrics⟩ := Allocs.grants_add.mp hg
  rw [Allocs.grants_one] at hlist
  obtain ⟨off, b, hloop⟩ := unserializeLoop_walk (e := e) hsize _ _ _ _ []
    _ hw hmetrics
  refine ⟨b, ?_⟩
  unfold ingest metricListUnserialize
  simp only [Allocs.malloc_eq, hlist, hloop, List.nil_append]

/-- What is pushed is no more than the announced number of metrics; as
many are all of them. -/
theorem announced_of_ingest {code : Int} {l : List Metric}
    (hbody : c.declared ≤ c.body.length)
    (h : ingest (fun _ _ l => l) e ids c.header c.payload a []
      = .ok (code, l)) (hlen : l.length = c.header.count.toNat) :
    c.announced ids = some l ∧ Remembers a l := by
  have hsize : c.header.dataSize.toNat = c.payload.length :=
    (List.length_take_of_le hbody).symm
  unfold ingest metricListUnserialize at h
  simp only [Allocs.malloc_eq] at h
  cases ha : a 0 with
  | false =>
      rw [ha] at h
      cases h
  | true =>
  rw [ha] at h
  simp only at h
  cases hr : unserializeLoop e c.payload c.header.dataSize ids
      c.header.count.toNat 0 0 [] (a.skip 1) with
  | error f =>
      rw [hr] at h
      cases h
  | ok r =>
  rw [hr] at h
  cases hm : r.metrics with
  | none =>
      simp only [hm] at h
      cases h
  | some l' =>
      simp only [hm] at h
      cases h
      obtain ⟨-, hwhole⟩ := walk_of_unserializeLoop hsize _ _ _ _ _ _ _ hr hm
      obtain ⟨l', rfl, hw, hg⟩ := hwhole (by simpa using hlen)
      exact ⟨hw, Allocs.grants_add.mpr ⟨Allocs.grants_one.mpr ha, hg⟩⟩

end Ingest

theorem length_walkRecords :
    ∀ {n i off : Nat} {l : List Metric},
      walkRecords mem ids n i off = some l → l.length = n := by
  intro n
  induction n with
  | zero =>
      intro i off l h
      cases h
      rfl
  | succ n ih =>
      intro i off l h
      obtain ⟨m, ms, -, -, -, hw, rfl⟩ := walkRecords_succ.mp h
      rw [List.length_cons, ih hw]

/-- `monikor_server_handle_client` is all or nothing on a message: for
every store it returns 0 and has pushed all the announced metrics, in
order, or it returns -1 and the store is as it was. -/
def AllOrNothing (e : Endian) (ids : Nat → UInt16) (a : Allocs) (c : Conn) :
    Prop :=
  ∀ (S : Type) (lpush : Allocs → S → List Metric → S) (s : S), ∃ fuel r,
    handleClient lpush e ids fuel a c s = some r
      ∧ ((∃ b ms, c.announced ids = some ms ∧ r = .ok (0, lpush b s ms))
        ∨ r = .ok (-1, s))

/-- All or nothing, exactly: a completely received message is handled so
if and only if its header does not arrive in one read(2) or the payload's
memory is not available, so that it is refused, or the payload holds all
the announced records and there is memory to decode them. -/
theorem handleClient_allOrNothing_iff (e : Endian) (ids : Nat → UInt16)
    (a : Allocs) (c : Conn) (hbody : c.declared ≤ c.body.length) :
    AllOrNothing e ids a c
      ↔ ¬ c.HeaderFirst ∨ a 0 = false
        ∨ ∃ ms, c.announced ids = some ms ∧ Remembers (a.skip 1) ms := by
  constructor
  · intro h
    by_cases hf : c.HeaderFirst ∧ a 0 = true
    case neg =>
        rw [not_and_or, Bool.not_eq_true] at hf
        exact hf.imp_right .inl
    right; right
    -- a store that is the list of what was pushed
    obtain ⟨fuel, r, hrun, hr⟩ := h (List Metric) (fun _ _ l => l) []
    obtain ⟨fuel', hout⟩ := handleClient_outcome (fun _ _ l => l) e ids a []
      hbody
    have hsame := handleClient_det _ _ _ _ _ hout hrun
    unfold outcome at hsame
    rw [if_pos hf, ← Conn.payload] at hsame
    rcases hr with ⟨b, ms, hms, rfl⟩ | rfl
    · have hg := announced_of_ingest hbody hsame (length_walkRecords hms)
      exact ⟨ms, hg⟩
    · exact absurd hsame (ingest_ne_error _ _ _ _ _ _ _ _)
  · intro h S lpush s
    obtain ⟨fuel, hout⟩ := handleClient_outcome lpush e ids a s hbody
    refine ⟨fuel, _, hout, ?_⟩
    unfold outcome
    by_cases hf : c.HeaderFirst ∧ a 0 = true
    case neg => exact .inr (if_neg hf)
    rw [if_pos hf, ← Conn.payload]
    obtain ⟨ms, hms, hg⟩ :=
      (h.resolve_left (not_not.mpr hf.1)).resolve_left (by simp [hf.2])
    obtain ⟨b, hingest⟩ := ingest_announced (e := e) lpush s hbody hms hg
    exact .inl ⟨b, ms, hms, hingest⟩

/-- A message of three records, as announced. -/
theorem handleClient_allOrNothing_each :
    AllOrNothing .little (fun _ => 0) okAllocs
      ⟨listBytes oneOfEach, .eof, fun _ => 48⟩ :=
  (handleClient_allOrNothing_iff .little (fun _ => 0) okAllocs
    ⟨listBytes oneOfEach, .eof, fun _ => 48⟩ (by decide)).mpr
    (.inr (.inr ⟨oneOfEach, by decide, Allocs.grants_okAllocs _⟩))

/-- A message of one record, as announced. -/
def wholeMessage : Conn :=
  ⟨[1, 0, 1, 0, 0, 0, 0, 0, 0, 0, 37,
    0, 0, 0, 0, 0, 0, 0, 1, 0, 0, 0, 0, 0, 0, 0, 2, 0, 1,
    0, 0, 0, 0, 0, 0, 0, 8, 0, 0, 97, 0, 0, 0, 0, 0, 0, 0, 5],
    .eof, fun _ => 48⟩

/-- A message that announces two records and holds one. -/
def shortMessage : Conn :=
  { wholeMessage with
    pending := [1, 0, 2] ++ wholeMessage.pending.drop 3 }

/-- The one is pushed, and the client is answered with 0. -/
theorem handleClient_partial :
    handleClient (fun _ s l => s ++ l) .little (fun _ => 0) 38 okAllocs
        shortMessage []
        = some (.ok (0, [⟨CString.a, 0, ⟨1, 2⟩, .int 5, 0⟩]))
      ∧ ¬ AllOrNothing .little (fun _ => 0) okAllocs shortMessage := by
  have hrun : handleClient (fun _ s l => s ++ l) .little (fun _ => 0) 38
      okAllocs shortMessage []
      = some (.ok (0, [⟨CString.a, 0, ⟨1, 2⟩, .int 5, 0⟩])) := rfl
  refine ⟨hrun, ?_⟩
  intro h
  obtain ⟨fuel, r, hrun', hr⟩ := h (List Metric) (fun _ s l => s ++ l) []
  have hsame := handleClient_det _ _ _ _ _ hrun hrun'
  rcases hr with ⟨b, ms, hms, rfl⟩ | rfl
  · have hnone : shortMessage.announced (fun _ => 0) = none := rfl
    rw [hnone] at hms
    cases hms
  · simp at hsame

end Monikor
