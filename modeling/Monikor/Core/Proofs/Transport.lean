/-
A batch is answered once, by the end of its transfer.

The transfers of batches among the handlers are, in order, those of the
lists in flight (`Carries`). So the callback of one that ends finds its
batch, and what is left is in order again.
-/
import Monikor.Core.Proofs.LifeRuns
import Monikor.Core.Transport
import Monikor.IoHandler.Proofs.Curl

namespace Monikor

open Machine

variable {μ ε : Type} {C : Libcurl μ ε} {D : CurlDoc C} {F : FloatOps}
  {κ : CurlCallbacks D} {W : Pushes} {s s' : Transport μ} {r r' : Requests}
  {l l' : Life} {q : Seq.Agent Metric}
  {xs ys zs : List (Addr × CurlHandler)} {a : Addr} {v : CurlHandler}
  {updateInterval : Int} {httpCode : Addr → Int} {n : Int}

-- ================================================================= in flight

/-- The lists in flight are different lists, as many as there are batches. -/
theorem Life.Shows.inFlight (h : l.Shows q) : l.agent.inFlight.Nodup
    ∧ l.agent.inFlight.length = q.inFlight.length := by
  obtain ⟨A, kept, items, hl, rfl⟩ := h
  have hv := hl.agent
  refine ⟨hv.headers_append.of_append_right, ?_⟩
  have hlen := congrArg List.length hv.inFlight
  simpa [Seq.Agent.metrics, Seq.Agent.map] using hlen

/-- The transfers of batches. -/
def batchesOf (xs : List (Addr × CurlHandler)) : List (Addr × CurlHandler) :=
  xs.filter fun x => x.2.callback = some responseCallback

theorem batchesOf_append (xs ys : List (Addr × CurlHandler)) :
    batchesOf (xs ++ ys) = batchesOf xs ++ batchesOf ys :=
  List.filter_append ..

theorem batchesOf_other (h : ∀ x ∈ xs, x.2.callback ≠ some responseCallback) :
    batchesOf xs = [] := by
  refine List.filter_eq_nil_iff.mpr fun x hx => ?_
  simpa using h x hx

/-- The transfers of batches among `xs` are those of the lists in flight, in
the same order. -/
structure Carries (s : Transport μ) (r : Requests)
    (xs : List (Addr × CurlHandler)) : Prop where
  shows : s.life.Shows r.agent
  batches : s.life.agent.inFlight.map some
    = (batchesOf xs).map fun x => s.batch x.2.data
  data : ((batchesOf xs).map fun x => x.2.data).Nodup
  names : r.names = easies (batchesOf xs)

/-- A transfer of http.c more or less. -/
theorem Carries.starts (h : Carries s r xs)
    (hys : ∀ x ∈ ys, x.2.callback ≠ some responseCallback) :
    Carries s r (xs ++ ys) := by
  have hnone : batchesOf (xs ++ ys) = batchesOf xs := by
    rw [batchesOf_append, batchesOf_other hys, List.append_nil]
  obtain ⟨hshows, hbatches, hdata, hnames⟩ := h
  exact ⟨hshows, hnone ▸ hbatches, hnone ▸ hdata, hnone ▸ hnames⟩

/-- A batch that goes out. -/
theorem Carries.sent (h : Carries s r xs) {life : Life} {curl : CurlState μ}
    {easy data metrics : Addr} (hshows : life.Shows q)
    (hfly : life.agent.inFlight = s.life.agent.inFlight ++ [metrics])
    (hfree : s.batch data = none) :
    Carries ⟨life, curl, Function.update s.batch data (some metrics)⟩
      ⟨q, r.names ++ [easy]⟩
      (xs ++ [(a, ⟨easy, some responseCallback, data⟩)]) := by
  have hxs : batchesOf (xs ++ [(a, ⟨easy, some responseCallback, data⟩)])
      = batchesOf xs ++ [(a, ⟨easy, some responseCallback, data⟩)] := by
    rw [batchesOf_append]
    rfl
  have hother : ∀ x ∈ batchesOf xs, x.2.data ≠ data := by
    intro x hx e
    have hin : s.batch x.2.data
      ∈ (batchesOf xs).map fun x => s.batch x.2.data := List.mem_map_of_mem hx
    rw [← h.batches, e, hfree] at hin
    simp at hin
  refine ⟨hshows, ?_, ?_, ?_⟩
  · show life.agent.inFlight.map some = _
    rw [hxs, List.map_append, hfly, List.map_append, h.batches]
    congr 1
    · exact List.map_congr_left fun x hx =>
        (Function.update_of_ne (hother x hx) _ _).symm
    · show [some metrics] = [Function.update s.batch data (some metrics) data]
      rw [Function.update_self]
  · rw [hxs, List.map_append]
    refine List.nodup_append.mpr ⟨h.data, by simp, fun d hd e he => ?_⟩
    obtain ⟨x, hx, rfl⟩ := List.mem_map.mp hd
    rw [List.mem_singleton.mp he]
    exact hother x hx
  · rw [hxs]
    unfold easies
    rw [List.map_append]
    exact congrArg (· ++ [easy]) h.names

/-- The agent and its requests. -/
def InStep (D : CurlDoc C) (s : Transport μ) (r : Requests) : Prop :=
  ∃ xs, s.curl.Holds D [] xs ∧ (s.curl.view D).ends = [] ∧ Carries s r xs

/-- An operation of the agent is one of its requests, told of the same
ends. -/
def Transport.Follows (F : FloatOps) (W : Pushes) (κ : CurlCallbacks D)
    (op : TransportOp ε) (s : Transport μ) (r : Requests) : Prop :=
  ∃ did s', s.step F W κ op = some (did, s')
    ∧ (r.step F W (op, toldEnds did)).1 = did
    ∧ InStep D s' (r.step F W (op, toldEnds did)).2

/-- What has become of the batches of `r`, by a log: those that were sent are
in flight in `r'`, or were answered. -/
def Settles (r : Requests) (log : List BatchDid) (r' : Requests) : Prop :=
  (r.names ++ sentOf log).Perm (answeredOf log ++ r'.names)

theorem Settles.refl (r : Requests) : Settles r [] r := by
  unfold Settles
  rw [show sentOf [] = [] from rfl, List.append_nil]
  rfl

theorem Settles.trans {r₁ : Requests} {log rest : List BatchDid}
    (h : Settles r log r₁) (h' : Settles r₁ rest r') :
    Settles r (log ++ rest) r' := by
  unfold Settles sentOf answeredOf at h h' ⊢
  rw [List.filterMap_append, List.filterMap_append, ← List.append_assoc]
  refine (h.append_right _).trans ?_
  rw [List.append_assoc, List.append_assoc]
  exact h'.append_left _

end Monikor
