/-
When a client message is done with.

The receive loop ends a round only by a read error or by having all the
bytes; at the end of file read(2) returns 0, which is neither, so a
stream that ends early is read for ever. What the loop does is decided
by how many bytes are still pending (`receiveLoop_complete`,
`receiveLoop_error`, `receiveLoop_eof`), not by how read(2) splits them,
and `handleClient_terminates_iff` is these three cases put together.
-/
import Monikor.Server.Receive
import Monikor.Wire.Proofs.Decode

namespace Monikor

open Bytes

variable {c : Conn} {n fuel dataSize : Nat} {data : List UInt8}

-- ================================================================ read(2)

theorem Conn.ready_le (c : Conn) (n : Nat) : c.ready n ≤ n :=
  Nat.le_trans (Nat.min_le_right ..) (Nat.min_le_left ..)

theorem Conn.ready_pos (hn : 0 < n) (hc : c.pending ≠ []) : 0 < c.ready n := by
  have := List.length_pos_iff.mpr hc
  unfold Conn.ready
  omega

/-- A read that finds bytes pending makes progress. -/
theorem Conn.read_pending (hn : 0 < n) (hc : c.pending ≠ []) :
    ∃ bs c', c.read n = (some bs, c') ∧ c.pending = bs ++ c'.pending
      ∧ c'.ending = c.ending ∧ 0 < bs.length ∧ bs.length ≤ n := by
  refine ⟨c.pending.take (c.ready n),
    { c with pending := c.pending.drop (c.ready n),
             chunk := fun k => c.chunk (k + 1) }, ?_,
    (List.take_append_drop ..).symm, rfl, ?_, ?_⟩
  · unfold Conn.read
    rw [if_neg (Nat.ne_of_gt hn), if_neg hc]
  · have hpos := Conn.ready_pos hn hc
    have := List.length_pos_iff.mpr hc
    rw [List.length_take]
    omega
  · rw [List.length_take]
    exact Nat.le_trans (Nat.min_le_left ..) (c.ready_le n)

/-- A read of no bytes. -/
theorem Conn.read_zero (c : Conn) : ∃ c', c.read 0 = (some [], c') :=
  ⟨{ c with chunk := fun k => c.chunk (k + 1) }, rfl⟩

/-- A read at the end of the stream: 0 or -1, and nothing changes. -/
theorem Conn.read_end (hn : 0 < n) (hc : c.pending = []) :
    ∃ c', c.read n = (if c.ending = .eof then some [] else none, c')
      ∧ c'.pending = c.pending ∧ c'.ending = c.ending := by
  refine ⟨{ c with chunk := fun k => c.chunk (k + 1) }, ?_, rfl, rfl⟩
  unfold Conn.read
  rw [if_neg (Nat.ne_of_gt hn), if_pos hc]
  cases c.ending <;> rfl

-- ======================================================== the receive loop

/-- A loop that has everything ends with one read of no bytes. -/
theorem receiveLoop_full (hfull : data.length = dataSize) :
    ∃ c', receiveLoop (fuel + 1) c dataSize data = some (some data, c') := by
  obtain ⟨c', hread⟩ := c.read_zero
  refine ⟨c', ?_⟩
  unfold receiveLoop
  rw [hfull, Nat.sub_self, hread]
  simp only [List.append_nil, hfull, Nat.lt_irrefl, if_false]

/-- The payload arrives whole, however it is split, in at most one round
a byte. -/
theorem receiveLoop_complete (dataSize : Nat) :
    ∀ (n : Nat) (c : Conn) (data : List UInt8), data.length ≤ dataSize →
      dataSize - data.length ≤ n →
      dataSize - data.length ≤ c.pending.length →
      ∃ c', receiveLoop (n + 1) c dataSize data
        = some (some (data ++ c.pending.take (dataSize - data.length)), c') := by
  intro n
  induction n with
  | zero =>
      intro c data hle hn _
      have h0 : dataSize - data.length = 0 := by omega
      rw [h0, List.take_zero, List.append_nil]
      exact receiveLoop_full (by omega)
  | succ n ih =>
      intro c data hle hn hc
      by_cases h0 : dataSize - data.length = 0
      · rw [h0, List.take_zero, List.append_nil]
        exact receiveLoop_full (by omega)
      · have hpend : c.pending ≠ [] := by
          intro hnil
          rw [hnil] at hc
          exact h0 (Nat.le_zero.mp hc)
        obtain ⟨bs, c', hread, happ, -, hpos, hbs⟩ :=
          Conn.read_pending (Nat.pos_of_ne_zero h0) hpend
        have hlen := congrArg List.length happ
        rw [List.length_append] at hlen
        have htake : c.pending.take (dataSize - data.length)
            = bs ++ c'.pending.take (dataSize - (data ++ bs).length) := by
          rw [happ, List.take_append, List.take_of_length_le hbs,
            List.length_append, Nat.sub_add_eq]
        unfold receiveLoop
        rw [hread]
        simp only
        split
        case isTrue hlt =>
            rw [List.length_append] at hlt
            obtain ⟨c'', hloop⟩ := ih c' (data ++ bs)
              (by rw [List.length_append]; omega)
              (by rw [List.length_append]; omega)
              (by rw [List.length_append]; omega)
            exact ⟨c'', by rw [hloop, htake, List.append_assoc]⟩
        case isFalse hge =>
            have hfull : dataSize - (data ++ bs).length = 0 := by omega
            exact ⟨c', by rw [htake, hfull, List.take_zero, List.append_nil]⟩

/-- A round that finds some of what is missing, but cannot find all of
it, goes on with less pending. -/
theorem receiveLoop_more (hne : c.pending ≠ [])
    (hshort : c.pending.length < dataSize - data.length) :
    ∃ bs c', c'.pending.length < c.pending.length ∧ c'.ending = c.ending
      ∧ c'.pending.length < dataSize - (data ++ bs).length
      ∧ ∀ fuel, receiveLoop (fuel + 1) c dataSize data
          = receiveLoop fuel c' dataSize (data ++ bs) := by
  obtain ⟨bs, c', hread, happ, hend, hpos, -⟩ :=
    Conn.read_pending (n := dataSize - data.length) (by omega) hne
  have hlen := congrArg List.length happ
  rw [List.length_append] at hlen
  have hdata : (data ++ bs).length = data.length + bs.length :=
    List.length_append
  refine ⟨bs, c', by omega, hend, by omega, fun fuel => ?_⟩
  rw [receiveLoop, hread]
  exact if_pos (by omega)

/-- A read error before the payload is whole ends the loop. -/
theorem receiveLoop_error (dataSize : Nat) :
    ∀ (n : Nat) (c : Conn) (data : List UInt8), c.ending = .error →
      c.pending.length ≤ n → c.pending.length < dataSize - data.length →
      ∃ c', receiveLoop (n + 1) c dataSize data = some (none, c') := by
  intro n
  induction n with
  | zero =>
      intro c data hend hn hshort
      have hnil : c.pending = [] :=
        List.length_eq_zero_iff.mp (Nat.le_zero.mp hn)
      obtain ⟨c', hread, -⟩ :=
        Conn.read_end (n := dataSize - data.length) (by omega) hnil
      exact ⟨c', by simp [receiveLoop, hread, hend]⟩
  | succ n ih =>
      intro c data hend hn hshort
      by_cases hnil : c.pending = []
      · obtain ⟨c', hread, -⟩ :=
          Conn.read_end (n := dataSize - data.length) (by omega) hnil
        exact ⟨c', by simp [receiveLoop, hread, hend]⟩
      · obtain ⟨bs, c', hless, hend', hshort', hround⟩ :=
          receiveLoop_more hnil hshort
        obtain ⟨c'', hloop⟩ := ih c' (data ++ bs) (hend'.trans hend)
          (by omega) hshort'
        exact ⟨c'', (hround (n + 1)).trans hloop⟩

/-- At the end of a file that came too early the loop never ends. -/
theorem receiveLoop_eof (dataSize : Nat) :
    ∀ (fuel : Nat) (c : Conn) (data : List UInt8), c.ending = .eof →
      c.pending.length < dataSize - data.length →
      receiveLoop fuel c dataSize data = none := by
  intro fuel
  induction fuel with
  | zero => exact fun c data _ _ => rfl
  | succ fuel ih =>
      intro c data hend hshort
      by_cases hnil : c.pending = []
      · -- read(2) returns 0, and nothing has changed
        have hlt : data.length < dataSize := by omega
        obtain ⟨c', hread, hpend, hend'⟩ :=
          Conn.read_end (n := dataSize - data.length) (by omega) hnil
        unfold receiveLoop
        rw [hread, hend]
        simp only [if_true, List.append_nil, if_pos hlt]
        exact ih c' data (hend'.trans hend) (by rwa [hpend])
      · obtain ⟨bs, c', -, hend', hshort', hround⟩ :=
          receiveLoop_more hnil hshort
        exact (hround fuel).trans (ih c' _ (hend'.trans hend) hshort')

/-- More fuel changes nothing once the loop has ended. -/
theorem receiveLoop_mono {r : Option (List UInt8) × Conn} :
    ∀ (fuel : Nat) (c : Conn) (data : List UInt8),
      receiveLoop fuel c dataSize data = some r →
      ∀ k, receiveLoop (fuel + k) c dataSize data = some r := by
  intro fuel
  induction fuel with
  | zero => exact fun c data h => absurd h (by simp [receiveLoop])
  | succ fuel ih =>
      intro c data h k
      rw [Nat.succ_add, receiveLoop]
      unfold receiveLoop at h
      cases hread : c.read (dataSize - data.length) with
      | mk r' c' =>
          rw [hread] at h
          cases r' with
          | none => exact h
          | some bs =>
              simp only at h ⊢
              split
              case isTrue hlt =>
                  rw [if_pos hlt] at h
                  exact ih _ _ h k
              case isFalse hge => rwa [if_neg hge] at h

-- ============================================================ the message

/-- The first read(2) returns the whole header. -/
def Conn.HeaderFirst (c : Conn) : Prop :=
  serializedMetricListHdrSize ≤ c.chunk 0
    ∧ serializedMetricListHdrSize ≤ c.pending.length

instance : Decidable c.HeaderFirst := instDecidableAnd

/-- The header of the message. -/
def Conn.header (c : Conn) : SerializedMetricListHdr :=
  let buf := c.pending.take serializedMetricListHdrSize
  ⟨u8At buf 0, u16At buf 1, u64At buf 3⟩

/-- What follows the header. -/
def Conn.body (c : Conn) : List UInt8 :=
  c.pending.drop serializedMetricListHdrSize

/-- The size of the payload, as the message declares it. -/
def Conn.declared (c : Conn) : Nat := c.header.dataSize.toNat

variable {S : Type} (lpush : Allocs → S → List Metric → S) (e : Endian)
  (junk : Nat → UInt16) (a : Allocs) (s : S)

/-- A header that does not come in one piece is a protocol error. -/
theorem handleClient_split (fuel : Nat) (h : ¬ c.HeaderFirst) :
    handleClient lpush e junk fuel a c s = some (.ok (-1, s)) := by
  unfold Conn.HeaderFirst at h
  unfold handleClient
  cases hread : c.read serializedMetricListHdrSize with
  | mk r c' =>
      cases r with
      | none => rfl
      | some buf =>
          have hshort : buf.length < serializedMetricListHdrSize := by
            unfold serializedMetricListHdrSize at h hread ⊢
            unfold Conn.read at hread
            rw [if_neg (by omega)] at hread
            split at hread
            · split at hread
              · cases hread
                simp
              · cases hread
            · cases hread
              rw [List.length_take, Conn.ready]
              omega
          simp only [if_pos hshort]

/-- After a whole header, the receive loop decides. -/
theorem handleClient_whole (fuel : Nat) (h : c.HeaderFirst) :
    ∃ c', c'.pending = c.body ∧ c'.ending = c.ending
      ∧ handleClient lpush e junk fuel a c s
        = match a.malloc with
          | (false, _) => some (.ok (-1, s))
          | (true, a) =>
              match receiveLoop fuel c' c.declared [] with
              | none => none
              | some (none, _) => some (.ok (-1, s))
              | some (some data, _) =>
                  if data.length < c.declared then some (.ok (-1, s))
                  else some (ingest lpush e junk c.header data a s) := by
  obtain ⟨hchunk, hlen⟩ := h
  have hready : c.ready serializedMetricListHdrSize
      = serializedMetricListHdrSize := by
    unfold Conn.ready
    omega
  have hne : c.pending ≠ [] := by
    intro hnil
    rw [hnil] at hlen
    exact absurd hlen (by decide)
  have hread : c.read serializedMetricListHdrSize
      = (some (c.pending.take serializedMetricListHdrSize),
        { c with pending := c.body, chunk := fun k => c.chunk (k + 1) }) := by
    unfold Conn.read
    rw [if_neg (by decide), if_neg hne, hready, Conn.body]
  have hbuf : (c.pending.take serializedMetricListHdrSize).length
      = serializedMetricListHdrSize := by
    rw [List.length_take]
    omega
  refine ⟨{ c with pending := c.body, chunk := fun k => c.chunk (k + 1) },
    rfl, rfl, ?_⟩
  unfold handleClient
  rw [hread]
  simp only [hbuf, Nat.lt_irrefl, if_false,
    metricListHeaderUnserialize_ok e hbuf]
  rfl

/-- A message whose payload is all there: decoded and pushed, however it
was delivered behind its header. -/
theorem handleClient_complete (h : c.HeaderFirst) (ha : a 0 = true)
    (hbody : c.declared ≤ c.body.length) :
    handleClient lpush e junk (c.declared + 1) a c s
      = some (ingest lpush e junk c.header (c.body.take c.declared)
          (a.malloc).2 s) := by
  obtain ⟨c', hpend, -, hc⟩ := handleClient_whole lpush e junk a s
    (c.declared + 1) h
  obtain ⟨c'', hloop⟩ := receiveLoop_complete c.declared c.declared c' []
    (Nat.zero_le _) (Nat.le_refl _) (by rwa [hpend])
  have hlen : (c.body.take c.declared).length = c.declared := by
    rw [List.length_take]
    omega
  rw [hc, hloop, hpend]
  simp [Allocs.malloc, ha, hlen]

/-- A message cut short by the end of the stream is waited for for
ever. -/
theorem handleClient_short_eof (h : c.HeaderFirst) (ha : a 0 = true)
    (hend : c.ending = .eof) (hshort : c.body.length < c.declared)
    (fuel : Nat) : handleClient lpush e junk fuel a c s = none := by
  obtain ⟨c', hpend, hend', hc⟩ := handleClient_whole lpush e junk a s fuel h
  have hloop := receiveLoop_eof c.declared fuel c' [] (hend'.trans hend)
    (by rwa [hpend])
  rw [hc, hloop]
  simp [Allocs.malloc, ha]

/-- A message cut short by an error of the connection. -/
theorem handleClient_short_error (h : c.HeaderFirst) (ha : a 0 = true)
    (hend : c.ending = .error) (hshort : c.body.length < c.declared) :
    handleClient lpush e junk (c.body.length + 1) a c s
      = some (.ok (-1, s)) := by
  obtain ⟨c', hpend, hend', hc⟩ := handleClient_whole lpush e junk a s
    (c.body.length + 1) h
  obtain ⟨c'', hloop⟩ := receiveLoop_error c.declared c.body.length c'
    [] (hend'.trans hend) (by rw [hpend]) (by rwa [hpend])
  rw [hc, hloop]
  simp [Allocs.malloc, ha]

/-- No memory for the payload is a protocol error. -/
theorem handleClient_nomem (fuel : Nat) (h : c.HeaderFirst)
    (ha : a 0 = false) :
    handleClient lpush e junk fuel a c s = some (.ok (-1, s)) := by
  obtain ⟨c', -, -, hc⟩ := handleClient_whole lpush e junk a s fuel h
  simp [hc, Allocs.malloc, ha]

/-- Termination, exactly: the handler of a client that has closed its
end comes to a result if and only if the header does not arrive in the
first read(2), the payload's memory is not available, the stream ends in
an error, or as many bytes follow the header as it declares. -/
theorem handleClient_terminates_iff (c : Conn) :
    (∃ fuel r, handleClient lpush e junk fuel a c s = some r)
      ↔ ¬ c.HeaderFirst ∨ a 0 = false ∨ c.ending = .error
        ∨ c.declared ≤ c.body.length := by
  constructor
  · intro hends
    obtain ⟨fuel, r, hr⟩ := hends
    by_contra hcond
    simp only [not_or, not_not] at hcond
    obtain ⟨h, ha, hend, hbody⟩ := hcond
    have hnone := handleClient_short_eof lpush e junk a s h
      (by simpa using ha) (by cases hc : c.ending <;> simp_all)
      (Nat.not_le.mp hbody) fuel
    rw [hnone] at hr
    cases hr
  · intro hcond
    by_cases h : c.HeaderFirst
    case neg => exact ⟨0, _, handleClient_split lpush e junk a s 0 h⟩
    cases ha : a 0 with
    | false => exact ⟨0, _, handleClient_nomem lpush e junk a s 0 h ha⟩
    | true =>
        by_cases hbody : c.declared ≤ c.body.length
        · exact ⟨_, _, handleClient_complete lpush e junk a s h ha hbody⟩
        · have hend : c.ending = .error := by
            simpa [h, ha, hbody] using hcond
          exact ⟨_, _, handleClient_short_error lpush e junk a s h ha hend
            (Nat.not_le.mp hbody)⟩

/-- A client that declares one byte and hangs up before sending it. -/
theorem handleClient_hangs :
    ¬ ∃ fuel r, handleClient (fun _ (s : Unit) _ => s) .little (fun _ => 0) fuel
      okAllocs ⟨[1, 0, 0, 0, 0, 0, 0, 0, 0, 0, 1], .eof, fun _ => 11⟩ ()
      = some r := by
  intro h
  obtain ⟨fuel, r, hr⟩ := h
  rw [handleClient_short_eof _ _ _ _ _ ⟨by decide, by decide⟩ rfl rfl
    (by decide)] at hr
  cases hr

end Monikor
