/-
Whole lives of the agent: what it holds, and what becomes of the metrics.

The lists of the stores that reloads left are carried along as if they
were batches whose responses never come (`Life.whole`): no call touches
them either. `step_lives` takes one call from sequences to pointers, and
with it the account: a metric that is live is in one of the lists
(`Tight`), unless a push is answered with a code.
-/
import Monikor.Core.Proofs.Life
import Monikor.Lists.Proofs.Owned
import Monikor.Send.Proofs.Conserve
import Monikor.Send.Proofs.Sheds

namespace Monikor

open Linked Machine

-- ===================================== batches that a call does not look at

namespace Seq

variable {α : Type*} {w : α → Nat} {x : α}

theorem sendAllMetrics_inFlight (a : Agent α) (kept : List (List α))
    (maxSendSize : Nat) (listOk sendOk : Bool) :
    sendAllMetrics w { a with inFlight := kept ++ a.inFlight } maxSendSize
        listOk sendOk
      = { sendAllMetrics w a maxSendSize listOk sendOk with
          inFlight := kept
            ++ (sendAllMetrics w a maxSendSize listOk sendOk).inFlight } := by
  unfold sendAllMetrics
  split
  · rfl
  split
  · rfl
  · cases sendOk with
    | true => simp
    | false => rfl

theorem handleServerResponse_inFlight (updateInterval : Int) (a : Agent α)
    (batch : List α) (ls : List (List α)) (result : Nat) (httpCode : Int) :
    handleServerResponse updateInterval { a with inFlight := ls } batch result
        httpCode
      = ((handleServerResponse updateInterval a batch result httpCode).1,
        { (handleServerResponse updateInterval a batch result httpCode).2 with
          inFlight := ls }) := by
  have hback : ∀ b : Agent α,
      updateBackoff updateInterval { b with inFlight := ls }
        = ((updateBackoff updateInterval b).1,
          { (updateBackoff updateInterval b).2 with inFlight := ls }) := by
    intro b
    unfold updateBackoff
    split <;> rfl
  unfold handleServerResponse
  by_cases hack : result = curleOk ∧ httpCode = 200
  · simp only [if_pos hack]
    split
    · rfl
    · split
      · rw [hback { a with update := a.update.success }]
      · rfl
  · simp only [if_neg hack]
    split
    · rfl
    · split
      · rw [hback a]
      · rfl

-- ============================================================ the elements

/-- All the elements an agent holds. -/
def Agent.elems (a : Agent α) : List α :=
  metricStoreElems a.store ++ a.inFlight.flatten

theorem Agent.mem_elems {a : Agent α} : x ∈ a.elems
    ↔ x ∈ a.store.current ∨ x ∈ a.store.delta ∨ x ∈ a.store.cache
      ∨ x ∈ a.inFlight.flatten := by
  simp only [Agent.elems, metricStoreElems, List.mem_append, or_assoc]

/-- A send drops nothing. -/
theorem sendAllMetrics_elems {a : Agent α} (maxSendSize : Nat)
    (listOk sendOk : Bool) (hx : x ∈ a.elems) :
    x ∈ (sendAllMetrics w a maxSendSize listOk sendOk).elems := by
  rw [Agent.mem_elems] at hx
  rcases sendAllMetrics_cases (w := w) a maxSendSize listOk sendOk with
    hrun | hrun | ⟨batch, rest, hsplit, hrun⟩
  · rw [hrun, Agent.mem_elems]
    exact hx
  · rw [hrun, Agent.mem_elems]
    simp only [List.mem_append, List.not_mem_nil, false_or]
    tauto
  · have hmem : x ∈ a.store.cache ++ a.store.current ↔ x ∈ batch ++ rest := by
      rw [hsplit]
    rw [hrun, Agent.mem_elems]
    simp only [List.flatten_append, List.flatten_singleton, List.mem_append,
      List.not_mem_nil, false_or] at hmem ⊢
    tauto

/-- A response drops what it releases, and nothing else. -/
theorem handleServerResponse_elems {a : Agent α} {i : Nat} {batch : List α}
    (updateInterval : Int) (result : Nat) (httpCode : Int)
    (hi : a.inFlight[i]? = some batch) (hx : x ∈ a.elems) :
    x ∈ (handleServerResponse updateInterval
        { a with inFlight := a.inFlight.eraseIdx i } batch result httpCode).1
      ∨ x ∈ (handleServerResponse updateInterval
        { a with inFlight := a.inFlight.eraseIdx i } batch result
        httpCode).2.elems := by
  have hmem : x ∈ a.inFlight.flatten
      ↔ x ∈ batch ∨ x ∈ (a.inFlight.eraseIdx i).flatten := by
    rw [(flatten_eraseIdx hi).mem_iff, List.mem_append]
  rw [Agent.mem_elems] at hx
  rcases handleServerResponse_cases updateInterval
      { a with inFlight := a.inFlight.eraseIdx i } batch result httpCode with
    ⟨-, hrun⟩ | ⟨-, update, ⟨-, hrun⟩ | ⟨-, -, hrun⟩⟩
  · rw [hrun, Agent.mem_elems]
    simp only [List.mem_append, List.not_mem_nil, false_or]
    tauto
  · rw [hrun, Agent.mem_elems]
    tauto
  · rw [hrun, Agent.mem_elems]
    simp only [metricStoreElems, metricStoreNew, List.mem_append,
      List.not_mem_nil, false_or]
    tauto

end Seq

variable {F : FloatOps} {h h' : Heap} {A A' : Lists} {a a' : Agent}
  {q q' : Seq.Agent Item} {l p : Addr}

/-- A send only adds to the batches in flight. -/
theorem sendAllMetrics_inFlight (a : Agent) (ls : List Addr)
    (maxSendSize : Nat) (sendOk : Bool) :
    Agent.sendAllMetrics { a with inFlight := ls ++ a.inFlight } maxSendSize
        sendOk
      = (a.sendAllMetrics maxSendSize sendOk).map
          fun a' => { a' with inFlight := ls ++ a'.inFlight } := by
  unfold Agent.sendAllMetrics
  cases a.heap.list a.metrics.current with
  | none => rfl
  | some current =>
      cases a.heap.list a.metrics.cache with
      | none => rfl
      | some cache =>
          simp only [Option.bind_eq_bind, Option.bind_some]
          split
          · rfl
          · split
            · simp [Option.map_bind]
            · cases sendOk with
              | true => simp [Option.map_bind]
              | false => simp [Option.map_bind]

theorem updateBackoff_inFlight (updateInterval : Int) (a : Agent)
    (ls : List Addr) :
    Agent.updateBackoff updateInterval { a with inFlight := ls }
      = (a.updateBackoff updateInterval).map
          fun a' => { a' with inFlight := ls } := by
  unfold Agent.updateBackoff
  simp only [Option.bind_eq_bind]
  split
  · simp [Option.map_bind]
  · rfl

/-- A response leaves the batches in flight. -/
theorem handleServerResponse_inFlight (updateInterval : Int) (a : Agent)
    (ls : List Addr) (metrics : Addr) (result : Nat) (httpCode : Int) :
    Agent.handleServerResponse updateInterval { a with inFlight := ls } metrics
        result httpCode
      = (a.handleServerResponse updateInterval metrics result httpCode).map
          fun a' => { a' with inFlight := ls } := by
  have hback := fun a => updateBackoff_inFlight updateInterval a ls
  unfold Agent.handleServerResponse
  by_cases hack : result = curleOk ∧ httpCode = 200
  · simp only [if_pos hack]
    split
    · simp [Option.map_bind]
    · split
      · rw [hback { a with update := a.update.success }]
        simp [Option.map_bind, Option.bind_map]
      · simp [Option.map_bind]
  · simp only [if_neg hack]
    split
    · simp [Option.map_bind]
    · split
      · rw [hback]
        simp [Option.map_bind, Option.bind_map]
      · simp [Option.map_bind]

-- ============================================================ the account

/-- Every live metric is in one of the lists. -/
def Tight (a : Agent) (q : Seq.Agent Item) : Prop :=
  ∀ p, a.heap.metric p ≠ none → p ∈ q.elems.map Prod.fst

/-- The metrics of an agent are those of the lists at its headers. -/
theorem Viewed.mem_elems (hv : Viewed A a q) :
    p ∈ q.elems.map Prod.fst
      ↔ ∃ l ∈ a.headers, ∃ cs, A l = some cs ∧ p ∈ cs.map Cell.ptr := by
  have hone : ∀ {l items}, itemsOf A l = some items →
      (p ∈ items.map Prod.fst ↔ ∃ cs, A l = some cs ∧ p ∈ cs.map Cell.ptr) := by
    intro l items hi
    obtain ⟨cs, hcs, rfl⟩ := itemsOf_some hi
    simp [hcs, Cell.item]
  have hflight : p ∈ q.inFlight.flatten.map Prod.fst
      ↔ ∃ l ∈ a.inFlight, ∃ cs, A l = some cs ∧ p ∈ cs.map Cell.ptr := by
    constructor
    · intro hp
      obtain ⟨x, hx, rfl⟩ := List.mem_map.mp hp
      obtain ⟨items, hi, hxi⟩ := List.mem_flatten.mp hx
      have hin : some items ∈ a.inFlight.map (itemsOf A) := by
        rw [hv.inFlight]
        exact List.mem_map_of_mem hi
      obtain ⟨l, hl, hli⟩ := List.mem_map.mp hin
      exact ⟨l, hl, (hone hli).mp (List.mem_map_of_mem hxi)⟩
    · intro hp
      obtain ⟨l, hl, hcs⟩ := hp
      have hin : itemsOf A l ∈ q.inFlight.map some := by
        rw [← hv.inFlight]
        exact List.mem_map_of_mem hl
      obtain ⟨items, hi, hli⟩ := List.mem_map.mp hin
      obtain ⟨x, hx, rfl⟩ := List.mem_map.mp ((hone hli.symm).mpr hcs)
      exact List.mem_map_of_mem (List.mem_flatten.mpr ⟨items, hi, hx⟩)
  unfold Seq.Agent.elems Seq.metricStoreElems Agent.headers
  simp only [List.map_append, List.mem_append, hone hv.current, hone hv.delta,
    hone hv.cache, hflight, List.mem_cons, exists_eq_or_imp, or_assoc]

/-- A live metric that is listed is in one of the agent's lists, if all the
live ones are. -/
theorem Tight.header (ht : Tight a q) (hv : Viewed A a q) {cs : List Cell}
    (hl : A l = some cs) (hp : p ∈ cs.map Cell.ptr) : l ∈ a.headers := by
  obtain ⟨m, hm⟩ := hv.rep.listed_live ⟨l, cs, hl, hp⟩
  obtain ⟨l', hl', ds, hds, hin⟩ := hv.mem_elems.mp (ht p (by simp [hm]))
  by_contra hout
  obtain ⟨c, hc, hcp⟩ := List.mem_map.mp hp
  obtain ⟨d, hd, hdp⟩ := List.mem_map.mp hin
  have hne : l ≠ l' := fun e => hout (e ▸ hl')
  exact (hv.rep.sep l l' cs ds hl hds hne c hc d hd).2 (hcp.trans hdp.symm)

/-- A push that leaves no metric loose keeps the live ones listed. -/
theorem Tight.of_loose (ht : Tight a q) (hv : Viewed A a q)
    (hv' : Viewed A' a' q') (hh : a'.headers = a.headers)
    (hkept : ListsKept A A'
      [a.metrics.current, a.metrics.delta, a.metrics.cache])
    (hloose : ∀ x, Loose a'.heap A' x → Loose a.heap A x) : Tight a' q' := by
  intro p hp
  rw [hv'.mem_elems, hh]
  by_cases hlist : Listed A' p
  · obtain ⟨l, cs, hl, hin⟩ := hlist
    refine ⟨l, ?_, cs, hl, hin⟩
    by_cases hstore : l ∈ [a.metrics.current, a.metrics.delta, a.metrics.cache]
    · exact List.mem_append_left a.inFlight hstore
    · exact ht.header hv ((hkept l hstore).symm.trans hl) hin
  · obtain ⟨hlive, hno⟩ := hloose p ⟨hp, hlist⟩
    obtain ⟨l, -, cs, hl, hin⟩ := hv.mem_elems.mp (ht p hlive)
    exact absurd ⟨l, cs, hl, hin⟩ hno

/-- A call that allocates no metric, and frees those it drops, keeps the
live ones listed. -/
theorem Tight.of_sheds (ht : Tight a q) (hs : Sheds a.heap a'.heap)
    (hlog : FreeLog a.heap) {ps : List Addr}
    (hfreed : a'.heap.freed = a.heap.freed ++ ps)
    (hkeep : ∀ p ∈ q.elems.map Prod.fst, p ∈ ps
      ∨ p ∈ q'.elems.map Prod.fst) : Tight a' q' := by
  intro p hp
  rcases hkeep p (ht p (hs.old p hp)) with hin | hin
  · have hdead := (hs.accounts.log hlog).dead p
      (by rw [hfreed]; exact List.mem_append_right _ hin)
    exact absurd hdead hp
  · exact hin

-- =============================================================== one call

/-- The addresses of a store's lists. -/
def StoreRef.lists (st : StoreRef) : List Addr := [st.current, st.delta, st.cache]

/-- The agent with the lists of the stores it forgot among its batches. -/
def Life.whole (s : Life) : Agent :=
  { s.agent with
    inFlight := s.left.flatMap StoreRef.lists ++ s.agent.inFlight }

/-- The agent lives as `q` does; the stores it forgot hold `kept`. -/
structure Lives (A : Lists) (s : Life) (kept : List (List Item))
    (q : Seq.Agent Item) : Prop where
  viewed : Viewed A s.whole { q with inFlight := kept ++ q.inFlight }
  length : (s.left.flatMap StoreRef.lists).length = kept.length

/-- The metrics of the agent are accounted for. -/
structure Books (s : Life) (kept : List (List Item)) (q : Seq.Agent Item) :
    Prop where
  log : FreeLog s.agent.heap
  tight : Tight s.whole { q with inFlight := kept ++ q.inFlight }
  handed : ∀ p ∈ s.handed, Known s.agent.heap p

/-- The baselines that the pushes of a call find are numbers of their
types. -/
def Call.Computes (F : FloatOps) : Call → Seq.Agent Metric → Prop
  | .push m, a => Monikor.Computes a.store m
  | .receive ms, a => ListComputes F ms a.store
  | _, _ => True

instance (F : FloatOps) (c : Call) (a : Seq.Agent Metric) :
    Decidable (c.Computes F a) :=
  match c with
  | .push m => inferInstanceAs (Decidable (Monikor.Computes a.store m))
  | .receive ms => inferInstanceAs (Decidable (ListComputes F ms a.store))
  | .evict .. | .send .. | .respond .. | .flush | .reload => .isTrue trivial

/-- What a call comes to. -/
def LivesOn (F : FloatOps) (c : Call) (s : Life) (kept : List (List Item))
    (q : Seq.Agent Item) (r : Option (Int × Life)) : Prop :=
  ∃ s' A' kept' q', r = some ((Seq.call F c q.metrics).1, s')
    ∧ Lives A' s' kept' q' ∧ q'.metrics = (Seq.call F c q.metrics).2
    ∧ (c.Computes F q.metrics → Books s kept q → Books s' kept' q')

variable {s : Life} {kept : List (List Item)}

/-- A module pushes a metric. -/
theorem push_lives (hl : Lives A s kept q) (hal : AllocsOk s.agent.heap)
    (m : Metric) : LivesOn F (.push m) s kept q (s.call F (.push m)) := by
  have hacc₁ : Accounts s.agent.heap
      (s.agent.heap.setMetric s.agent.heap.brk m).bump := .build m
  have hv₁ : Viewed A { s.whole with
      heap := (s.agent.heap.setMetric s.agent.heap.brk m).bump }
      { q with inFlight := kept ++ q.inFlight } :=
    { hl.viewed with rep := (hl.viewed.rep.setMetric_bump m).1 }
  obtain ⟨h', A', st, hrun, hv', hst, hkept, hloose⟩ :=
    storePush_viewed (F := F) hv₁ hal (p := s.agent.heap.brk) (m := m)
      (by simp) hl.viewed.rep.not_listed_brk
  have hacc := hacc₁.trans (metricStorePush_accounts hrun)
  have hknown : Known h' s.agent.heap.brk :=
    (metricStorePush_accounts hrun).known _ (.inl (by simp))
  refine ⟨{ s with
      agent := { s.agent with heap := h' }
      handed := s.handed ++ [s.agent.heap.brk] }, A', kept,
    { q with store := st }, ?_, ⟨hv', hl.length⟩, ?_,
    fun hcomp hb => ⟨hacc.log hb.log, ?_, ?_⟩⟩
  · have hrun : ((s.agent.heap.setMetric s.agent.heap.brk m).bump).metricStorePush
      F s.agent.metrics s.agent.heap.brk = some (_, h') := hrun
    simp only [Life.call, metricBuild_ok hal m, Heap.metricPush,
      Option.bind_eq_bind, hrun, Option.bind_some]
    rfl
  · exact congrArg (fun store => ({ q.metrics with store } : Seq.Agent Metric))
      hst
  · have hcode := (push_answered_iff (F := F)).mpr hcomp
    refine hb.tight.of_loose hl.viewed hv' rfl hkept fun x hx => ?_
    obtain ⟨⟨hlive, hno⟩, hne⟩ := hloose hcode x hx
    have hne : x ≠ s.agent.heap.brk := hne
    refine ⟨?_, hno⟩
    show s.agent.heap.metric x ≠ none
    simpa [hne] using hlive
  · intro p hp
    rcases List.mem_append.mp hp with hp | hp
    · exact hacc.known p (hb.handed p hp)
    · obtain rfl := List.mem_singleton.mp hp
      exact hknown

/-- The server hands over the list of a message. -/
theorem receive_lives (hl : Lives A s kept q) (hal : AllocsOk s.agent.heap)
    (ms : List Metric) :
    LivesOn F (.receive ms) s kept q (s.call F (.receive ms)) := by
  obtain ⟨ps, h', A', st, hrun, hv', hst, hkept, hacc, hknown, hloose⟩ :=
    lpushFresh_viewed (F := F) hl.viewed hal ms
  refine ⟨{ s with
      agent := { s.agent with heap := h' }, handed := s.handed ++ ps }, A',
    kept, { q with store := st }, ?_, ⟨hv', hl.length⟩, ?_,
    fun hcomp hb => ⟨hacc.log hb.log, ?_, ?_⟩⟩
  · have hrun : s.agent.heap.lpushFresh F s.agent.metrics ms
      = some (ps, _, h') := hrun
    simp only [Life.call, Option.bind_eq_bind, hrun, Option.bind_some]
    rfl
  · exact congrArg (fun store => ({ q.metrics with store } : Seq.Agent Metric))
      hst
  · have hcode := (lpush_answered_iff (F := F) ms _).mpr hcomp
    exact hb.tight.of_loose hl.viewed hv' rfl hkept (hloose hb.log hcode)
  · intro p hp
    rcases List.mem_append.mp hp with hp | hp
    · exact hacc.known p (hb.handed p hp)
    · exact hknown p hp

/-- A call that sheds metrics keeps the account. -/
theorem Books.of_sheds {s' : Life} {kept' : List (List Item)}
    (hb : Books s kept q) (hs : Sheds s.agent.heap s'.agent.heap)
    (hhanded : s'.handed = s.handed) {ps : List Addr}
    (hfreed : s'.agent.heap.freed = s.agent.heap.freed ++ ps)
    (hkeep : ∀ p ∈ Seq.Agent.elems { q with
        inFlight := kept ++ q.inFlight } |>.map Prod.fst, p ∈ ps
      ∨ p ∈ (Seq.Agent.elems { q' with
        inFlight := kept' ++ q'.inFlight }).map Prod.fst) :
    Books s' kept' q' where
  log := hs.accounts.log hb.log
  tight := by
    have hsheds : Sheds s.whole.heap s'.whole.heap := hs
    exact hb.tight.of_sheds hsheds hb.log hfreed hkeep
  handed := fun p hp => hs.accounts.known p (hb.handed p (hhanded ▸ hp))

/-- An update evicts. -/
theorem evict_lives (hl : Lives A s kept q) (pollInterval maxSize : Int32)
    (now : Timeval) :
    LivesOn F (.evict pollInterval maxSize now) s kept q
      (s.call F (.evict pollInterval maxSize now)) := by
  obtain ⟨h', A', st, ps, hrun, hv', hst, hf, hkeep⟩ :=
    evictMetrics_viewed hl.viewed pollInterval maxSize now
  have hrun : s.agent.heap.evictMetrics s.agent.metrics pollInterval maxSize
    now = some (_, h') := hrun
  refine ⟨{ s with agent := { s.agent with heap := h' } }, A', kept,
    { q with store := st }, ?_, ⟨hv', hl.length⟩, ?_, fun _ hb =>
      hb.of_sheds (evictMetrics_sheds hrun) rfl hf.freed fun p hp => ?_⟩
  · simp only [Life.call, Option.bind_eq_bind, hrun, Option.bind_some]
    rfl
  · exact congrArg (fun store => ({ q.metrics with store } : Seq.Agent Metric))
      hst
  · unfold Seq.Agent.elems at hp ⊢
    rw [List.map_append, List.mem_append] at hp ⊢
    rcases hp with hp | hp
    · exact (List.mem_append.mp (hkeep hp)).symm.imp_right .inl
    · exact .inr (.inr hp)

/-- A send. -/
theorem send_lives (hl : Lives A s kept q) (maxSendSize : Nat)
    (listOk sendOk : Bool)
    (hal : s.agent.heap.allocs = (Call.send maxSendSize listOk sendOk).allocs) :
    LivesOn F (.send maxSendSize listOk sendOk) s kept q
      (s.call F (.send maxSendSize listOk sendOk)) := by
  obtain ⟨w', hrun, ⟨A', hv'⟩, hrel, -⟩ := sendAllMetrics_viewed hl.viewed
    maxSendSize listOk sendOk (by
      show s.agent.heap.allocs = _
      rw [hal]
      funext n
      cases n <;> rfl)
  unfold Life.whole at hrun
  rw [sendAllMetrics_inFlight, Option.map_eq_some_iff] at hrun
  obtain ⟨a', hrun, rfl⟩ := hrun
  rw [Seq.sendAllMetrics_inFlight] at hv'
  refine ⟨{ s with agent := a' }, A', kept,
    Seq.sendAllMetrics Item.size q maxSendSize listOk sendOk, ?_,
    ⟨hv', hl.length⟩, ?_, fun _ hb => hb.of_sheds (sendAllMetrics_sheds hrun)
      rfl hrel.freed fun p hp => .inr ?_⟩
  · simp only [Life.call, Option.bind_eq_bind, hrun, Option.bind_some]
    rfl
  · exact (Seq.sendAllMetrics_map (w := metricNodeSize) Prod.snd q maxSendSize
      listOk sendOk).symm
  · obtain ⟨x, hx, rfl⟩ := List.mem_map.mp hp
    have hx' := Seq.sendAllMetrics_elems (w := Item.size) maxSendSize listOk
      sendOk hx
    rw [Seq.sendAllMetrics_inFlight] at hx'
    exact List.mem_map_of_mem hx'

/-- The agent while it handles the response to a request. -/
def Life.without (s : Life) (i : Nat) : Life :=
  { s with agent :=
    { s.agent with inFlight := s.agent.inFlight.eraseIdx i } }

/-- The batch of a response, and what is left when it is taken. -/
theorem Lives.batch (hl : Lives A s kept q) {i : Nat}
    (hi : s.agent.inFlight[i]? = some l) :
    ∃ bs, A l = some bs ∧ q.inFlight[i]? = some (bs.map Cell.item)
      ∧ l ∉ (s.without i).whole.headers
      ∧ Lives A (s.without i) kept
        { q with inFlight := q.inFlight.eraseIdx i } := by
  have hwhole : s.whole.inFlight[(s.left.flatMap StoreRef.lists).length + i]?
      = some l := by
    show (s.left.flatMap StoreRef.lists ++ s.agent.inFlight)[_]? = some l
    rw [List.getElem?_append_right (Nat.le_add_right ..)]
    simpa using hi
  have herase : s.whole.inFlight.eraseIdx
      ((s.left.flatMap StoreRef.lists).length + i)
      = (s.without i).whole.inFlight := by
    show (s.left.flatMap StoreRef.lists ++ s.agent.inFlight).eraseIdx _
      = s.left.flatMap StoreRef.lists ++ s.agent.inFlight.eraseIdx i
    rw [List.eraseIdx_append_of_length_le (Nat.le_add_right ..)]
    simp
  have hkept : (kept ++ q.inFlight).eraseIdx
      ((s.left.flatMap StoreRef.lists).length + i)
      = kept ++ q.inFlight.eraseIdx i := by
    rw [hl.length, List.eraseIdx_append_of_length_le (Nat.le_add_right ..)]
    simp
  obtain ⟨bs, hbs, hq⟩ := hl.viewed.batch hwhole
  have hv := hl.viewed.eraseIdx ((s.left.flatMap StoreRef.lists).length + i)
  have hout := hl.viewed.not_mem_eraseIdx hwhole
  have hne := hl.viewed.inFlight_ne (List.mem_of_getElem? hwhole)
  rw [herase] at hv hout
  refine ⟨bs, hbs, ?_, ?_, ?_, hl.length⟩
  · have hq : (kept ++ q.inFlight)[(s.left.flatMap StoreRef.lists).length
      + i]? = some (bs.map Cell.item) := hq
    rw [hl.length, List.getElem?_append_right (Nat.le_add_right ..)] at hq
    simpa using hq
  · intro hin
    exact (List.mem_append.mp (show l ∈ [s.whole.metrics.current,
      s.whole.metrics.delta, s.whole.metrics.cache] ++ _ from hin)).elim hne hout
  · rw [hkept] at hv
    exact hv

/-- A response to a request in flight. -/
theorem respond_lives (hl : Lives A s kept q) (updateInterval : Int)
    (i result : Nat) (httpCode : Int) :
    LivesOn F (.respond updateInterval i result httpCode) s kept q
      (s.call F (.respond updateInterval i result httpCode)) := by
  cases hi : s.agent.inFlight[i]? with
  | none =>
      have hlen : s.agent.inFlight.length = q.inFlight.length := by
        have hall := congrArg List.length hl.viewed.inFlight
        simp only [Life.whole, List.length_map, List.length_append,
          hl.length] at hall
        omega
      have hq : q.metrics.inFlight[i]? = none := by
        rw [List.getElem?_eq_none_iff] at hi ⊢
        simpa [Seq.Agent.metrics, Seq.Agent.map, ← hlen] using hi
      refine ⟨s, A, kept, q, ?_, hl, ?_, fun _ => id⟩
      · simp [Life.call, hi, Seq.call, hq]
      · simp [Seq.call, hq]
  | some l =>
      obtain ⟨bs, hbs, hq, hnew, hl₁⟩ := hl.batch hi
      let q₁ : Seq.Agent Item := { q with inFlight := q.inFlight.eraseIdx i }
      let batch := bs.map Cell.item
      obtain ⟨w', hrun, ⟨A', hv'⟩, hrel, -⟩ := handleServerResponse_viewed
        updateInterval hl₁.viewed hbs hnew result httpCode
      unfold Life.whole at hrun
      rw [handleServerResponse_inFlight, Option.map_eq_some_iff] at hrun
      obtain ⟨a', hrun, rfl⟩ := hrun
      have hflight : a'.inFlight = (s.without i).agent.inFlight := by
        have hself := handleServerResponse_inFlight updateInterval
          (s.without i).agent (s.without i).agent.inFlight l result httpCode
        rw [hrun, Option.map_some] at hself
        exact (congrArg Agent.inFlight (Option.some.inj hself)).trans rfl
      have hsheds : Sheds s.agent.heap a'.heap :=
        handleServerResponse_sheds (a := (s.without i).agent) hrun
      -- the same response, without the lists that are kept
      have hseq := Seq.handleServerResponse_inFlight updateInterval q₁ batch
        (kept ++ q₁.inFlight) result httpCode
      have hqflight : (Seq.handleServerResponse updateInterval q₁ batch result
          httpCode).2.inFlight = q₁.inFlight :=
        congrArg (fun r : List Item × Seq.Agent Item => r.2.inFlight)
          (Seq.handleServerResponse_inFlight updateInterval q₁ batch
            q₁.inFlight result httpCode)
      have hmetrics : q.metrics.inFlight[i]? = some (batch.map Prod.snd) := by
        simp [Seq.Agent.metrics, Seq.Agent.map, hq, batch]
      have herase : ({ q.metrics with
          inFlight := q.metrics.inFlight.eraseIdx i } : Seq.Agent Metric)
          = q₁.map Prod.snd := by
        simp [Seq.Agent.metrics, Seq.Agent.map, List.eraseIdx_map, q₁]
      have hcall : Seq.call F (.respond updateInterval i result httpCode)
          q.metrics = (0, (Seq.handleServerResponse updateInterval q₁ batch
            result httpCode).2.map Prod.snd) := by
        simp only [Seq.call, hmetrics, herase]
        rw [Seq.handleServerResponse_map]
      rw [hseq] at hv' hrel
      refine ⟨{ s with agent := a' }, A', kept, (Seq.handleServerResponse
        updateInterval q₁ batch result httpCode).2, ?_, ⟨?_, hl.length⟩, ?_,
        fun _ hb => hb.of_sheds hsheds rfl hrel.freed fun p hp => ?_⟩
      · have hrun : Agent.handleServerResponse updateInterval
          { s.agent with inFlight := s.agent.inFlight.eraseIdx i } l result
          httpCode = some a' := hrun
        simp only [Life.call, hi, Option.bind_eq_bind, hrun, Option.bind_some,
          hcall]
        rfl
      · rw [hqflight]
        have hw : ({ s with agent := a' } : Life).whole
            = { a' with inFlight := s.left.flatMap StoreRef.lists
              ++ (s.without i).agent.inFlight } := by
          rw [← hflight]
          rfl
        rw [hw]
        exact hv'
      · rw [hcall]
        rfl
      · have hpos : (kept ++ q.inFlight)[kept.length + i]? = some batch := by
          rw [List.getElem?_append_right (Nat.le_add_right ..)]
          simpa using hq
        have herased : (kept ++ q.inFlight).eraseIdx (kept.length + i)
            = kept ++ q₁.inFlight := by
          rw [List.eraseIdx_append_of_length_le (Nat.le_add_right ..)]
          simp [q₁]
        obtain ⟨x, hx, rfl⟩ := List.mem_map.mp hp
        have hx' := Seq.handleServerResponse_elems updateInterval result
          httpCode hpos hx
        simp only [herased] at hx'
        rw [show ({ q with inFlight := kept ++ q₁.inFlight } : Seq.Agent Item)
          = { q₁ with inFlight := kept ++ q₁.inFlight } from rfl, hseq] at hx'
        rw [hqflight]
        exact hx'.imp (List.mem_map_of_mem ·) (List.mem_map_of_mem ·)

/-- A flush. -/
theorem flush_lives (hl : Lives A s kept q) :
    LivesOn F .flush s kept q (s.call F .flush) := by
  obtain ⟨h', A', hrun, hv', -, hrel, -⟩ :=
    flushAll_viewed hl.viewed hl.viewed.update
  have hrun : s.agent.heap.metricStoreFlushAll s.agent.metrics = some h' := hrun
  refine ⟨{ s with agent := { s.agent with heap := h' } }, A', kept,
    { q with store := Seq.metricStoreFlushAll q.store }, ?_,
    ⟨hv', hl.length⟩, rfl, fun _ hb => hb.of_sheds
      (metricStoreFlushAll_sheds hrun) rfl hrel.freed fun p hp => ?_⟩
  · simp only [Life.call, Option.bind_eq_bind, hrun, Option.bind_some]
    rfl
  · unfold Seq.Agent.elems at hp ⊢
    rw [List.map_append, List.mem_append] at hp ⊢
    exact hp.imp_right .inr

/-- A reload: the lists of the old store are kept from now on. -/
theorem reload_lives (hl : Lives A s kept q) (hal : AllocsOk s.agent.heap) :
    LivesOn F .reload s kept q (s.call F .reload) := by
  obtain ⟨st, h', A', hrun, hv', hq⟩ :=
    metricStoreNew_viewed hl.viewed hal rfl rfl hl.length
  have hrun : s.agent.heap.metricStoreNew = some (some st, h') := hrun
  have hleft : (s.left ++ [s.agent.metrics]).flatMap StoreRef.lists
      = s.left.flatMap StoreRef.lists ++ s.agent.metrics.lists := by
    rw [List.flatMap_append, List.flatMap_singleton]
  have hsheds : Sheds s.agent.heap h' := .still hq.metric hq.freed hq.brk
  have hfreed : h'.freed = s.agent.heap.freed ++ [] := by
    rw [List.append_nil]
    exact hq.freed
  refine ⟨{ s with
      agent := { s.agent with heap := h', metrics := st }
      left := s.left ++ [s.agent.metrics] }, A',
    kept ++ [q.store.current, q.store.delta, q.store.cache],
    { q with store := Seq.metricStoreNew }, ?_, ⟨?_, ?_⟩, rfl, fun _ hb =>
      hb.of_sheds hsheds rfl hfreed fun p hp => .inr ?_⟩
  · simp only [Life.call, malloc_ok hal, Option.bind_eq_bind, hrun,
      Option.bind_some]
    rfl
  · unfold Life.whole
    rw [hleft]
    exact hv'
  · rw [hleft, List.length_append, List.length_append, hl.length]
    rfl
  · obtain ⟨x, hx, rfl⟩ := List.mem_map.mp hp
    apply List.mem_map_of_mem
    rw [Seq.Agent.mem_elems] at hx ⊢
    simp only [List.flatten_append, List.flatten_cons, List.flatten_nil,
      List.mem_append, List.append_nil, Seq.metricStoreNew] at hx ⊢
    tauto

/-- One call, with its own allocations. -/
theorem step_lives (hl : Lives A s kept q) (c : Call) :
    LivesOn F c s kept q (s.step F c) := by
  let s₀ : Life := { s with agent := { s.agent with
    heap := { s.agent.heap with allocs := c.allocs } } }
  have hl₀ : Lives A s₀ kept q := ⟨hl.viewed.withAllocs c.allocs, hl.length⟩
  have hbooks : Books s kept q → Books s₀ kept q := fun hb =>
    ⟨(Sheds.allocs _ _).accounts.log hb.log, hb.tight, hb.handed⟩
  have hcall : LivesOn F c s₀ kept q (s₀.call F c) := by
    cases c with
    | push m => exact push_lives hl₀ rfl m
    | receive ms => exact receive_lives hl₀ rfl ms
    | evict pollInterval maxSize now =>
        exact evict_lives hl₀ pollInterval maxSize now
    | send maxSendSize listOk sendOk =>
        exact send_lives hl₀ maxSendSize listOk sendOk rfl
    | respond updateInterval i result httpCode =>
        exact respond_lives hl₀ updateInterval i result httpCode
    | flush => exact flush_lives hl₀
    | reload => exact reload_lives hl₀ rfl
  obtain ⟨s', A', kept', q', hrun, hl', hq', hb'⟩ := hcall
  exact ⟨s', A', kept', q', hrun, hl', hq', fun hc hb => hb' hc (hbooks hb)⟩

-- ============================================================ whole lives

/-- The agent on pointers lives as an agent on sequences of metrics does. -/
def Life.Shows (s : Life) (a : Seq.Agent Metric) : Prop :=
  ∃ A kept q, Lives A s kept q ∧ q.metrics = a

theorem life_simulates (F : FloatOps) :
    Simulates Life.Shows (Life.step F) (Seq.call F) := by
  intro c s a hs
  obtain ⟨A, kept, q, hl, rfl⟩ := hs
  obtain ⟨s', A', kept', q', hrun, hl', hq', -⟩ := step_lives (F := F) hl c
  exact ⟨s', hrun, A', kept', q', hl', hq'⟩

/-- The lists that are not kept are those of the agent. -/
theorem Lives.agent (hl : Lives A s kept q) : Viewed A s.agent q := by
  have hv := hl.viewed
  have hall : s.left.flatMap StoreRef.lists ++ s.agent.inFlight
      = s.whole.inFlight := rfl
  refine { hv with
    headers := hv.headers.sublist (((((List.sublist_append_right ..).cons_cons
      _).cons_cons _).cons_cons _))
    inFlight := ?_ }
  have hflight := hv.inFlight
  rw [← hall, List.map_append, List.map_append] at hflight
  exact (List.append_inj hflight (by simp [hl.length])).2

theorem Life.Shows.contents_eq {a : Seq.Agent Metric} (hs : s.Shows a) :
    s.contents = some a := by
  obtain ⟨A, kept, q, hl, rfl⟩ := hs
  rw [Life.contents, hl.agent.view_eq]
  rfl

/-- A fresh agent: nothing is held, nothing is kept, nothing was freed. -/
theorem start_lives (update : Update) :
    ∃ A q, Lives A (Life.start update) [] q
      ∧ Books (Life.start update) [] q
      ∧ q.metrics = Seq.Agent.start update := by
  obtain ⟨A, hv⟩ := (start_follows update).viewed
  refine ⟨A, ⟨Seq.metricStoreNew, [], update⟩, ⟨hv, rfl⟩,
    ⟨⟨List.nodup_nil, ?_, ?_⟩, ?_, ?_⟩, rfl⟩
  · exact fun p hp => absurd hp List.not_mem_nil
  · rintro p (hp | hp)
    · exact absurd rfl hp
    · exact absurd hp List.not_mem_nil
  · exact fun p hp => absurd rfl hp
  · exact fun p hp => absurd hp List.not_mem_nil

/-- The life of the agent, for any sequence of calls from its start, its
allocations (but for batch lists) succeeding: nothing faults, every call
returns what it returns on sequences, and the store and the batches in
flight hold what they hold there. -/
theorem life_refines (F : FloatOps) (update : Update) (calls : List Call) :
    ∃ s, Machine.run (Life.step F) calls (Life.start update)
        = some ((exec (Seq.call F) calls (Seq.Agent.start update)).1, s)
      ∧ s.contents
        = some (exec (Seq.call F) calls (Seq.Agent.start update)).2 := by
  obtain ⟨A, q, hl, -, hq⟩ := start_lives update
  obtain ⟨s, hrun, hs⟩ := (life_simulates F).run calls (Life.start update)
    (Seq.Agent.start update) ⟨A, [], q, hl, hq⟩
  exact ⟨s, hrun, hs.contents_eq⟩

-- ============================================================ the metrics

/-- The addresses read off the agent's lists. -/
theorem mapM_listRefs (hr : Rep h A) (ls : List Addr) :
    ∀ qs : List (List Item), ls.map (itemsOf A) = qs.map some →
      ls.mapM h.listRefs = some (qs.map (List.map Prod.fst)) := by
  induction ls with
  | nil =>
      intro qs hqs
      rw [List.map_eq_nil_iff.mp hqs.symm]
      rfl
  | cons l ls ih =>
      intro qs hqs
      cases qs with
      | nil => cases hqs
      | cons items qs =>
          simp only [List.map_cons, List.cons.injEq] at hqs
          obtain ⟨cs, hcs, rfl⟩ := itemsOf_some hqs.1
          simp only [List.mapM_cons, listRefs_eq hr hcs, ih qs hqs.2,
            List.map_cons, map_item_fst]
          rfl

/-- The addresses read off a store. -/
theorem storeRefs_eq (hr : Rep h A) {st : StoreRef} {current delta cache :
    List Item} (hcur : itemsOf A st.current = some current)
    (hdel : itemsOf A st.delta = some delta)
    (hcac : itemsOf A st.cache = some cache) :
    h.storeRefs st = some ((current ++ delta ++ cache).map Prod.fst) := by
  obtain ⟨cs, hcs, rfl⟩ := itemsOf_some hcur
  obtain ⟨ds, hds, rfl⟩ := itemsOf_some hdel
  obtain ⟨ks, hks, rfl⟩ := itemsOf_some hcac
  simp only [Heap.storeRefs, listRefs_eq hr hcs, listRefs_eq hr hds,
    listRefs_eq hr hks, List.map_append, map_item_fst]
  rfl

/-- The addresses read off the stores that were left. -/
theorem mapM_storeRefs (hr : Rep h A) (left : List StoreRef) :
    ∀ qs : List (List Item),
      (left.flatMap StoreRef.lists).map (itemsOf A) = qs.map some →
      ∃ refs, left.mapM h.storeRefs = some refs
        ∧ refs.flatten = qs.flatten.map Prod.fst := by
  induction left with
  | nil =>
      intro qs hqs
      rw [List.map_eq_nil_iff.mp hqs.symm]
      exact ⟨[], rfl, rfl⟩
  | cons st left ih =>
      intro qs hqs
      rw [List.flatMap_cons, List.map_append] at hqs
      obtain ⟨us, vs, rfl, hus, hvs⟩ := List.map_eq_append_iff.mp hqs.symm
      obtain ⟨current, delta, cache, rfl⟩ :=
        List.length_eq_three.mp (by
          have hlen := congrArg List.length hus
          simpa [StoreRef.lists] using hlen)
      simp only [StoreRef.lists, List.map_cons, List.map_nil,
        List.cons.injEq, and_true] at hus
      obtain ⟨refs, hrefs, hflat⟩ := ih vs hvs.symm
      have hst := storeRefs_eq hr hus.1.symm hus.2.1.symm hus.2.2.symm
      refine ⟨(current ++ delta ++ cache).map Prod.fst :: refs,
        by simp [hst, hrefs], ?_⟩
      simp only [List.flatten_cons, List.map_append, hflat,
        List.flatten_append, List.flatten_nil, List.append_nil,
        List.append_assoc]

/-- Different lists hold different metrics. -/
theorem flatten_nodup (hr : Rep h A) (ls : List Addr) :
    ∀ qs : List (List Item), ls.Nodup → ls.map (itemsOf A) = qs.map some →
      (qs.flatten.map Prod.fst).Nodup := by
  induction ls with
  | nil =>
      intro qs _ hqs
      rw [List.map_eq_nil_iff.mp hqs.symm]
      exact List.nodup_nil
  | cons l ls ih =>
      intro qs hnd hqs
      cases qs with
      | nil => cases hqs
      | cons items qs =>
          simp only [List.map_cons, List.cons.injEq] at hqs
          obtain ⟨cs, hcs, rfl⟩ := itemsOf_some hqs.1
          obtain ⟨hdr, -, hlist⟩ := hr.isList l cs hcs
          rw [List.flatten_cons, List.map_append, map_item_fst]
          apply List.Nodup.append hlist.ptr_nodup
            (ih qs (List.nodup_cons.mp hnd).2 hqs.2)
          intro p hp hp'
          obtain ⟨x, hx, rfl⟩ := List.mem_map.mp hp'
          obtain ⟨items', hi, hxi⟩ := List.mem_flatten.mp hx
          have hin : some items' ∈ ls.map (itemsOf A) := by
            rw [hqs.2]
            exact List.mem_map_of_mem hi
          obtain ⟨l', hl', hli⟩ := List.mem_map.mp hin
          obtain ⟨ds, hds, rfl⟩ := itemsOf_some hli
          obtain ⟨c, hc, hcp⟩ := List.mem_map.mp hp
          obtain ⟨d, hd, hdx⟩ := List.mem_map.mp hxi
          have hne : l ≠ l' := fun e => (List.nodup_cons.mp hnd).1 (e ▸ hl')
          apply (hr.sep l l' cs ds hcs hds hne c hc d hd).2
          rw [hcp, ← hdx]
          rfl

/-- What the nodes of the agent's lists point at. -/
theorem Lives.refs (hl : Lives A s kept q) :
    ∃ refs, s.refs = some refs ∧ refs.Nodup
      ∧ ∀ p, p ∈ refs ↔ p ∈ (Seq.Agent.elems
        { q with inFlight := kept ++ q.inFlight }).map Prod.fst := by
  have hv := hl.agent
  have hwhole := hl.viewed.inFlight
  rw [show s.whole.inFlight = s.left.flatMap StoreRef.lists
    ++ s.agent.inFlight from rfl, List.map_append, List.map_append] at hwhole
  obtain ⟨hkept, hflight⟩ := List.append_inj hwhole (by simp [hl.length])
  obtain ⟨left, hleft, hflat⟩ := mapM_storeRefs hv.rep s.left kept hkept
  have hstore := storeRefs_eq hv.rep hv.current hv.delta hv.cache
  -- the whole, as one sequence of lists
  have hall := flatten_nodup hl.viewed.rep s.whole.headers
    (q.store.current :: q.store.delta :: q.store.cache
      :: (kept ++ q.inFlight)) hl.viewed.headers (by
      simp only [Agent.headers, List.map_cons, hl.viewed.inFlight,
        hl.viewed.current, hl.viewed.delta, hl.viewed.cache])
  have hperm : ((Seq.metricStoreElems q.store).map Prod.fst
      ++ (q.inFlight.map (List.map Prod.fst)).flatten ++ left.flatten).Perm
      (((q.store.current :: q.store.delta :: q.store.cache
        :: (kept ++ q.inFlight)).flatten).map Prod.fst) := by
    rw [hflat, ← List.map_flatten, List.append_assoc]
    simp only [Seq.metricStoreElems, List.flatten_cons, List.flatten_append,
      List.map_append, List.append_assoc]
    exact ((List.perm_append_comm.append_left _).append_left _).append_left _
  refine ⟨_, ?_, hperm.nodup_iff.mpr hall, fun p => ?_⟩
  · unfold Life.refs
    rw [hstore, mapM_listRefs hv.rep _ _ hflight, hleft]
    rfl
  · rw [hperm.mem_iff]
    simp only [Seq.Agent.elems, Seq.metricStoreElems, List.flatten_cons,
      List.append_assoc]

/-- With the books in order, every metric is accounted for. -/
theorem Books.accounted (hb : Books s kept q) (hl : Lives A s kept q) :
    s.Accounted := by
  obtain ⟨refs, hrefs, hnd, hmem⟩ := hl.refs
  have hlive : ∀ p ∈ refs, s.agent.heap.metric p ≠ none := by
    intro p hp
    obtain ⟨l, -, cs, hcs, hin⟩ :=
      hl.viewed.mem_elems.mp ((hmem p).mp hp)
    obtain ⟨m, hm⟩ := hl.viewed.rep.listed_live ⟨l, cs, hcs, hin⟩
    have hm : s.agent.heap.metric p = some m := hm
    simp [hm]
  refine ⟨refs, hrefs, fun p hp => ?_, hlive⟩
  have hknown : Known s.agent.heap p := hp.elim (hb.handed p) id
  by_cases hin : p ∈ refs
  · refine .inl ⟨List.count_eq_one_of_mem hnd hin, ?_⟩
    rw [List.count_eq_zero]
    exact fun hfreed => hlive p hin (hb.log.dead p hfreed)
  · refine .inr ⟨List.count_eq_zero.mpr hin, ?_⟩
    apply List.count_eq_one_of_mem hb.log.nodup
    apply hknown.resolve_left
    intro hlv
    exact hin ((hmem p).mpr (hb.tight p hlv))

/-- Ownership over the life of the agent: in any sequence of calls from its
start in which the baseline a DELTA push finds is always a number of the
metric's type, every metric ever handed to the agent or made by it is at
any moment pointed at by one node of the store, of a batch in flight, or of
a store that a reload has left, or it was freed once. -/
theorem life_accounted (F : FloatOps) (update : Update) (calls : List Call)
    (hcalls : Meets (Seq.call F) (Call.Computes F) calls
      (Seq.Agent.start update)) :
    ∃ outs s, Machine.run (Life.step F) calls (Life.start update)
        = some (outs, s) ∧ s.Accounted := by
  have hrun : ∀ (calls : List Call) (A : Lists) (s : Life)
      (kept : List (List Item)) (q : Seq.Agent Item), Lives A s kept q →
      Books s kept q → Meets (Seq.call F) (Call.Computes F) calls q.metrics →
      ∃ outs s', Machine.run (Life.step F) calls s
        = some (outs, s') ∧ s'.Accounted := by
    intro calls
    induction calls with
    | nil => exact fun A s kept q hl hb _ => ⟨[], s, rfl, hb.accounted hl⟩
    | cons c calls ih =>
        intro A s kept q hl hb hcalls
        obtain ⟨s₁, A₁, kept₁, q₁, hstep, hl₁, hq₁, hb₁⟩ :=
          step_lives (F := F) hl c
        obtain ⟨outs, s₂, hrest, hacc⟩ := ih A₁ s₁ kept₁ q₁ hl₁
          (hb₁ hcalls.1 hb) (hq₁ ▸ hcalls.2)
        exact ⟨(Seq.call F c q.metrics).1 :: outs, s₂,
          by simp [Machine.run, hstep, hrest], hacc⟩
  obtain ⟨A, q, hl, hb, hq⟩ := start_lives update
  exact hrun calls A _ [] q hl hb (hq ▸ hcalls)

/-- A counter is pushed by a module and received from a client, a batch of
it is acknowledged, another one is in flight over a reload, and what comes
then is flushed. -/
theorem life_accounted_session :
    let m (v : UInt64) (t : Int64) : Metric :=
      ⟨CString.a, 0, ⟨t, 0⟩, .int v, metricDelta⟩
    ∃ outs s, Machine.run (Life.step hostFloat)
        [.push (m 1 10), .push (m 5 11), .send 8192 true true,
          .respond 60 0 curleOk 200, .receive [m 7 12, m 9 13],
          .send 8192 true true, .reload, .push (m 9 14),
          .respond 60 0 curleOk 500, .push (m 9 15), .send 8192 true false,
          .flush, .evict 10 0 ⟨60, 0⟩]
        (Life.start ⟨0, 0⟩) = some (outs, s)
      ∧ s.Accounted :=
  life_accounted hostFloat _ _ (by decide)

end Monikor
