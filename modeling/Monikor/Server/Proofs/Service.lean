/-
Each client is served once: over any run, those that were connected are
waiting, at most `MONIKOR_SRV_MAX_CLIENTS` of them, or their list has been
pushed or refused; and the agent is what the calls on it make of it, the
lists among them.

`Clients` is what the server is for: clients that wait, each under the
address of its handler, and the agent.
-/
import Monikor.Core.Proofs.LifeRuns
import Monikor.Server.Proofs.Ingest
import Monikor.Server.Proofs.Slots
import Monikor.Server.Service

namespace Monikor

open Bytes Linked Machine

variable {μ : Type}

-- ===================================================================== clients

/-- The agent, and the clients that wait. -/
structure Clients where
  agent : Seq.Agent Metric
  waiting : List (Addr × WireClient)

/-- The header of a client's list comes in the first read(2). -/
def WireClient.HeaderFirst (c : WireClient) : Prop :=
  serializedMetricListHdrSize ≤ c.chunk 0

instance (c : WireClient) : Decidable c.HeaderFirst :=
  inferInstanceAs (Decidable (_ ≤ _))

namespace Clients

variable (F : FloatOps)

/-- A client, if there is one and all it takes. -/
def connect (answers : ServiceAnswers) (t : Clients) :
    List ServiceDid × Clients :=
  match answers.accepted, answers.srv, answers.io with
  | some _, some _, some a =>
      if t.waiting.length < srvMaxClients then
        ([.connected answers.client],
          { t with waiting := t.waiting ++ [(a, answers.client)] })
      else ([], t)
  | _, _, _ => ([], t)

/-- The list of a client: the metrics have the `id`s that memory held. -/
def serve (ids : Nat → UInt16) (a : Addr) (c : WireClient) (t : Clients) :
    List ServiceDid × Clients :=
  let waiting := t.waiting.eraseP (·.1 = a)
  if c.HeaderFirst then
    let metrics := withIds ids c.metrics
    ([.pushed c metrics], ⟨(Seq.call F (.receive metrics) t.agent).2, waiting⟩)
  else ([.refused c], { t with waiting })

def step (op : ServiceOp μ) (t : Clients) : List ServiceDid × Clients :=
  match op with
  | .ready a answers =>
      match t.waiting.find? (·.1 = a) with
      | some (_, c) => t.serve F answers.ids a c
      | none => t.connect answers
  | .call c => ([.called c], { t with agent := (Seq.call F c t.agent).2 })
  | .elsewhere _ => ([], t)

end Clients

variable {F : FloatOps} {e : Endian} {s s' : Service μ} {t : Clients}
  {xs : List (Addr × IoHandler)} {a b : Addr} {i : Slot} {c : WireClient}
  {answers : ServiceAnswers} {h : ServerHandler}

/-- What the client sends is its list. -/
theorem WireClient.conn_pending (e : Endian) (c : WireClient) :
    (c.conn e).pending = listBytes c.metrics ∧ (c.conn e).chunk = c.chunk := by
  unfold WireClient.conn
  rw [metricListSerialize_spec e c.memory c.limits.memory]
  exact ⟨rfl, rfl⟩

theorem WireClient.headerFirst_iff (e : Endian) (c : WireClient) :
    (c.conn e).HeaderFirst ↔ c.HeaderFirst := by
  obtain ⟨hpending, hchunk⟩ := c.conn_pending e
  have hlen : serializedMetricListHdrSize ≤ (listBytes c.metrics).length := by
    rw [listBytes, List.length_append, listHeaderBytes_length]
    exact Nat.le_add_right ..
  unfold Conn.HeaderFirst WireClient.HeaderFirst
  rw [hpending, hchunk]
  exact and_iff_left hlen

/-- What becomes of the list of a client. -/
theorem WireClient.handled (F : FloatOps) (e : Endian) (ids : Nat → UInt16)
    (c : WireClient) (agent : Seq.Agent Metric) :
    handleClient (Service.receive F) e ids ((c.conn e).pending.length
        - serializedMetricListHdrSize + 1) okAllocs (c.conn e) (agent, [])
      = some (.ok (if c.HeaderFirst then
          (0, (Seq.call F (.receive (withIds ids c.metrics)) agent).2,
            withIds ids c.metrics)
        else (-1, agent, []))) := by
  obtain ⟨hpending, -⟩ := c.conn_pending e
  by_cases hfirst : c.HeaderFirst
  case pos =>
      obtain ⟨-, hbody, hdeclared⟩ :=
        Conn.listBytes_fields c.limits.memory hpending
      have hfuel : (c.conn e).pending.length - serializedMetricListHdrSize
          = (c.conn e).declared := by
        rw [hdeclared, Conn.body, List.length_drop]
      have hrun := handleClient_complete (Service.receive F) e ids okAllocs
        (agent, []) ((c.headerFirst_iff e).mpr hfirst) rfl
        (Nat.le_of_eq hdeclared)
      rw [hfuel, if_pos hfirst, hrun]
      show some (ingest _ _ _ _ _ okAllocs _) = _
      rw [ingest_listBytes _ _ _ _ c.limits hpending]
      rfl
  case neg =>
      rw [if_neg hfirst]
      exact handleClient_split _ _ _ _ _ _
        (mt (c.headerFirst_iff e).mp hfirst)

/-- The data of a message goes where it was allocated. -/
theorem clientMessage_block {fuel : Nat} {allocs : Allocs} {block : Addr}
    {conn : Conn} {message : ClientMessage}
    (h : clientMessage e fuel allocs block conn = some message) :
    ∀ d, message.block? = some d → d = block := by
  intro d hd
  unfold clientMessage at h
  rcases hread : conn.read serializedMetricListHdrSize with ⟨_ | buf, conn'⟩
  · simp only [hread] at h
    cases h
    cases hd
  simp only [hread] at h
  by_cases hlen : buf.length < serializedMetricListHdrSize
  · rw [if_pos hlen] at h
    cases h
    cases hd
  rw [if_neg hlen] at h
  cases hhdr : metricListHeaderUnserialize e buf with
  | error f =>
      simp only [hhdr] at h
      cases h
  | ok hdr =>
      simp only [hhdr] at h
      rcases hmalloc : allocs.malloc with ⟨_ | _, allocs'⟩
      · simp only [hmalloc] at h
        cases h
        cases hd
      simp only [hmalloc] at h
      rcases hloop : receiveLoop fuel conn' hdr.dataSize.toNat [] with
        _ | ⟨_ | data, conn''⟩
      · simp only [hloop] at h
        cases h
      · simp only [hloop] at h
        cases h
        exact (Option.some.inj hd).symm
      · simp only [hloop] at h
        by_cases hdata : data.length < hdr.dataSize.toNat
        · rw [if_pos hdata] at h
          cases h
          exact (Option.some.inj hd).symm
        · rw [if_neg hdata] at h
          cases h
          exact (Option.some.inj hd).symm

-- ====================================================================== waiting

/-- One address, one client. -/
theorem find_waiting {l : List (Addr × WireClient)}
    (hnd : (l.map Prod.fst).Nodup) (hin : (a, c) ∈ l) :
    l.find? (·.1 = a) = some (a, c) := by
  cases hfind : l.find? (·.1 = a) with
  | none =>
      have hno := List.find?_eq_none.mp hfind (a, c) hin
      simp at hno
  | some w =>
      have hw := List.mem_of_find?_eq_some hfind
      have haw : w.1 = a := by simpa using List.find?_some hfind
      exact congrArg some (List.inj_on_of_nodup_map hnd hw hin haw)

theorem leave_eq {l : List (Addr × WireClient)} (hnd : (l.map Prod.fst).Nodup) :
    l.eraseP (·.1 = a) = l.filter (·.1 ≠ a) := by
  induction l with
  | nil => rfl
  | cons w l ih =>
      rw [List.map_cons, List.nodup_cons] at hnd
      by_cases hw : w.1 = a
      · have hothers : l.filter (·.1 ≠ a) = l := by
          refine List.filter_eq_self.mpr fun u hu => ?_
          have hne : u.1 ≠ a := fun heq =>
            hnd.1 (hw ▸ heq ▸ List.mem_map_of_mem hu)
          simpa using hne
        rw [List.eraseP_cons_of_pos (by simpa using hw),
          List.filter_cons_of_neg (by simpa using hw), hothers]
      · rw [List.eraseP_cons_of_neg (by simpa using hw),
          List.filter_cons_of_pos (by simpa using hw), ih hnd.2]

-- ======================================================================== slots

section Slots

variable {srv : Server μ} {fd : Int} {poll : PollState μ}
  {x : Addr × IoHandler}

theorem clientSlot_accept (hs : SlotInv srv xs) (hb : srv.srvHandlers b = none)
    (hx : x ∈ xs) :
    clientSlot (srv.accept i fd b a poll) x = clientSlot srv x := by
  refine clientSlot_congr fun hcb => ?_
  obtain ⟨h, hh, -⟩ := hs.back x hx hcb
  refine Function.update_of_ne ?_ _ _
  rintro heq
  rw [heq, hb] at hh
  cases hh

theorem clientSlot_accepted :
    clientSlot (srv.accept i fd b a poll) (a, clientHandler fd b) = some i := by
  simp [clientSlot, clientHandler, Server.accept]

/-- The blocks of two handlers are two. -/
theorem data_ne (hs : SlotInv srv xs) (hh : srv.srvHandlers b = some h)
    (hx : x ∈ xs) (hne : x.1 ≠ h.handler)
    (hcb : x.2.callback = some serverHandleAnyAddr) : x.2.data ≠ b := by
  rintro rfl
  obtain ⟨h', hh', hback⟩ := hs.back x hx hcb
  obtain rfl := Option.some.inj (hh.symm.trans hh')
  exact hne hback.symm

theorem clientSlot_leave (hs : SlotInv srv xs)
    (hh : srv.srvHandlers b = some h) (hx : x ∈ xs) (hne : x.1 ≠ h.handler) :
    clientSlot (srv.leave i b poll) x = clientSlot srv x :=
  clientSlot_congr fun hcb =>
    Function.update_of_ne (data_ne hs hh hx hne hcb) _ _

end Slots

-- ======================================================================== steps

/-- The server serves the clients that wait. -/
structure Serves (s : Service μ) (t : Clients) (xs : List (Addr × IoHandler)) :
    Prop where
  slots : SlotInv s.server xs
  agent : s.agent = t.agent
  known : ∀ x ∈ xs, ∀ i, clientSlot s.server x = some i →
    ∃ c, (x.1, c) ∈ t.waiting ∧ s.clients x.2.data = some c
  listed : ∀ w ∈ t.waiting, ∃ v i, (w.1, v) ∈ xs
    ∧ clientSlot s.server (w.1, v) = some i
  once : (t.waiting.map Prod.fst).Nodup
  count : s.server.nClients.toNat = t.waiting.length

/-- A client connects, or nothing happens. -/
theorem Serves.connect (hs : Serves s t xs)
    (hallow : s.server.Allows (.handleConnection answers.accepted answers.srv
      answers.io)) :
    ∃ s' xs', s.connect answers = some ((t.connect answers).1, s')
      ∧ Serves s' (t.connect answers).2 xs' := by
  rcases serverHandleConnection_cases hs.slots hallow with hcall
    | ⟨fd, b, a, i, poll, hacc, hsrv, hio, hn, hi, -, hpoll, hcall⟩
  case inl =>
      have hnot : t.connect answers = ([], t) := by
        unfold Clients.connect
        split
        case h_1 fd b a hacc hsrv hio =>
            rw [if_neg]
            intro hlt
            rw [← hs.count] at hlt
            obtain ⟨hfd, -, ha⟩ := hallow
            obtain ⟨hpos, hnew⟩ := hfd fd hacc
            obtain ⟨i, poll, -, -, -, hcall'⟩ := serverHandleConnection_accepts
              (b := b) hs.slots hlt hpos hnew (ha a hio)
            rw [hacc, hsrv, hio, hcall'] at hcall
            have hcode : (0 : Int) = -1 :=
              congrArg Prod.fst (Option.some.inj hcall)
            exact absurd hcode (by decide)
        case h_2 => rfl
      rw [hnot]
      refine ⟨s, xs, ?_, hs⟩
      simp only [Service.connect, Option.bind_eq_bind, hcall, Option.bind_some]
      cases answers.srv <;> rfl
  case inr =>
      obtain ⟨hfd, hb, ha⟩ := hallow
      have hb := hb b hsrv
      have ha := ha a hio
      have hyes : t.connect answers = ([.connected answers.client],
          { t with waiting := t.waiting ++ [(a, answers.client)] }) := by
        unfold Clients.connect
        rw [hacc, hsrv, hio]
        exact if_pos (hs.count ▸ hn)
      rw [hyes]
      refine ⟨⟨s.server.accept i fd b a poll,
        Function.update s.clients b (some answers.client), s.agent⟩,
        xs ++ [(a, clientHandler fd b)], ?_, ?_⟩
      · rw [hsrv] at hcall
        simp only [Service.connect, Option.bind_eq_bind, hsrv, hcall,
          Option.bind_some]
        rfl
      have hfresh : ∀ w ∈ t.waiting, w.1 ≠ a := by
        rintro w hw rfl
        obtain ⟨v, i, hv, -⟩ := hs.listed w hw
        obtain ⟨n, hn, -⟩ := hs.slots.holds.list.forward.mem hv
        rw [ha] at hn
        cases hn
      constructor
      · exact hs.slots.accept hn (hfd fd hacc).1 hb hi hpoll
      · exact hs.agent
      · intro x hx j hj
        rcases List.mem_append.mp hx with hx | hx
        · rw [clientSlot_accept hs.slots hb hx] at hj
          obtain ⟨c, hc, hdata⟩ := hs.known x hx j hj
          have hne : x.2.data ≠ b := by
            intro heq
            obtain ⟨h, hh, -⟩ :=
              hs.slots.back x hx (callback_of_clientSlot hj)
            rw [heq, hb] at hh
            cases hh
          exact ⟨c, List.mem_append_left _ hc,
            (Function.update_of_ne hne _ _).trans hdata⟩
        · obtain rfl := List.mem_singleton.mp hx
          exact ⟨answers.client,
            List.mem_append_right _ (List.mem_singleton_self _),
            Function.update_self ..⟩
      · intro w hw
        rcases List.mem_append.mp hw with hw | hw
        · obtain ⟨v, j, hv, hj⟩ := hs.listed w hw
          exact ⟨v, j, List.mem_append_left _ hv,
            (clientSlot_accept hs.slots hb hv).trans hj⟩
        · obtain rfl := List.mem_singleton.mp hw
          exact ⟨_, i, List.mem_append_right _ (List.mem_singleton_self _),
            clientSlot_accepted⟩
      · rw [List.map_append, List.map_singleton]
        refine List.Nodup.append hs.once (List.nodup_singleton _) ?_
        intro k hk hk'
        obtain ⟨w, hw, rfl⟩ := List.mem_map.mp hk
        exact hfresh w hw (List.mem_singleton.mp hk')
      · rw [List.length_append, List.length_singleton, ← hs.count]
        show (s.server.nClients + 1).toNat = _
        rw [UInt64.toNat_add]
        have hone : (1 : UInt64).toNat = 1 := rfl
        unfold srvMaxClients at hn
        omega

/-- A client is served, and leaves. -/
theorem Serves.serve (hs : Serves s t xs) {n : DNode Addr IoHandler}
    (hn : s.server.poll.list.handlers.node a = some n)
    (hcb : n.val.callback = some serverHandleAnyAddr)
    (hh : s.server.srvHandlers n.val.data = some h) (hi : h.client = some i)
    (hblock : s.server.blocks answers.block = false) :
    ∃ c s' xs', (a, c) ∈ t.waiting
      ∧ s.serve F e n.val.data answers
        = some ((t.serve F answers.ids a c).1, s')
      ∧ Serves s' (t.serve F answers.ids a c).2 xs' := by
  obtain ⟨ys, zs, hsplit⟩ := hs.slots.holds.split hn
  have hin : (a, n.val) ∈ xs := by simp [hsplit]
  have hslot : clientSlot s.server (a, n.val) = some i := by
    simp [clientSlot, hcb, hh, hi]
  have hback : h.handler = a := by
    obtain ⟨h', hh', hback⟩ := hs.slots.back _ hin hcb
    rwa [Option.some.inj (hh.symm.trans hh')]
  obtain ⟨c, hc, hclient⟩ : ∃ c, (a, c) ∈ t.waiting
      ∧ s.clients n.val.data = some c := hs.known _ hin i hslot
  obtain ⟨message, hmessage, -⟩ :=
    handleClient_message answers.block (c.handled F e answers.ids s.agent)
  have hallow : s.server.Allows (.handleClient n.val.data message) := by
    refine ⟨⟨h, hh, by simp [hi]⟩, fun d hd => ?_⟩
    rw [clientMessage_block hmessage d hd]
    exact hblock
  obtain ⟨h₁, i₁, poll, hh₁, hi₁, -, -, hpoll, hleave⟩ :=
    serverHandleClient_releases hs.slots hallow
  obtain rfl : h = h₁ := Option.some.inj (hh.symm.trans hh₁)
  obtain rfl : i = i₁ := Option.some.inj (hi.symm.trans hi₁)
  rw [hback] at hpoll
  have hslots := hs.slots.leave hh hi (by rwa [hback])
  rw [hback] at hslots
  have hmem : ∀ x, x ∈ xs.filter (·.1 ≠ a) ↔ x ∈ xs ∧ x.1 ≠ a := by
    simp [List.mem_filter]
  have hserves : ∀ agent agent', agent = agent' → Serves
      ⟨s.server.leave i n.val.data poll,
        Function.update s.clients n.val.data none, agent⟩
      ⟨agent', t.waiting.eraseP (·.1 = a)⟩ (xs.filter (·.1 ≠ a)) := by
    intro agent agent' hagent
    rw [leave_eq hs.once]
    constructor
    · exact hslots
    · exact hagent
    · intro x hx j hj
      obtain ⟨hx, hne⟩ := (hmem x).mp hx
      have hne' : x.1 ≠ h.handler := by rwa [hback]
      rw [clientSlot_leave hs.slots hh hx hne'] at hj
      obtain ⟨c', hc', hdata⟩ := hs.known x hx j hj
      have hother := data_ne hs.slots hh hx hne' (callback_of_clientSlot hj)
      exact ⟨c', List.mem_filter.mpr ⟨hc', by simpa using hne⟩,
        (Function.update_of_ne hother _ _).trans hdata⟩
    · intro w hw
      obtain ⟨hw, hne⟩ := List.mem_filter.mp hw
      have hne : w.1 ≠ a := by simpa using hne
      obtain ⟨v, j, hv, hj⟩ := hs.listed w hw
      exact ⟨v, j, (hmem _).mpr ⟨hv, hne⟩,
        (clientSlot_leave hs.slots hh hv (by rwa [hback])).trans hj⟩
    · exact hs.once.sublist (List.Sublist.map _ List.filter_sublist)
    · have hlen := List.length_eraseP_of_mem hc
        (p := fun w => decide (w.1 = a)) (by simp)
      have hpos := List.length_pos_of_mem hc
      rw [leave_eq hs.once] at hlen
      show (s.server.nClients - 1).toNat = _
      rw [UInt64.toNat_sub_of_le, hs.count]
      · exact hlen.symm
      · rw [UInt64.le_iff_toNat_le, hs.count]
        show 1 ≤ _
        omega
  have hrun := c.handled F e answers.ids s.agent
  refine ⟨c, ?_⟩
  by_cases hfirst : c.HeaderFirst
  case pos =>
      have hagent : (Seq.call F (.receive (withIds answers.ids c.metrics))
          s.agent).2
            = (Seq.call F (.receive (withIds answers.ids c.metrics))
              t.agent).2 := by rw [hs.agent]
      rw [if_pos hfirst] at hrun
      refine ⟨_, _, hc, ?_, by
        rw [Clients.serve, if_pos hfirst]
        exact hserves _ _ hagent⟩
      unfold okAllocs at hrun hmessage
      simp only [Service.serve, Option.bind_eq_bind, hclient, Option.bind_some,
        hmessage, hleave, hrun, Clients.serve, if_pos hfirst]
      rfl
  case neg =>
      rw [if_neg hfirst] at hrun
      refine ⟨_, _, hc, ?_, by
        rw [Clients.serve, if_neg hfirst]
        exact hserves _ _ hs.agent⟩
      unfold okAllocs at hrun hmessage
      simp only [Service.serve, Option.bind_eq_bind, hclient, Option.bind_some,
        hmessage, hleave, hrun, Clients.serve, if_neg hfirst]
      rfl

/-- One step. -/
theorem service_serves (op : ServiceOp μ) (s : Service μ) (t : Clients)
    (h : ∃ xs, Serves s t xs) (hop : s.Legal op) :
    ∃ s', s.step F e op = some ((t.step F op).1, s')
      ∧ ∃ xs, Serves s' (t.step F op).2 xs := by
  obtain ⟨xs, hs⟩ := h
  cases op with
  | ready a answers =>
      obtain ⟨⟨n, hn, hcb⟩, hallow, hblock⟩ := hop
      obtain ⟨ys, zs, hsplit⟩ := hs.slots.holds.split hn
      have hin : (a, n.val) ∈ xs := by simp [hsplit]
      obtain ⟨h, hh, -⟩ := hs.slots.back _ hin hcb
      cases hi : h.client with
      | some i =>
          obtain ⟨c, s', xs', hc, hrun, hs'⟩ :=
            hs.serve (F := F) (e := e) hn hcb hh hi hblock
          have hserve : t.step F (.ready a answers : ServiceOp μ)
              = t.serve F answers.ids a c := by
            simp only [Clients.step, find_waiting hs.once hc]
          rw [hserve]
          refine ⟨s', ?_, xs', hs'⟩
          simp only [Service.step, Service.handleAny, Option.bind_eq_bind, hn,
            Option.bind_some, hh, hi, hrun]
      | none =>
          have hnone : t.waiting.find? (·.1 = a) = none := by
            rw [List.find?_eq_none]
            intro w hw heq
            obtain rfl : w.1 = a := by simpa using heq
            obtain ⟨v, i, hv, hslot⟩ := hs.listed w hw
            obtain ⟨-, rfl⟩ := Prod.mk.inj
              (hs.slots.holds.eq_of_addr hv hin rfl)
            have hclient : clientSlot s.server (w.1, n.val) = none := by
              simp [clientSlot, hcb, hh, hi]
            rw [hclient] at hslot
            cases hslot
          have hconnect : t.step F (.ready a answers : ServiceOp μ)
              = t.connect answers := by
            simp only [Clients.step, hnone]
          obtain ⟨s', xs', hrun, hs'⟩ := hs.connect hallow
          rw [hconnect]
          refine ⟨s', ?_, xs', hs'⟩
          simp only [Service.step, Service.handleAny, Option.bind_eq_bind, hn,
            Option.bind_some, hh, hi, hrun]
  | call c =>
      refine ⟨_, rfl, xs, hs.slots, ?_, hs.known, hs.listed, hs.once, hs.count⟩
      show (Seq.call F c s.agent).2 = (Seq.call F c t.agent).2
      rw [hs.agent]
  | elsewhere act =>
      obtain ⟨poll, hrun, hslots⟩ := hs.slots.elsewhere hop.1 hop.2
      have hmem := fun x => hop.2.mem (x := x) hs.slots.holds
      refine ⟨{ s with server := { s.server with poll } }, ?_, _, hslots,
        hs.agent, ?_, ?_, hs.once, hs.count⟩
      · simp only [Service.step, Server.step, hrun]
        rfl
      · intro x hx i hi
        exact hs.known x ((hmem x (callback_of_clientSlot hi)).mp hx) i hi
      · intro w hw
        obtain ⟨v, i, hv, hi⟩ := hs.listed w hw
        exact ⟨v, i, (hmem _ (callback_of_clientSlot hi)).mpr hv, hi⟩

-- ======================================================================== books

variable {log rest : List ServiceDid}

/-- What a log leaves: of the clients that were waiting or have been connected
since, those that are not done with wait, and the calls of the log have made
the agent what it is. -/
structure Tended (F : FloatOps) (t : Clients) (log : List ServiceDid)
    (t' : Clients) : Prop where
  clients : (t.waiting.map Prod.snd ++ connectedOf log).Perm
    (doneOf log ++ t'.waiting.map Prod.snd)
  agent : t'.agent = (exec (Seq.call F) (agentCallsOf log) t.agent).2

theorem Tended.refl (F : FloatOps) (t : Clients) : Tended F t [] t := by
  refine ⟨?_, rfl⟩
  show (t.waiting.map Prod.snd ++ []).Perm _
  rw [List.append_nil]
  exact .refl _

theorem Tended.trans {t₁ t₂ : Clients} (h : Tended F t log t₁)
    (h' : Tended F t₁ rest t₂) : Tended F t (log ++ rest) t₂ := by
  constructor
  · unfold connectedOf doneOf
    rw [List.filterMap_append, List.filterMap_append, ← List.append_assoc,
      List.append_assoc (List.filterMap _ log)]
    refine (h.clients.append_right _).trans ?_
    rw [List.append_assoc]
    exact h'.clients.append_left _
  · unfold agentCallsOf
    rw [List.filterMap_append, exec_append_snd, h'.agent, h.agent]
    rfl

theorem connect_tended (answers : ServiceAnswers) (t : Clients) :
    Tended F t (t.connect answers).1 (t.connect answers).2 := by
  unfold Clients.connect
  split
  case h_1 a _ _ _ =>
      split
      case isTrue =>
          refine ⟨?_, rfl⟩
          show (t.waiting.map Prod.snd ++ [answers.client]).Perm
            ((t.waiting ++ [(a, answers.client)]).map Prod.snd)
          rw [List.map_append]
          exact .refl _
      case isFalse => exact .refl F t
  case h_2 => exact .refl F t

theorem serve_tended (ids : Nat → UInt16)
    (hfirst : t.waiting.find? (·.1 = a) = some (a, c)) :
    Tended F t (t.serve F ids a c).1 (t.serve F ids a c).2 := by
  have hleave : (t.waiting.map Prod.snd).Perm
      (c :: (t.waiting.eraseP (·.1 = a)).map Prod.snd) := by
    obtain ⟨-, ys, zs, hsplit, hys⟩ := List.find?_eq_some_iff_append.mp hfirst
    have herase : t.waiting.eraseP (·.1 = a) = ys ++ zs := by
      rw [hsplit,
        List.eraseP_append_right _ (fun w hw => by simpa using hys w hw),
        List.eraseP_cons_of_pos (by simp)]
    rw [herase, hsplit, List.map_append, List.map_append, List.map_cons]
    exact List.perm_middle
  unfold Clients.serve
  split
  case isTrue =>
      refine ⟨?_, rfl⟩
      show (t.waiting.map Prod.snd ++ []).Perm _
      rwa [List.append_nil]
  case isFalse =>
      refine ⟨?_, rfl⟩
      show (t.waiting.map Prod.snd ++ []).Perm _
      rwa [List.append_nil]

theorem clients_tended (op : ServiceOp μ) (t : Clients) :
    Tended F t (t.step F op).1 (t.step F op).2 := by
  cases op with
  | ready a answers =>
      simp only [Clients.step]
      split
      case h_1 w c hfind =>
          have hw : w = a := by simpa using List.find?_some hfind
          subst hw
          exact serve_tended _ hfind
      case h_2 => exact connect_tended answers t
  | call c =>
      refine ⟨?_, rfl⟩
      show (t.waiting.map Prod.snd ++ []).Perm _
      rw [List.append_nil]
      exact .refl _
  | elsewhere act => exact .refl F t

theorem clientsRun_tended (ops : List (ServiceOp μ)) :
    ∀ t, Tended F t (exec (Clients.step F) ops t).1.flatten
      (exec (Clients.step F) ops t).2 := by
  induction ops with
  | nil => exact fun t => .refl F t
  | cons op ops ih => exact fun t => (clients_tended op t).trans (ih _)

-- ========================================================================= runs

/-- A server that has been started serves nobody. -/
theorem start_serves {multi : μ} {opened : List Int} {socket : Option Int}
    {bound : Bool} {srv io : Option Addr} {server : Server μ}
    (agent : Seq.Agent Metric)
    (hfd : ∀ fd, socket = some fd → 0 ≤ fd ∧ fd ∉ opened)
    (hinit : serverInit ⟨ioHandlerListInit multi, opened⟩ socket bound srv io
      = some (0, server)) :
    ∃ xs, Serves ⟨server, fun _ => none, agent⟩ ⟨agent, []⟩ xs := by
  obtain ⟨xs, hslots⟩ := SlotInv.start hfd hinit
  obtain ⟨fd, b, a, poll, -, -, hserver⟩ := serverInit_ok hinit
  refine ⟨xs, hslots, rfl, ?_, ?_, List.nodup_nil, ?_⟩
  · intro x hx i hi
    obtain ⟨-, hactive⟩ := hslots.socket x hx i hi
    rw [hserver] at hactive
    exact absurd rfl hactive
  · exact fun w hw => absurd hw List.not_mem_nil
  · rw [hserver]
    rfl

/-- Clients: whoever connects, in whatever order the sockets are ready, and
whatever else is done to the agent and to its handlers, the server never reads
or frees what is gone, and each client that was connected is waiting, or is
done with, once: its list was pushed, or its header came in pieces and it was
refused. The agent in memory, called so, holds what the agent holds. -/
theorem clients_served (F : FloatOps) (e : Endian) (update : Update) (multi : μ)
    (opened : List Int) (socket : Option Int) (bound : Bool)
    (srv io : Option Addr) (server : Server μ) (ops : List (ServiceOp μ))
    (hfd : ∀ fd, socket = some fd → 0 ≤ fd ∧ fd ∉ opened)
    (hinit : serverInit ⟨ioHandlerListInit multi, opened⟩ socket bound srv io
      = some (0, server))
    (hops : Guarded (Service.step F e) Service.Legal ops
      ⟨server, fun _ => none, Seq.Agent.start update⟩) :
    let r := exec (Clients.step F) ops ⟨Seq.Agent.start update, []⟩
    ∃ s, Machine.run (Service.step F e) ops
        ⟨server, fun _ => none, Seq.Agent.start update⟩ = some (r.1, s)
      ∧ (connectedOf r.1.flatten).Perm
        (doneOf r.1.flatten ++ r.2.waiting.map Prod.snd)
      ∧ s.server.nClients.toNat = r.2.waiting.length
      ∧ r.2.waiting.length ≤ srvMaxClients
      ∧ ∃ rcs life, Machine.run (Life.step F) (agentCallsOf r.1.flatten)
          (Life.start update) = some (rcs, life)
        ∧ life.contents = some s.agent := by
  intro r
  obtain ⟨s, hrun, xs, hs⟩ := Guarded.simulates
    (R := fun s t => ∃ xs, Serves s t xs) service_serves ops _ _
    (start_serves (Seq.Agent.start update) hfd hinit) hops
  have hbooks : Tended F ⟨Seq.Agent.start update, []⟩ r.1.flatten r.2 :=
    clientsRun_tended ops _
  have hbound := hs.slots.bound
  rw [hs.count] at hbound
  obtain ⟨A, q, hl, -, hq⟩ := start_lives update
  obtain ⟨life, hlife, hshows⟩ := (life_simulates F).run
    (agentCallsOf r.1.flatten) (Life.start update) (Seq.Agent.start update)
    ⟨A, [], q, hl, hq⟩
  have hagent : s.agent = (exec (Seq.call F) (agentCallsOf r.1.flatten)
      (Seq.Agent.start update)).2 := hs.agent.trans hbooks.agent
  refine ⟨s, hrun, hbooks.clients, hs.count, hbound, _, life, hlife, ?_⟩
  rw [hagent]
  exact hshows.contents_eq

/-- A client connects, a second one finds no memory for its handler, a module
pushes a metric, and the first one's list is received. -/
theorem clients_served_one :
    let m : Metric := ⟨CString.a, 0, ⟨1, 2⟩, .int 5, 0⟩
    let c : WireClient := ⟨[m], ⟨by decide, by decide, by
      unfold InMemory
      decide⟩, fun _ => 7, .eof, fun _ => 48⟩
    let answers (fd : Int) (b : Addr) (a : Option Addr) : ServiceAnswers :=
      ⟨some fd, some b, a, c, fun _ => 0, 9⟩
    let ops : List (ServiceOp Unit) := [.ready 1 (answers 5 2 (some 2)),
      .ready 1 (answers 6 3 none), .call (.push m), .ready 2 (answers 6 3 none)]
    ∃ server, serverInit ⟨ioHandlerListInit (), []⟩ (some 3) true (some 1)
        (some 1) = some (0, server)
      ∧ let r := exec (Clients.step hostFloat) ops ⟨Seq.Agent.start ⟨0, 0⟩, []⟩
        ∃ s, Machine.run (Service.step hostFloat .little) ops
            ⟨server, fun _ => none, Seq.Agent.start ⟨0, 0⟩⟩ = some (r.1, s)
          ∧ (connectedOf r.1.flatten).Perm
            (doneOf r.1.flatten ++ r.2.waiting.map Prod.snd)
          ∧ s.server.nClients.toNat = r.2.waiting.length
          ∧ r.2.waiting.length ≤ srvMaxClients
          ∧ ∃ rcs life, Machine.run (Life.step hostFloat)
              (agentCallsOf r.1.flatten) (Life.start ⟨0, 0⟩)
                = some (rcs, life)
            ∧ life.contents = some s.agent := by
  intro m c answers ops
  let server : Server Unit := ((serverInit ⟨ioHandlerListInit (), []⟩ (some 3)
    true (some 1) (some 1)).get rfl).2
  have hops : Guarded (Service.step hostFloat .little) Service.Legal ops
      ⟨server, fun _ => none, Seq.Agent.start ⟨0, 0⟩⟩ := by
    have hanswers : ∀ {s : Server Unit} {fd : Int} {b : Addr} {a : Option Addr},
        (0 ≤ fd ∧ fd ∉ s.poll.opened) → s.srvHandlers b = none →
        (∀ x, a = some x → s.poll.list.handlers.node x = none) →
        s.Allows (.handleConnection (some fd) (some b) a) :=
      fun hfd hb ha => ⟨fun _ h => Option.some.inj h ▸ hfd,
        fun _ h => Option.some.inj h ▸ hb, ha⟩
    refine ⟨⟨⟨_, rfl, rfl⟩, hanswers (by decide) rfl ?_, rfl⟩, fun o s₁ h₁ => ?_⟩
    · rintro x ⟨⟩
      rfl
    obtain ⟨-, rfl⟩ := Prod.mk.inj (Option.some.inj h₁)
    refine ⟨⟨⟨_, rfl, rfl⟩, hanswers (by decide) rfl nofun, rfl⟩,
      fun o s₂ h₂ => ?_⟩
    obtain ⟨-, rfl⟩ := Prod.mk.inj (Option.some.inj h₂)
    refine ⟨trivial, fun o s₃ h₃ => ?_⟩
    obtain ⟨-, rfl⟩ := Prod.mk.inj (Option.some.inj h₃)
    exact ⟨⟨⟨_, rfl, rfl⟩, hanswers (by decide) rfl nofun, rfl⟩,
      fun o s₄ h₄ => trivial⟩
  exact ⟨server, rfl, clients_served hostFloat .little ⟨0, 0⟩ () [] (some 3) true
    (some 1) (some 1) server ops (by simp) rfl hops⟩

end Monikor
