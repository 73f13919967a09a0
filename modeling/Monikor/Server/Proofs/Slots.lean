/-
The client slots, the count of clients, the handlers' blocks and the list
of I/O handlers say the same at all times.

`SlotInv` is what they say between two calls, over the plain list of the
handlers. To the list, a connection that succeeds is a `register`, and a
client handled, however its message ends, a `release`
(`serverHandleConnection_accepts`, `serverHandleClient_releases`); a
connection that fails leaves everything as it was. That a slot has one
handler only is not kept by the code but by the system: two handlers have
two descriptors (`FdApart`).
-/
import Mathlib.Data.Fintype.Card
import Mathlib.Data.Set.Function
import Monikor.IoHandler.Proofs.Poll
import Monikor.Server.Slots

namespace Monikor

open Bytes Linked

variable {μ : Type} {s s' : Server μ} {xs ys zs : List (Addr × IoHandler)}
  {x : Addr × IoHandler} {a b : Addr} {v : IoHandler} {h : ServerHandler}
  {i : Slot} {act : HandlerAct μ}

-- ============================================================== statement

/-- The slot of a handler, if it is a client's. -/
def clientSlot (s : Server μ) (x : Addr × IoHandler) : Option Slot :=
  if x.2.callback = some serverHandleAnyAddr then
    (s.srvHandlers x.2.data).bind ServerHandler.client
  else none

/-- A slot with a client in it. -/
def Server.Active (s : Server μ) (i : Slot) : Prop :=
  (s.clients i).socket ≠ clientInactiveSocket

instance (s : Server μ) (i : Slot) : Decidable (s.Active i) :=
  inferInstanceAs (Decidable (_ ≠ _))

/-- The slots and the handlers agree: the registered client handlers and
the active slots are one to one, a handler's descriptor is its slot's
socket, and the count is their number. -/
structure Server.SlotsAgree (s : Server μ) (xs : List (Addr × IoHandler)) :
    Prop where
  list : IsDlist s.poll.list.handlers xs
  bijection : Set.BijOn (clientSlot s) {x | x ∈ xs ∧ clientSlot s x ≠ none}
    (some '' {i | s.Active i})
  socket : ∀ x ∈ xs, ∀ i, clientSlot s x = some i →
    x.2.fd = (s.clients i).socket
  /-- The block of a handler of the server's is live, and points back. -/
  back : ∀ x ∈ xs, x.2.callback = some serverHandleAnyAddr →
    ∃ h, s.srvHandlers x.2.data = some h ∧ h.handler = x.1
  count : s.nClients.toNat = (xs.filterMap (clientSlot s)).length
  bound : s.nClients.toNat ≤ srvMaxClients
  idle : ∀ i, ¬ s.Active i → s.clients i = clientInit

/-- A handler has the slot it had as long as its block is what it was. -/
theorem clientSlot_congr (h : x.2.callback = some serverHandleAnyAddr →
    s'.srvHandlers x.2.data = s.srvHandlers x.2.data) :
    clientSlot s' x = clientSlot s x := by
  unfold clientSlot
  by_cases hcb : x.2.callback = some serverHandleAnyAddr
  · rw [if_pos hcb, if_pos hcb, h hcb]
  · rw [if_neg hcb, if_neg hcb]

/-- A handler with a slot is one of the server's. -/
theorem callback_of_clientSlot (h : clientSlot s x = some i) :
    x.2.callback = some serverHandleAnyAddr := by
  unfold clientSlot at h
  by_contra hcb
  rw [if_neg hcb] at h
  cases h

-- =============================================================== invariant

/-- What holds between two calls. -/
structure SlotInv (s : Server μ) (xs : List (Addr × IoHandler)) : Prop where
  holds : s.poll.Holds xs
  /-- A handler's block is live, and points back. -/
  back : ∀ x ∈ xs, x.2.callback = some serverHandleAnyAddr →
    ∃ h, s.srvHandlers x.2.data = some h ∧ h.handler = x.1
  /-- A live block is a registered handler's. -/
  owned : ∀ b h, s.srvHandlers b = some h →
    ∃ v, (h.handler, v) ∈ xs ∧ v.callback = some serverHandleAnyAddr
      ∧ v.data = b
  socket : ∀ x ∈ xs, ∀ i, clientSlot s x = some i →
    x.2.fd = (s.clients i).socket ∧ s.Active i
  slot : ∀ i, s.Active i → ∃ x ∈ xs, clientSlot s x = some i
  /-- No message is being received. -/
  empty : ∀ i, (s.clients i).header = ⟨0, 0, 0⟩ ∧ (s.clients i).data = none
  count : s.nClients.toNat = (Finset.univ.filter s.Active).card

namespace SlotInv

theorem idle (hs : SlotInv s xs) (hi : ¬ s.Active i) :
    s.clients i = clientInit := by
  have hsock : (s.clients i).socket = clientInactiveSocket := by
    by_contra hne
    exact hi hne
  obtain ⟨hheader, hdata⟩ := hs.empty i
  cases hc : s.clients i
  simp_all [clientInit]

theorem bound (hs : SlotInv s xs) : s.nClients.toNat ≤ srvMaxClients := by
  rw [hs.count]
  exact (Finset.card_le_univ _).trans_eq (Fintype.card_fin _)

/-- Two handlers of one slot are one: they have one descriptor. -/
theorem inj (hs : SlotInv s xs) {x y : Addr × IoHandler} (hx : x ∈ xs)
    (hy : y ∈ xs) (hxi : clientSlot s x = some i)
    (hyi : clientSlot s y = some i) : x = y := by
  obtain ⟨hfx, -⟩ := hs.socket x hx i hxi
  obtain ⟨hfy, hact⟩ := hs.socket y hy i hyi
  exact hs.holds.eq_of_fd hx hy (hfx.trans hfy.symm) (hfy ▸ hact)

/-- The slots of the handlers are the active ones, each once. -/
theorem filterMap_length (hs : SlotInv s xs) :
    (xs.filterMap (clientSlot s)).length
      = (Finset.univ.filter s.Active).card := by
  have hnd : (xs.filterMap (clientSlot s)).Nodup := by
    refine List.pairwise_filterMap.mpr (hs.holds.apart.imp_of_mem ?_)
    rintro x y hx hy hxy i hxi j hyj rfl
    obtain ⟨hfx, hact⟩ := hs.socket x hx i hxi
    obtain ⟨hfy, -⟩ := hs.socket y hy i hyj
    exact hact (hfx ▸ hxy (hfx.trans hfy.symm))
  rw [← List.toFinset_card_of_nodup hnd]
  congr 1
  ext i
  simp only [List.mem_toFinset, List.mem_filterMap, Finset.mem_filter,
    Finset.mem_univ, true_and]
  constructor
  · rintro ⟨x, hx, hxi⟩
    exact (hs.socket x hx i hxi).2
  · intro hi
    obtain ⟨x, hx, hxi⟩ := hs.slot i hi
    exact ⟨x, hx, hxi⟩

theorem agree (hs : SlotInv s xs) : s.SlotsAgree xs where
  list := hs.holds.list
  bijection := by
    refine ⟨?_, ?_, ?_⟩
    · rintro x ⟨hx, hne⟩
      obtain ⟨i, hi⟩ := Option.ne_none_iff_exists'.mp hne
      exact ⟨i, (hs.socket x hx i hi).2, hi.symm⟩
    · rintro x ⟨hx, hne⟩ y ⟨hy, -⟩ hxy
      obtain ⟨i, hi⟩ := Option.ne_none_iff_exists'.mp hne
      exact hs.inj hx hy hi (hxy ▸ hi)
    · rintro - ⟨i, hi, rfl⟩
      obtain ⟨x, hx, hxi⟩ := hs.slot i hi
      exact ⟨x, ⟨hx, by simp [hxi]⟩, hxi⟩
  socket := fun x hx i hi => (hs.socket x hx i hi).1
  back := hs.back
  count := hs.count.trans hs.filterMap_length.symm
  bound := hs.bound
  idle := fun i hi => hs.idle hi

/-- While there is room for a client, there is a slot for it. -/
theorem room (hs : SlotInv s xs) (hn : s.nClients.toNat < srvMaxClients) :
    ∃ i, ¬ s.Active i := by
  by_contra hall
  push Not at hall
  rw [hs.count, Finset.filter_true_of_mem fun i _ => hall i] at hn
  simp [srvMaxClients] at hn

end SlotInv

-- ============================================================ a connection

section Connection

variable {accepted : Option Int} {srv io : Option Addr}

/-- The slot that is looked for is there. -/
theorem SlotInv.find (hs : SlotInv s xs)
    (hn : s.nClients.toNat < srvMaxClients) :
    ∃ i, ((List.finRange srvMaxClients).find? fun i =>
      (s.clients i).socket = clientInactiveSocket) = some i
        ∧ ¬ s.Active i := by
  obtain ⟨j, hj⟩ := hs.room hn
  have hsome : ((List.finRange srvMaxClients).find? fun i =>
      (s.clients i).socket = clientInactiveSocket).isSome := by
    rw [List.find?_isSome]
    exact ⟨j, List.mem_finRange j, by simpa [Server.Active] using hj⟩
  obtain ⟨i, hi⟩ := Option.isSome_iff_exists.mp hsome
  exact ⟨i, hi, by simpa [Server.Active] using List.find?_some hi⟩

/-- The server once it has put the client `fd` in slot `i`, with a handler
at `a` whose block is at `b`. -/
def Server.accept (s : Server μ) (i : Slot) (fd : Int) (b a : Addr)
    (poll : PollState μ) : Server μ :=
  { s with
    clients := Function.update s.clients i { clientInit with socket := fd }
    srvHandlers := Function.update s.srvHandlers b (some ⟨some i, a⟩)
    nClients := s.nClients + 1
    poll }

/-- The handler of a client. -/
def clientHandler (fd : Int) (b : Addr) : IoHandler :=
  ⟨fd, ioHandlerRd, some serverHandleAnyAddr, b⟩

/-- There is no slot left, or accept4 fails: nothing has happened. -/
theorem serverHandleConnection_refuses (hs : SlotInv s xs)
    (h : s.nClients.toNat < srvMaxClients → accepted = none) :
    serverHandleConnection s accepted srv io = some (-1, s) := by
  unfold serverHandleConnection
  by_cases hn : srvMaxClients ≤ s.nClients.toNat
  · rw [if_pos hn]
  · rw [if_neg hn]
    obtain ⟨i, hfind, hi⟩ := hs.find (by omega)
    obtain rfl := h (by omega)
    have hc : { s.clients i with socket := -1 } = s.clients i := by
      rw [hs.idle hi]
      rfl
    simp [hfind, hc]

/-- There is no memory for the handler: the client is closed, and nothing
has happened. -/
theorem serverHandleConnection_closes (hs : SlotInv s xs) {fd : Int}
    (hn : s.nClients.toNat < srvMaxClients) (hpos : 0 ≤ fd)
    (hfd : fd ∉ s.poll.opened) (hmem : srv = none ∨ io = none) :
    serverHandleConnection s (some fd) srv io = some (-1, s) := by
  obtain ⟨i, hfind, hi⟩ := hs.find hn
  have hne : ¬ fd = -1 := by omega
  have hopened : s.poll.opened.filter (fun x => !decide (x = fd))
      = s.poll.opened :=
    List.filter_eq_self.mpr fun x hx => by
      have hxfd : x ≠ fd := fun e => hfd (e ▸ hx)
      simp [hxfd]
  have hnew : ∀ t : Server μ,
      serverHandlerNew t (some i) srv io = (t, none) := by
    intro t
    unfold serverHandlerNew
    rcases hmem with rfl | rfl
    · rfl
    · cases srv <;> rfl
  have hc : Function.update s.clients i clientInit = s.clients := by
    rw [← hs.idle hi, Function.update_eq_self]
  unfold serverHandleConnection
  rw [if_neg (by omega), hfind]
  simp [hne, hnew, closeSocket, hopened, hc]

/-- A client is accepted: to the handlers, one is registered. -/
theorem serverHandleConnection_accepts (hs : SlotInv s xs) {fd : Int}
    (hn : s.nClients.toNat < srvMaxClients) (hpos : 0 ≤ fd)
    (hfd : fd ∉ s.poll.opened) (ha : s.poll.list.handlers.node a = none) :
    ∃ i poll, ¬ s.Active i
      ∧ (HandlerAct.register a (clientHandler fd b)).run s.poll = some poll
      ∧ poll.Holds (xs ++ [(a, clientHandler fd b)])
      ∧ serverHandleConnection s (some fd) (some b) (some a)
        = some (0, s.accept i fd b a poll) := by
  obtain ⟨i, hfind, hi⟩ := hs.find hn
  obtain ⟨poll, hrun, hpoll⟩ := hs.holds.register
    (v := clientHandler fd b) ⟨ha, hpos, hfd⟩
  refine ⟨i, poll, hi, hrun, hpoll, ?_⟩
  have hne : ¬ fd = -1 := by omega
  obtain ⟨list, hpush, hrun⟩ := Option.bind_eq_some_iff.mp hrun
  obtain rfl := Option.some.inj hrun
  have hpush' : ioHandlerListPush (ioHandlerNew s.poll.list a fd ioHandlerRd
      (some serverHandleAnyAddr) b) a = some list := hpush
  unfold serverHandleConnection
  rw [if_neg (by omega), hfind]
  simp [hne, serverHandlerNew, registerIoHandler, hpush', Server.accept,
    clientHandler, hs.idle hi]

/-- A connection that is allowed fails, or a client is accepted. -/
theorem serverHandleConnection_cases (hs : SlotInv s xs)
    (hallow : s.Allows (.handleConnection accepted srv io)) :
    serverHandleConnection s accepted srv io = some (-1, s)
      ∨ ∃ fd b a i poll, accepted = some fd ∧ srv = some b ∧ io = some a
        ∧ s.nClients.toNat < srvMaxClients ∧ ¬ s.Active i
        ∧ (HandlerAct.register a (clientHandler fd b)).run s.poll = some poll
        ∧ poll.Holds (xs ++ [(a, clientHandler fd b)])
        ∧ serverHandleConnection s accepted srv io
          = some (0, s.accept i fd b a poll) := by
  obtain ⟨hfd, -, ha⟩ := hallow
  by_cases hn : s.nClients.toNat < srvMaxClients
  · cases accepted with
    | none => exact .inl (serverHandleConnection_refuses hs fun _ => rfl)
    | some fd =>
        obtain ⟨hpos, hnew⟩ := hfd fd rfl
        cases srv with
        | none =>
            exact .inl
              (serverHandleConnection_closes hs hn hpos hnew (.inl rfl))
        | some b =>
            cases io with
            | none =>
                exact .inl
                  (serverHandleConnection_closes hs hn hpos hnew (.inr rfl))
            | some a =>
                obtain ⟨i, poll, hi, hrun, hpoll, hcall⟩ :=
                  serverHandleConnection_accepts hs hn hpos hnew (ha a rfl)
                exact .inr ⟨fd, b, a, i, poll, rfl, rfl, rfl, hn, hi, hrun,
                  hpoll, hcall⟩
  · exact .inl (serverHandleConnection_refuses hs fun h => absurd h hn)

/-- `return 1` is not reached. -/
theorem serverHandleConnection_ne_one (hs : SlotInv s xs) {code : Int}
    (h : serverHandleConnection s accepted srv io = some (code, s')) :
    code ≠ 1 := by
  unfold serverHandleConnection at h
  by_cases hn : srvMaxClients ≤ s.nClients.toNat
  · rw [if_pos hn] at h
    obtain ⟨rfl, -⟩ := Prod.mk.inj (Option.some.inj h)
    decide
  · rw [if_neg hn] at h
    obtain ⟨i, hfind, -⟩ := hs.find (by omega)
    simp only [hfind] at h
    split at h
    · obtain ⟨rfl, -⟩ := Prod.mk.inj (Option.some.inj h)
      decide
    · split at h
      · obtain ⟨rfl, -⟩ := Prod.mk.inj (Option.some.inj h)
        decide
      · obtain ⟨t, -, h⟩ := Option.bind_eq_some_iff.mp h
        obtain ⟨rfl, -⟩ := Prod.mk.inj (Option.some.inj h)
        decide

/-- The slot that is taken is active, and the others are as they were. -/
theorem Server.accept_active {fd : Int} {poll : PollState μ} (hpos : 0 ≤ fd)
    (j : Slot) : (s.accept i fd b a poll).Active j ↔ j = i ∨ s.Active j := by
  unfold Server.Active Server.accept
  by_cases hj : j = i
  · subst hj
    have hne : fd ≠ clientInactiveSocket := by
      unfold clientInactiveSocket
      omega
    simp [hne]
  · simp [hj]

theorem SlotInv.accept (hs : SlotInv s xs) {fd : Int} {poll : PollState μ}
    (hn : s.nClients.toNat < srvMaxClients) (hpos : 0 ≤ fd)
    (hb : s.srvHandlers b = none) (hi : ¬ s.Active i)
    (hpoll : poll.Holds (xs ++ [(a, clientHandler fd b)])) :
    SlotInv (s.accept i fd b a poll) (xs ++ [(a, clientHandler fd b)]) := by
  let t := s.accept i fd b a poll
  have hactive : ∀ j, t.Active j ↔ j = i ∨ s.Active j :=
    Server.accept_active hpos
  have hdata : ∀ x ∈ xs, x.2.callback = some serverHandleAnyAddr →
      t.srvHandlers x.2.data = s.srvHandlers x.2.data := by
    intro x hx hcb
    obtain ⟨h, hh, -⟩ := hs.back x hx hcb
    refine Function.update_of_ne ?_ _ _
    rintro e
    rw [e, hb] at hh
    cases hh
  have hold : ∀ x ∈ xs, clientSlot t x = clientSlot s x :=
    fun x hx => clientSlot_congr (hdata x hx)
  have hself : t.srvHandlers b = some ⟨some i, a⟩ := Function.update_self ..
  have hnew : clientSlot t (a, clientHandler fd b) = some i := by
    simp [clientSlot, clientHandler, hself]
  have hother : ∀ j, j ≠ i → t.clients j = s.clients j :=
    fun j hj => Function.update_of_ne hj _ _
  have hslot : t.clients i = { clientInit with socket := fd } :=
    Function.update_self ..
  constructor
  · exact hpoll
  · intro x hx hcb
    rcases List.mem_append.mp hx with hx | hx
    · rw [hdata x hx hcb]
      exact hs.back x hx hcb
    · obtain rfl := List.mem_singleton.mp hx
      exact ⟨_, hself, rfl⟩
  · intro b' h hh
    by_cases e : b' = b
    · subst e
      obtain rfl := Option.some.inj (hself.symm.trans hh)
      exact ⟨_, List.mem_append_right _ (List.mem_singleton_self _), rfl, rfl⟩
    · have hh' : s.srvHandlers b' = some h :=
        (Function.update_of_ne e _ _).symm.trans hh
      obtain ⟨v, hv, hcb, hd⟩ := hs.owned b' h hh'
      exact ⟨v, List.mem_append_left _ hv, hcb, hd⟩
  · intro x hx j hj
    rcases List.mem_append.mp hx with hx | hx
    · rw [hold x hx] at hj
      obtain ⟨hfd, hact⟩ := hs.socket x hx j hj
      have hji : j ≠ i := fun e => hi (e ▸ hact)
      rw [hother j hji]
      exact ⟨hfd, (hactive j).mpr (.inr hact)⟩
    · obtain rfl := List.mem_singleton.mp hx
      obtain rfl := Option.some.inj (hnew.symm.trans hj)
      rw [hslot]
      exact ⟨rfl, (hactive i).mpr (.inl rfl)⟩
  · intro j hj
    rcases (hactive j).mp hj with rfl | hj
    · exact ⟨_, List.mem_append_right _ (List.mem_singleton_self _), hnew⟩
    · obtain ⟨x, hx, hxj⟩ := hs.slot j hj
      exact ⟨x, List.mem_append_left _ hx, (hold x hx).trans hxj⟩
  · intro j
    by_cases hj : j = i
    · subst hj
      rw [hslot]
      exact ⟨rfl, rfl⟩
    · rw [hother j hj]
      exact hs.empty j
  · have hset : Finset.univ.filter t.Active
        = insert i (Finset.univ.filter s.Active) := by
      ext j
      simp [hactive]
    show (s.nClients + 1).toNat = (Finset.univ.filter t.Active).card
    rw [hset, Finset.card_insert_of_notMem (by simp [hi]), ← hs.count,
      UInt64.toNat_add]
    have h1 : (1 : UInt64).toNat = 1 := rfl
    unfold srvMaxClients at hn
    omega

end Connection

-- =============================================================== a message

section Message

variable {message : ClientMessage}

/-- The server once the client in slot `i` has left, with the block of its
handler at `b`. -/
def Server.leave (s : Server μ) (i : Slot) (b : Addr) (poll : PollState μ) :
    Server μ :=
  { s with
    clients := Function.update s.clients i clientInit
    srvHandlers := Function.update s.srvHandlers b none
    nClients := s.nClients - 1
    poll }

/-- The handler of a connected client. -/
theorem SlotInv.connected (hs : SlotInv s xs) (hb : s.Connected b) :
    ∃ h i n, s.srvHandlers b = some h ∧ h.client = some i ∧ s.Active i
      ∧ s.poll.list.handlers.node h.handler = some n
      ∧ (h.handler, n.val) ∈ xs
      ∧ n.val.callback = some serverHandleAnyAddr ∧ n.val.data = b
      ∧ n.val.fd = (s.clients i).socket := by
  obtain ⟨h, hh, hne⟩ := hb
  obtain ⟨i, hi⟩ := Option.ne_none_iff_exists'.mp hne
  obtain ⟨v, hv, hcb, hd⟩ := hs.owned b h hh
  obtain ⟨n, hn, hval⟩ := hs.holds.list.forward.mem hv
  obtain rfl : n.val = v := hval
  have hslot : clientSlot s (h.handler, n.val) = some i := by
    simp [clientSlot, hcb, hd, hh, hi]
  obtain ⟨hfd, hact⟩ := hs.socket _ hv i hslot
  exact ⟨h, i, n, hh, hi, hact, hn, hv, hcb, hd, hfd⟩

theorem ClientMessage.assign_socket (c : ServerClient) :
    (message.assign c).socket = c.socket := by
  cases message <;> rfl

theorem ClientMessage.assign_data {c : ServerClient} (hc : c.data = none) :
    (message.assign c).data = message.block? := by
  cases message
  · exact hc
  · rfl
  · rfl
  · rfl

/-- What `monikor_server_disconnect` does, its four reads granted: the
handler's block, its slot, the data, and the handler once unregistered. -/
theorem serverDisconnect_eq {d' : Dlist Addr IoHandler}
    {n : DNode Addr IoHandler} (hh : s.srvHandlers b = some h)
    (hi : h.client = some i) (hact : s.Active i)
    (hdata : ∀ d, (s.clients i).data = some d → s.blocks d = true)
    (hremove : s.poll.list.handlers.remove h.handler = some d')
    (hn : d'.node h.handler = some n) (hd : n.val.data = b) :
    serverDisconnect s b = some
      { s.leave i b ⟨{ s.poll.list with handlers :=
          { d' with node := Function.update d'.node h.handler none } },
          s.poll.opened.filter (· ≠ (s.clients i).socket)⟩ with
        blocks := fun d => s.blocks d && (s.clients i).data ≠ some d } := by
  have hne : (s.clients i).socket ≠ -1 := hact
  have hfree : freeData (closeSocket s (s.clients i).socket) (s.clients i).data
      = some { closeSocket s (s.clients i).socket with
          blocks := fun d => s.blocks d && (s.clients i).data ≠ some d } := by
    cases hc : (s.clients i).data with
    | none => simp [freeData, closeSocket]
    | some d =>
        have hblocks : Function.update s.blocks d false
            = fun c => s.blocks c && some d ≠ some c := by
          funext c
          by_cases e : c = d
          · simp [e]
          · simp [e, Ne.symm e]
        simp [freeData, closeSocket, hdata d hc, hblocks]
  unfold serverDisconnect
  simp only [hh, hi, Option.bind_eq_bind, Option.bind_some, if_pos hne, hfree]
  simp [unregisterIoHandler, ioHandlerListRemove, closeSocket, hremove,
    serverHandlerFree, hn, hd, hh, Dlist.free, Server.leave]

/-- However the message ends, the client leaves: to the handlers, its own
is released. -/
theorem serverHandleClient_releases (hs : SlotInv s xs)
    (hallow : s.Allows (.handleClient b message)) :
    ∃ h i poll, s.srvHandlers b = some h ∧ h.client = some i
      ∧ (HandlerAct.release h.handler true).Legal s.poll
      ∧ (HandlerAct.release h.handler true).run s.poll = some poll
      ∧ poll.Holds (xs.filter (·.1 ≠ h.handler))
      ∧ serverHandleClient s b message
        = some (message.code, s.leave i b poll) := by
  obtain ⟨hb, hfresh⟩ := hallow
  obtain ⟨h, i, n, hh, hi, hact, hn, -, -, hd, hfd⟩ := hs.connected hb
  obtain ⟨d', poll, hremove, hn', hrun, rfl, hpoll⟩ :=
    hs.holds.released hn true
  have hlegal : (HandlerAct.release h.handler true).Legal s.poll := by
    show s.poll.list.handlers.node h.handler ≠ none
    simp [hn]
  refine ⟨h, i, _, hh, hi, hlegal, hrun, hpoll, ?_⟩
  let t := { s with
    clients := Function.update s.clients i (message.assign (s.clients i))
    blocks := fun b => s.blocks b || message.block? = some b }
  have hc : t.clients i = message.assign (s.clients i) :=
    Function.update_self ..
  have hsocket : (t.clients i).socket = (s.clients i).socket := by
    rw [hc, ClientMessage.assign_socket]
  have hdata : (t.clients i).data = message.block? := by
    rw [hc, ClientMessage.assign_data (hs.empty i).2]
  have hact' : t.Active i := by
    unfold Server.Active
    rwa [hsocket]
  have hall : ∀ d, t.blocks d = (s.blocks d || message.block? = some d) :=
    fun _ => rfl
  have hleave := serverDisconnect_eq (s := t) hh hi hact'
    (fun d hd' => by simp [hall, ← hdata, hd']) hremove hn' hd
  -- the data that came with the message is gone with it
  have hblocks : (fun d => t.blocks d && (t.clients i).data ≠ some d)
      = s.blocks := by
    funext d
    by_cases e : message.block? = some d
    · simp [hdata, e, hfresh d e]
    · simp [hall, hdata, e]
  have hclients : Function.update t.clients i clientInit
      = Function.update s.clients i clientInit := Function.update_idem ..
  rw [hblocks, hsocket, ← hfd] at hleave
  unfold serverHandleClient
  simp only [hh, hi, Option.bind_eq_bind, Option.bind_some]
  rw [show serverDisconnect _ b = _ from hleave]
  simp only [Server.leave, hclients, t]
  rfl

/-- The slot that is left is inactive, and the others are as they were. -/
theorem Server.leave_active {poll : PollState μ} (j : Slot) :
    (s.leave i b poll).Active j ↔ j ≠ i ∧ s.Active j := by
  unfold Server.Active Server.leave
  by_cases hj : j = i
  · subst hj
    simp [clientInit]
  · simp [hj]

theorem SlotInv.leave (hs : SlotInv s xs) {poll : PollState μ}
    (hh : s.srvHandlers b = some h) (hi : h.client = some i)
    (hpoll : poll.Holds (xs.filter (·.1 ≠ h.handler))) :
    SlotInv (s.leave i b poll) (xs.filter (·.1 ≠ h.handler)) := by
  let t := s.leave i b poll
  obtain ⟨h', i', n, hh', hi', hact, -, hin, hcb, hd, -⟩ :=
    hs.connected ⟨h, hh, by simp [hi]⟩
  obtain rfl := Option.some.inj (hh.symm.trans hh')
  obtain rfl := Option.some.inj (hi.symm.trans hi')
  have hactive : ∀ j, t.Active j ↔ j ≠ i ∧ s.Active j := Server.leave_active
  have hmem : ∀ x, x ∈ xs.filter (·.1 ≠ h.handler)
      ↔ x ∈ xs ∧ x.1 ≠ h.handler := by
    simp [List.mem_filter]
  have hdata : ∀ x ∈ xs, x.1 ≠ h.handler →
      x.2.callback = some serverHandleAnyAddr →
      t.srvHandlers x.2.data = s.srvHandlers x.2.data := by
    intro x hx hne hcbx
    obtain ⟨hx', hhx, hback⟩ := hs.back x hx hcbx
    refine Function.update_of_ne (fun e => hne ?_) _ _
    rw [e, hh] at hhx
    rw [← hback, ← Option.some.inj hhx]
  have hold : ∀ x ∈ xs, x.1 ≠ h.handler → clientSlot t x = clientSlot s x :=
    fun x hx hne => clientSlot_congr (hdata x hx hne)
  have hself : clientSlot s (h.handler, n.val) = some i := by
    simp [clientSlot, hcb, hd, hh, hi]
  have hother : ∀ j, j ≠ i → t.clients j = s.clients j :=
    fun j hj => Function.update_of_ne hj _ _
  have hslot : t.clients i = clientInit := Function.update_self ..
  constructor
  · exact hpoll
  · intro x hx hcbx
    obtain ⟨hx, hne⟩ := (hmem x).mp hx
    rw [hdata x hx hne hcbx]
    exact hs.back x hx hcbx
  · intro b' g hg
    by_cases e : b' = b
    · subst e
      rw [show t.srvHandlers b' = none from Function.update_self ..] at hg
      cases hg
    · have hg' : s.srvHandlers b' = some g :=
        (Function.update_of_ne e _ _).symm.trans hg
      obtain ⟨v, hv, hcbv, hdv⟩ := hs.owned b' g hg'
      refine ⟨v, (hmem _).mpr ⟨hv, fun heq => e ?_⟩, hcbv, hdv⟩
      obtain ⟨-, rfl⟩ := Prod.mk.inj (hs.holds.eq_of_addr hv hin heq)
      exact hdv.symm.trans hd
  · intro x hx j hj
    obtain ⟨hx, hne⟩ := (hmem x).mp hx
    rw [hold x hx hne] at hj
    obtain ⟨hfd, hactj⟩ := hs.socket x hx j hj
    have hji : j ≠ i := by
      rintro rfl
      exact hne (congrArg Prod.fst (hs.inj hx hin hj hself))
    rw [hother j hji]
    exact ⟨hfd, (hactive j).mpr ⟨hji, hactj⟩⟩
  · intro j hj
    obtain ⟨hji, hj⟩ := (hactive j).mp hj
    obtain ⟨x, hx, hxj⟩ := hs.slot j hj
    have hne : x.1 ≠ h.handler := by
      intro e
      rw [hs.holds.eq_of_addr hx hin e, hself] at hxj
      exact hji (Option.some.inj hxj).symm
    exact ⟨x, (hmem x).mpr ⟨hx, hne⟩, (hold x hx hne).trans hxj⟩
  · intro j
    by_cases hj : j = i
    · subst hj
      rw [hslot]
      exact ⟨rfl, rfl⟩
    · rw [hother j hj]
      exact hs.empty j
  · have hset : Finset.univ.filter t.Active
        = (Finset.univ.filter s.Active).erase i := by
      ext j
      simp [hactive]
    have hpos : 0 < (Finset.univ.filter s.Active).card :=
      Finset.card_pos.mpr ⟨i, by simp [hact]⟩
    show (s.nClients - 1).toNat = (Finset.univ.filter t.Active).card
    rw [hset, Finset.card_erase_of_mem (by simp [hact]), ← hs.count,
      UInt64.toNat_sub_of_le]
    · rfl
    · rw [UInt64.le_iff_toNat_le]
      show 1 ≤ s.nClients.toNat
      rw [hs.count]
      exact hpos

end Message

-- ============================================================ the callback

/-- How far a message gets is what `handleClient` makes of the bytes. -/
theorem handleClient_message {S : Type} {lpush : Allocs → S → List Metric → S}
    {e : Endian} {junk : Nat → UInt16} {fuel : Nat} {al : Allocs} {c : Conn}
    {st st' : S} {code : Int} (block : Addr)
    (hrun : handleClient lpush e junk fuel al c st = some (.ok (code, st'))) :
    ∃ message, clientMessage e fuel al block c = some message
      ∧ message.code = code := by
  have hcode : ∀ {k : Int} {t : S},
      (some (.ok (k, t)) : Option (Except Crash (Int × S)))
        = some (.ok (code, st')) → k = code :=
    fun h => (Prod.mk.inj (Except.ok.inj (Option.some.inj h))).1
  unfold handleClient at hrun
  unfold clientMessage
  rcases hread : c.read serializedMetricListHdrSize with ⟨_ | buf, c'⟩
  · simp only [hread] at hrun
    exact ⟨.short, rfl, hcode hrun⟩
  simp only [hread] at hrun ⊢
  by_cases hlen : buf.length < serializedMetricListHdrSize
  · rw [if_pos hlen] at hrun
    exact ⟨.short, if_pos hlen, hcode hrun⟩
  rw [if_neg hlen] at hrun ⊢
  cases hhdr : metricListHeaderUnserialize e buf with
  | error f =>
      simp only [hhdr] at hrun
      cases hrun
  | ok hdr =>
      simp only [hhdr] at hrun ⊢
      rcases hmalloc : al.malloc with ⟨_ | _, al'⟩
      · simp only [hmalloc] at hrun
        exact ⟨.noMemory hdr, rfl, hcode hrun⟩
      simp only [hmalloc] at hrun ⊢
      rcases hloop : receiveLoop fuel c' hdr.dataSize.toNat [] with
        _ | ⟨_ | data, c''⟩
      · simp only [hloop] at hrun
        cases hrun
      · simp only [hloop] at hrun
        exact ⟨.readError hdr block, rfl, hcode hrun⟩
      simp only [hloop] at hrun ⊢
      by_cases hdata : data.length < hdr.dataSize.toNat
      · rw [if_pos hdata] at hrun
        exact ⟨.readError hdr block, if_pos hdata, hcode hrun⟩
      · rw [if_neg hdata] at hrun
        refine ⟨.whole hdr block, if_neg hdata, ?_⟩
        -- the list has been pushed
        unfold ingest at hrun
        split at hrun
        · cases hrun
        · split at hrun
          · cases hrun
          · exact hcode hrun

/-- What the server's callback does inside the walk over the handlers is
what a callback may do: it registers a client, releases its own handler,
or leaves the list. Where it is the first that is called, the descriptors
open are those that were open when select was called. -/
theorem serverHandleAny_legal {n : DNode Addr IoHandler}
    {accepted : Option Int} {srv io : Option Addr} {message : ClientMessage}
    {sel : List Int} (hs : SlotInv s xs)
    (hn : s.poll.list.handlers.node a = some n)
    (hcb : n.val.callback = some serverHandleAnyAddr)
    (hconn : s.Allows (.handleConnection accepted srv io))
    (hmsg : ∀ d, message.block? = some d → s.blocks d = false)
    (hsel : ∀ fd, accepted = some fd → fd ∉ sel) :
    ∃ code s' xs' acts,
      serverHandleAny s a accepted srv io message = some (code, s')
      ∧ SlotInv s' xs' ∧ HandlerAct.LegalAll sel (some a) s.poll acts
      ∧ HandlerAct.runAll s.poll acts = some s'.poll := by
  obtain ⟨ys, zs, hsplit⟩ := hs.holds.split hn
  have hin : (a, n.val) ∈ xs := by simp [hsplit]
  obtain ⟨h, hh, hback⟩ := hs.back _ hin hcb
  have hany : serverHandleAny s a accepted srv io message
      = h.client.elim (serverHandleConnection s accepted srv io)
        fun _ => serverHandleClient s n.val.data message := by
    unfold serverHandleAny
    simp only [hn, hh, Option.bind_eq_bind, Option.bind_some]
    cases h.client <;> rfl
  cases hc : h.client with
  | none =>
      rw [hc] at hany
      rcases serverHandleConnection_cases hs hconn with hcall
        | ⟨fd, b, a', i, poll, rfl, rfl, rfl, hlt, hi, hrun, hpoll, hcall⟩
      · exact ⟨-1, s, xs, [], hany.trans hcall, hs, trivial, rfl⟩
      · obtain ⟨hpos, hfd⟩ := hconn.1 fd rfl
        refine ⟨0, _, _, [.register a' (clientHandler fd b)], hany.trans hcall,
          hs.accept hlt hpos (hconn.2.1 b rfl) hi hpoll, ?_, ?_⟩
        · exact ⟨⟨⟨hconn.2.2 a' rfl, hpos, hfd⟩, hsel fd rfl⟩,
            fun _ _ => trivial⟩
        · simp [HandlerAct.runAll, hrun, Server.accept]
  | some j =>
      rw [hc] at hany
      obtain ⟨h', i, poll, hh', hi, hlegal, hrun, hpoll, hcall⟩ :=
        serverHandleClient_releases hs (b := n.val.data)
          ⟨⟨h, hh, by simp [hc]⟩, hmsg⟩
      obtain rfl := Option.some.inj (hh.symm.trans hh')
      obtain rfl : h.handler = a := hback
      refine ⟨_, _, _, [.release h.handler true], hany.trans hcall,
        hs.leave hh' hi hpoll, ⟨⟨hlegal, rfl⟩, fun _ _ => trivial⟩, ?_⟩
      simp [HandlerAct.runAll, hrun, Server.leave]

-- ============================================================== elsewhere

/-- What the agent does elsewhere leaves the server's handlers. -/
theorem HandlerAct.Foreign.mem {poll : PollState μ} (hp : poll.Holds xs)
    (hact : act.Foreign poll) (hcb : x.2.callback = some serverHandleAnyAddr) :
    x ∈ act.cells xs ↔ x ∈ xs := by
  have hne : ∀ a, (∀ n, poll.list.handlers.node a = some n →
      n.val.callback ≠ some serverHandleAnyAddr) → x ∈ xs → x.1 ≠ a := by
    rintro a hn hx rfl
    obtain ⟨n, hnx, hval⟩ := hp.list.forward.mem hx
    exact hn n hnx (hval ▸ hcb)
  cases act with
  | register a v =>
      unfold cells
      rw [List.mem_append, List.mem_singleton]
      refine or_iff_left ?_
      rintro rfl
      exact hact hcb
  | rewrite a v =>
      unfold cells
      rw [List.mem_map]
      constructor
      · rintro ⟨y, hy, rfl⟩
        by_cases hya : y.1 = a
        · rw [if_pos hya] at hcb
          exact absurd hcb hact.1
        · rwa [if_neg hya]
      · intro hx
        exact ⟨x, hx, if_neg (hne a hact.2 hx)⟩
  | release a closes =>
      unfold cells
      rw [List.mem_filter, decide_eq_true_iff]
      exact and_iff_left_of_imp (hne a hact)
  | openFd fd => exact Iff.rfl
  | closeFd fd => exact Iff.rfl
  | elsewhere l => exact Iff.rfl

theorem SlotInv.elsewhere (hs : SlotInv s xs) (hlegal : act.Legal s.poll)
    (hact : act.Foreign s.poll) :
    ∃ poll, act.run s.poll = some poll
      ∧ SlotInv { s with poll } (act.cells xs) := by
  obtain ⟨poll, hrun, hpoll⟩ := hs.holds.run hlegal
  have hmem := fun x => hact.mem (x := x) hs.holds
  refine ⟨poll, hrun, hpoll, ?_, ?_, ?_, ?_, hs.empty, hs.count⟩
  · exact fun x hx hcb => hs.back x ((hmem x hcb).mp hx) hcb
  · intro b h hh
    obtain ⟨v, hv, hcb, hd⟩ := hs.owned b h hh
    exact ⟨v, (hmem _ hcb).mpr hv, hcb, hd⟩
  · exact fun x hx i hi =>
      hs.socket x ((hmem x (callback_of_clientSlot hi)).mp hx) i hi
  · intro i hi
    obtain ⟨x, hx, hxi⟩ := hs.slot i hi
    exact ⟨x, (hmem x (callback_of_clientSlot hxi)).mpr hx, hxi⟩

-- =================================================================== runs

/-- A server that has been started: to the handlers, one is registered. -/
theorem serverInit_ok {poll : PollState μ} {socket : Option Int}
    {bound : Bool} {srv io : Option Addr}
    (hinit : serverInit poll socket bound srv io = some (0, s)) :
    ∃ fd b a poll', socket = some fd
      ∧ (HandlerAct.register a (clientHandler fd b)).run poll = some poll'
      ∧ s = ⟨fd, 0, fun _ => clientInit, some a,
        Function.update (fun _ => none) b (some ⟨none, a⟩), fun _ => false,
        poll'⟩ := by
  have hcode : ∀ t : Server μ, some ((-1 : Int), t) ≠ some (0, s) := by
    intro t ht
    have hfst : (-1 : Int) = 0 := congrArg Prod.fst (Option.some.inj ht)
    exact absurd hfst (by decide)
  unfold serverInit at hinit
  cases socket with
  | none => exact absurd hinit (hcode _)
  | some fd =>
      cases bound with
      | false => exact absurd hinit (hcode _)
      | true =>
          cases srv with
          | none => exact absurd hinit (hcode _)
          | some b =>
              cases io with
              | none => exact absurd hinit (hcode _)
              | some a =>
                  obtain ⟨t, ht, heq⟩ := Option.bind_eq_some_iff.mp hinit
                  obtain ⟨list, hpush, hlist⟩ := Option.bind_eq_some_iff.mp ht
                  obtain rfl := Option.some.inj hlist
                  obtain ⟨-, rfl⟩ := Prod.mk.inj (Option.some.inj heq)
                  refine ⟨fd, b, a, ⟨list, fd :: poll.opened⟩, rfl, ?_, rfl⟩
                  exact Option.bind_eq_some_iff.mpr ⟨list, hpush, rfl⟩

/-- The listening server, with its own handler and no client. -/
theorem SlotInv.start {multi : μ} {opened : List Int} {socket : Option Int}
    {bound : Bool} {srv io : Option Addr}
    (hfd : ∀ fd, socket = some fd → 0 ≤ fd ∧ fd ∉ opened)
    (hinit : serverInit ⟨ioHandlerListInit multi, opened⟩ socket bound srv io
      = some (0, s)) :
    ∃ xs, SlotInv s xs := by
  obtain ⟨fd, b, a, poll, rfl, hrun, rfl⟩ := serverInit_ok hinit
  have hempty : PollState.Holds ⟨ioHandlerListInit multi, opened⟩ [] :=
    ⟨isDlist_empty, fun a ha => absurd rfl ha, by simp, List.Pairwise.nil⟩
  obtain ⟨poll', hrun', hpoll⟩ := hempty.register (a := a)
    (v := clientHandler fd b) ⟨rfl, hfd fd rfl⟩
  obtain rfl := Option.some.inj (hrun.symm.trans hrun')
  refine ⟨_, hpoll, ?_, ?_, ?_, ?_, fun _ => ⟨rfl, rfl⟩, ?_⟩
  · intro x hx _
    obtain rfl := List.mem_singleton.mp hx
    exact ⟨⟨none, a⟩, by simp [clientHandler], rfl⟩
  · intro b' h hh
    by_cases e : b' = b
    · subst e
      obtain rfl : (⟨none, a⟩ : ServerHandler) = h := by simpa using hh
      exact ⟨_, List.mem_singleton_self _, rfl, rfl⟩
    · simp [e] at hh
  · intro x hx i hi
    obtain rfl := List.mem_singleton.mp hx
    simp [clientSlot, clientHandler] at hi
  · exact fun i hi => absurd rfl hi
  · rw [Finset.filter_false_of_mem fun i _ hi => hi rfl]
    rfl

/-- One call that is allowed. -/
theorem SlotInv.step (hs : SlotInv s xs) {call : ServerCall μ}
    (hallow : s.Allows call) :
    ∃ s' xs', s.step call = some s' ∧ SlotInv s' xs' := by
  cases call with
  | handleConnection accepted srv io =>
      rcases serverHandleConnection_cases hs hallow with hcall
        | ⟨fd, b, a, i, poll, rfl, rfl, rfl, hn, hi, -, hpoll, hcall⟩
      · exact ⟨s, xs, by simp [Server.step, hcall], hs⟩
      · exact ⟨_, _, by simp [Server.step, hcall],
          hs.accept hn (hallow.1 fd rfl).1 (hallow.2.1 b rfl) hi hpoll⟩
  | handleClient b message =>
      obtain ⟨h, i, poll, hh, hi, -, -, hpoll, hcall⟩ :=
        serverHandleClient_releases hs hallow
      exact ⟨_, _, by simp [Server.step, hcall], hs.leave hh hi hpoll⟩
  | elsewhere act =>
      obtain ⟨poll, hrun, hs'⟩ := hs.elsewhere hallow.1 hallow.2
      exact ⟨_, _, by simp [Server.step, hrun], hs'⟩

/-- A sequence of calls, each allowed in its turn. -/
theorem SlotInv.steps (calls : List (ServerCall μ)) :
    ∀ (s : Server μ) (xs : List (Addr × IoHandler)), SlotInv s xs →
      s.AllowsAll calls →
      ∃ s' xs', s.steps calls = some s' ∧ SlotInv s' xs' := by
  induction calls with
  | nil => exact fun s xs hs _ => ⟨s, xs, rfl, hs⟩
  | cons call calls ih =>
      intro s xs hs hallow
      obtain ⟨s₁, xs₁, hrun₁, hs₁⟩ := hs.step hallow.1
      obtain ⟨s', xs', hrun, hs'⟩ := ih s₁ xs₁ hs₁ (hallow.2 s₁ hrun₁)
      refine ⟨s', xs', ?_, hs'⟩
      unfold Server.steps
      rw [List.foldlM_cons, hrun₁]
      exact hrun

/-- The client slots: from a server that has been started, after any
sequence of connections, accepted or not, of messages of connected
clients, however they end, and of what the agent does to its other
handlers in between, no block that is not live has been read or freed, the
slots and the handlers agree, and no connection reaches `return 1`. -/
theorem clientSlots_agree (multi : μ) (opened : List Int)
    (socket : Option Int) (bound : Bool) (srv io : Option Addr)
    (s₀ : Server μ) (calls : List (ServerCall μ))
    (hfd : ∀ fd, socket = some fd → 0 ≤ fd ∧ fd ∉ opened)
    (hinit : serverInit ⟨ioHandlerListInit multi, opened⟩ socket bound srv io
      = some (0, s₀))
    (hcalls : s₀.AllowsAll calls) :
    ∃ s, s₀.steps calls = some s ∧ (∃ xs, s.SlotsAgree xs)
      ∧ ∀ accepted srv io code s',
        serverHandleConnection s accepted srv io = some (code, s') →
          code ≠ 1 := by
  obtain ⟨xs₀, h₀⟩ := SlotInv.start hfd hinit
  obtain ⟨s, xs, hrun, hs⟩ := SlotInv.steps calls s₀ xs₀ h₀ hcalls
  exact ⟨s, hrun, ⟨xs, hs.agree⟩,
    fun _ _ _ _ _ h => serverHandleConnection_ne_one hs h⟩

/-- A client connects, a second one finds no memory for its handler, and
the first one sends a message in full. -/
theorem clientSlots_agree_two :
    ∃ s₀ s, serverInit ⟨ioHandlerListInit (), []⟩ (some 3) true (some 1)
        (some 1) = some (0, s₀)
      ∧ s₀.steps [.handleConnection (some 5) (some 2) (some 2),
        .handleConnection (some 6) (some 3) none,
        .handleClient 2 (.whole ⟨1, 1, 18⟩ 9)] = some s
      ∧ (∃ xs, s.SlotsAgree xs)
      ∧ ∀ accepted srv io code s',
        serverHandleConnection s accepted srv io = some (code, s') →
          code ≠ 1 := by
  let calls : List (ServerCall Unit) :=
    [.handleConnection (some 5) (some 2) (some 2),
      .handleConnection (some 6) (some 3) none,
      .handleClient 2 (.whole ⟨1, 1, 18⟩ 9)]
  let s₀ : Server Unit := ((serverInit ⟨ioHandlerListInit (), []⟩ (some 3) true
    (some 1) (some 1)).get rfl).2
  have hallow : s₀.AllowsAll calls := by
    refine ⟨⟨?_, ?_, ?_⟩, fun s₁ h₁ => ?_⟩
    · rintro fd ⟨⟩
      decide
    · rintro b ⟨⟩
      rfl
    · rintro a ⟨⟩
      rfl
    obtain rfl := Option.some.inj h₁
    refine ⟨⟨?_, ?_, ?_⟩, fun s₂ h₂ => ?_⟩
    · rintro fd ⟨⟩
      decide
    · rintro b ⟨⟩
      rfl
    · rintro a ⟨⟩
    obtain rfl := Option.some.inj h₂
    refine ⟨⟨⟨_, rfl, by decide⟩, ?_⟩, fun s₃ h₃ => trivial⟩
    rintro d ⟨⟩
    rfl
  obtain ⟨s, hrun, h⟩ := clientSlots_agree () [] (some 3) true (some 1) (some 1)
    s₀ calls (by simp) rfl hallow
  exact ⟨s₀, s, rfl, hrun, h⟩

end Monikor
