/-
Nothing of an exchange is used after it is freed, and nothing else is lost
than what the log says.

What is open or allocated is what the handlers of the list claim, and what
was lost (`Owns`). A handler is that of an exchange, which claims a socket,
data and addresses, or of one that is over (`handlerOf`).
-/
import Monikor.Modules.Exchange

namespace Monikor

open Linked Machine

variable {s s' : Exchanges} {log : List ExchangeDid} {fds : List Int}
  {datas ais : List Addr} {fd : Int} {a ai p : Addr}

-- ================================================================= resources

/-- What is open and allocated. -/
structure Exchanges.Owns (s : Exchanges) (fds : List Int)
    (datas ais : List Addr) : Prop where
  opened : s.opened.Perm fds
  openedNodup : s.opened.Nodup
  data : ∀ p, s.data p ≠ none ↔ p ∈ datas
  dataNodup : datas.Nodup
  null : nullData ∉ datas
  ais : s.ais.Perm ais
  aisNodup : s.ais.Nodup

namespace Exchanges.Owns

theorem perm {fds' : List Int} {datas' ais' : List Addr}
    (h : s.Owns fds datas ais) (hfds : fds.Perm fds')
    (hdatas : datas.Perm datas') (hais : ais.Perm ais') :
    s.Owns fds' datas' ais' where
  opened := h.opened.trans hfds
  openedNodup := h.openedNodup
  data := fun p => (h.data p).trans hdatas.mem_iff
  dataNodup := hdatas.nodup_iff.mp h.dataNodup
  null := fun hin => h.null (hdatas.mem_iff.mpr hin)
  ais := h.ais.trans hais
  aisNodup := h.aisNodup

theorem close (h : s.Owns (fd :: fds) datas ais) :
    s.close fd = some { s with opened := s.opened.erase fd }
      ∧ Owns { s with opened := s.opened.erase fd } fds datas ais := by
  have hin : fd ∈ s.opened := h.opened.mem_iff.mpr (List.mem_cons_self ..)
  have hperm := h.opened.erase fd
  rw [List.erase_cons_head] at hperm
  exact ⟨if_pos hin, { h with
    opened := hperm
    openedNodup := h.openedNodup.erase fd }⟩

theorem freeAddrs (h : s.Owns fds datas (ai :: ais)) :
    s.freeAddrs ai = some { s with ais := s.ais.erase ai }
      ∧ Owns { s with ais := s.ais.erase ai } fds datas ais := by
  have hin : ai ∈ s.ais := h.ais.mem_iff.mpr (List.mem_cons_self ..)
  have hperm := h.ais.erase ai
  rw [List.erase_cons_head] at hperm
  exact ⟨if_pos hin, { h with
    ais := hperm
    aisNodup := h.aisNodup.erase ai }⟩

theorem freeData (h : s.Owns fds (p :: datas) ais) :
    s.freeData p = some { s with data := Function.update s.data p none }
      ∧ Owns { s with data := Function.update s.data p none } fds datas
        ais := by
  have hin : s.data p ≠ none := (h.data p).mpr (List.mem_cons_self ..)
  have hnull : p ≠ nullData := fun e => h.null (e ▸ List.mem_cons_self ..)
  obtain ⟨hout, hnd⟩ := List.nodup_cons.mp h.dataNodup
  refine ⟨(if_neg hnull).trans (if_neg hin), { h with
    data := fun b => ?_
    dataNodup := hnd
    null := fun hb => h.null (List.mem_cons_of_mem _ hb) }⟩
  show Function.update s.data p none b ≠ none ↔ _
  by_cases e : b = p
  · subst e
    simpa using hout
  · rw [Function.update_of_ne e, h.data b, List.mem_cons]
    exact or_iff_right e

theorem open' (h : s.Owns fds datas ais) (hnew : fd ∉ s.opened) :
    Owns { s with opened := fd :: s.opened } (fd :: fds) datas ais :=
  { h with
    opened := h.opened.cons fd
    openedNodup := List.nodup_cons.mpr ⟨hnew, h.openedNodup⟩ }

end Exchanges.Owns

-- ================================================================== handlers

/-- What an exchange claims: its socket, while it connects or reads, and its
data. -/
structure Claim where
  fd : Int
  reading : Bool
  p : Addr
  d : NetData

/-- The handler of an exchange, or of one that is over. -/
def handlerOf : Option Claim → IoHandler
  | none => ⟨-1, 0, none, nullData⟩
  | some c => ⟨c.fd, if c.reading then ioHandlerRd else ioHandlerWr,
      some (if c.reading then ioReadCallback else ioConnectCallback), c.p⟩

variable {hs ys zs : List (Addr × Option Claim)} {c : Claim} {i : Nat}
  {o : Option Claim}

def cellsOf (hs : List (Addr × Option Claim)) : List (Addr × IoHandler) :=
  hs.map fun x => (x.1, handlerOf x.2)

def claimsOf (hs : List (Addr × Option Claim)) : List Claim :=
  hs.filterMap Prod.snd

theorem cellsOf_append (ys zs : List (Addr × Option Claim)) :
    cellsOf (ys ++ zs) = cellsOf ys ++ cellsOf zs := List.map_append ..

theorem cellsOf_fst (hs : List (Addr × Option Claim)) :
    (cellsOf hs).map Prod.fst = hs.map Prod.fst := by
  unfold cellsOf
  rw [List.map_map]
  rfl

theorem claimsOf_append (ys zs : List (Addr × Option Claim)) :
    claimsOf (ys ++ zs) = claimsOf ys ++ claimsOf zs := List.filterMap_append ..

/-- The handlers of the list are those of `hs`, one for each module that has
one. -/
structure Exchanges.Holds (s : Exchanges) (log : List ExchangeDid)
    (hs : List (Addr × Option Claim)) : Prop where
  list : IsDlist s.handlers (cellsOf hs)
  live : ∀ a, s.handlers.node a ≠ none ↔ a ∈ hs.map Prod.fst
  owners : ∀ a, a ∈ hs.map Prod.fst ↔ ∃ i, s.mods i = some (some a)
  once : ∀ i j a, s.mods i = some (some a) → s.mods j = some (some a) → i = j
  busy : ∀ a c, (a, some c) ∈ hs → 0 ≤ c.fd ∧ s.data c.p = some c.d
    ∧ s.mods c.d.mod = some (some a)
  owns : s.Owns ((claimsOf hs).map Claim.fd ++ lostSockets log)
    ((claimsOf hs).map Claim.p ++ lostDatas log)
    ((claimsOf hs).map (fun c => c.d.ai) ++ lostAddrLists log)

namespace Exchanges.Holds

theorem member (h : s.Holds log (ys ++ (a, o) :: zs)) :
    ∃ next prev, s.handlers.node a = some ⟨next, prev, handlerOf o⟩ := by
  have hlist := h.list
  rw [cellsOf_append] at hlist
  exact ⟨_, _, hlist.member⟩

/-- What is claimed at one place, in front of the rest. -/
theorem owns_middle (h : s.Holds log (ys ++ (a, some c) :: zs)) :
    s.Owns (c.fd :: ((claimsOf (ys ++ zs)).map Claim.fd ++ lostSockets log))
      (c.p :: ((claimsOf (ys ++ zs)).map Claim.p ++ lostDatas log))
      (c.d.ai :: ((claimsOf (ys ++ zs)).map (fun c => c.d.ai)
        ++ lostAddrLists log)) := by
  have hmid : claimsOf (ys ++ (a, some c) :: zs)
      = claimsOf ys ++ c :: claimsOf zs := claimsOf_append ..
  have howns := h.owns
  rw [hmid] at howns
  refine howns.perm ?_ ?_ ?_
  · rw [claimsOf_append, List.map_append, List.map_append, List.map_cons,
      List.append_assoc, List.append_assoc]
    exact List.perm_middle
  · rw [claimsOf_append, List.map_append, List.map_append, List.map_cons,
      List.append_assoc, List.append_assoc]
    exact List.perm_middle
  · rw [claimsOf_append, List.map_append, List.map_append, List.map_cons,
      List.append_assoc, List.append_assoc]
    exact List.perm_middle

/-- The data of one exchange is no other's. -/
theorem apart (h : s.Holds log (ys ++ (a, some c) :: zs)) {b : Addr}
    {e : Claim} (he : (b, some e) ∈ ys ++ zs) : e.p ≠ c.p := by
  intro hep
  apply (List.nodup_cons.mp h.owns_middle.dataNodup).1
  rw [← hep]
  apply List.mem_append_left
  apply List.mem_map_of_mem
  exact List.mem_filterMap.mpr ⟨_, he, rfl⟩

/-- The end of an exchange. -/
theorem finish (h : s.Holds log (ys ++ (a, some c) :: zs)) :
    ∃ s', s.finish a = some s' ∧ s'.Holds log (ys ++ (a, none) :: zs)
      ∧ s'.mods = s.mods := by
  obtain ⟨next, prev, hn⟩ := h.member
  obtain ⟨-, hd, -⟩ := h.busy a c (by simp)
  obtain ⟨hclose, h₁⟩ := h.owns_middle.close
  obtain ⟨haddrs, h₂⟩ := h₁.freeAddrs
  obtain ⟨hdata, h₃⟩ := h₂.freeData
  have hlist := h.list
  rw [cellsOf_append] at hlist
  obtain ⟨handlers, hwrite, hlist', hsame⟩ :=
    hlist.write (w := handlerOf none)
  have hnone : claimsOf (ys ++ (a, none) :: zs) = claimsOf (ys ++ zs) := by
    rw [claimsOf_append, claimsOf_append]
    rfl
  have haddr : (ys ++ (a, (none : Option Claim)) :: zs).map Prod.fst
      = (ys ++ (a, some c) :: zs).map Prod.fst := by simp
  refine ⟨{ s with
    handlers
    opened := s.opened.erase c.fd
    ais := s.ais.erase c.d.ai
    data := Function.update s.data c.p none }, ?_, ?_, rfl⟩
  · have hwrite : s.handlers.write a ⟨-1, 0, none, nullData⟩ = some handlers :=
      hwrite
    simp only [Exchanges.finish, Option.bind_eq_bind, hn, Option.bind_some]
    have hd : s.data (handlerOf (some c)).data = some c.d := hd
    rw [hd, Option.bind_some]
    have hclose : s.close (handlerOf (some c)).fd = _ := hclose
    rw [hclose, Option.bind_some, haddrs, Option.bind_some]
    have hdata : freeData { s with
        opened := s.opened.erase c.fd, ais := s.ais.erase c.d.ai }
      (handlerOf (some c)).data = _ := hdata
    rw [hdata, Option.bind_some]
    simp only [hwrite, Option.bind_some]
    rfl
  · refine ⟨?_, fun b => ?_, fun b => ?_, h.once, fun b e he => ?_, ?_⟩
    · rw [cellsOf_append]
      exact hlist'
    · rw [haddr, ← h.live b]
      exact not_congr (hsame b)
    · rw [haddr]
      exact h.owners b
    · have he' : (b, some e) ∈ ys ++ zs := by simpa using he
      obtain ⟨hfd, hed, hmod⟩ := h.busy b e (by
        simp only [List.mem_append, List.mem_cons] at he' ⊢
        tauto)
      exact ⟨hfd, (Function.update_of_ne (h.apart he') _ _).trans hed, hmod⟩
    · rw [hnone]
      exact { h₃ with }

/-- A log that has lost as much. -/
theorem logged {log' : List ExchangeDid} (h : s.Holds log hs)
    (hsockets : lostSockets log' = lostSockets log)
    (hdatas : lostDatas log' = lostDatas log)
    (haddrs : lostAddrLists log' = lostAddrLists log) : s.Holds log' hs := by
  refine { h with owns := ?_ }
  rw [hsockets, hdatas, haddrs]
  exact h.owns

theorem called (h : s.Holds log hs) (i : Nat) :
    s.Holds (log ++ [.called i]) hs :=
  h.logged (by simp [lostSockets]) (by simp [lostDatas])
    (by simp [lostAddrLists])

/-- A socket that nobody has. -/
theorem lostSocket (h : s.Holds log hs) (hnew : fd ∉ s.opened) :
    Holds { s with opened := fd :: s.opened } (log ++ [.lostSocket fd]) hs := by
  have hdatas : lostDatas (log ++ [.lostSocket fd]) = lostDatas log := by
    simp [lostDatas]
  have haddrs : lostAddrLists (log ++ [.lostSocket fd]) = lostAddrLists log := by
    simp [lostAddrLists]
  have hsockets : lostSockets (log ++ [.lostSocket fd])
      = lostSockets log ++ [fd] := by simp [lostSockets]
  refine { h with owns := ?_ }
  rw [hdatas, haddrs, hsockets]
  refine (h.owns.open' hnew).perm ?_ (.refl _) (.refl _)
  rw [← List.append_assoc]
  exact (List.perm_append_singleton ..).symm

/-- An exchange goes on with another socket, or from connecting to reading. -/
theorem replace (h : s.Holds log (ys ++ (a, some c) :: zs)) (c' : Claim)
    (hp : c'.p = c.p) (hai : c'.d.ai = c.d.ai) (hmod : c'.d.mod = c.d.mod)
    (hfd : 0 ≤ c'.fd) {opened : List Int}
    (hopened : Owns { s with opened }
      (c'.fd :: ((claimsOf (ys ++ zs)).map Claim.fd ++ lostSockets log))
      (c.p :: ((claimsOf (ys ++ zs)).map Claim.p ++ lostDatas log))
      (c.d.ai :: ((claimsOf (ys ++ zs)).map (fun c => c.d.ai)
        ++ lostAddrLists log))) :
    ∃ handlers, s.handlers.write a (handlerOf (some c')) = some handlers
      ∧ Holds { s with
          handlers
          opened
          data := Function.update s.data c.p (some c'.d) }
        log (ys ++ (a, some c') :: zs) := by
  obtain ⟨-, hd, hown⟩ := h.busy a c (by simp)
  have hlist := h.list
  rw [cellsOf_append] at hlist
  obtain ⟨handlers, hwrite, hlist', hsame⟩ :=
    hlist.write (w := handlerOf (some c'))
  have haddr : (ys ++ (a, some c') :: zs).map Prod.fst
      = (ys ++ (a, some c) :: zs).map Prod.fst := by simp
  have hmid : claimsOf (ys ++ (a, some c') :: zs)
      = claimsOf ys ++ c' :: claimsOf zs := claimsOf_append ..
  refine ⟨handlers, hwrite, ?_, fun b => ?_, fun b => ?_, h.once,
    fun b e he => ?_, ?_⟩
  · rw [cellsOf_append]
    exact hlist'
  · rw [haddr, ← h.live b]
    exact not_congr (hsame b)
  · rw [haddr]
    exact h.owners b
  · simp only [List.mem_append, List.mem_cons, Prod.mk.injEq,
      Option.some.injEq] at he
    by_cases hbe : b = a ∧ e = c'
    · obtain ⟨rfl, rfl⟩ := hbe
      exact ⟨hfd, by rw [hp]; exact Function.update_self ..,
        by rw [hmod]; exact hown⟩
    · have he' : (b, some e) ∈ ys ++ zs := by
        simp only [List.mem_append]
        tauto
      obtain ⟨hfd, hed, hmod⟩ := h.busy b e (by
        simp only [List.mem_append, List.mem_cons] at he' ⊢
        tauto)
      exact ⟨hfd, (Function.update_of_ne (h.apart he') _ _).trans hed, hmod⟩
  · rw [hmid]
    have hdata : ∀ b, Function.update s.data c.p (some c'.d) b ≠ none
        ↔ s.data b ≠ none := by
      intro b
      by_cases e : b = c.p
      · subst e
        simp [hd]
      · rw [Function.update_of_ne e]
    have howns : Owns { s with
        opened, data := Function.update s.data c.p (some c'.d) } _ _ _ :=
      { hopened with data := fun b => (hdata b).trans (hopened.data b) }
    have hfront : ∀ {β : Type} (f : Claim → β) (rest : List β),
        (f c' :: ((claimsOf (ys ++ zs)).map f ++ rest)).Perm
          ((claimsOf ys ++ c' :: claimsOf zs).map f ++ rest) := by
      intro β f rest
      rw [claimsOf_append, List.map_append, List.map_append, List.map_cons,
        List.append_assoc, List.append_assoc]
      exact List.perm_middle.symm
    have hdatas := hfront Claim.p (lostDatas log)
    have haddrs := hfront (fun c => c.d.ai) (lostAddrLists log)
    rw [hp] at hdatas
    rw [hai] at haddrs
    exact { howns.perm (hfront Claim.fd (lostSockets log)) hdatas haddrs with }

-- ================================================================= callbacks

theorem handleIoRead (h : s.Holds log (ys ++ (a, some c) :: zs))
    (e : ExchangeReady) :
    ∃ did s', s.handleIoRead a e = some (did, s')
      ∧ s'.Holds (log ++ did) (ys ++ (a, none) :: zs) := by
  obtain ⟨next, prev, hn⟩ := h.member
  obtain ⟨-, hd, hown⟩ := h.busy a c (by simp)
  obtain ⟨s', hfinish, h', hmods⟩ := h.finish
  have hd : s.data (handlerOf (some c)).data = some c.d := hd
  simp only [Exchanges.handleIoRead, Option.bind_eq_bind, hn, Option.bind_some,
    hd, hfinish, hmods, hown]
  split
  · exact ⟨_, s', rfl, h'.called c.d.mod⟩
  · exact ⟨[], s', rfl, by rwa [List.append_nil]⟩

theorem handleIoConnect (h : s.Holds log (ys ++ (a, some c) :: zs))
    (e : ExchangeReady) (hsocket : ExchangeOp.SocketOk s e.socket) :
    ∃ did s' o, s.handleIoConnect a e = some (did, s')
      ∧ s'.Holds (log ++ did) (ys ++ (a, o) :: zs) := by
  obtain ⟨next, prev, hn⟩ := h.member
  obtain ⟨hfd, hd, hown⟩ := h.busy a c (by simp)
  have hd : s.data (handlerOf (some c)).data = some c.d := hd
  have hover : ∃ did s' o, (s.finish a).bind
        (fun s => some (([] : List ExchangeDid), s)) = some (did, s')
      ∧ s'.Holds (log ++ did) (ys ++ (a, o) :: zs) := by
    obtain ⟨s', hfinish, h', -⟩ := h.finish
    exact ⟨[], s', none, by rw [hfinish, Option.bind_some],
      by rwa [List.append_nil]⟩
  simp only [Exchanges.handleIoConnect, Option.bind_eq_bind, hn,
    Option.bind_some, hd]
  split
  · split
    · exact hover
    · cases hs : e.socket with
      | none => exact hover
      | failed fd =>
          rw [hs] at hsocket
          obtain ⟨s', hfinish, h', -⟩ := (h.lostSocket hsocket.2).finish
          exact ⟨[.lostSocket fd], s', none, by
            simp only [connect, hfinish, Option.bind_some]
            rfl, h'⟩
      | made fd =>
          rw [hs] at hsocket
          have hopened := (h.owns_middle.open' hsocket.2).perm
            (List.Perm.swap c.fd fd _) (.refl _) (.refl _)
          obtain ⟨hclose, hclosed⟩ := hopened.close
          obtain ⟨handlers, hwrite, h'⟩ := h.replace
            { c with fd, d := { c.d with left := c.d.left - 1 } }
            rfl rfl rfl hsocket.1 hclosed
          refine ⟨[], _, _, ?_, by rwa [List.append_nil]⟩
          have hclose : close { s with opened := fd :: s.opened }
            (handlerOf (some c)).fd = _ := hclose
          have hwrite : s.handlers.write a { handlerOf (some c) with fd }
            = some handlers := hwrite
          simp only [connect, hclose, Option.bind_some, hwrite]
          rfl
  · split
    · obtain ⟨handlers, hwrite, h'⟩ := h.replace
        { c with reading := true } rfl rfl rfl hfd
        { h.owns_middle with }
      let data := Function.update s.data c.p (some c.d)
      have hsame : data = s.data :=
        (Function.update_eq_iff (f := s.data) (g := s.data)).mpr
          ⟨(Eq.symm hd), fun _ _ => rfl⟩
      have h' : Holds { s with handlers, data } log
        (ys ++ (a, some { c with reading := true }) :: zs) := h'
      rw [hsame] at h'
      refine ⟨[], _, _, ?_, by rwa [List.append_nil]⟩
      have hwrite : s.handlers.write a { handlerOf (some c) with
        mode := ioHandlerRd, callback := some ioReadCallback } = some handlers :=
          hwrite
      simp only [hwrite, Option.bind_some]
      rfl
    · exact hover

-- =================================================================== modules

/-- The modules, when one of them gives its handler up. -/
theorem owners_without (h : s.Holds log (ys ++ (a, o) :: zs))
    (hi : s.mods i = some (some a)) {m : Option (Option Addr)}
    (hm : ∀ b, m ≠ some (some b)) (b : Addr) :
    b ∈ (ys ++ zs).map Prod.fst
      ↔ ∃ j, Function.update s.mods i m j = some (some b) := by
  have hnd := h.list.nodup
  rw [cellsOf_fst, List.map_append, List.map_cons] at hnd
  have hout := (List.nodup_cons.mp (List.nodup_middle.mp hnd)).1
  rw [← List.map_append] at hout
  have hall : b ∈ (ys ++ (a, o) :: zs).map Prod.fst
      ↔ b = a ∨ b ∈ (ys ++ zs).map Prod.fst := by
    simp only [List.map_append, List.map_cons, List.mem_append, List.mem_cons]
    tauto
  constructor
  · intro hb
    obtain ⟨j, hj⟩ := (h.owners b).mp (hall.mpr (.inr hb))
    refine ⟨j, ?_⟩
    rw [Function.update_of_ne, hj]
    rintro rfl
    rw [hi] at hj
    obtain rfl : a = b := by simpa using hj
    exact hout hb
  · rintro ⟨j, hj⟩
    by_cases e : j = i
    · subst e
      rw [Function.update_self] at hj
      exact absurd hj (hm b)
    · rw [Function.update_of_ne e] at hj
      refine (hall.mp ((h.owners b).mpr ⟨j, hj⟩)).resolve_left ?_
      rintro rfl
      exact e (h.once _ _ _ hj hi)

/-- The list, once a handler is out of it and freed. -/
theorem unlink (h : s.Holds log (ys ++ (a, o) :: zs)) :
    ∃ d handlers, s.handlers.remove a = some d ∧ d.free a = some handlers
      ∧ IsDlist handlers (cellsOf (ys ++ zs))
      ∧ ∀ b, handlers.node b ≠ none ↔ b ∈ (ys ++ zs).map Prod.fst := by
  have hnd := h.list.nodup
  rw [cellsOf_fst, List.map_append, List.map_cons] at hnd
  have hout := (List.nodup_cons.mp (List.nodup_middle.mp hnd)).1
  rw [← List.map_append] at hout
  have hlist := h.list
  rw [cellsOf_append] at hlist
  obtain ⟨d, hremove, hd, -, hsame⟩ := hlist.remove
  have hd : IsDlist d (cellsOf (ys ++ zs)) := by
    rw [cellsOf_append]
    exact hd
  have hin : s.handlers.node a ≠ none := (h.live a).mpr (by simp)
  obtain ⟨n, hn⟩ := Option.ne_none_iff_exists'.mp (mt (hsame a).mp hin)
  refine ⟨d, { d with node := Function.update d.node a none }, hremove,
    by simp [Dlist.free, hn], hd.update ?_ none, fun b => ?_⟩
  · rwa [cellsOf_fst]
  · show Function.update d.node a none b ≠ none ↔ _
    by_cases e : b = a
    · subst e
      simpa using hout
    · rw [Function.update_of_ne e, ne_eq, hsame b, ← ne_eq, h.live b]
      simp [e]

/-- The rest, once a handler and what it claimed are gone. -/
theorem without (h : s.Holds log (ys ++ (a, o) :: zs)) (s' : Exchanges)
    (hi : s.mods i = some (some a)) {m : Option (Option Addr)}
    (hm : ∀ b, m ≠ some (some b)) {handlers : Dlist Addr IoHandler}
    (hlist : IsDlist handlers (cellsOf (ys ++ zs)))
    (hlive : ∀ b, handlers.node b ≠ none ↔ b ∈ (ys ++ zs).map Prod.fst)
    {log' : List ExchangeDid}
    (hdata : ∀ b e, (b, some e) ∈ ys ++ zs → s'.data e.p = s.data e.p)
    (howns : s'.Owns ((claimsOf (ys ++ zs)).map Claim.fd ++ lostSockets log')
      ((claimsOf (ys ++ zs)).map Claim.p ++ lostDatas log')
      ((claimsOf (ys ++ zs)).map (fun c => c.d.ai) ++ lostAddrLists log')) :
    Holds { s' with handlers, mods := Function.update s.mods i m } log'
      (ys ++ zs) := by
  have hnd := h.list.nodup
  rw [cellsOf_fst, List.map_append, List.map_cons] at hnd
  have hout := (List.nodup_cons.mp (List.nodup_middle.mp hnd)).1
  rw [← List.map_append] at hout
  refine ⟨hlist, hlive, h.owners_without hi hm, fun j k b hj hk => ?_,
    fun b e he => ?_, { howns with }⟩
  · have hold : ∀ {j}, Function.update s.mods i m j = some (some b) →
        s.mods j = some (some b) := by
      intro j hj
      by_cases e : j = i
      · subst e
        rw [Function.update_self] at hj
        exact absurd hj (hm b)
      · rwa [Function.update_of_ne e] at hj
    exact h.once _ _ _ (hold hj) (hold hk)
  · obtain ⟨hfd, hed, hmod⟩ := h.busy b e (by
      simp only [List.mem_append, List.mem_cons] at he ⊢
      tauto)
    refine ⟨hfd, (hdata b e he).trans hed, ?_⟩
    show Function.update s.mods i m e.d.mod = _
    rw [Function.update_of_ne, hmod]
    intro hmi
    rw [hmi, hi] at hmod
    obtain rfl : a = b := by simpa using hmod
    exact hout (List.mem_map.mpr ⟨_, he, rfl⟩)

/-- A handler that is dropped; its module has no handler then, or is gone. -/
theorem drop (h : s.Holds log (ys ++ (a, o) :: zs))
    (hi : s.mods i = some (some a)) (frees : Bool) :
    ∃ lost s', s.drop a frees = some (lost, s') ∧ s'.mods = s.mods
      ∧ ∀ m : Option (Option Addr), (∀ b, m ≠ some (some b)) →
        Holds { s' with mods := Function.update s.mods i m } (log ++ lost)
          (ys ++ zs) := by
  obtain ⟨d, handlers, hremove, hfree, hlist, hlive⟩ := h.unlink
  obtain ⟨next, prev, hn⟩ := h.member
  cases o with
  | none =>
      have hnull : s.data (handlerOf none).data = none := by
        by_contra hne
        exact h.owns.null ((h.owns.data _).mp hne)
      have hclaims : claimsOf (ys ++ (a, none) :: zs) = claimsOf (ys ++ zs) := by
        rw [claimsOf_append, claimsOf_append]
        rfl
      have howns := h.owns
      rw [hclaims] at howns
      refine ⟨[], { s with handlers }, ?_, rfl, fun m hm => ?_⟩
      · cases frees with
        | true =>
            simp only [Exchanges.drop, Option.bind_eq_bind, hn,
              Option.bind_some, hnull, hremove]
            simp [handlerOf, Exchanges.freeData, hfree]
        | false =>
            simp only [Exchanges.drop, Option.bind_eq_bind, hn,
              Option.bind_some, hnull, hremove]
            simp [handlerOf, hfree]
      · rw [List.append_nil]
        exact h.without s hi hm hlist hlive (fun _ _ _ => rfl) howns
  | some c =>
      obtain ⟨hfd, hd, -⟩ := h.busy a c (by simp)
      have hd : s.data (handlerOf (some c)).data = some c.d := hd
      have hopen : (handlerOf (some c)).fd ≠ -1 := by
        show c.fd ≠ -1
        omega
      have hmiddle : Owns { s with handlers := d } _ _ _ :=
        { h.owns_middle with }
      have hback : ∀ {β : Type} (x : β) (l r : List β),
          (x :: (l ++ r)).Perm (l ++ (r ++ [x])) := by
        intro β x l r
        rw [← List.append_assoc]
        exact (List.perm_append_singleton ..).symm
      cases frees with
      | true =>
          obtain ⟨hdata, h₁⟩ := hmiddle.freeData
          obtain ⟨hclose, h₂⟩ := h₁.close
          refine ⟨[.lostAddrs c.d.ai], { s with
            handlers
            opened := s.opened.erase c.fd
            data := Function.update s.data c.p none }, ?_, rfl,
            fun m hm => ?_⟩
          · have hdata : freeData { s with handlers := d }
              (handlerOf (some c)).data = _ := hdata
            simp only [Exchanges.drop, Option.bind_eq_bind, hn,
              Option.bind_some, hd, hremove, if_true, hdata, if_pos hopen]
            have hclose : close { s with
                handlers := d, data := Function.update s.data c.p none }
              (handlerOf (some c)).fd = _ := hclose
            rw [hclose, Option.bind_some]
            simp only [hfree, Option.bind_some]
            rfl
          · refine h.without _ hi hm hlist hlive (fun b e he =>
              Function.update_of_ne (h.apart he) _ _) ?_
            rw [show lostSockets (log ++ [.lostAddrs c.d.ai]) = lostSockets log
                by simp [lostSockets],
              show lostDatas (log ++ [.lostAddrs c.d.ai]) = lostDatas log
                by simp [lostDatas],
              show lostAddrLists (log ++ [.lostAddrs c.d.ai])
                = lostAddrLists log ++ [c.d.ai] by simp [lostAddrLists]]
            exact { h₂.perm (.refl _) (.refl _) (hback ..) with }
      | false =>
          obtain ⟨hclose, h₁⟩ := hmiddle.close
          refine ⟨[.lostData c.p, .lostAddrs c.d.ai], { s with
            handlers
            opened := s.opened.erase c.fd }, ?_, rfl, fun m hm => ?_⟩
          · simp only [Exchanges.drop, Option.bind_eq_bind, hn,
              Option.bind_some, hd, hremove, Bool.false_eq_true, if_false,
              if_pos hopen]
            have hclose : close { s with handlers := d }
              (handlerOf (some c)).fd = _ := hclose
            rw [hclose, Option.bind_some]
            simp only [hfree, Option.bind_some]
            rfl
          · refine h.without { s with opened := s.opened.erase c.fd }
              hi hm hlist hlive (fun _ _ _ => rfl) ?_
            rw [show lostSockets (log ++ [.lostData c.p, .lostAddrs c.d.ai])
                = lostSockets log by simp [lostSockets],
              show lostDatas (log ++ [.lostData c.p, .lostAddrs c.d.ai])
                = lostDatas log ++ [c.p] by simp [lostDatas],
              show lostAddrLists (log ++ [.lostData c.p, .lostAddrs c.d.ai])
                = lostAddrLists log ++ [c.d.ai] by simp [lostAddrLists]]
            exact { h₁.perm (.refl _) (hback ..) (hback ..) with }

/-- A new exchange, once its handler is in the list. -/
theorem began (h : s.Holds log hs) (hi : s.mods i = some none)
    (hfree : s.handlers.node a = none) {c : Claim} (hfd : 0 ≤ c.fd)
    (hopened : c.fd ∉ s.opened) (hdata : s.data c.p = none)
    (hnull : c.p ≠ nullData) (hais : c.d.ai ∉ s.ais) (hmod : c.d.mod = i) :
    ∃ handlers, (s.handlers.create a (handlerOf (some c))).push a
        = some handlers
      ∧ Holds ⟨handlers, c.fd :: s.opened,
          Function.update s.data c.p (some c.d), c.d.ai :: s.ais,
          Function.update s.mods i (some (some a))⟩ log
        (hs ++ [(a, some c)]) := by
  have hout : a ∉ hs.map Prod.fst := fun hin => (h.live a).mpr hin hfree
  have hcells : a ∉ (cellsOf hs).map Prod.fst := by rwa [cellsOf_fst]
  obtain ⟨handlers, hpush, hlist, -, hsame⟩ := IsDlist.push
    (h.list.update hcells (some ⟨none, none, handlerOf (some c)⟩))
    (Function.update_self ..) hcells
  have hall : ∀ b, b ∈ (hs ++ [(a, some c)]).map Prod.fst
      ↔ b = a ∨ b ∈ hs.map Prod.fst := by
    intro b
    simp only [List.map_append, List.map_cons, List.map_nil, List.mem_append,
      List.mem_singleton]
    tauto
  have hnew : c.p ∉ (claimsOf hs).map Claim.p ++ lostDatas log :=
    fun hin => (h.owns.data c.p).mpr hin hdata
  have hclaims : claimsOf (hs ++ [(a, some c)]) = claimsOf hs ++ [c] := by
    rw [claimsOf_append]
    rfl
  have hmods : ∀ {j b}, Function.update s.mods i (some (some a)) j
      = some (some b) → (j = i ∧ b = a) ∨ (j ≠ i ∧ s.mods j = some (some b)) := by
    intro j b hj
    by_cases e : j = i
    · subst e
      rw [Function.update_self] at hj
      exact .inl ⟨rfl, by simpa using hj.symm⟩
    · rw [Function.update_of_ne e] at hj
      exact .inr ⟨e, hj⟩
  refine ⟨handlers, hpush, ?_, fun b => ?_, fun b => ?_, ?_, ?_, ?_⟩
  · rw [cellsOf_append]
    exact hlist
  · rw [hall, ← h.live b, ne_eq, hsame]
    by_cases e : b = a <;> simp [e]
  · rw [hall, h.owners b]
    constructor
    · rintro (rfl | ⟨j, hj⟩)
      · exact ⟨i, Function.update_self ..⟩
      · refine ⟨j, ?_⟩
        show Function.update s.mods i _ j = _
        rw [Function.update_of_ne, hj]
        rintro rfl
        rw [hi] at hj
        simp at hj
    · rintro ⟨j, hj⟩
      exact (hmods hj).imp (·.2) fun hj => ⟨j, hj.2⟩
  · intro j k b hj hk
    rcases hmods hj with ⟨rfl, rfl⟩ | ⟨-, hj'⟩
    · rcases hmods hk with ⟨rfl, -⟩ | ⟨-, hk'⟩
      · rfl
      · exact absurd ((h.owners _).mpr ⟨k, hk'⟩) hout
    · rcases hmods hk with ⟨rfl, rfl⟩ | ⟨-, hk'⟩
      · exact absurd ((h.owners _).mpr ⟨j, hj'⟩) hout
      · exact h.once j k b hj' hk'
  · intro b e he
    rcases List.mem_append.mp he with he | he
    · obtain ⟨hfd, hed, hown⟩ := h.busy b e he
      refine ⟨hfd, ?_, ?_⟩
      · show Function.update s.data c.p (some c.d) e.p = _
        rw [Function.update_of_ne, hed]
        intro hep
        rw [hep, hdata] at hed
        cases hed
      · show Function.update s.mods i (some (some a)) e.d.mod = _
        rw [Function.update_of_ne, hown]
        intro hmi
        rw [hmi, hi] at hown
        simp at hown
    · obtain ⟨rfl, hec⟩ := Prod.mk.inj (List.mem_singleton.mp he)
      obtain rfl := Option.some.inj hec
      exact ⟨hfd, Function.update_self .., by
        rw [hmod]
        exact Function.update_self ..⟩
  · rw [hclaims]
    have hback : ∀ {β : Type} (f : Claim → β) (r : List β),
        (f c :: ((claimsOf hs).map f ++ r)).Perm
          ((claimsOf hs ++ [c]).map f ++ r) := by
      intro β f r
      rw [List.map_append, List.append_assoc]
      exact List.perm_middle.symm
    refine ⟨(h.owns.opened.cons c.fd).trans (hback ..),
      List.nodup_cons.mpr ⟨hopened, h.owns.openedNodup⟩, fun b => ?_,
      (hback Claim.p _).nodup_iff.mp (List.nodup_cons.mpr
        ⟨hnew, h.owns.dataNodup⟩), ?_,
      (h.owns.ais.cons c.d.ai).trans (hback (fun c => c.d.ai) _),
      List.nodup_cons.mpr ⟨hais, h.owns.aisNodup⟩⟩
    · rw [← (hback Claim.p _).mem_iff, List.mem_cons, ← h.owns.data b]
      show Function.update s.data c.p (some c.d) b ≠ none ↔ _
      by_cases e : b = c.p
      · subst e
        simp
      · rw [Function.update_of_ne e]
        exact (or_iff_right e).symm
    · intro hin
      rcases List.mem_cons.mp ((hback Claim.p _).mem_iff.mpr hin) with hin | hin
      · exact hnull hin.symm
      · exact h.owns.null hin

/-- `monikor_net_exchange`, and its handler in the list if there is one. -/
theorem netExchange (h : s.Holds log hs) (hi : s.mods i = some none)
    {e : ExchangeStart} (he : ExchangeOp.StartOk s e)
    (hresolves : ExchangeOp.Resolves e) :
    ∃ did o s', s.netExchange i e = some (did, o, s')
      ∧ (o = none ∧ s'.Holds (log ++ did) hs
        ∨ ∃ a c handlers, o = some a ∧ s'.handlers.push a = some handlers
          ∧ Holds { s' with
              handlers
              mods := Function.update s'.mods i (some (some a)) }
            (log ++ did) (hs ++ [(a, some c)])) := by
  obtain ⟨hdata, hais, hsocket, hhandler⟩ := he
  have hkept : s.Holds (log ++ []) hs := by rwa [List.append_nil]
  cases hp : e.data with
  | none =>
      refine ⟨[], none, s, ?_, .inl ⟨rfl, hkept⟩⟩
      simp only [Exchanges.netExchange, hp]
  | some p =>
      obtain ⟨ai, hai⟩ :=
        Option.isSome_iff_exists.mp (hresolves (by rw [hp]; rfl))
      have hais := hais ai hai
      obtain ⟨hnull, hfree⟩ := hdata p hp
      -- what is freed again is as it was
      have hback : Function.update (Function.update s.data p
          (some ⟨i, ai, e.addresses⟩)) p none = s.data := by
        rw [Function.update_idem]
        exact Function.update_eq_iff.mpr ⟨hfree.symm, fun _ _ => rfl⟩
      cases hs : e.socket with
      | none =>
          refine ⟨[], none, s, ?_, .inl ⟨rfl, hkept⟩⟩
          simp [Exchanges.netExchange, hp, hai, hs, connect, Exchanges.freeAddrs,
            Exchanges.freeData, hnull, hback]
      | failed fd =>
          rw [hs] at hsocket
          refine ⟨[.lostSocket fd], none, { s with opened := fd :: s.opened }, ?_,
            .inl ⟨rfl, h.lostSocket hsocket.2⟩⟩
          simp [Exchanges.netExchange, hp, hai, hs, connect, Exchanges.freeAddrs,
            Exchanges.freeData, hnull, hback]
      | made fd =>
          rw [hs] at hsocket
          cases ha : e.handler with
          | none =>
              refine ⟨[], none, s, ?_, .inl ⟨rfl, hkept⟩⟩
              simp [Exchanges.netExchange, hp, hai, hs, ha, connect,
                Exchanges.freeAddrs, Exchanges.freeData, Exchanges.close, hnull,
                hback]
          | some a =>
              let c : Claim := ⟨fd, false, p, ⟨i, ai, e.addresses⟩⟩
              obtain ⟨handlers, hpush, h'⟩ := h.began (c := c) hi
                (hhandler a ha) hsocket.1 hsocket.2 hfree hnull hais rfl
              refine ⟨[], some a, ⟨_, fd :: s.opened, Function.update s.data p
                (some c.d), ai :: s.ais, s.mods⟩, ?_,
                .inr ⟨a, c, handlers, rfl, hpush, ?_⟩⟩
              · simp only [Exchanges.netExchange, hp, hai, hs, connect, ha]
                rfl
              · rw [List.append_nil]
                exact h'

/-- A name that is not resolved is the one fault of a new exchange. -/
theorem netExchange_faults_iff (h : s.Holds log hs)
    (hi : s.mods i = some none) {e : ExchangeStart}
    (he : ExchangeOp.StartOk s e) :
    s.netExchange i e = none ↔ ¬ ExchangeOp.Resolves e := by
  constructor
  · intro hnone hresolves
    obtain ⟨did, o, s', hrun, -⟩ := h.netExchange hi he hresolves
    rw [hnone] at hrun
    cases hrun
  · intro hfails
    unfold Exchanges.netExchange
    unfold ExchangeOp.Resolves at hfails
    cases hp : e.data with
    | none => exact absurd (fun hsome => nomatch hp ▸ hsome) hfails
    | some p =>
        cases hai : e.ai with
        | none => rfl
        | some ai => exact absurd (fun _ => by rw [hai]; rfl) hfails

/-- A module that has no handler, before and after. -/
theorem withMod (h : s.Holds log hs) (hi : ∀ b, s.mods i ≠ some (some b))
    {m : Option (Option Addr)} (hm : ∀ b, m ≠ some (some b)) :
    Holds { s with mods := Function.update s.mods i m } log hs := by
  have hmods : ∀ {j b}, Function.update s.mods i m j = some (some b)
      ↔ s.mods j = some (some b) := by
    intro j b
    by_cases e : j = i
    · subst e
      rw [Function.update_self]
      exact iff_of_false (hm b) (hi b)
    · rw [Function.update_of_ne e]
  exact { h with
    owners := fun b => by
      rw [h.owners b]
      exact exists_congr fun j => hmods.symm
    once := fun j k b hj hk => h.once j k b (hmods.mp hj) (hmods.mp hk)
    busy := fun b e he =>
      ⟨(h.busy b e he).1, (h.busy b e he).2.1, hmods.mpr (h.busy b e he).2.2⟩
    owns := { h.owns with } }

/-- A module without its handler, and without itself if it is cleaned up. -/
theorem dropHeld (h : s.Holds log hs) {held : Option Addr}
    (hi : s.mods i = some held) (frees : Bool) :
    ∃ lost s' hs', s.dropHeld frees held = some (lost, s')
      ∧ s'.mods = s.mods
      ∧ ∀ m : Option (Option Addr), (∀ b, m ≠ some (some b)) →
        Holds { s' with mods := Function.update s.mods i m } (log ++ lost)
          hs' := by
  cases held with
  | none =>
      refine ⟨[], s, hs, rfl, rfl, fun m hm => ?_⟩
      rw [List.append_nil]
      exact h.withMod (by simp [hi]) hm
  | some a =>
      obtain ⟨x, hx, rfl⟩ := List.mem_map.mp ((h.owners a).mpr ⟨i, hi⟩)
      obtain ⟨ys, zs, rfl⟩ := List.append_of_mem hx
      obtain ⟨lost, s', hrun, hmods, h'⟩ := h.drop hi frees
      exact ⟨lost, s', ys ++ zs, hrun, hmods, h'⟩

end Exchanges.Holds

-- ===================================================================== runs

end Monikor
