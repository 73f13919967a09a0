/-
Whom the varnish module kills.

The agent waits for a process when it hears that it has exited, and sets
the command's PROCESS_DONE bit in the same call. So the bit says whether
the command's process is still a child (`Varnish.Tracked`), and a reap is
safe exactly when the bit is clear. A reaper is registered by the reap and
goes with the wait, so the processes the reapers are for are children as
long as only children are reaped.
-/
import Monikor.IoHandler.Proofs.Process
import Monikor.Modules.Varnish
import Monikor.Utils.Proofs.Command

namespace Monikor

variable {s : Varnish} {h : CmdHandler} {pid status : Int} {memory : Bool}
  {o : CommandStart} {junk : Nat → UInt8}

/-- The process of a command has exited, by its state byte. -/
def commandProcessDone (state : UInt8) : Bool :=
  state &&& commandStateProcessDone != 0

@[simp] theorem commandProcessDone_stateOf {p r f : Bool} :
    commandProcessDone (stateOf p r f) = p := by
  cases p <;> cases r <;> cases f <;> rfl

namespace Varnish

/-- The command the module runs. -/
def command (s : Varnish) : Option CmdHandler := s.mod.bind (·.cmdHandler)

/-- Every kill went to a child that was not waited for, and so will every
reaper's process be waited for. -/
structure ReapsChildren (s : Varnish) : Prop where
  kills : ∀ k ∈ s.kills, k.child = true
  reapers : ∀ x ∈ s.handlers,
    x.2.callback = some .reapProcessCallback → x.2.pid ∈ s.children

/-- The command is reaped before its process has exited, if there is memory
to reap it: by a poll that finds it unfinished, or by the cleanup. -/
def ReapsInTime (op : VarnishOp) (s : Varnish) : Prop :=
  match op with
  | .poll memory _ => ∀ h, s.command = some h → memory = true →
      commandFinished h.cmd.state = false →
      commandProcessDone h.cmd.state = false
  | .cleanup memory => ∀ h, s.command = some h → memory = true →
      commandProcessDone h.cmd.state = false
  | _ => True

/-- Addresses are handed out once. -/
structure Registered (s : Varnish) : Prop where
  old : ∀ x ∈ s.handlers, x.1 < s.brk
  nodup : (s.handlers.map Prod.fst).Nodup

/-- The handler of the command is registered, and its state byte says
whether its process is a child. -/
structure TracksChild (s : Varnish) (h : CmdHandler) : Prop where
  handler : ∃ d, (h.addr, ⟨h.cmd.pid, some .handleProcessExit, d⟩) ∈ s.handlers
  state : ∃ r f,
    h.cmd.state = stateOf (decide (h.cmd.pid ∉ s.children)) r f

structure Tracked (s : Varnish) : Prop extends Registered s where
  command : ∀ h, s.command = some h → s.TracksChild h

-- ============================================================== the handlers

theorem Registered.register (hs : s.Registered) (v : ProcessHandler) :
    (s.registerProcess v).Registered where
  old := by
    intro x hx
    rcases List.mem_append.mp hx with hx | hx
    · exact Nat.lt_succ_of_lt (hs.old x hx)
    · obtain rfl := List.mem_singleton.mp hx
      exact Nat.lt_succ_self _
  nodup := by
    show ((s.handlers ++ [(s.brk, v)]).map Prod.fst).Nodup
    rw [List.map_append, List.nodup_append]
    refine ⟨hs.nodup, List.nodup_singleton _, ?_⟩
    intro a ha b hb
    obtain ⟨x, hx, rfl⟩ := List.mem_map.mp ha
    obtain rfl := List.mem_singleton.mp hb
    exact (hs.old x hx).ne

theorem Registered.unregister (hs : s.Registered) (a : Addr) :
    (s.unregisterProcess a).Registered where
  old := fun x hx => hs.old x (List.mem_of_mem_filter hx)
  nodup := List.Nodup.sublist (List.filter_sublist.map _) hs.nodup

theorem Registered.reap (hs : s.Registered) (pid : Int) (memory : Bool) :
    (s.reapProcess pid memory).Registered := by
  unfold reapProcess
  split
  · exact ⟨(hs.register _).old, (hs.register _).nodup⟩
  · exact hs

theorem ReapsChildren.unregister (hs : s.ReapsChildren) (a : Addr) :
    (s.unregisterProcess a).ReapsChildren :=
  ⟨hs.kills, fun x hx => hs.reapers x (List.mem_of_mem_filter hx)⟩

/-- A reap of a child is safe, and so is one there is no memory for. -/
theorem ReapsChildren.reap (hs : s.ReapsChildren)
    (hpid : memory = true → pid ∈ s.children) :
    (s.reapProcess pid memory).ReapsChildren := by
  unfold reapProcess
  cases memory with
  | false => exact hs
  | true =>
      refine ⟨?_, ?_⟩
      · intro k hk
        rcases List.mem_append.mp hk with hk | hk
        · exact hs.kills k hk
        · obtain rfl := List.mem_singleton.mp hk
          exact decide_eq_true (hpid rfl)
      · intro x hx hcb
        rcases List.mem_append.mp hx with hx | hx
        · exact hs.reapers x hx hcb
        · obtain rfl := List.mem_singleton.mp hx
          exact hpid rfl

/-- No other reap is: its kill is in the log. -/
theorem child_of_reap (memory : Bool)
    (hk : ∀ k ∈ (s.reapProcess pid memory).kills, k.child = true)
    (hmem : memory = true) : pid ∈ s.children := by
  subst hmem
  exact of_decide_eq_true
    (hk ⟨pid, _⟩ (List.mem_append_right _ (List.mem_singleton_self _)))

-- ================================================================ a command

/-- Starting a command kills nothing. -/
theorem commandStart_kills (s : Varnish) (o : CommandStart) :
    (s.commandStart o).kills = s.kills := by
  unfold commandStart
  split
  · rfl
  · split <;> rfl

/-- A poll leaves the module with the command it has started, if any. -/
theorem commandStart_spec (o : CommandStart) (hs : s.Registered)
    (hp : s.ReapsChildren) :
    (s.commandStart o).Tracked ∧ (s.commandStart o).ReapsChildren := by
  unfold commandStart
  cases hfork : s.forked o with
  | none =>
      exact ⟨⟨⟨hs.old, hs.nodup⟩, fun h hc => absurd hc (by simp [command])⟩,
        ⟨hp.kills, hp.reapers⟩⟩
  | some pid =>
      have hgrow : ∀ x ∈ s.handlers, x.2.callback = some .reapProcessCallback →
          x.2.pid ∈ pid :: s.children :=
        fun x hx hcb => List.mem_cons_of_mem _ (hp.reapers x hx hcb)
      have hstart : (startCommand o).map (·.pid) = some pid := by
        unfold forked at hfork
        split at hfork
        · exact absurd hfork (by simp)
        · rename_i cmd hcmd
          split at hfork
          · exact absurd hfork (by simp)
          · rw [hcmd]
            exact hfork
      cases hexec : commandExec o (some 0) none with
      | none =>
          exact ⟨⟨⟨hs.old, hs.nodup⟩, fun h hc => absurd hc (by simp [command])⟩,
            ⟨hp.kills, hgrow⟩⟩
      | some cmd =>
          obtain ⟨pid', fd, hpid', rfl⟩ := commandExec_eq_some hexec
          obtain rfl : pid' = pid := Option.some.inj (hpid'.symm.trans hstart)
          let v : ProcessHandler := ⟨pid', some .handleProcessExit, s.brk⟩
          have hreg := hs.register v
          refine ⟨⟨⟨hreg.old, hreg.nodup⟩, ?_⟩, ⟨hp.kills, ?_⟩⟩
          · intro h hc
            obtain rfl := Option.some.inj hc
            refine ⟨⟨s.brk, List.mem_append_right _ (List.mem_singleton_self _)⟩,
              false, false, ?_⟩
            have hin : decide (pid' ∉ pid' :: s.children) = false := by simp
            show (0 : UInt8) = stateOf (decide (pid' ∉ pid' :: s.children)) _ _
            rw [hin]
            rfl
          · intro x hx hcb
            rcases List.mem_append.mp hx with hx | hx
            · exact hgrow x hx hcb
            · obtain rfl := List.mem_singleton.mp hx
              exact absurd hcb (by simp)

/-- Output does not touch the processes. -/
theorem output_spec (junk : Nat → UInt8) {mod : VarnishModule}
    (reads : List ReadResult)
    (hmod : s.mod = some mod) (hs : s.Tracked) (hp : s.ReapsChildren) :
    (s.output junk mod reads).Tracked
        ∧ (s.output junk mod reads).ReapsChildren := by
  unfold output
  split
  · exact ⟨hs, hp⟩
  · rename_i h hh
    split
    · exact ⟨hs, hp⟩
    · split
      · exact ⟨hs, hp⟩
      · rename_i calls cmd hrun
        have hcmd : s.command = some h := by simp [command, hmod, hh]
        obtain ⟨hreg, r, f, hstate⟩ := hs.command h hcmd
        obtain ⟨hpid, r', f', hstate'⟩ := handleCommandOutput_state hstate hrun
        refine ⟨⟨⟨hs.old, hs.nodup⟩, ?_⟩, ⟨hp.kills, hp.reapers⟩⟩
        intro h' hc
        obtain rfl := Option.some.inj hc
        refine ⟨by rw [hpid]; exact hreg, r', f', ?_⟩
        rw [hpid]
        exact hstate'

-- ================================================================= an exit

/-- A call of the given callback, of the handler at an address. -/
def calls (k : ProcessCallback) (a : Addr) (c : ExitCall) : Bool :=
  decide (c.callback = k ∧ c.handler = a)

/-- One command after another: the same, but that the exit may be noted. -/
structure Noted (h h' : CmdHandler) (exited : Bool) : Prop where
  addr : h'.addr = h.addr
  pid : h'.cmd.pid = h.cmd.pid
  state : ∀ p r f, h.cmd.state = stateOf p r f →
    ∃ f', h'.cmd.state = stateOf (p || exited) r f'

theorem Noted.refl (h : CmdHandler) : Noted h h false where
  addr := rfl
  pid := rfl
  state := fun p r f hst => ⟨f, by simpa using hst⟩

theorem Noted.trans {h h' h'' : CmdHandler} {b c : Bool} (hb : Noted h h' b)
    (hc : Noted h' h'' c) : Noted h h'' (b || c) where
  addr := hc.addr.trans hb.addr
  pid := hc.pid.trans hb.pid
  state := by
    intro p r f hst
    obtain ⟨f₁, hst₁⟩ := hb.state p r f hst
    obtain ⟨f₂, hst₂⟩ := hc.state _ r f₁ hst₁
    exact ⟨f₂, by rw [hst₂, Bool.or_assoc]⟩

/-- One callback, on the command. -/
theorem answerCall_command (c : ExitCall) {h' : CmdHandler}
    (hc : (s.answerCall c).command = some h') :
    ∃ h, s.command = some h
      ∧ Noted h h' (calls .handleProcessExit h.addr c) := by
  cases hcb : c.callback with
  | reapProcessCallback =>
      have hsame : (s.answerCall c).command = s.command := by
        unfold answerCall
        rw [hcb]
        rfl
      refine ⟨h', hsame ▸ hc, ?_⟩
      have hno : calls .handleProcessExit h'.addr c = false := by
        simp [calls, hcb]
      rw [hno]
      exact .refl h'
  | handleProcessExit =>
      unfold answerCall at hc
      simp only [hcb, command] at hc
      cases hm : s.mod with
      | none => simp [hm] at hc
      | some mod =>
          cases hh : mod.cmdHandler with
          | none => simp [hm, hh] at hc
          | some h =>
              refine ⟨h, by simp [command, hm, hh], ?_⟩
              simp only [hm, hh, Option.map_some, Option.bind_some,
                Option.some.injEq] at hc
              subst hc
              by_cases ha : h.addr = c.handler
              · have hyes : calls .handleProcessExit h.addr c = true := by
                  simp [calls, hcb, ha]
                rw [if_pos ha, hyes]
                refine ⟨rfl, (handleProcessExit_keeps ..).1, fun p r f hst => ?_⟩
                obtain ⟨bad, hbad⟩ := handleProcessExit_state c.status hst
                exact ⟨f || bad, by simpa using hbad⟩
              · have hno : calls .handleProcessExit h.addr c = false := by
                  simp [calls, hcb, Ne.symm ha]
                rw [if_neg ha, hno]
                exact .refl h

/-- A sequence of callbacks, on the command: its exit is noted if it is
among those called. -/
theorem foldl_answerCall_command (cs : List ExitCall) :
    ∀ (s : Varnish) {h' : CmdHandler},
      (cs.foldl answerCall s).command = some h' →
      ∃ h, s.command = some h
          ∧ Noted h h' (cs.any (calls .handleProcessExit h.addr)) := by
  induction cs with
  | nil => exact fun s h' hc => ⟨h', hc, .refl h'⟩
  | cons c cs ih =>
      intro s h' hc
      obtain ⟨h₁, hc₁, hnoted₁⟩ := ih (s.answerCall c) hc
      obtain ⟨h, hc₀, hnoted₀⟩ := answerCall_command c hc₁
      refine ⟨h, hc₀, ?_⟩
      have htrans := hnoted₀.trans hnoted₁
      rw [hnoted₀.addr] at htrans
      exact htrans

/-- One callback, on everything else: a reaper goes. -/
theorem answerCall_handlers (c : ExitCall) (s : Varnish) :
    (s.answerCall c).handlers
        = s.handlers.filter (fun x => !calls .reapProcessCallback x.1 c)
      ∧ (s.answerCall c).children = s.children
      ∧ (s.answerCall c).kills = s.kills ∧ (s.answerCall c).brk = s.brk := by
  cases hcb : c.callback with
  | handleProcessExit => simp [answerCall, hcb, calls]
  | reapProcessCallback =>
      refine ⟨?_, ?_⟩
      · unfold answerCall
        simp only [hcb, unregisterProcess]
        apply List.filter_congr
        intro x _
        simp [calls, hcb, eq_comm]
      · simp [answerCall, hcb, unregisterProcess]

/-- A sequence of callbacks, on everything else. -/
theorem foldl_answerCall_handlers (cs : List ExitCall) :
    ∀ s : Varnish,
      (cs.foldl answerCall s).handlers
          = s.handlers.filter (fun x => !cs.any (calls .reapProcessCallback x.1))
        ∧ (cs.foldl answerCall s).children = s.children
        ∧ (cs.foldl answerCall s).kills = s.kills
        ∧ (cs.foldl answerCall s).brk = s.brk := by
  induction cs with
  | nil => exact fun s => ⟨by simp, rfl, rfl, rfl⟩
  | cons c cs ih =>
      intro s
      obtain ⟨hhand, hchild, hkills, hbrk⟩ := ih (s.answerCall c)
      obtain ⟨hhand₀, hchild₀, hkills₀, hbrk₀⟩ := answerCall_handlers c s
      refine ⟨?_, hchild.trans hchild₀, hkills.trans hkills₀,
        hbrk.trans hbrk₀⟩
      rw [List.foldl_cons, hhand, hhand₀, List.filter_filter]
      apply List.filter_congr
      intro x _
      rw [List.any_cons, Bool.not_or, Bool.and_comm]

/-- Who is called when a process exits. -/
theorem any_calls_iff {xs : List (Addr × ProcessHandler)} {k : ProcessCallback}
    {a : Addr} :
    (xs.filterMap (dueCall pid status)).any (calls k a) = true
      ↔ ∃ x ∈ xs, x.1 = a ∧ x.2.pid = pid ∧ x.2.callback = some k := by
  constructor
  · intro h
    obtain ⟨c, hc, hcall⟩ := List.any_eq_true.mp h
    obtain ⟨x, hx, hdue⟩ := List.mem_filterMap.mp hc
    obtain ⟨hk, ha⟩ := of_decide_eq_true hcall
    unfold dueCall at hdue
    split at hdue
    · obtain ⟨k', hk', rfl⟩ := Option.map_eq_some_iff.mp hdue
      exact ⟨x, hx, ha, ‹_›, hk'.trans (congrArg some hk)⟩
    · exact absurd hdue (by simp)
  · intro h
    obtain ⟨x, hx, rfl, hpid, hcb⟩ := h
    refine List.any_eq_true.mpr ⟨⟨x.1, k, status⟩, ?_, ?_⟩
    · exact List.mem_filterMap.mpr ⟨x, hx, by simp [dueCall, hpid, hcb]⟩
    · simp [calls]

/-- The process is no child once it has been waited for. -/
theorem waitPid_eq (s : Varnish) (pid status : Int) :
    ∃ st, s.waitPid pid status
      = (st, { s with children := s.children.filter (· ≠ pid) }) := by
  unfold waitPid
  split
  · exact ⟨status, rfl⟩
  · rename_i hpid
    have hsame : s.children.filter (· ≠ pid) = s.children := by
      apply List.filter_eq_self.mpr
      intro q hq
      have hne : q ≠ pid := fun e => hpid (e ▸ hq)
      simpa using hne
    exact ⟨0, by rw [hsame]⟩

/-- Two handlers at one address are one. -/
theorem Registered.handler_eq (hs : s.Registered)
    {x y : Addr × ProcessHandler} (hx : x ∈ s.handlers) (hy : y ∈ s.handlers)
    (hxy : x.1 = y.1) : x = y :=
  List.inj_on_of_nodup_map hs.nodup hx hy hxy

/-- The exit of a process: its command notes it, its reapers go. -/
theorem processExited_spec (pid status : Int) (hs : s.Tracked)
    (hp : s.ReapsChildren) :
    (s.processExited pid status).Tracked
      ∧ (s.processExited pid status).ReapsChildren := by
  by_cases hany : s.handlers.any (·.2.pid == pid) = true
  · obtain ⟨st, hwait⟩ := waitPid_eq s pid status
    let s₁ := { s with children := s.children.filter (· ≠ pid) }
    let cs := s.handlers.filterMap (dueCall pid st)
    have heq : s.processExited pid status = cs.foldl answerCall s₁ := by
      unfold processExited
      rw [if_pos hany, hwait]
    obtain ⟨hhand, hchild, hkills, hbrk⟩ := foldl_answerCall_handlers cs s₁
    rw [← heq] at hhand hchild hkills hbrk
    have hsub : (s.processExited pid status).handlers.Sublist s.handlers := by
      rw [hhand]
      exact List.filter_sublist
    refine ⟨⟨⟨?_, ?_⟩, ?_⟩, ⟨?_, ?_⟩⟩
    · rw [hbrk]
      exact fun x hx => hs.old x (hsub.subset hx)
    · exact List.Nodup.sublist (hsub.map _) hs.nodup
    · intro h' hc
      rw [heq] at hc
      obtain ⟨h, hc₀, hnoted⟩ := foldl_answerCall_command cs s₁ hc
      obtain ⟨⟨d, hreg⟩, r, f, hstate⟩ := hs.command h hc₀
      -- the command is called exactly if it is the one that has exited
      have hcalled : cs.any (calls .handleProcessExit h.addr)
          = decide (h.cmd.pid = pid) := by
        rw [Bool.eq_iff_iff, any_calls_iff, decide_eq_true_iff]
        constructor
        · intro hx
          obtain ⟨x, hx, haddr, hpid, -⟩ := hx
          rw [hs.handler_eq hx hreg haddr] at hpid
          exact hpid
        · exact fun hpid => ⟨_, hreg, rfl, hpid, rfl⟩
      have hstays : cs.any (calls .reapProcessCallback h.addr) = false := by
        rw [← Bool.not_eq_true, any_calls_iff]
        intro hx
        obtain ⟨x, hx, haddr, -, hcb⟩ := hx
        rw [hs.handler_eq hx hreg haddr] at hcb
        exact absurd hcb (by simp)
      obtain ⟨f', hstate'⟩ := hnoted.state _ r f hstate
      refine ⟨⟨d, ?_⟩, r, f', ?_⟩
      · rw [hhand, hnoted.addr, hnoted.pid]
        exact List.mem_filter.mpr ⟨hreg, by simp [hstays]⟩
      · rw [hstate', hcalled, hnoted.pid, hchild]
        congr 1
        by_cases e : h.cmd.pid = pid <;> simp [s₁, e]
    · rw [hkills]
      exact hp.kills
    · intro x hx hcb
      rw [hhand] at hx
      obtain ⟨hx, hkeep⟩ := List.mem_filter.mp hx
      have hne : x.2.pid ≠ pid := by
        intro e
        have hgone : cs.any (calls .reapProcessCallback x.1) = true :=
          any_calls_iff.mpr ⟨x, hx, rfl, e, hcb⟩
        rw [hgone] at hkeep
        exact absurd hkeep (by simp)
      rw [hchild]
      exact List.mem_filter.mpr ⟨hp.reapers x hx hcb, by simpa using hne⟩
  · have heq : s.processExited pid status = s := by
      unfold processExited
      rw [if_neg hany]
    rw [heq]
    exact ⟨hs, hp⟩

-- ============================================================= on pointers

section Listed

variable {μ : Type} {l : HandlerList μ}

/-- A reap, on the list. -/
theorem reapProcess_listed (hl : Linked.IsDlist l.processes s.handlers)
    (hs : s.Registered) (pid : Int) :
    ∃ l', Monikor.reapProcess l pid 0 (some s.brk) = some (some l')
      ∧ Linked.IsDlist l'.processes (s.reapProcess pid true).handlers := by
  let v : ProcessHandler := ⟨pid, some .reapProcessCallback, 0⟩
  have hfresh : s.brk ∉ s.handlers.map Prod.fst := by
    intro hb
    obtain ⟨x, hx, hxb⟩ := List.mem_map.mp hb
    exact (hs.old x hx).ne hxb
  obtain ⟨d, hrun, hd, -⟩ := Linked.IsDlist.push
    (hl.update hfresh (some ⟨none, none, v⟩)) (Function.update_self ..) hfresh
  have hrun' : (l.processes.create s.brk v).push s.brk = some d := hrun
  refine ⟨{ l with processes := d }, ?_, hd⟩
  simp [Monikor.reapProcess, ioHandlerListPushProcess, processHandlerNew, hrun',
    v]

/-- An unregistration, on the list. -/
theorem unregisterProcess_listed (hl : Linked.IsDlist l.processes s.handlers)
    {a : Addr} (ha : a ∈ s.handlers.map Prod.fst) :
    ∃ l', ioHandlerListRemoveProcess l a = some l'
      ∧ Linked.IsDlist l'.processes (s.unregisterProcess a).handlers := by
  obtain ⟨⟨a, v⟩, hav, rfl⟩ := List.mem_map.mp ha
  obtain ⟨ys, zs, hsplit⟩ := List.append_of_mem hav
  rw [hsplit] at hl
  obtain ⟨d, hrun, hd, -⟩ := hl.remove
  have hnd := hl.nodup
  simp only [List.map_append, List.map_cons, List.nodup_append, List.nodup_cons,
    List.mem_cons] at hnd
  obtain ⟨-, ⟨hzs, -⟩, hys⟩ := hnd
  have hrest : (s.unregisterProcess a).handlers = ys ++ zs := by
    have hy : ys.filter (·.1 ≠ a) = ys := by
      apply List.filter_eq_self.mpr
      intro y hy
      simpa using hys y.1 (List.mem_map_of_mem hy) a (.inl rfl)
    have hz : zs.filter (·.1 ≠ a) = zs := by
      apply List.filter_eq_self.mpr
      intro z hz
      have hne : z.1 ≠ a := fun e => hzs (e ▸ List.mem_map_of_mem hz)
      simpa using hne
    unfold unregisterProcess
    simp only [hsplit, List.filter_append, hy]
    rw [List.filter_cons_of_neg (by simp), hz]
  refine ⟨{ l with processes := d }, ?_, hrest ▸ hd⟩
  simp [ioHandlerListRemoveProcess, hrun]

/-- An exit, on the list: the calls are those of the walk, where the walk
goes through. -/
theorem processExited_listed (hl : Linked.IsDlist l.processes s.handlers)
    {fuel : Nat} (hfuel : s.handlers.length < fuel)
    (hwatched : ∃ x ∈ s.handlers, x.2.pid = pid)
    (hx : ∀ x ∈ s.handlers, ¬ IsReaperOf pid x) :
    ∃ calls, Monikor.processExited fuel l pid (some (s.waitPid pid status).1)
        = some (calls, l)
      ∧ s.processExited pid status
        = calls.foldl answerCall (s.waitPid pid status).2 := by
  refine ⟨_, processExited_calls hl hwatched hfuel hx, ?_⟩
  obtain ⟨st, hwait⟩ := waitPid_eq s pid status
  have hany : s.handlers.any (·.2.pid == pid) = true := by
    obtain ⟨x, hx, hpid⟩ := hwatched
    exact List.any_eq_true.mpr ⟨x, hx, by simpa using hpid⟩
  unfold processExited
  rw [if_pos hany, hwait]
  rfl

end Listed

-- =================================================================== a step

/-- By the state byte of a command, its process is a child. -/
theorem TracksChild.done_eq_false_iff (ht : s.TracksChild h) :
    commandProcessDone h.cmd.state = false ↔ h.cmd.pid ∈ s.children := by
  obtain ⟨-, r, f, hstate⟩ := ht
  rw [hstate, commandProcessDone_stateOf]
  simp

/-- What is asked of every command is asked of the one there is. -/
theorem forall_command_iff (hsome : s.command = some h)
    {P : CmdHandler → Prop} : (∀ h', s.command = some h' → P h') ↔ P h := by
  constructor
  · exact fun hall => hall h hsome
  · intro hP h' hc
    obtain rfl := Option.some.inj (hsome.symm.trans hc)
    exact hP

/-- A poll. -/
theorem poll_spec {mod : VarnishModule} (hmod : s.mod = some mod)
    (memory : Bool) (o : CommandStart) (hs : s.Tracked) (hp : s.ReapsChildren) :
    ((s.poll mod memory o).ReapsChildren ↔ ReapsInTime (.poll memory o) s)
      ∧ (ReapsInTime (.poll memory o) s → (s.poll mod memory o).Tracked) := by
  cases hh : mod.cmdHandler with
  | none =>
      have hnone : s.command = none := by simp [command, hmod, hh]
      have heq : s.poll mod memory o = s.commandStart o := by simp [poll, hh]
      obtain ⟨hs', hp'⟩ := commandStart_spec o hs.toRegistered hp
      rw [heq]
      refine ⟨iff_of_true hp' ?_, fun _ => hs'⟩
      intro h hc
      rw [hnone] at hc
      exact absurd hc (by simp)
  | some h =>
      have hsome : s.command = some h := by simp [command, hmod, hh]
      have hdone := (hs.command h hsome).done_eq_false_iff
      have htime : ReapsInTime (.poll memory o) s ↔ (memory = true →
          commandFinished h.cmd.state = false → h.cmd.pid ∈ s.children) := by
        rw [← hdone]
        exact forall_command_iff hsome
      rw [htime]
      cases hfin : commandFinished h.cmd.state with
      | true =>
          -- nothing to reap
          have heq : s.poll mod memory o
              = (s.commandRelease h).commandStart o := by
            simp [poll, hh, hfin]
          obtain ⟨hs', hp'⟩ := commandStart_spec o
            (hs.toRegistered.unregister h.addr) (hp.unregister h.addr)
          rw [heq]
          exact ⟨iff_of_true hp' fun _ hf => absurd hf (by simp), fun _ => hs'⟩
      | false =>
          have heq : s.poll mod memory o
              = ((s.reapProcess h.cmd.pid memory).commandRelease
                h).commandStart o := by
            simp [poll, hh, hfin]
          have hreg := (hs.toRegistered.reap h.cmd.pid memory).unregister h.addr
          have hkeep : (memory = true → h.cmd.pid ∈ s.children) →
              (s.poll mod memory o).Tracked
                ∧ (s.poll mod memory o).ReapsChildren := by
            intro hpid
            obtain ⟨hs', hp'⟩ := commandStart_spec o hreg
              ((hp.reap hpid).unregister h.addr)
            rw [heq]
            exact ⟨hs', hp'⟩
          refine ⟨⟨?_, ?_⟩, fun hG => (hkeep fun hm => hG hm rfl).1⟩
          · intro hend hm _
            refine child_of_reap memory (fun k hk => ?_) hm
            apply hend.kills k
            rw [heq, commandStart_kills]
            exact hk
          · exact fun hG => (hkeep fun hm => hG hm rfl).2

/-- A cleanup. -/
theorem cleanup_spec {mod : VarnishModule} (hmod : s.mod = some mod)
    (memory : Bool) (hs : s.Tracked) (hp : s.ReapsChildren) :
    ((s.cleanup mod memory).ReapsChildren ↔ ReapsInTime (.cleanup memory) s)
      ∧ (ReapsInTime (.cleanup memory) s → (s.cleanup mod memory).Tracked) := by
  cases hh : mod.cmdHandler with
  | none =>
      have hnone : s.command = none := by simp [command, hmod, hh]
      have heq : s.cleanup mod memory = { s with mod := none } := by
        simp [cleanup, hh]
      rw [heq]
      refine ⟨iff_of_true ⟨hp.kills, hp.reapers⟩ ?_, fun _ =>
        ⟨⟨hs.old, hs.nodup⟩, fun h hc => absurd hc (by simp [command])⟩⟩
      intro h hc
      rw [hnone] at hc
      exact absurd hc (by simp)
  | some h =>
      have hsome : s.command = some h := by simp [command, hmod, hh]
      have hdone := (hs.command h hsome).done_eq_false_iff
      have htime : ReapsInTime (.cleanup memory) s
          ↔ (memory = true → h.cmd.pid ∈ s.children) := by
        rw [← hdone]
        exact forall_command_iff hsome
      have heq : s.cleanup mod memory = { (s.reapProcess h.cmd.pid
          memory).commandRelease h with mod := none } := by
        simp [cleanup, hh]
      have hreg := (hs.toRegistered.reap h.cmd.pid memory).unregister h.addr
      rw [htime, heq]
      refine ⟨⟨?_, ?_⟩, fun _ =>
        ⟨⟨hreg.old, hreg.nodup⟩, fun h hc => absurd hc (by simp [command])⟩⟩
      · exact fun hend => child_of_reap memory hend.kills
      · intro hpid
        have hp' := (hp.reap hpid).unregister h.addr
        exact ⟨hp'.kills, hp'.reapers⟩

/-- What one event needs to keep every kill on a child. -/
theorem step_reaps_iff (op : VarnishOp) (s : Varnish) (hs : s.Tracked)
    (hp : s.ReapsChildren) :
    ((Varnish.step junk op s).2.ReapsChildren ↔ ReapsInTime op s)
      ∧ (ReapsInTime op s → (Varnish.step junk op s).2.Tracked) := by
  -- an event that asks nothing
  have hfree : ∀ s' : Varnish, s'.Tracked ∧ s'.ReapsChildren →
      ReapsInTime op s → (s'.ReapsChildren ↔ ReapsInTime op s)
        ∧ (ReapsInTime op s → s'.Tracked) :=
    fun s' h hG => ⟨iff_of_true h.2 hG, fun _ => h.1⟩
  have hnone : s.mod = none → ∀ h, s.command ≠ some h := by
    intro hm h hc
    unfold command at hc
    rw [hm] at hc
    exact absurd hc (by simp)
  have hsame := And.intro hs hp
  cases hm : s.mod with
  | none =>
      cases op with
      | init memory =>
          cases memory with
          | false => exact hfree _ (by simpa [step, hm, init] using hsame) trivial
          | true =>
              have heq : (step junk (.init true) s).2
                  = { s with mod := some ⟨none⟩ } := by
                simp [step, hm, init]
              rw [heq]
              exact hfree _ ⟨⟨⟨hs.old, hs.nodup⟩,
                fun h hc => absurd hc (by simp [command])⟩,
                ⟨hp.kills, hp.reapers⟩⟩ trivial
      | poll memory o =>
          exact hfree _ (by simpa [step, hm] using hsame)
            fun h hc => absurd hc (hnone hm h)
      | cleanup memory =>
          exact hfree _ (by simpa [step, hm] using hsame)
            fun h hc => absurd hc (hnone hm h)
      | output reads => exact hfree _ (by simpa [step, hm] using hsame) trivial
      | processExited pid status =>
          have hspec := processExited_spec pid status hs hp
          exact hfree _ (by simpa [step, hm] using hspec) trivial
  | some mod =>
      cases op with
      | init memory => exact hfree _ (by simpa [step, hm] using hsame) trivial
      | poll memory o => simpa [step, hm] using poll_spec hm memory o hs hp
      | cleanup memory => simpa [step, hm] using cleanup_spec hm memory hs hp
      | output reads =>
          have hspec := output_spec junk reads hm hs hp
          exact hfree _ (by simpa [step, hm] using hspec) trivial
      | processExited pid status =>
          have hspec := processExited_spec pid status hs hp
          exact hfree _ (by simpa [step, hm] using hspec) trivial

/-- The varnish module: in every state of a run every kill has gone to a
child that was not waited for, and every reaper is for such a child,
exactly when the run reaps no command whose process has exited. -/
theorem reapsChildren_iff (junk : Nat → UInt8) (ops : List VarnishOp) :
    (∀ s ∈ Machine.visited (step junk) ops start, s.ReapsChildren)
      ↔ Machine.Meets (step junk) ReapsInTime ops start :=
  Machine.visited_iff_meets_of (I := Tracked) step_reaps_iff ops start
    ⟨⟨fun x hx => absurd hx (by simp [start]), List.nodup_nil⟩,
      fun h hc => absurd hc (by simp [start, command])⟩
    ⟨fun k hk => absurd hk (by simp [start]),
      fun x hx => absurd hx (by simp [start])⟩

/-- Process 42 exits and is waited for; the cleanup kills it again, and the
reaper stays. -/
theorem not_reapsChildren :
    let ops : List VarnishOp :=
      [.init true, .poll true ⟨some 5, true, true, some 42, true⟩,
        .processExited 42 0, .cleanup true]
    ¬ ∀ s ∈ Machine.visited (step fun _ => 0) ops start, s.ReapsChildren := by
  intro ops h
  have hlast := h _ (Machine.exec_mem_visited _ _)
  exact absurd (hlast.kills ⟨42, false⟩ (by decide)) (by decide)

end Varnish

end Monikor
