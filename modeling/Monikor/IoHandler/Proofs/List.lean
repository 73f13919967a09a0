/-
The handler lists are doubly linked lists of the handlers pushed and not
removed, in the order they were pushed.

The three lists share nothing, so a run of operations on all of them is
three histories, one a list (`HandlerOp.io?` and its like pick them out),
and `Follows` is kept for each by the rules of Lib/Dlist.lean.
-/
import Monikor.IoHandler.List

namespace Monikor

open Linked

variable {μ : Type} {C : CurlOps μ} {l l' : HandlerList μ} {op : HandlerOp}
  {ops : List HandlerOp}

/-- What the three lists have come about by. -/
structure Histories where
  io : Dlist.History Addr
  curl : Dlist.History Addr
  process : Dlist.History Addr

namespace Histories

def start : Histories := ⟨.start, .start, .start⟩

def next (H : Histories) : HandlerOp → Histories
  | .io op => { H with io := H.io.next op }
  | .curl op => { H with curl := H.curl.next op }
  | .process op => { H with process := H.process.next op }

def Allows (H : Histories) : HandlerOp → Prop
  | .io op => H.io.Allows op
  | .curl op => H.curl.Allows op
  | .process op => H.process.Allows op

end Histories

/-- Each list has come about by its history. -/
structure HandlerList.Follows (l : HandlerList μ) (H : Histories) : Prop where
  io : l.handlers.Follows H.io
  curl : l.curl.Follows H.curl
  process : l.processes.Follows H.process

variable {H : Histories}

/-- One operation that is allowed. -/
theorem HandlerList.Follows.step (h : l.Follows H) (hop : H.Allows op) :
    ∃ l', l.step C op = some l' ∧ l'.Follows (H.next op) := by
  cases op with
  | io op =>
      cases op with
      | push a v =>
          obtain ⟨d, hrun, -, hd⟩ := h.io.push (v := v) hop
          refine ⟨{ l with handlers := d }, ?_, hd, h.curl, h.process⟩
          simp [HandlerList.step, ioHandlerListPush, ioHandlerNew, hrun]
      | remove a =>
          obtain ⟨d, hrun, -, hd⟩ := h.io.remove hop
          refine ⟨{ l with handlers := d }, ?_, hd, h.curl, h.process⟩
          simp [HandlerList.step, ioHandlerListRemove, hrun]
      | free a =>
          obtain ⟨d, hrun, hd⟩ := h.io.free hop
          refine ⟨{ l with handlers := d }, ?_, hd, h.curl, h.process⟩
          simp [HandlerList.step, hrun]
  | curl op =>
      cases op with
      | push a v =>
          obtain ⟨d, hrun, hlive, hd⟩ := h.curl.push (v := v) hop
          obtain ⟨n, hn⟩ := Option.ne_none_iff_exists'.mp hlive
          let multi := C.multiAddHandle l.multi n.val.curl
          refine ⟨{ l with curl := d, multi }, ?_, h.io, hd, h.process⟩
          simp [HandlerList.step, ioHandlerListPushCurl, curlHandlerNew, hrun,
            hn, multi]
      | remove a =>
          obtain ⟨d, hrun, hlive, hd⟩ := h.curl.remove hop
          obtain ⟨n, hn⟩ := Option.ne_none_iff_exists'.mp hlive
          let multi := C.multiRemoveHandle l.multi n.val.curl
          refine ⟨{ l with curl := d, multi }, ?_, h.io, hd, h.process⟩
          simp [HandlerList.step, ioHandlerListRemoveCurl, hrun, hn, multi]
      | free a =>
          obtain ⟨d, hrun, hd⟩ := h.curl.free hop
          refine ⟨{ l with curl := d }, ?_, h.io, hd, h.process⟩
          simp [HandlerList.step, hrun]
  | process op =>
      cases op with
      | push a v =>
          obtain ⟨d, hrun, -, hd⟩ := h.process.push (v := v) hop
          refine ⟨{ l with processes := d }, ?_, h.io, h.curl, hd⟩
          simp [HandlerList.step, ioHandlerListPushProcess, processHandlerNew,
            hrun]
      | remove a =>
          obtain ⟨d, hrun, -, hd⟩ := h.process.remove hop
          refine ⟨{ l with processes := d }, ?_, h.io, h.curl, hd⟩
          simp [HandlerList.step, ioHandlerListRemoveProcess, hrun]
      | free a =>
          obtain ⟨d, hrun, hd⟩ := h.process.free hop
          refine ⟨{ l with processes := d }, ?_, h.io, h.curl, hd⟩
          simp [HandlerList.step, hrun]

/-- A sequence of operations, each list's own allowed by its history. -/
theorem HandlerList.Follows.steps (ops : List HandlerOp) :
    ∀ (l : HandlerList μ) (H : Histories), l.Follows H →
      H.io.AllowsAll (ops.filterMap HandlerOp.io?) →
      H.curl.AllowsAll (ops.filterMap HandlerOp.curl?) →
      H.process.AllowsAll (ops.filterMap HandlerOp.process?) →
      ∃ l', l.steps C ops = some l' ∧ l'.Follows
        ⟨H.io.after (ops.filterMap HandlerOp.io?),
          H.curl.after (ops.filterMap HandlerOp.curl?),
          H.process.after (ops.filterMap HandlerOp.process?)⟩ := by
  induction ops with
  | nil => exact fun l H h _ _ _ => ⟨l, rfl, h⟩
  | cons op ops ih =>
      intro l H h hio hcurl hproc
      have hop : H.Allows op := by
        cases op with
        | io op => exact hio.1
        | curl op => exact hcurl.1
        | process op => exact hproc.1
      obtain ⟨l₁, hrun₁, h₁⟩ := h.step (C := C) hop
      have hrest : ∃ l', l₁.steps C ops = some l' ∧ l'.Follows
          ⟨(H.next op).io.after (ops.filterMap HandlerOp.io?),
            (H.next op).curl.after (ops.filterMap HandlerOp.curl?),
            (H.next op).process.after (ops.filterMap HandlerOp.process?)⟩ := by
        cases op with
        | io op => exact ih l₁ _ h₁ hio.2 hcurl hproc
        | curl op => exact ih l₁ _ h₁ hio hcurl.2 hproc
        | process op => exact ih l₁ _ h₁ hio hcurl hproc.2
      obtain ⟨l', hrun, h'⟩ := hrest
      have hsteps : l.steps C (op :: ops) = some l' := by
        unfold HandlerList.steps
        rw [List.foldlM_cons, hrun₁]
        exact hrun
      refine ⟨l', hsteps, ?_⟩
      cases op with
      | io op => exact h'
      | curl op => exact h'
      | process op => exact h'

/-- The members of a list after a sequence of operations: what was pushed
and not removed, in the order pushed. -/
def members {β : Type} (ops : List (Dlist.Op Addr β)) : List Addr :=
  (Dlist.History.start.after ops).members

/-- The handler lists: after any sequence of pushes of new handlers and
removals of members, on any of the three lists, no handler that is not
live has been read, and each list is well formed with the handlers pushed
and not removed as its members, in the order they were pushed. -/
theorem handlerLists_wellFormed (C : CurlOps μ) (multi : μ)
    (ops : List HandlerOp)
    (hio : Dlist.History.start.AllowsAll (ops.filterMap HandlerOp.io?))
    (hcurl : Dlist.History.start.AllowsAll (ops.filterMap HandlerOp.curl?))
    (hproc : Dlist.History.start.AllowsAll
      (ops.filterMap HandlerOp.process?)) :
    ∃ l, (ioHandlerListInit multi).steps C ops = some l
      ∧ l.handlers.WellFormed (members (ops.filterMap HandlerOp.io?))
      ∧ l.curl.WellFormed (members (ops.filterMap HandlerOp.curl?))
      ∧ l.processes.WellFormed
        (members (ops.filterMap HandlerOp.process?)) := by
  have hstart : (ioHandlerListInit multi).Follows Histories.start :=
    ⟨follows_start, follows_start, follows_start⟩
  obtain ⟨l, hrun, h⟩ := HandlerList.Follows.steps (C := C) ops _ _ hstart
    hio hcurl hproc
  exact ⟨l, hrun, h.io.wellFormed, h.curl.wellFormed, h.process.wellFormed⟩

/-- Three pushes and the removal of the middle one, with an address used
again; the other two lists take an operation in between. -/
theorem handlerLists_wellFormed_three :
    let C : CurlOps (List Addr) := ⟨fun l a => l ++ [a], List.erase⟩
    let h : IoHandler := ⟨3, 1, none, 0⟩
    let p : ProcessHandler := ⟨42, some .handleProcessExit, 0⟩
    let ops : List HandlerOp := [.io (.push 1 h), .curl (.push 1 ⟨9, none, 0⟩),
      .io (.push 2 h), .process (.push 1 p), .io (.push 3 h), .io (.remove 2),
      .io (.free 2), .curl (.remove 1), .io (.push 2 h)]
    ∃ l, (ioHandlerListInit []).steps C ops = some l
      ∧ l.handlers.WellFormed [1, 3, 2] ∧ l.curl.WellFormed []
      ∧ l.processes.WellFormed [1] :=
  handlerLists_wellFormed _ _ _ (by decide) (by decide) (by decide)

end Monikor
