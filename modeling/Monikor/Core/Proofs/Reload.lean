/-
What a reload does to the metrics.

A reload sets up the modules the way start-up does, and that makes the
store. So once the configuration has loaded, the store is a new one, with
nothing in it (`metricStoreNew_some`), unless there was no memory for the
module array.
-/
import Monikor.Core.Mon

namespace Monikor

variable {ω μ : Type} {host : Host ω μ} {mon mon' : Mon ω μ} {h h' : Heap}
  {st : StoreRef} {l : Addr} {loaded : Option Config} {config : Config}
  {rc : Int} {s : Store Item}

/-- A reload keeps the metrics: with no configuration it does nothing, and
with one it replaces configuration, logger and modules, and the store holds
what it held. -/
def KeepsMetrics (loaded : Option Config) (mon : Mon ω μ)
    (res : Option (Int × Mon ω μ)) : Prop :=
  match loaded with
  | none => res = some (1, mon)
  | some config => ∃ rc mon', res = some (rc, mon') ∧ mon'.config = config
      ∧ mon'.stored = mon.stored ∧ mon'.inFlight = mon.inFlight
      ∧ mon'.lastClock = mon.lastClock ∧ mon'.update = mon.update
      ∧ mon'.flags ||| flagReload = mon.flags ||| flagReload

/-- Nothing is stored. -/
def Store.Empty (s : Store Item) : Prop := s = ⟨[], [], []⟩

/-- The reloads that keep what is stored: the configuration does not load,
or there is no memory for the module array, or the store is empty and there
is memory for another. -/
def ReloadsSafely (loaded : Option Config) (h : Heap)
    (s : Store Item) : Prop :=
  match loaded with
  | none => True
  | some config => config.modules ≠ none
      ∧ (h.allocs 0 = false ∨ s.Empty ∧ ∀ i < 5, h.allocs i = true)

-- ================================================================ the store

theorem itemsAt_empty (hl : h.list l = some ⟨0, 0, none, none⟩) :
    h.itemsAt l = some [] := by
  simp [Heap.itemsAt, hl, Heap.walk]

/-- What the allocator will answer is not in the lists. -/
theorem walk_malloc (n : Nat) : ∀ o, h.malloc.2.walk n o = h.walk n o := by
  induction n with
  | zero => exact fun o => by cases o <;> rfl
  | succ n ih =>
      intro o
      cases o with
      | none => rfl
      | some a =>
          unfold Heap.walk
          simp only [ih]
          rfl

theorem storeItems_malloc : h.malloc.2.storeItems st = h.storeItems st := by
  have hitems : ∀ l, h.malloc.2.itemsAt l = h.itemsAt l := by
    intro l
    unfold Heap.itemsAt
    simp only [walk_malloc]
    rfl
  unfold Heap.storeItems
  simp only [hitems]

/-- A new store took four allocations and holds nothing. -/
theorem metricStoreNew_some (hrun : h.metricStoreNew = some (some st, h')) :
    (∀ i < 4, h.allocs i = true) ∧ h'.storeItems st = some ⟨[], [], []⟩ := by
  unfold Heap.metricStoreNew at hrun
  unfold Heap.metricListNew at hrun
  simp only [Heap.malloc, Heap.bump, Heap.metricListInit,
    Heap.setList] at hrun
  cases e₀ : h.allocs 0 with
  | false => simp [e₀] at hrun
  | true =>
      cases e₁ : h.allocs 1 with
      | false => simp [e₀, e₁] at hrun
      | true =>
          cases e₂ : h.allocs 2 with
          | false =>
              simp only [e₀, e₁, e₂] at hrun
              obtain ⟨h₁, -, hrun⟩ := Option.bind_eq_some_iff.mp hrun
              exact absurd hrun (by simp)
          | true =>
              cases e₃ : h.allocs 3 with
              | false =>
                  simp only [e₀, e₁, e₂, e₃] at hrun
                  obtain ⟨h₁, -, hrun⟩ := Option.bind_eq_some_iff.mp hrun
                  obtain ⟨h₂, -, hrun⟩ := Option.bind_eq_some_iff.mp hrun
                  exact absurd hrun (by simp)
              | true =>
                  simp only [e₀, e₁, e₂, e₃] at hrun
                  obtain ⟨hst, rfl⟩ := Prod.mk.inj (Option.some.inj hrun)
                  obtain rfl := Option.some.inj hst
                  constructor
                  · intro i hi
                    have hi : i = 0 ∨ i = 1 ∨ i = 2 ∨ i = 3 := by omega
                    rcases hi with rfl | rfl | rfl | rfl <;> assumption
                  · have hne : h.brk ≠ h.brk + 1 + 1 :=
                      Nat.ne_of_lt (Nat.lt_succ_of_lt (Nat.lt_succ_self _))
                    simp [Heap.storeItems, itemsAt_empty,
                      Function.update_of_ne hne]

/-- With memory for it, a store is made. -/
theorem metricStoreNew_ok (hal : ∀ i < 4, h.allocs i = true) :
    ∃ st h', h.metricStoreNew = some (some st, h') := by
  have e₀ := hal 0 (by decide)
  have e₁ := hal 1 (by decide)
  have e₂ := hal 2 (by decide)
  have e₃ := hal 3 (by decide)
  simp [Heap.metricStoreNew, Heap.metricListNew, Heap.malloc, e₀, e₁, e₂, e₃,
    Heap.bump, Heap.metricListInit, Heap.setList]

-- ============================================================== the modules

/-- What setting up the modules leaves of the agent: its store is the old
one, with no memory for the module array, or a new one, or there is none. -/
structure ModulesSet (mon mon' : Mon ω μ) : Prop where
  config : mon'.config = mon.config
  inFlight : mon'.inFlight = mon.inFlight
  lastClock : mon'.lastClock = mon.lastClock
  update : mon'.update = mon.update
  flags : mon'.flags = mon.flags
  stored : mon.heap.allocs 0 = false ∧ mon'.stored = mon.stored
    ∨ (∀ i < 5, mon.heap.allocs i = true) ∧ mon'.stored = some ⟨[], [], []⟩
    ∨ mon'.metrics = none ∧ mon.heap.allocs 0 = true
      ∧ ¬ ∀ i < 5, mon.heap.allocs i = true

/-- The module array took the first allocation, so the store has those
behind it. -/
theorem allocs_behind (h₀ : h.allocs 0 = true)
    (hal : ∀ i < 4, h.malloc.2.allocs i = true) :
    ∀ i < 5, h.allocs i = true := by
  intro i hi
  cases i with
  | zero => exact h₀
  | succ i => exact hal i (by omega)

theorem initModules_spec (hrun : initModules host mon = some (rc, mon')) :
    mon.config.modules ≠ none ∧ ModulesSet mon mon' := by
  obtain ⟨names, hnames, hrun⟩ := Option.bind_eq_some_iff.mp hrun
  refine ⟨by simp [hnames], ?_⟩
  cases h₀ : mon.heap.allocs 0 with
  | false =>
      -- no memory for the array: the store is left alone
      have hmalloc : mon.heap.malloc = (false, mon.heap.malloc.2) := by
        simp [Heap.malloc, h₀]
      rw [hmalloc] at hrun
      obtain ⟨-, rfl⟩ := Prod.mk.inj (Option.some.inj hrun)
      have hstored : mon.metrics.bind mon.heap.malloc.2.storeItems
          = mon.metrics.bind mon.heap.storeItems := by
        congr 1
        funext st
        exact storeItems_malloc
      exact ⟨rfl, rfl, rfl, rfl, rfl, .inl ⟨h₀, hstored⟩⟩
  | true =>
      have hmalloc : mon.heap.malloc = (true, mon.heap.malloc.2) := by
        simp [Heap.malloc, h₀]
      rw [hmalloc] at hrun
      obtain ⟨⟨metrics, heap⟩, hnew, hrun⟩ := Option.bind_eq_some_iff.mp hrun
      cases metrics with
      | none =>
          obtain ⟨-, rfl⟩ := Prod.mk.inj (Option.some.inj hrun)
          have hnot : ¬ ∀ i < 5, mon.heap.allocs i = true := by
            intro hal
            obtain ⟨st, h', hok⟩ := metricStoreNew_ok (h := mon.heap.malloc.2)
              fun i hi => hal (i + 1) (by omega)
            rw [hok] at hnew
            exact absurd hnew (by simp)
          exact ⟨rfl, rfl, rfl, rfl, rfl, .inr (.inr ⟨rfl, h₀, hnot⟩)⟩
      | some st =>
          obtain ⟨hal, hitems⟩ := metricStoreNew_some hnew
          have hstored := And.intro (allocs_behind h₀ hal) hitems
          simp only [reduceCtorEq, if_false] at hrun
          split at hrun
          · obtain ⟨-, rfl⟩ := Prod.mk.inj (Option.some.inj hrun)
            exact ⟨rfl, rfl, rfl, rfl, rfl, .inr (.inl hstored)⟩
          · obtain ⟨-, rfl⟩ := Prod.mk.inj (Option.some.inj hrun)
            exact ⟨rfl, rfl, rfl, rfl, rfl, .inr (.inl hstored)⟩

/-- With a list of modules, and memory for all of it or not even for the
array, the modules are set up. -/
theorem initModules_runs (host : Host ω μ) (mon : Mon ω μ)
    (hnames : mon.config.modules ≠ none)
    (hal : mon.heap.allocs 0 = false ∨ ∀ i < 5, mon.heap.allocs i = true) :
    ∃ rc mon', initModules host mon = some (rc, mon') := by
  obtain ⟨names, hnames⟩ := Option.ne_none_iff_exists'.mp hnames
  unfold initModules
  rw [hnames]
  rcases hal with h₀ | hal
  · have hmalloc : mon.heap.malloc = (false, mon.heap.malloc.2) := by
      simp [Heap.malloc, h₀]
    rw [hmalloc]
    exact ⟨_, _, rfl⟩
  · have h₀ := hal 0 (by decide)
    obtain ⟨st, heap, hnew⟩ := metricStoreNew_ok (h := mon.heap.malloc.2)
      fun i hi => hal (i + 1) (by omega)
    have hmalloc : mon.heap.malloc = (true, mon.heap.malloc.2) := by
      simp [Heap.malloc, h₀]
    rw [hmalloc]
    simp only [Option.bind_eq_bind, Option.bind_some, hnew, reduceCtorEq,
      if_false]
    split
    · exact ⟨_, _, rfl⟩
    · exact ⟨_, _, rfl⟩

-- =============================================================== the reload

/-- A reload with a configuration, in its three steps. -/
theorem monikorReload_some (hrun : monikorReload host (some config) mon
    = some (rc, mon')) :
    ∃ rc₁ mon₁, initModules host { cleanupModules host mon with
          config, logger := ⟨config.loggerLevel, none⟩ } = some (rc₁, mon₁)
      ∧ (mon' = mon₁
        ∨ mon' = { mon₁ with flags := mon₁.flags &&& ~~~flagReload }) := by
  obtain ⟨⟨rc₁, mon₁⟩, hinit, hrun⟩ := Option.bind_eq_some_iff.mp hrun
  refine ⟨rc₁, mon₁, hinit, ?_⟩
  by_cases hrc : rc₁ = 0
  · right
    simp only [hrc, ne_eq, not_true_eq_false, if_false] at hrun
    exact ((Prod.mk.inj (Option.some.inj hrun)).2).symm
  · left
    simp only [ne_eq, hrc, not_false_eq_true, if_true] at hrun
    exact ((Prod.mk.inj (Option.some.inj hrun)).2).symm

/-- Clearing a flag changes no other. -/
theorem flags_cleared (f k : UInt8) : (f &&& ~~~k) ||| k = f ||| k := by
  apply UInt8.toBitVec_inj.mp
  ext i hi
  simp only [UInt8.toBitVec_or, UInt8.toBitVec_and, UInt8.toBitVec_not,
    BitVec.getElem_or, BitVec.getElem_and, BitVec.getElem_not]
  cases f.toBitVec[i] <;> cases k.toBitVec[i] <;> rfl

/-- A reload keeps what the store holds exactly when the configuration does
not load, or there is no memory for the module array, or the store is empty
and there is memory for another. -/
theorem reload_keepsMetrics_iff (host : Host ω μ) (loaded : Option Config)
    (mon : Mon ω μ) (s : Store Item) (hs : mon.stored = some s) :
    KeepsMetrics loaded mon (monikorReload host loaded mon)
      ↔ ReloadsSafely loaded mon.heap s := by
  cases loaded with
  | none => exact iff_of_true rfl trivial
  | some config =>
      constructor
      · intro hkeep
        obtain ⟨rc, mon', hrun, -, hstored, -⟩ := hkeep
        obtain ⟨rc₁, mon₁, hinit, hmon'⟩ := monikorReload_some hrun
        obtain ⟨hnames, hset⟩ := initModules_spec hinit
        have hstored₁ : mon₁.stored = some s := by
          rw [← hs, ← hstored]
          rcases hmon' with rfl | rfl <;> rfl
        refine ⟨hnames, ?_⟩
        rcases hset.stored with ⟨h₀, -⟩ | ⟨hal, hempty⟩ | ⟨hnone, -⟩
        · exact .inl h₀
        · exact .inr ⟨Option.some.inj (hstored₁.symm.trans hempty), hal⟩
        · unfold Mon.stored at hstored₁
          rw [hnone] at hstored₁
          exact absurd hstored₁ (by simp)
      · intro hsafe
        obtain ⟨hnames, hal⟩ := hsafe
        let mon₀ : Mon ω μ := { cleanupModules host mon with
          config, logger := ⟨config.loggerLevel, none⟩ }
        obtain ⟨rc₁, mon₁, hinit⟩ := initModules_runs host mon₀
          hnames (hal.imp_right And.right)
        obtain ⟨-, hset⟩ := initModules_spec hinit
        have hstored : mon₁.stored = mon.stored := by
          rcases hset.stored with ⟨-, hsame⟩ | ⟨hall, hempty⟩ | ⟨-, h₀, hnot⟩
          · exact hsame
          · rcases hal with h₀ | ⟨he, -⟩
            · exact absurd (hall 0 (by decide))
                (by simp [mon₀, cleanupModules, h₀])
            · rw [hempty, hs, show s = ⟨[], [], []⟩ from he]
          · rcases hal with h₀' | ⟨-, hall⟩
            · exact absurd (h₀'.symm.trans h₀) (by simp)
            · exact absurd hall hnot
        let mon' := if rc₁ = 0 then
            { mon₁ with flags := mon₁.flags &&& ~~~flagReload } else mon₁
        have hrun : monikorReload host (some config) mon
            = some (if rc₁ = 0 then 0 else 1, mon') := by
          show (initModules host mon₀).bind _ = _
          rw [hinit]
          by_cases hrc : rc₁ = 0 <;> simp [hrc, mon']
        refine ⟨_, mon', hrun, ?_⟩
        by_cases hrc : rc₁ = 0
        · simp only [mon', hrc, if_true]
          exact ⟨hset.config, hstored, hset.inFlight, hset.lastClock, hset.update,
            by rw [flags_cleared, hset.flags]; rfl⟩
        · simp only [mon', hrc, if_false]
          exact ⟨hset.config, hstored, hset.inFlight, hset.lastClock, hset.update,
            by rw [hset.flags]; rfl⟩

/-- A configuration that names no module. -/
def Config.plain : Config := ⟨CString.a, some [], 5, none, 30⟩

/-- A host whose agent runs the sysinfo module only. -/
def Host.plain : Host Unit String where
  setup := fun _ _ => some ()
  loadAllModules := fun _ _ => ([], ())
  infoModuleLoad := fun _ _ => (some "info", ())
  modDestroy := fun _ _ => ()

/-- An agent with one metric in its current list, and what `malloc` will
answer. -/
def Mon.one (allocs : Nat → Bool) : Mon Unit String where
  config := Config.plain
  logger := ⟨5, none⟩
  modules := some ["info"]
  metrics := some ⟨0, 1, 2⟩
  heap :=
    { node := fun a => if a = 3 then some ⟨none, 4⟩ else none
      metric := fun a =>
        if a = 4 then some ⟨CString.a, 0, ⟨10, 0⟩, .int 1, 0⟩ else none
      list := fun a =>
        if a = 0 then some ⟨1, 73, some 3, some 3⟩
        else if a < 3 then some ⟨0, 0, none, none⟩ else none
      brk := 5
      freed := []
      allocs }
  inFlight := []
  rest := ()
  lastClock := ⟨10, 0⟩
  update := ⟨0, 40⟩
  flags := flagReload

/-- Without memory for the module array the metric stays. -/
theorem reload_keepsMetrics_one :
    KeepsMetrics (some Config.plain) (Mon.one fun _ => false)
      (monikorReload Host.plain (some Config.plain) (Mon.one fun _ => false)) :=
  (reload_keepsMetrics_iff Host.plain (some Config.plain) (Mon.one fun _ => false)
    ⟨[(4, ⟨CString.a, 0, ⟨10, 0⟩, .int 1, 0⟩)], [], []⟩ rfl).mpr
    ⟨by simp [Config.plain], .inl rfl⟩

/-- With it, the metric is lost. -/
theorem reload_not_keepsMetrics :
    ¬ KeepsMetrics (some Config.plain) (Mon.one fun _ => true)
      (monikorReload Host.plain (some Config.plain) (Mon.one fun _ => true)) := by
  intro hkeep
  obtain ⟨rc, mon', hrun, -, hstored, -⟩ := hkeep
  obtain ⟨-, rfl⟩ := Prod.mk.inj (Option.some.inj hrun)
  revert hstored
  decide

end Monikor
