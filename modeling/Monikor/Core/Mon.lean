/-
init.c, reload.c, cleanup.c and run.c: the `monikor_t` of the agent, from
`main`'s stack on.

What start-up and reload do with modules, sockets, signals and processes
goes through `Host`: these keep their state in `ω`, and none of them is
handed the metric store. The blocks of the store are in the heap, and so
is what `malloc` answers for the module array.

`none` is a dereference of NULL.
-/
import Monikor.Send.Run

namespace Monikor

/-- `monikor_config_t`, as far as the core reads it. -/
structure Config where
  configPath : CString
  modules : Option (List CString)
  loggerLevel : Int
  loggerFile : Option CString
  updateInterval : Int32

/-- The logger, by the arguments of `monikor_logger_init`. -/
structure Logger where
  level : Int
  file : Option CString

/-- `MONIKOR_LOG_DEFAULT`. -/
def logDefault : Int := -1

/-- `MONIKOR_FLAG_RELOAD`. -/
def flagReload : UInt8 := 1

/-- `monikor_t`. -/
structure Mon (ω μ : Type) where
  config : Config
  logger : Logger
  modules : Option (List μ)
  metrics : Option StoreRef
  heap : Heap
  inFlight : List Addr
  rest : ω
  lastClock : Timeval
  update : Update
  flags : UInt8

/-- What start-up asks of the rest of the agent: I/O handlers, server,
daemon and signals (which may fail), and the modules. -/
structure Host (ω μ : Type) where
  setup : Config → ω → Option ω
  loadAllModules : Config → ω → List μ × ω
  infoModuleLoad : Config → ω → Option μ × ω
  modDestroy : μ → ω → ω

variable {ω μ : Type} (host : Host ω μ)

-- ============================================================ init.c

/-- `monikor_init_modules`. -/
def initModules (mon : Mon ω μ) : Option (Int × Mon ω μ) := do
  let _ ← mon.config.modules
  match mon.heap.malloc with
  | (false, heap) => return (1, { mon with heap, modules := none })
  | (true, heap) =>
      let (metrics, heap) ← heap.metricStoreNew
      if metrics = none then
        return (1, { mon with heap, metrics, modules := some [] })
      let (modules, rest) := host.loadAllModules mon.config mon.rest
      match host.infoModuleLoad mon.config rest with
      | (none, rest) =>
          return (1, { mon with heap, metrics, rest, modules := some modules })
      | (some info, rest) =>
          return (0, { mon with
            heap, metrics, rest, modules := some (modules ++ [info]) })

/-- `monikor_init`; `loaded` is what `monikor_load_config` returns. -/
def monikorInit (loaded : Option Config) (mon : Mon ω μ) :
    Option (Int × Mon ω μ) :=
  let mon := { mon with logger := ⟨logDefault, none⟩ }
  match loaded with
  | none => some (1, mon)
  | some config =>
      let mon := { mon with
        config, logger := ⟨config.loggerLevel, config.loggerFile⟩ }
      match host.setup config mon.rest with
      | none => some (1, mon)
      | some rest => do
          let (rc, mon) ← initModules host { mon with rest }
          if rc ≠ 0 then return (1, mon)
          return (0, { mon with flags := 0 })

-- ============================================================ reload.c

/-- `monikor_cleanup_modules`. -/
def cleanupModules (mon : Mon ω μ) : Mon ω μ :=
  let destroy rest m := host.modDestroy m rest
  { mon with rest := (mon.modules.getD []).foldl destroy mon.rest }

/-- `monikor_reload`; `loaded` is what `monikor_load_config` returns. -/
def monikorReload (loaded : Option Config) (mon : Mon ω μ) :
    Option (Int × Mon ω μ) :=
  match loaded with
  | none => some (1, mon)
  | some config => do
      let mon := cleanupModules host mon
      let mon := { mon with config, logger := ⟨config.loggerLevel, none⟩ }
      let (rc, mon) ← initModules host mon
      if rc ≠ 0 then return (1, mon)
      return (0, { mon with flags := mon.flags &&& ~~~flagReload })

-- =============================================================== run.c

/-- `monikor_update_init`, at a time. -/
def updateInit (now : Timeval) (time : Int) (mon : Mon ω μ) : Mon ω μ :=
  { mon with
    lastClock := now
    update := { mon.update with nextUpdate := time } }

/-- What the loop of `monikor_run` does to `next_update`. -/
def Update.advance (tick now : Int) (u : Update) : Update :=
  let next := u.nextUpdate + tick
  { u with nextUpdate := if next < now then now else next }

/-- What happens to the agent: a response to the request of a batch, a turn
of the loop, a reload, and everything that uses the store (polls, sends,
evictions), by the heap and the batches it leaves. -/
inductive MonOp where
  | respond (metrics : Addr) (result : Nat) (httpCode : Int)
  | turn (tick now : Int)
  | reload (loaded : Option Config)
  | store (heap : Heap) (inFlight : List Addr)

/-- The store and what update.c keeps, as Send/Agent.lean has them. -/
def Mon.agent (mon : Mon ω μ) : Option Agent := do
  let metrics ← mon.metrics
  return { heap := mon.heap, metrics, inFlight := mon.inFlight,
           update := mon.update }

/-- One event; `none` also when `monikor_run` returns. -/
def Mon.step (mon : Mon ω μ) : MonOp → Option (Mon ω μ)
  | .respond metrics result httpCode => do
      let agent ← mon.agent
      let agent ← agent.handleServerResponse mon.config.updateInterval.toInt
        metrics result httpCode
      return { mon with
        heap := agent.heap
        inFlight := agent.inFlight.erase metrics
        update := agent.update }
  | .turn tick now => some { mon with update := mon.update.advance tick now }
  | .reload loaded => do
      let (rc, mon) ← monikorReload host loaded mon
      if rc ≠ 0 then none else return mon
  | .store heap inFlight => some { mon with heap, inFlight }

-- =========================================================== the store

/-- What the lists of a store hold, in order. -/
def Heap.storeItems (h : Heap) (st : StoreRef) : Option (Store Item) := do
  let current ← h.itemsAt st.current
  let delta ← h.itemsAt st.delta
  let cache ← h.itemsAt st.cache
  return { current, delta, cache }

/-- What the agent's store holds, if there is one. -/
def Mon.stored (mon : Mon ω μ) : Option (Store Item) := do
  let metrics ← mon.metrics
  mon.heap.storeItems metrics

end Monikor
