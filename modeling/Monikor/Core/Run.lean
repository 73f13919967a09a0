/-
run.c, update.c, control.c and sig.c: the main loop.

`Loop.step` is what the loop does from one `gettimeofday` to the next: a
turn (a reload if one was asked for, the polls, the update), or a wait,
which is a call of `monikor_io_handler_poll`. Either takes from a `Pass`
what the system answers, and says what it did (`Did`).

The store is behind `StoreOps`, so that the one loop runs on pointers and
on sequences. Seconds are `Int`, as in Core/Poll.lean. What a module's poll
pushes is in the order of its pushes; it does not see the store.
-/
import Monikor.Core.Life
import Monikor.Core.Load

namespace Monikor

/-- `monikor_config_t`, as far as the loop reads it. -/
structure RunConfig extends IntervalConfig where
  maxSendSize : UInt64
  cacheMaxSize : Int32

/-- The store, with the `update` member of the `monikor_t` beside it. -/
structure StoreOps (σ : Type) where
  call : Call → σ → Option (Int × σ)
  update : σ → Update
  setUpdate : Update → σ → σ

/-- Some calls; what they return is ignored. -/
def StoreOps.calls {σ : Type} (ops : StoreOps σ) (cs : List Call) (store : σ) :
    Option σ :=
  cs.foldlM (fun store c => (ops.call c store).map Prod.snd) store

/-- Some calls, and those that were made. -/
def StoreOps.logged {σ : Type} (ops : StoreOps σ) :
    List Call → σ → Option (List Call × σ)
  | [], store => some ([], store)
  | c :: cs, store => do
      let (_, store) ← ops.call c store
      let (made, store) ← ops.logged cs store
      return (c :: made, store)

/-- A module that pushes metrics when it is polled, `ω` being the rest of the
agent. -/
abbrev PushMod (ω : Type) := Mod (ω × List Metric)

-- ============================================================== the system

/-- The signals of `monikor_register_signals`. -/
inductive Signal where
  | int | term | quit | chld | hup | usr1 | usr2
deriving DecidableEq

/-- What a callback of `monikor_io_handler_poll` comes to: a signal is read
from the pipe, a request ends, a client has sent a list, a module pushes a
metric it had deferred, or the rest of the agent changes. -/
inductive IoEvent (ω : Type) where
  | signal (signo : Signal) (listOk sendOk : Bool)
  | response (i result : Nat) (httpCode : Int)
  | client (ms : List Metric)
  | push (m : Metric)
  | host (f : ω → ω)

/-- What the system answers from one `gettimeofday` of the loop to the next:
for a turn, what a reload loads and the outcomes of an update; for a wait,
its events in their order. -/
structure Pass (ω : Type) where
  now : Timeval
  loaded : ω → Option (RunConfig × List (PushMod ω) × ω)
  evictClock : Timeval
  listOk : Bool
  sendOk : Bool
  events : List (IoEvent ω)

/-- The reading of a pass, in seconds. -/
def Pass.sec {ω : Type} (p : Pass ω) : Int := p.now.sec.toInt

-- ================================================================= the log

/-- A turn: when it was due and when it began, `next_update` after it, and
what its update called. -/
structure Turn where
  tick : Int
  due : Int
  now : Int
  nextUpdate : Int
  updateInterval : Int
  calls : List Call
deriving DecidableEq

/-- What the loop did: `waited` has the reading and the timeout in seconds
and microseconds, `responded` how far a response moved `next_update`. -/
inductive Did where
  | reloaded
  | turn (t : Turn)
  | waited (now sec usec : Int)
  | signalled (signo : Signal)
  | responded (delay : Int)
  | exited (status : Int)
deriving DecidableEq

-- =============================================================== the state

/-- Where the loop is: at the top of `while (42)`, in its `do`, or out. -/
inductive RunPoint where
  | top | wait | exited
deriving DecidableEq

structure Loop (ω σ : Type) where
  config : RunConfig
  modules : List (PushMod ω)
  host : ω
  store : σ
  lastClock : Timeval
  flags : UInt8
  tick : Int32
  point : RunPoint

variable {ω σ : Type} (ops : StoreOps σ)

namespace Loop

/-- The beginning of `monikor_run`; `now` and `time` are what
`monikor_update_init` reads. -/
def start (config : RunConfig) (modules : List (PushMod ω)) (host : ω)
    (store : σ) (now : Timeval) (time : Int) : Loop ω σ where
  config := config
  modules := modules
  host := host
  store := ops.setUpdate { ops.update store with nextUpdate := time } store
  lastClock := now
  flags := 0
  tick := getTickInterval config.toIntervalConfig modules
  point := .top

-- ============================================================ update.c

/-- The test of `monikor_update`. -/
def updateDue (clock : Timeval) (s : Loop ω σ) : Bool :=
  s.lastClock.sec.toInt + s.config.updateInterval.toInt ≤ clock.sec.toInt

/-- `monikor_update`, and what it called. -/
def update (p : Pass ω) (s : Loop ω σ) : Option (List Call × Loop ω σ) :=
  if s.updateDue p.now then do
    let (made, store) ← ops.logged
      [.evict s.config.pollInterval s.config.cacheMaxSize p.evictClock,
        .send s.config.maxSendSize.toNat p.listOk p.sendOk] s.store
    return (made, { s with store, lastClock := p.now })
  else some ([], s)

-- ============================================================ run.c, turns

/-- `monikor_reload`; the loop returns when it fails. -/
def reload (p : Pass ω) (s : Loop ω σ) : Option (List Did × Loop ω σ) :=
  match p.loaded s.host with
  | none => some ([.exited 1], { s with point := .exited })
  | some (config, modules, host) => do
      let (_, store) ← ops.call .reload s.store
      return ([.reloaded], { s with
        config
        modules
        host
        store
        flags := s.flags &&& ~~~flagReload
        tick := getTickInterval config.toIntervalConfig modules })

/-- What a turn says of itself, its update having made the calls `made`. -/
def turnOf (p : Pass ω) (s : Loop ω σ) (made : List Call) : Turn where
  tick := s.tick.toInt
  due := (ops.update s.store).nextUpdate
  now := p.sec
  nextUpdate := ((ops.update s.store).advance s.tick.toInt p.sec).nextUpdate
  updateInterval := s.config.updateInterval.toInt
  calls := made

/-- The rest of a turn, from its `gettimeofday` on. -/
def turn (p : Pass ω) (s : Loop ω σ) : Option (List Did × Loop ω σ) := do
  let did := s.turnOf ops p
  let store := ops.setUpdate
    ((ops.update s.store).advance s.tick.toInt p.sec) s.store
  let (_, modules, host, pushed) := pollModules p.sec s.modules (s.host, [])
  let store ← ops.calls (pushed.map .push) store
  let (made, s) ← update ops p { s with store, modules, host }
  return ([.turn (did made)], { s with point := .wait })

/-- A turn. -/
def top (p : Pass ω) (s : Loop ω σ) : Option (List Did × Loop ω σ) :=
  if s.flags &&& flagReload ≠ 0 then do
    let (reloaded, s) ← s.reload ops p
    if s.point = .exited then return (reloaded, s)
    let (did, s) ← s.turn ops p
    return (reloaded ++ did, s)
  else s.turn ops p

-- ============================================================ run.c, waits

/-- `handle_signal`, once it has read a signal. The processes whose exit a
SIGCHLD announces are with the rest of the agent. -/
def handleSignal (signo : Signal) (listOk sendOk : Bool) (s : Loop ω σ) :
    Option (Loop ω σ) :=
  match signo with
  | .int | .term | .quit => some { s with point := .exited }
  | .chld => some s
  | .hup => some { s with flags := s.flags ||| flagReload }
  | .usr1 => do
      let store ←
        ops.calls [.send s.config.maxSendSize.toNat listOk sendOk] s.store
      return { s with store }
  | .usr2 => do
      let store ← ops.calls [.flush] s.store
      return { s with store }

/-- One event of a wait. -/
def handle (s : Loop ω σ) : IoEvent ω → Option (List Did × Loop ω σ)
  | .signal signo listOk sendOk => do
      let s ← s.handleSignal ops signo listOk sendOk
      return ([.signalled signo], s)
  | .response i result httpCode => do
      let store ← ops.calls
        [.respond s.config.updateInterval.toInt i result httpCode] s.store
      let delay :=
        (ops.update store).nextUpdate - (ops.update s.store).nextUpdate
      return ([.responded delay], { s with store })
  | .client ms => do
      let store ← ops.calls [.receive ms] s.store
      return ([], { s with store })
  | .push m => do
      let store ← ops.calls [.push m] s.store
      return ([], { s with store })
  | .host f => some ([], { s with host := f s.host })

/-- The events of a wait, until the agent exits. -/
def handleAll : List (IoEvent ω) → Loop ω σ → Option (List Did × Loop ω σ)
  | [], s => some ([], s)
  | e :: events, s =>
      if s.point = .exited then some ([], s)
      else do
        let (did, s) ← s.handle ops e
        let (rest, s) ← handleAll events s
        return (did ++ rest, s)

/-- The timeout of a wait. -/
def interval (nextUpdate now : Int) : Int × Int :=
  let sec := if nextUpdate > now then nextUpdate - now else 0
  (sec, if sec ≠ 0 then 0 else 10)

/-- A wait, and the test of the `do`. -/
def wait (p : Pass ω) (s : Loop ω σ) : Option (List Did × Loop ω σ) := do
  let timeout := interval (ops.update s.store).nextUpdate p.sec
  let (did, s) ← handleAll ops p.events s
  let point :=
    if s.point = .exited then .exited
    else if p.sec < (ops.update s.store).nextUpdate then .wait
    else .top
  return (.waited p.sec timeout.1 timeout.2 :: did, { s with point })

-- ================================================================ the loop

def step (p : Pass ω) (s : Loop ω σ) : Option (List Did × Loop ω σ) :=
  match s.point with
  | .top => s.top ops p
  | .wait => s.wait ops p
  | .exited => some ([], s)

end Loop

-- ============================================================== the stores

/-- The store on pointers. -/
def lifeOps (F : FloatOps) : StoreOps Life where
  call := Life.step F
  update := fun s => s.agent.update
  setUpdate := fun update s => { s with agent := { s.agent with update } }

/-- The store on sequences. -/
def seqOps (F : FloatOps) : StoreOps (Seq.Agent Metric) where
  call := fun c a => some (Seq.call F c a)
  update := Seq.Agent.update
  setUpdate := fun update a => { a with update }

end Monikor
