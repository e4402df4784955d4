import DtmaOne.Library.Emit
import DtmaOne.Warp.Config

/-!
# The bodies of `WarpController`

The commands of `WarpController` are guarded by a mutex, while the health checks are not, so a
command is a body with effects on the state both share, in the sense of `Emit`.  What the
platform answers during a body, such as the outcome of a handshake, is an argument of it.

An exception is given by its message, which may be null.  The waits of the bodies and the
intent that stops the other VPN service have no effect on the state and are left out.
-/

namespace Warp.WarpController

/-- `MAX_AUTO_REGEN` -/
def maxAutoRegen : ℕ := 2

/-- `STALL_MS` -/
def stallMs : ℤ := 25000

/-! ### The shared state -/

/-- What the commands and the health checks share. -/
structure Controller where
  /-- Whether there is a `GoBackend`. -/
  backend : Bool := false
  /-- The state of the tunnel of the backend. -/
  tunnel : TunnelState := .down
  confCache : Option WarpConfig := none
  /-- The file of `WarpInstaller`. -/
  savedConf : Option String := none
  status : WarpLiveStatus := {}
  vpn : VpnRuntimeStatus := {}
  /-- Whether `monitorJob` is running. -/
  monitor : Bool := false
  lastRx : ℤ := 0
  lastRxChangeAt : ℤ := 0
  reconnecting : Bool := false
  deriving DecidableEq, Repr

/-- The arguments of `publish`; what is left out is taken from the state. -/
structure Publication where
  mode : WarpMode
  message : String
  endpoint : Option String := none
  address : Option String := none
  rx : Option ℤ := none
  tx : Option ℤ := none
  error : Option (Option String) := none
  attempts : Option ℕ := none
  autoRegen : Option ℕ := none
  deriving DecidableEq, Repr

/-- The error `publish` keeps by default. -/
def keptError (mode : WarpMode) (status : WarpLiveStatus) : Option String :=
  if mode = .error ∨ mode = .unhealthy then status.lastError else none

/-- `WarpController.publish` -/
def Controller.publish (c : Controller) (p : Publication) : Controller :=
  { c with
    status :=
      { mode := p.mode
        message := p.message
        endpoint := p.endpoint <|> c.confCache.map (·.endpoint) <|> c.status.endpoint
        address := p.address <|> c.confCache.map (·.addressV4) <|> c.status.address
        rxBytes := p.rx.getD c.status.rxBytes
        txBytes := p.tx.getD c.status.txBytes
        lastError := p.error.getD (keptError p.mode c.status)
        startAttempts := p.attempts.getD c.status.startAttempts
        autoRegenUsed := p.autoRegen.getD c.status.autoRegenUsed } }

/-- Where a stop comes from: how often it went from the controller to the service and back,
and how many starts the user had issued when it was requested.  The program keeps no such
record. -/
structure Echo where
  hops : ℕ
  startsBefore : ℕ
  deriving DecidableEq, Repr

/-- The stop that a stop causes. -/
def Echo.next (e : Echo) : Echo := { e with hops := e.hops + 1 }

/-- An intent for `WarpVpnService`. -/
inductive Intent where
  /-- `ACTION_START` -/
  | start
  /-- `ACTION_STOP` -/
  | stop (echo : Echo)
  deriving DecidableEq, Repr

/-- An effect of a command. -/
inductive Effect where
  | publish (p : Publication)
  | setVpn (v : VpnRuntimeStatus)
  /-- `VpnStateHolder.set` with the message of the status. -/
  | setVpnStarting
  /-- `setState` on the backend, which returns. -/
  | setState (state : TunnelState)
  /-- `tearDownTunnel`; the call on the backend returns if `ok`. -/
  | tearDown (ok : Bool)
  /-- `backend ?: GoBackend(app).also { backend = it }` -/
  | createBackend
  | setConfCache (conf : Option WarpConfig)
  | savePersistentConf (confText : String)
  | clearPersistentConf
  | cancelMonitor
  | startMonitor
  | setLastRx (rx changeAt : ℤ)
  | postIntent (intent : Intent)
  deriving DecidableEq, Repr

/-- An effect on the shared state; an intent has none. -/
def Controller.apply (c : Controller) : Effect → Controller
  | .publish p => c.publish p
  | .setVpn v => { c with vpn := v }
  | .setVpnStarting => { c with vpn := { state := .starting, message := c.status.message } }
  | .setState state => { c with tunnel := state }
  | .tearDown ok => if c.backend ∧ ok then { c with tunnel := .down } else c
  | .createBackend => { c with backend := true }
  | .setConfCache conf => { c with confCache := conf }
  | .savePersistentConf confText => { c with savedConf := some confText }
  | .clearPersistentConf => { c with savedConf := none }
  | .cancelMonitor => { c with monitor := false }
  | .startMonitor => { c with monitor := true }
  | .setLastRx rx changeAt => { c with lastRx := rx, lastRxChangeAt := changeAt }
  | .postIntent _ => c

/-- A body of the controller. -/
abbrev Body (α : Type) : Type := Emit Effect (Option String) α

/-! ### Bringing the tunnel up -/

/-- An answer of `getStatistics`, and the time after it. -/
structure Poll where
  rx : ℤ
  tx : ℤ
  now : ℤ
  deriving DecidableEq, Repr

/-- What happens when an endpoint is tried. -/
structure Attempt where
  /-- `Config.parse` -/
  parse : Except (Option String) Unit
  /-- Whether `setState(DOWN)` returns. -/
  down : Bool
  /-- `setState(UP)` -/
  up : Except (Option String) Unit
  /-- The calls of `getStatistics` before the deadline; `none` is an exception. -/
  polls : List (Option Poll)

/-- The answers of the platform during `bringUpOnce`. -/
structure BringUp where
  /-- `WarpBootstrapDns.allCandidates` when the `k`-th configuration is expanded. -/
  dns : ℕ → String → List String
  generateOrBootstrap : Except (Option String) WarpConfig
  loadAllBootstrap : List WarpConfig
  /-- `startForegroundService`, and whether `WarpVpnService` is alive after the wait. -/
  service : Except (Option String) Bool
  /-- The attempt at the endpoint `idx` of the configuration `cIdx`. -/
  attempts : (cIdx idx : ℕ) → Attempt

/-- The local variables of `bringUpOnce` that its last message shows. -/
structure Progress where
  lastTx : ℤ := 0
  lastEp : String := "?"
  lastSource : String := ""
  deriving DecidableEq, Repr

section Bodies

variable (platform : Platform)

/-- The effects of the first statistics with received bytes. -/
def connected (variant : WarpConfig) (address ep : String) (attempt : ℕ) (p : Poll) :
    List Effect :=
  [.setLastRx p.rx p.now,
    .setConfCache (some variant),
    .savePersistentConf variant.confText,
    .publish
      { mode := .on
        message := "WARP ВКЛ · " ++ ep ++ " · " ++ variant.source
        endpoint := some ep
        address := some address
        rx := some p.rx
        tx := some p.tx
        attempts := some attempt },
    .setVpn
      { state := .active
        message := "WARP ВКЛ · " ++ ep ++ " · ↓" ++ platform.formatBytes p.rx
        ipv4 := true }]

/-- The wait for the handshake: `none` if it came, else the last number of sent bytes. -/
def awaitHandshake (onReceived : Poll → List Effect) : List (Option Poll) → ℤ → Body (Option ℤ)
  | [], lastTx => pure (some lastTx)
  | none :: polls, lastTx => awaitHandshake onReceived polls lastTx
  | some p :: polls, _ =>
      if 0 < p.rx then do
        Emit.tellAll (onReceived p)
        return none
      else awaitHandshake onReceived polls p.tx

/-- The round of the inner loop for the endpoint `ep`: `none` if the handshake came. -/
def tryEndpoint (base : WarpConfig) (count cIdx candidates attempt idx : ℕ) (ep : String)
    (a : Attempt) (progress : Progress) : Body (Option Progress) := do
  let variant := WarpConfigGenerator.withEndpoint base ep
  Emit.answer a.parse
  Emit.tellAll (if a.down then [.setState .down] else [])
  Emit.tell (.publish
    { mode := .starting
      message := "WARP: " ++ ep ++ " (" ++ toString (idx + 1) ++ "/" ++ toString count ++ ", conf " ++
        toString (cIdx + 1) ++ "/" ++ toString candidates ++ ")"
      endpoint := some ep
      address := some base.addressV4
      attempts := some attempt })
  Emit.answer a.up
  Emit.tell (.setState .up)
  let lastTx ← awaitHandshake (connected platform variant base.addressV4 ep attempt) a.polls
    progress.lastTx
  return lastTx.map fun tx => { progress with lastTx := tx, lastEp := ep }

/-- The inner loop, from the endpoint with index `idx` on. -/
def tryEndpoints (base : WarpConfig) (count cIdx candidates attempt : ℕ)
    (attempts : ℕ → Attempt) : ℕ → List String → Progress → Body (Option Progress)
  | _, [], progress => pure (some progress)
  | idx, ep :: eps, progress => do
      match ← tryEndpoint platform base count cIdx candidates attempt idx ep (attempts idx)
        progress with
      | none => return none
      | some progress =>
          tryEndpoints base count cIdx candidates attempt attempts (idx + 1) eps progress

/-- The endpoints of a configuration `bringUpOnce` tries. -/
def endpointsOf (base : WarpConfig) : List String :=
  (if base.endpointCandidates.isEmpty then [base.endpoint] else base.endpointCandidates).take 8

/-- The round of the outer loop for the expanded configuration `base`. -/
def tryCandidate (candidates attempt cIdx : ℕ) (attempts : ℕ → Attempt) (base : WarpConfig)
    (progress : Progress) : Body (Option Progress) := do
  let endpoints := endpointsOf base
  Emit.tell (.publish
    { mode := .starting
      message := "WARP: " ++ base.source ++ " · " ++ toString endpoints.length ++ " ep…"
      address := some base.addressV4
      attempts := some attempt })
  tryEndpoints platform base endpoints.length cIdx candidates attempt attempts 0 endpoints
    { progress with lastSource := base.source }

/-- The outer loop, from the configuration with index `cIdx` on. -/
def tryCandidates (answers : BringUp) (candidates attempt : ℕ) :
    ℕ → List WarpConfig → Progress → Body (Option Progress)
  | _, [], progress => pure (some progress)
  | cIdx, base0 :: rest, progress => do
      match ← tryCandidate platform candidates attempt cIdx (answers.attempts cIdx)
        (WarpConfigGenerator.expandEndpoints platform (answers.dns (cIdx + 1)) base0) progress with
      | none => return none
      | some progress => tryCandidates answers candidates attempt (cIdx + 1) rest progress

/-- The configurations `bringUpOnce` tries. -/
def candidatesOf (answers : BringUp) (confCache : Option WarpConfig) (allowRegister : Bool) :
    List WarpConfig :=
  let cached := confCache.toList.map (WarpConfigGenerator.expandEndpoints platform (answers.dns 0))
  let generated :=
    if allowRegister ∧ cached = [] then answers.generateOrBootstrap.toOption.toList else cached
  if generated = [] ∧ allowRegister then answers.loadAllBootstrap else generated

/-- The last message of `bringUpOnce`. -/
def handshakeFail (p : Progress) : String :=
  "handshake fail (tx=" ++ toString p.lastTx ++ " last=" ++ p.lastEp ++ " src=" ++ p.lastSource ++
    "). UDP к Cloudflare (2408/443/…) режется на этом LTE."

/-- The part of `bringUpOnce` that needs the service. -/
def raceEndpoints (answers : BringUp) (candidates : List WarpConfig) (attempt : ℕ) :
    Body Unit := do
  Emit.tell .createBackend
  match ← tryCandidates platform answers candidates.length attempt 0 candidates {} with
  | none => return ()
  | some progress => Emit.raise (some (handshakeFail progress))

/-- `WarpController.bringUpOnce` -/
def bringUpOnce (answers : BringUp) (confCache : Option WarpConfig) (attempt : ℕ)
    (allowRegister : Bool) : Body Unit := do
  Emit.tell (.publish
    { mode := .starting
      message :=
        match confCache with
        | some conf => "WARP: conf " ++ conf.source ++ "…"
        | none => "WARP: API / bootstrap…"
      attempts := some attempt })
  let candidates := candidatesOf platform answers confCache allowRegister
  if candidates = [] ∧ ¬ allowRegister then Emit.raise (some "Нет conf")
  if candidates = [] then
    Emit.raise (some ("Нет conf: API недоступен и bootstrap пуст. " ++
      "Вставьте WireGuard conf из буфера."))
  let alive ← Emit.answer answers.service
  Emit.tell (.postIntent .start)
  if ¬ alive then Emit.raise (some "WarpVpnService не стартовал")
  raceEndpoints platform answers candidates attempt

/-! ### The commands -/

/-- `WarpController.shortError`, of the message of the exception. -/
def shortError (message : Option String) : String :=
  let m := message.getD "fail"
  let has (part : String) : Bool := Text.contains platform.sameIgnoringCase part m
  if has "Unable to resolve" || has "No address" then
    "DNS: api.cloudflareclient.com. LTE/другой Wi‑Fi / вставьте conf"
  else if has "Таймаут Cloudflare API" || has "timeout" || has "timed out" then
    "CF API недоступен. Пробуем bootstrap; иначе вставьте conf"
  else if has "handshake" || has "rx=0" then
    "UDP CF режется (порты 2408/443/…). Другой оператор / 1.1.1.1"
  else if has "HTTP" then Text.take 80 m
  else Text.take 160 m

/-- `WarpController.stopInternal`; `ok` if the call on the backend returns. -/
def stopInternal (ok : Bool) : List Effect :=
  [.cancelMonitor, .tearDown ok, .setLastRx 0 0]

/-- The answers of the platform during `start`. -/
structure StartAnswers where
  /-- `loadSaved` -/
  loadSaved : Option WarpConfig
  /-- Whether the call in the `k`-th `tearDownTunnel` returns. -/
  tearDown : ℕ → Bool
  /-- The answers during the attempt with this number. -/
  bringUp : ℕ → BringUp

/-- The attempts of `start`, with the number of failed ones and the configuration in the
cache: `none` if the last one succeeded, else the message of the last exception. -/
def startAttempts (answers : StartAnswers) :
    List ℕ → ℕ → Option WarpConfig → Option String → Body (Option (Option String))
  | [], _, _, lastErr => pure (some lastErr)
  | attempt :: rest, regen, confCache, _ => do
      Emit.tell (.publish
        { mode := .starting
          message := "WARP " ++ toString attempt ++ "/" ++ toString maxAutoRegen ++ "…"
          attempts := some attempt
          autoRegen := some regen })
      Emit.tell .setVpnStarting
      match ← (bringUpOnce platform (answers.bringUp attempt) confCache attempt true).runCatching with
      | .ok () =>
          Emit.tell .startMonitor
          return none
      | .error message =>
          Emit.tell (.setConfCache none)
          Emit.tell .clearPersistentConf
          Emit.tell (.tearDown (answers.tearDown attempt))
          startAttempts answers rest (regen + 1) none message

/-- The body of `WarpController.start`, with the configuration in the cache: whether it
succeeds. -/
def start (answers : StartAnswers) (confCache : Option WarpConfig) (forceNewAccount : Bool) :
    Body Bool := do
  let conf := if forceNewAccount then none else confCache <|> answers.loadSaved
  Emit.tellAll
    (if forceNewAccount then [.setConfCache none, .clearPersistentConf] else [.setConfCache conf])
  Emit.tellAll (stopInternal (answers.tearDown 0))
  match ← startAttempts platform answers (List.range' 1 maxAutoRegen) 0 conf none with
  | none => return true
  | some lastErr =>
      let errMsg := shortError platform lastErr
      Emit.tell (.publish
        { mode := .error
          message := "WARP ошибка: " ++ errMsg
          error := some (some errMsg)
          attempts := some maxAutoRegen
          autoRegen := some maxAutoRegen })
      Emit.tell (.setVpn { state := .error, message := "WARP: " ++ errMsg })
      return false

/-- The answers of the platform during `startFromConf`. -/
structure ConfAnswers where
  /-- `WarpConfigGenerator.fromConfText` -/
  fromConfText : String → Except (Option String) WarpConfig
  tearDown : Bool
  bringUp : BringUp

/-- The part of `startFromConf` that may throw. -/
def importConf (answers : ConfAnswers) (confText : String) : Body Unit := do
  let parsed ← Emit.answer (answers.fromConfText confText)
  Emit.tell (.setConfCache (some parsed))
  Emit.tell (.savePersistentConf parsed.confText)
  bringUpOnce platform answers.bringUp (some parsed) 1 false
  Emit.tell .startMonitor

/-- The body of `WarpController.startFromConf`: whether it succeeds. -/
def startFromConf (answers : ConfAnswers) (confText : String) : Body Bool := do
  Emit.tellAll (stopInternal answers.tearDown)
  match ← (importConf platform answers confText).runCatching with
  | .ok () => return true
  | .error message =>
      let errMsg := shortError platform message
      Emit.tell (.publish
        { mode := .error, message := "WARP conf: " ++ errMsg, error := some (some errMsg) })
      return false

/-- The answers of the platform during `stop`. -/
structure StopAnswers where
  tearDown : Bool
  /-- Whether `startService` returns. -/
  startService : Bool

/-- What `stop` publishes. -/
def stopped : Publication := { mode := .off, message := "WARP выключен" }

/-- The body of `WarpController.stop`. -/
def stop (answers : StopAnswers) (echo : Echo) : List Effect :=
  stopInternal answers.tearDown ++
    (if answers.startService then [.postIntent (.stop echo.next)] else []) ++
    [.publish stopped, .setVpn { state := .off, message := "WARP stopped" }]

/-! ### Health checks -/

/-- What `refreshHealth` reads before it publishes. -/
structure Reading where
  mode : WarpMode
  tunnelState : TunnelState
  rx : ℤ
  tx : ℤ
  deriving DecidableEq, Repr

/-- The first part of `refreshHealth`, which reads; it returns early if there is nothing to
check.  `state` and `statistics` are the answers of the backend, `none` for an exception. -/
def readHealth (c : Controller) (fromUser : Bool) (state : Option TunnelState)
    (statistics : Option (ℤ × ℤ)) : Option Reading :=
  let mode := c.status.mode
  if ¬ c.backend ∨ (mode ≠ .on ∧ mode ≠ .unhealthy ∧ ¬ fromUser) then none
  else
    let (rx, tx) := statistics.getD (0, 0)
    some { mode := mode, tunnelState := state.getD .down, rx := rx, tx := tx }

/-- The early return of `refreshHealth`. -/
def skipHealth (c : Controller) (fromUser : Bool) : Controller :=
  if fromUser then c.publish { mode := .off, message := "WARP выключен (нечего проверять)" }
  else c

/-- The readings of the clock in `refreshHealth`: when received bytes are noted, and in the
conditions of the second and of the third branch. -/
structure Clock where
  noted : ℤ
  peer : ℤ
  stall : ℤ
  deriving DecidableEq, Repr

/-- Note received bytes that have grown. -/
def noteGrowth (c : Controller) (r : Reading) (clock : Clock) : Controller :=
  if r.rx > c.lastRx then { c with lastRx := r.rx, lastRxChangeAt := clock.noted } else c

/-- The branches of `refreshHealth`. -/
inductive Verdict where
  | tunnelDown
  | waitingForPeer
  | stalled
  | healthy
  deriving DecidableEq, Repr

/-- The branch `refreshHealth` takes after received bytes have been noted. -/
def verdict (c : Controller) (r : Reading) (clock : Clock) : Verdict :=
  if r.tunnelState ≠ .up then .tunnelDown
  else if r.rx = 0 ∧ r.tx > 0 ∧ clock.peer - c.lastRxChangeAt > 5000 then .waitingForPeer
  else if clock.stall - c.lastRxChangeAt > stallMs ∧ r.mode = .on then .stalled
  else .healthy

/-- What `refreshHealth` publishes in a branch. -/
def publishVerdict (c : Controller) (r : Reading) (fromUser : Bool) : Verdict → Controller
  | .tunnelDown =>
      let c := c.publish
        { mode := .off
          message := "WARP ВЫКЛ (tunnel=" ++ r.tunnelState.name ++ ")"
          rx := some r.rx
          tx := some r.tx
          error := some c.status.lastError }
      if Text.contains platform.sameIgnoringCase "WARP" c.vpn.message then
        { c with vpn := { c.vpn with state := .off, message := "WARP off" } }
      else c
  | .waitingForPeer =>
      c.publish
        { mode := .starting, message := "WARP: ждём peer…", rx := some r.rx, tx := some r.tx }
  | .stalled =>
      let c := c.publish
        { mode := .unhealthy
          message := "WARP БОЛЬНОЙ: нет входящего трафика " ++ toString (stallMs / 1000) ++ "с"
          rx := some r.rx
          tx := some r.tx
          error := some (some "peer stall") }
      { c with
        vpn := { state := .unstable, message := "WARP unhealthy · no RX growth", ipv4 := true } }
  | .healthy =>
      let c := c.publish
        { mode := .on
          message := "WARP ВКЛ · " ++ c.status.endpoint.getD "?"
          rx := some r.rx
          tx := some r.tx }
      if fromUser ∨ r.mode ≠ .on then
        { c with
          vpn :=
            { state := .active
              message := "WARP ВКЛ · ↓" ++ platform.formatBytes r.rx ++ " ↑" ++
                platform.formatBytes r.tx
              ipv4 := true } }
      else c

/-- Whether a check in this branch launches a reconnect. -/
def launches (c : Controller) (autoReconnect : Bool) (v : Verdict) : Bool :=
  v = .stalled && autoReconnect && !c.reconnecting

/-- The second part of `refreshHealth`, which publishes; the reconnect it may launch is a
coroutine of its own. -/
def publishHealth (c : Controller) (r : Reading) (fromUser autoReconnect : Bool) (clock : Clock) :
    Controller :=
  let c := noteGrowth c r clock
  let v := verdict c r clock
  { publishVerdict platform c r fromUser v with
    reconnecting := c.reconnecting || launches c autoReconnect v }

end Bodies

/-! ### The effects of the commands -/

/-- The effect neither sets the state of the tunnel, nor creates the backend, nor posts an
intent. -/
def Effect.isInternal : Effect → Bool
  | .setState _ | .createBackend | .postIntent _ => false
  | _ => true

/-- A property of lists of effects that composes, and that internal effects and those of
`bringUpOnce` have. -/
structure Compositional (platform : Platform) (P : List Effect → Prop) : Prop where
  nil : P []
  append : ∀ ws ws', P ws → P ws' → P (ws ++ ws')
  single : ∀ w, w.isInternal = true → P [w]
  bringUpOnce : ∀ answers confCache attempt allowRegister,
    P (bringUpOnce platform answers confCache attempt allowRegister).writes

namespace Compositional

variable {platform : Platform} {P : List Effect → Prop}

theorem bind (h : Compositional platform P) {α β : Type} {m : Body α} {f : α → Body β}
    (hm : P m.writes) (hf : ∀ a, P (f a).writes) :
  P (m >>= f).writes
  := by
  cases hr : m.result with
  | ok a =>
      rw [Emit.bind_of_ok hr]
      apply h.append _ _ hm (hf a)
  | error e =>
      rw [Emit.bind_of_error hr]
      apply hm

/-- A list of internal effects has the property. -/
theorem internal (h : Compositional platform P) {ws : List Effect}
    (hws : ∀ w ∈ ws, w.isInternal = true) :
  P ws
  := by
  induction ws with
  | nil => apply h.nil
  | cons w ws ih =>
      apply h.append [w] ws
      · apply h.single w (hws w List.mem_cons_self)
      · apply ih
        intro v hv
        apply hws v (List.mem_cons_of_mem w hv)

theorem stopInternal (h : Compositional platform P) (ok : Bool) :
  P (stopInternal ok)
  := by
  apply h.internal
  simp [WarpController.stopInternal, Effect.isInternal]

theorem startAttempts (h : Compositional platform P) (answers : StartAnswers) (attempts : List ℕ)
    (regen : ℕ) (confCache : Option WarpConfig) (lastErr : Option String) :
  P (startAttempts platform answers attempts regen confCache lastErr).writes
  := by
  induction attempts generalizing regen confCache lastErr with
  | nil => apply h.nil
  | cons attempt rest ih =>
      rw [WarpController.startAttempts]
      apply h.bind (h.single _ rfl)
      intro _
      apply h.bind (h.single _ rfl)
      intro _
      apply h.bind
      · apply h.bringUpOnce
      rintro (message | _)
      · apply h.bind (h.single _ rfl)
        intro _
        apply h.bind (h.single _ rfl)
        intro _
        apply h.bind (h.single _ rfl)
        intro _
        apply ih
      · apply h.bind (h.single _ rfl)
        intro _
        apply h.nil

/-- The effects of `start` have the property. -/
theorem start (h : Compositional platform P) (answers : StartAnswers)
    (confCache : Option WarpConfig) (forceNewAccount : Bool) :
  P (start platform answers confCache forceNewAccount).writes
  := by
  apply h.bind
  · apply h.internal
    split_ifs <;> simp [Effect.isInternal]
  intro _
  apply h.bind (h.stopInternal _)
  intro _
  apply h.bind (h.startAttempts _ _ _ _ _)
  rintro (_ | lastErr)
  · apply h.nil
  · apply h.bind (h.single _ rfl)
    intro _
    apply h.bind (h.single _ rfl)
    intro _
    apply h.nil

theorem importConf (h : Compositional platform P) (answers : ConfAnswers) (confText : String) :
  P (importConf platform answers confText).writes
  := by
  apply h.bind h.nil
  intro _
  apply h.bind (h.single _ rfl)
  intro _
  apply h.bind (h.single _ rfl)
  intro _
  apply h.bind (h.bringUpOnce _ _ _ _)
  intro _
  apply h.single _ rfl

/-- The effects of `startFromConf` have the property. -/
theorem startFromConf (h : Compositional platform P) (answers : ConfAnswers) (confText : String) :
  P (startFromConf platform answers confText).writes
  := by
  apply h.bind (h.stopInternal _)
  intro _
  apply h.bind
  · apply h.importConf
  rintro (message | _)
  · apply h.bind (h.single _ rfl)
    intro _
    apply h.nil
  · apply h.nil

end Compositional

/-! ### The modes of the health checks -/

/-- Every branch publishes one mode. -/
def Verdict.mode : Verdict → WarpMode
  | .tunnelDown => .off
  | .waitingForPeer => .starting
  | .stalled => .unhealthy
  | .healthy => .on

theorem Verdict.mode_eq_unhealthy {v : Verdict} :
  v.mode = .unhealthy ↔ v = .stalled
  := by
  cases v <;> decide

theorem Verdict.mode_eq_on {v : Verdict} :
  v.mode = .on ↔ v = .healthy
  := by
  cases v <;> decide

theorem publishVerdict_mode (platform : Platform) (c : Controller) (r : Reading) (fromUser : Bool)
    (v : Verdict) :
  (publishVerdict platform c r fromUser v).status.mode = v.mode
  := by
  cases v with
  | tunnelDown =>
      simp only [publishVerdict]
      split_ifs <;> rfl
  | waitingForPeer => rfl
  | stalled => rfl
  | healthy =>
      simp only [publishVerdict]
      split_ifs <;> rfl

theorem publishVerdict_lastRx (platform : Platform) (c : Controller) (r : Reading)
    (fromUser : Bool) (v : Verdict) :
  (publishVerdict platform c r fromUser v).lastRx = c.lastRx ∧
    (publishVerdict platform c r fromUser v).lastRxChangeAt = c.lastRxChangeAt
  := by
  cases v with
  | tunnelDown =>
      simp only [publishVerdict]
      split_ifs <;> exact ⟨rfl, rfl⟩
  | waitingForPeer => exact ⟨rfl, rfl⟩
  | stalled => exact ⟨rfl, rfl⟩
  | healthy =>
      simp only [publishVerdict]
      split_ifs <;> exact ⟨rfl, rfl⟩

end Warp.WarpController
