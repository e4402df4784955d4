import DtmaOne.Library.Emit
import DtmaOne.Warp.Status

/-!
# The local VPN service

`DtmaVpnService.startVpn` and `stopVpn`.  A start acquires the SOCKS5 server, the tunnel, the
network callback and the native tunnel, one after the other, and publishes what it does.  There
are two exits for a start that fails: `establish()` returns null, or a step throws an exception.
The second one publishes the error and then calls `stopVpn`, which publishes that the VPN has
been stopped.

A start comes with the answers of the platform.  A throwable that is no exception is not caught
and leaves `startVpn`.
-/

namespace Vpn

open Warp (VpnUiState VpnRuntimeStatus)

/-! ### The service -/

/-- `LocalSocks5Server`: whether it runs, and whether its server socket is open. -/
structure LocalSocks5Server where
  running : Bool
  listening : Bool
  deriving DecidableEq

/-- `LocalSocks5Server.stop`: it no longer runs, even if a later step of it throws. -/
def LocalSocks5Server.stop (_ : LocalSocks5Server) : LocalSocks5Server :=
  ⟨false, false⟩

/-- A network callback of the service, and whether the connectivity manager has it. -/
structure NetworkCallback where
  registered : Bool
  deriving DecidableEq

/-- The fields of `DtmaVpnService`, with the status in `VpnStateHolder`. -/
structure Service where
  /-- The descriptor in `tun`. -/
  tun : Option ℕ
  socks5 : Option LocalSocks5Server
  hevRunning : Bool
  networkCallback : Option NetworkCallback
  status : VpnRuntimeStatus
  deriving DecidableEq

/-- What is thrown: an exception with its message, or another throwable. -/
inductive Throwable where
  | exception (message : Option String)
  | error
  deriving DecidableEq

/-- `UserSettings`, as far as `startVpn` reads it. -/
structure UserSettings where
  upstreamSocksHost : String
  upstreamSocksPort : ℤ
  upstreamSocksEnabled : Bool
  telegramMultipath : Bool
  telegramSmartPath : Bool
  dohDns : Bool
  deriving DecidableEq

/-- `UserSettings.hasUpstreamSocks` -/
def UserSettings.hasUpstreamSocks (settings : UserSettings) : Bool :=
  settings.upstreamSocksEnabled && !Text.isBlank settings.upstreamSocksHost &&
    (1 ≤ settings.upstreamSocksPort && settings.upstreamSocksPort ≤ 65535)

/-- The mode that is shown. -/
def UserSettings.modeLabel (settings : UserSettings) : String :=
  if settings.hasUpstreamSocks then
    "Upstream SOCKS5 " ++ Text.trim settings.upstreamSocksHost ++ ":"
      ++ toString settings.upstreamSocksPort ++ " (ваш прокси)"
  else
    "Local" ++ (if settings.dohDns then " · DoH DNS" else "")
      ++ (if settings.telegramSmartPath then " · TG smart" else "")
      ++ (if settings.telegramMultipath then " · multipath" else "")
      ++ (if !settings.telegramSmartPath && !settings.telegramMultipath && !settings.dohDns then
        " SOCKS5 · same ISP" else "")

/-- The answers of the platform during `startVpn`, in the order of the calls. -/
structure Start where
  /-- `startForeground` -/
  foreground : Except Throwable Unit
  /-- `HevTunnel.available` -/
  available : Bool
  /-- `settingsRepository.settings.first()` -/
  settings : Except Throwable UserSettings
  /-- `NetworkContextFactory.current` -/
  networkContext : Except Throwable Unit
  /-- `UnderlyingNetwork.current` -/
  underlying : Except Throwable Unit
  /-- `socks5?.stop()` before the upstream server is used -/
  oldServer : Except Throwable Unit
  /-- The constructor of `LocalSocks5Server` -/
  newServer : Except Throwable Unit
  /-- `socks.start()` -/
  bind : Except Throwable Unit
  /-- The calls on the builder -/
  builder : Except Throwable Unit
  /-- `builder.addAddress` and `addRoute` for IPv6 return -/
  ipv6 : Bool
  /-- `builder.establish()` -/
  establish : Except Throwable (Option ℕ)
  /-- `socks5?.stop()` after `establish()` has returned null -/
  abandonServer : Except Throwable Unit
  /-- `stopForeground` and `stopSelf` after `establish()` has returned null -/
  abandonForeground : Except Throwable Unit
  /-- `getSystemService` and `UnderlyingNetwork.requestNonVpn` -/
  request : Except Throwable Unit
  /-- `writeHevConfig` -/
  config : Except Throwable Unit
  /-- `HevTunnel.TProxyStartService` -/
  native : Except Throwable Unit

/-- The writes of the service, in the order of the source. -/
inductive Effect where
  /-- `VpnStateHolder.update` of state and message -/
  | update (state : VpnUiState) (message : String)
  /-- `VpnStateHolder.set` -/
  | set (status : VpnRuntimeStatus)
  /-- `socks5 = socks`, for a server that has been started -/
  | holdServer
  /-- `socks5?.stop()` -/
  | stopServer
  /-- `socks5 = null` -/
  | clearServer
  /-- `tun = pfd` -/
  | setTun (fd : ℕ)
  /-- `tun?.close()` and `tun = null` -/
  | closeTun
  /-- `unregisterNetworkWatcher` -/
  | unregister
  /-- `networkCallback = cb` -/
  | setCallback
  /-- `cb` is registered. -/
  | register
  /-- The value of `hevRunning` -/
  | setHev (running : Bool)
  deriving DecidableEq

/-- The state after a write. -/
def Service.apply (s : Service) : Effect → Service
  | .update state message => { s with status := { s.status with state := state, message := message } }
  | .set status => { s with status := status }
  | .holdServer => { s with socks5 := some ⟨true, true⟩ }
  | .stopServer => { s with socks5 := s.socks5.map LocalSocks5Server.stop }
  | .clearServer => { s with socks5 := none }
  | .setTun fd => { s with tun := some fd }
  | .closeTun => { s with tun := none }
  | .unregister => { s with networkCallback := none }
  | .setCallback => { s with networkCallback := some ⟨false⟩ }
  | .register => { s with networkCallback := some ⟨true⟩ }
  | .setHev running => { s with hevRunning := running }

/-- The state after writes. -/
def Service.applyAll (s : Service) (ws : List Effect) : Service :=
  ws.foldl Service.apply s

/-! ### Starting and stopping -/

/-- A part of `startVpn`. -/
abbrev Body (α : Type) : Type := Emit Effect Throwable α

/-- `DtmaVpnService.stopVpn`; the exceptions of its calls are caught. -/
def stopVpn : List Effect :=
  [.unregister, .setHev false, .stopServer, .clearServer, .closeTun,
    .set { state := .off, message := "Stopped" }]

/-- `DtmaVpnService.registerNetworkWatcher` -/
def registerNetworkWatcher (a : Start) : Body Unit := do
  Emit.tellAll [.unregister, .setCallback]
  Emit.answer a.request
  Emit.tell .register

/-- The server that the tunnel uses: the one of the user, or a new local one. -/
def openServer (a : Start) (settings : UserSettings) : Body Unit :=
  if settings.hasUpstreamSocks then do
    Emit.tell .stopServer
    Emit.answer a.oldServer
    Emit.tell .clearServer
  else do
    Emit.answer a.newServer
    Emit.answer a.bind
    Emit.tell .holdServer

/-- The check for the native library. -/
def checkAvailable (a : Start) : Body Unit :=
  if a.available then pure ()
  else Emit.raise (.exception
    (some "Native tun2socks library not loaded (hev-socks5-tunnel). Rebuild with NDK."))

/-- The steps up to the descriptor of the tunnel. -/
def acquire (a : Start) : Body (UserSettings × Option ℕ) := do
  checkAvailable a
  let settings ← Emit.answer a.settings
  Emit.answer a.networkContext
  Emit.answer a.underlying
  openServer a settings
  Emit.answer a.builder
  let pfd ← Emit.answer a.establish
  return (settings, pfd)

/-- The message for a tunnel that is not established. -/
def establishMessage : String := "VPN permission missing or establish() failed"

/-- What is left to do after `establish()`: whether the tunnel is up. -/
def finish (a : Start) (settings : UserSettings) : Option ℕ → Body Bool
  | none => do
      Emit.tellAll [.update .error establishMessage, .stopServer]
      Emit.answer a.abandonServer
      Emit.tell .clearServer
      Emit.answer a.abandonForeground
      return false
  | some fd => do
      Emit.tell (.setTun fd)
      registerNetworkWatcher a
      Emit.answer a.config
      Emit.answer a.native
      Emit.tell (.setHev true)
      Emit.tell (.set
        { state := .active
          message := settings.modeLabel
          ipv4 := true
          ipv6 := a.ipv6
          limitedMode := !settings.hasUpstreamSocks })
      return true

/-- The block that is tried. -/
def tryStart (a : Start) : Body Bool := do
  let (settings, pfd) ← acquire a
  finish a settings pfd

/-- How `startVpn` ends: it has nothing to do, the VPN has been started, the start has failed with
a message, or a throwable leaves it. -/
inductive Outcome where
  | ignored
  | started
  | failed (message : String)
  | thrown
  deriving DecidableEq

/-- The end of the `try` statement. -/
def conclude (s : Service) (body : Body Bool) : Outcome × Service :=
  let t := s.applyAll body.writes
  match body.result with
  | .ok true => (.started, t)
  | .ok false => (.failed establishMessage, t)
  | .error (.exception message) =>
      (.failed (message.getD "start failed"),
        (t.apply (.update .error (message.getD "start failed"))).applyAll stopVpn)
  | .error .error => (.thrown, t)

/-- `DtmaVpnService.startVpn` -/
def startVpn (a : Start) (s : Service) : Outcome × Service :=
  if s.hevRunning || s.tun.isSome then (.ignored, s)
  else
    let s := s.apply (.update .starting "Starting local tunnel…")
    match a.foreground with
    | .error _ => (.thrown, s)
    | .ok () => conclude s (tryStart a)

/-! ### A failed start -/

/-- The start is undone and reported: nothing that it acquires is left, and the error is shown with
its message. -/
structure UndoneAndReported (message : String) (s : Service) : Prop where
  tun : s.tun = none
  hev : s.hevRunning = false
  server : ∀ server, s.socks5 = some server → server.running = false
  callback : ∀ callback, s.networkCallback = some callback → callback.registered = false
  state : s.status.state = .error
  message : s.status.message = message

/-- The server that the settings ask for is available. -/
def Start.Serves (a : Start) (settings : UserSettings) : Prop :=
  if settings.hasUpstreamSocks then a.oldServer = .ok ()
  else a.newServer = .ok () ∧ a.bind = .ok ()

/-- The start comes as far as `establish()`, which returns null, and the calls after it return. -/
structure Start.NotEstablished (a : Start) : Prop where
  available : a.available = true
  settings : ∃ settings, a.settings = .ok settings ∧ a.Serves settings
  networkContext : a.networkContext = .ok ()
  underlying : a.underlying = .ok ()
  builder : a.builder = .ok ()
  establish : a.establish = .ok none
  abandonServer : a.abandonServer = .ok ()
  abandonForeground : a.abandonForeground = .ok ()

/-- The write concerns the server only. -/
def Effect.OnServer (w : Effect) : Prop :=
  w = .holdServer ∨ w = .stopServer ∨ w = .clearServer

/-- Writes on the server leave everything else as it is. -/
theorem applyAll_onServer {ws : List Effect} (hws : ∀ w ∈ ws, w.OnServer) (s : Service) :
  ∃ socks5, s.applyAll ws = { s with socks5 := socks5 }
  := by
  induction ws generalizing s with
  | nil => exact ⟨s.socks5, rfl⟩
  | cons w ws ih =>
      have hrest : ∀ w ∈ ws, w.OnServer := fun v hv => hws v (List.mem_cons_of_mem w hv)
      obtain ⟨socks5, hall⟩ := ih hrest (s.apply w)
      use socks5
      rw [Service.applyAll, List.foldl_cons]
      obtain rfl | rfl | rfl := hws w List.mem_cons_self
      · apply hall
      · apply hall
      · apply hall

theorem openServer_onServer (a : Start) (settings : UserSettings) :
  ∀ w ∈ (openServer a settings).writes, w.OnServer
  := by
  rw [openServer]
  split_ifs
  · apply Emit.forall_writes_bind
    · simp [Effect.OnServer]
    · intro _
      apply Emit.forall_writes_bind
      · simp
      · simp [Effect.OnServer]
  · apply Emit.forall_writes_bind
    · simp
    · intro _
      apply Emit.forall_writes_bind
      · simp
      · simp [Effect.OnServer]

theorem checkAvailable_writes (a : Start) :
  (checkAvailable a).writes = []
  := by
  rw [checkAvailable]
  split_ifs
  · rfl
  · rfl

theorem checkAvailable_eq_ok {a : Start} :
  (checkAvailable a).result = .ok () ↔ a.available = true
  := by
  rw [checkAvailable]
  split_ifs with h
  · simp [h]
  · simp [h]

theorem openServer_eq_ok {a : Start} {settings : UserSettings} :
  (openServer a settings).result = .ok () ↔ a.Serves settings
  := by
  rw [openServer, Start.Serves]
  split_ifs
  · simp [Emit.result_andThen_eq_ok]
  · simp [Emit.result_andThen_eq_ok]

/-- Up to the descriptor of the tunnel only the server is acquired. -/
theorem acquire_onServer (a : Start) :
  ∀ w ∈ (acquire a).writes, w.OnServer
  := by
  have hanswer : ∀ {α : Type} (r : Except Throwable α),
      ∀ w ∈ (Emit.answer r : Body α).writes, w.OnServer := by
    intro α r w hw
    cases hw
  apply Emit.forall_writes_bind
  · rw [checkAvailable_writes]
    simp
  intro _
  apply Emit.forall_writes_bind (hanswer a.settings)
  intro settings
  apply Emit.forall_writes_bind (hanswer a.networkContext)
  intro _
  apply Emit.forall_writes_bind (hanswer a.underlying)
  intro _
  apply Emit.forall_writes_bind (openServer_onServer a settings)
  intro _
  apply Emit.forall_writes_bind (hanswer a.builder)
  intro _
  apply Emit.forall_writes_bind (hanswer a.establish)
  intro pfd
  simp

/-- When the steps up to the descriptor all return. -/
theorem acquire_eq_ok {a : Start} {settings : UserSettings} {pfd : Option ℕ} :
  (acquire a).result = .ok (settings, pfd)
    ↔ a.available = true ∧ a.settings = .ok settings ∧ a.networkContext = .ok ()
      ∧ a.underlying = .ok () ∧ a.Serves settings ∧ a.builder = .ok () ∧ a.establish = .ok pfd
  := by
  rw [acquire, Emit.result_andThen_eq_ok, checkAvailable_eq_ok, Emit.result_bind_eq_ok]
  simp only [Emit.result_andThen_eq_ok, Emit.result_answer, openServer_eq_ok]
  constructor
  · rintro ⟨havailable, x, hsettings, hcontext, hunderlying, hserver, hbuilder, hrest⟩
    obtain ⟨y, hfd, hpair⟩ := Emit.result_bind_eq_ok.mp hrest
    obtain ⟨rfl, rfl⟩ := Prod.mk.inj (Except.ok.inj hpair)
    exact ⟨havailable, hsettings, hcontext, hunderlying, hserver, hbuilder, hfd⟩
  · rintro ⟨havailable, hsettings, hcontext, hunderlying, hserver, hbuilder, hfd⟩
    refine ⟨havailable, settings, hsettings, hcontext, hunderlying, hserver, hbuilder, ?_⟩
    rw [Emit.result_bind_eq_ok]
    exact ⟨pfd, hfd, rfl⟩

/-- Without a descriptor the block ends early. -/
theorem finish_none_eq_ok {a : Start} {settings : UserSettings} {started : Bool} :
  (finish a settings none).result = .ok started
    ↔ started = false ∧ a.abandonServer = .ok () ∧ a.abandonForeground = .ok ()
  := by
  simp only [finish, Emit.result_andThen_eq_ok, Emit.result_tellAll, Emit.result_tell,
    Emit.result_answer, Emit.result_pure, Except.ok.injEq, true_and]
  constructor
  · rintro ⟨hserver, hforeground, hstarted⟩
    exact ⟨hstarted.symm, hserver, hforeground⟩
  · rintro ⟨hstarted, hserver, hforeground⟩
    exact ⟨hserver, hforeground, hstarted.symm⟩

/-- With a descriptor the block ends with a tunnel, if it comes to an end. -/
theorem finish_some_eq_ok {a : Start} {settings : UserSettings} {fd : ℕ} {started : Bool}
    (h : (finish a settings (some fd)).result = .ok started) :
  started = true
  := by
  simp only [finish, Emit.result_andThen_eq_ok, Emit.result_tell, Emit.result_answer,
    Emit.result_pure, Except.ok.injEq] at h
  obtain ⟨-, -, -, -, -, -, hstarted⟩ := h
  exact hstarted.symm

/-- The block returns without a tunnel exactly if `establish()` has returned null. -/
theorem tryStart_eq_ok_false {a : Start} :
  (tryStart a).result = .ok false ↔ a.NotEstablished
  := by
  rw [tryStart, Emit.result_bind_eq_ok]
  constructor
  · rintro ⟨⟨settings, _ | fd⟩, hacquire, hfinish⟩
    · obtain ⟨havailable, hsettings, hcontext, hunderlying, hserver, hbuilder, hfd⟩ :=
        acquire_eq_ok.mp hacquire
      obtain ⟨-, habandon, hforeground⟩ := finish_none_eq_ok.mp hfinish
      exact ⟨havailable, ⟨settings, hsettings, hserver⟩, hcontext, hunderlying, hbuilder, hfd,
        habandon, hforeground⟩
    · cases finish_some_eq_ok hfinish
  · intro h
    obtain ⟨settings, hsettings, hserver⟩ := h.settings
    refine ⟨(settings, none), ?_, ?_⟩
    · apply acquire_eq_ok.mpr
      exact ⟨h.available, hsettings, h.networkContext, h.underlying, hserver, h.builder,
        h.establish⟩
    · apply finish_none_eq_ok.mpr
      exact ⟨rfl, h.abandonServer, h.abandonForeground⟩

/-- The writes of a block that returns without a tunnel. -/
theorem tryStart_writes {a : Start} (h : a.NotEstablished) :
  (tryStart a).writes
    = (acquire a).writes ++ [.update .error establishMessage, .stopServer, .clearServer]
  := by
  obtain ⟨settings, hsettings, hserver⟩ := h.settings
  have hacquire : (acquire a).result = .ok (settings, none) :=
    acquire_eq_ok.mpr ⟨h.available, hsettings, h.networkContext, h.underlying, hserver, h.builder,
      h.establish⟩
  rw [tryStart, Emit.bind_of_ok hacquire]
  dsimp only [finish]
  rw [Emit.bind_of_ok (by rfl)]
  dsimp only
  rw [Emit.bind_of_ok (by rw [Emit.result_answer]; exact h.abandonServer)]
  dsimp only
  rw [Emit.bind_of_ok (by rfl)]
  dsimp only
  rw [Emit.bind_of_ok (by rw [Emit.result_answer]; exact h.abandonForeground)]
  rfl

/-- A start without a tunnel shows the error, holds no server, and leaves the rest as it was. -/
theorem conclude_notEstablished {a : Start} (h : a.NotEstablished) (s : Service) :
  conclude s (tryStart a)
    = (.failed establishMessage,
        { s with
          socks5 := none
          status := { s.status with state := .error, message := establishMessage } })
  := by
  obtain ⟨socks5, hacquire⟩ := applyAll_onServer (acquire_onServer a) s
  rw [conclude]
  dsimp only
  rw [tryStart_eq_ok_false.mpr h, tryStart_writes h, Service.applyAll, List.foldl_append]
  change (Outcome.failed establishMessage, List.foldl Service.apply (s.applyAll (acquire a).writes)
    [.update .error establishMessage, .stopServer, .clearServer]) = _
  rw [hacquire]
  rfl

/-- A start that fails with an exception shows that the VPN has been stopped. -/
theorem conclude_exception {s : Service} {body : Body Bool} {message : Option String}
    (h : body.result = .error (.exception message)) :
  (conclude s body).2.status.state = .off
  := by
  rw [conclude, h]
  rfl

/-- A start that fails, from any state without a tunnel and with any answers of the platform, is
undone and reported exactly if it fails because `establish()` returns null, and there was no
registered callback before. -/
theorem undoneAndReported_iff (a : Start) (s : Service) (htun : s.tun = none)
    (hhev : s.hevRunning = false) (message : String)
    (hfailed : (startVpn a s).1 = .failed message) :
  UndoneAndReported message (startVpn a s).2
    ↔ a.NotEstablished
      ∧ ∀ callback, s.networkCallback = some callback → callback.registered = false
  := by
  have hguard : ¬ (s.hevRunning || s.tun.isSome) = true := by
    rw [htun, hhev]
    decide
  rw [startVpn, if_neg hguard] at hfailed ⊢
  dsimp only at hfailed ⊢
  cases hforeground : a.foreground with
  | error e =>
      rw [hforeground] at hfailed
      cases hfailed
  | ok u =>
      rw [hforeground] at hfailed
      dsimp only at hfailed ⊢
      by_cases hnull : a.NotEstablished
      · rw [conclude_notEstablished hnull] at hfailed ⊢
        obtain rfl := Outcome.failed.inj hfailed
        constructor
        · intro h
          exact ⟨hnull, h.callback⟩
        · rintro ⟨-, hcallback⟩
          constructor
          · apply htun
          · apply hhev
          · intro server hserver
            cases hserver
          · apply hcallback
          · rfl
          · rfl
      · constructor
        · intro h
          have hstate := h.state
          cases hresult : (tryStart a).result with
          | ok started =>
              cases started with
              | false => exact absurd (tryStart_eq_ok_false.mp hresult) hnull
              | true =>
                  rw [conclude, hresult] at hfailed
                  cases hfailed
          | error thrown =>
              cases thrown with
              | exception cause =>
                  rw [conclude_exception hresult] at hstate
                  cases hstate
              | error =>
                  rw [conclude, hresult] at hfailed
                  cases hfailed
        · rintro ⟨h, -⟩
          exact absurd h hnull

/-- The service before its first start. -/
def idle : Service :=
  ⟨none, none, false, none, {}⟩

/-- A start with the local server in which every call returns. -/
def smoothStart : Start where
  foreground := .ok ()
  available := true
  settings := .ok ⟨"", 1080, false, true, true, true⟩
  networkContext := .ok ()
  underlying := .ok ()
  oldServer := .ok ()
  newServer := .ok ()
  bind := .ok ()
  builder := .ok ()
  ipv6 := true
  establish := .ok (some 3)
  abandonServer := .ok ()
  abandonForeground := .ok ()
  request := .ok ()
  config := .ok ()
  native := .ok ()

/-- A start in which the port of the local server is in use. -/
def portInUse : Start :=
  { smoothStart with bind := .error (.exception (some "Address already in use")) }

/-- The failure is not shown: the state is that of a VPN that has been stopped. -/
theorem not_undoneAndReported_portInUse :
  startVpn portInUse idle
      = (.failed "Address already in use", { idle with status := { message := "Stopped" } })
    ∧ ¬ UndoneAndReported "Address already in use" (startVpn portInUse idle).2
  := by
  have hend : startVpn portInUse idle
      = (.failed "Address already in use", { idle with status := { message := "Stopped" } }) := by
    decide +kernel
  refine ⟨hend, ?_⟩
  intro h
  have hstate := h.state
  rw [hend] at hstate
  cases hstate

/-- A start for which the permission is missing. -/
def noPermission : Start :=
  { smoothStart with establish := .ok none }

/-- The missing permission is shown, and nothing is left of the start. -/
theorem undoneAndReported_noPermission :
  UndoneAndReported establishMessage (startVpn noPermission idle).2
  := by
  have hfailed : (startVpn noPermission idle).1 = .failed establishMessage := by decide +kernel
  apply (undoneAndReported_iff noPermission idle rfl rfl establishMessage hfailed).mpr
  constructor
  · exact ⟨rfl, ⟨_, rfl, by simp [Start.Serves, noPermission, smoothStart,
      UserSettings.hasUpstreamSocks]⟩, rfl, rfl, rfl, rfl, rfl, rfl⟩
  · intro callback hcallback
    cases hcallback

end Vpn
