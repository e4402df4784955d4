import DtmaOne.Library.Run
import DtmaOne.Vpn.Service
import Mathlib.Data.Finset.Basic

/-!
# The network watcher

The callback of `DtmaVpnService.registerNetworkWatcher`, while the set of networks that are not
VPNs changes.  `onLost` publishes whether a network is left; `onAvailable` publishes nothing.  So
the published state follows the networks exactly as long as no network comes back after the last
one has been lost.
-/

namespace Vpn

open Warp (VpnUiState VpnRuntimeStatus)

/-! ### The underlying network -/

/-- `NetworkCapabilities`, as far as `UnderlyingNetwork` reads it. -/
structure NetworkCapabilities where
  internet : Bool
  vpn : Bool
  validated : Bool
  deriving DecidableEq

/-- A network of `allNetworks` with its capabilities, if it has any. -/
structure NetworkInfo where
  network : ℕ
  capabilities : Option NetworkCapabilities
  deriving DecidableEq

/-- The network gives access to the internet and is no VPN. -/
def NetworkInfo.isCandidate (info : NetworkInfo) : Bool :=
  info.capabilities.any fun caps => caps.internet && !caps.vpn

/-- The network of `UnderlyingNetwork.current`: the first candidate that is validated, or else the
first one. -/
def UnderlyingNetwork.current (allNetworks : List NetworkInfo) : Option ℕ :=
  let candidates := allNetworks.filter NetworkInfo.isCandidate
  ((candidates.find? fun info => info.capabilities.any NetworkCapabilities.validated).or
    candidates.head?).map NetworkInfo.network

/-! ### The callbacks -/

/-- `onAvailable`: the state is not published. -/
def onAvailable (s : Service) (_network : ℕ) : Service := s

/-- `onLost` -/
def onLost (s : Service) (allNetworks : List NetworkInfo) : Service :=
  match UnderlyingNetwork.current allNetworks with
  | some _ => s.apply (.update .active s.status.message)
  | none => s.apply (.update .unstable "Underlying network lost — waiting…")

/-- The service and the networks that are not VPNs. -/
structure Watch where
  networks : Finset ℕ
  service : Service
  deriving DecidableEq

/-- A call of the callback.  A loss comes with what `allNetworks` returns during it. -/
inductive Callback where
  | available (network : ℕ)
  | lost (network : ℕ) (allNetworks : List NetworkInfo)
  deriving DecidableEq

/-- What `allNetworks` returns has the given networks as its candidates. -/
def Shows (allNetworks : List NetworkInfo) (networks : Finset ℕ) : Prop :=
  ((allNetworks.filter NetworkInfo.isCandidate).map NetworkInfo.network).toFinset = networks

instance (allNetworks : List NetworkInfo) (networks : Finset ℕ) :
    Decidable (Shows allNetworks networks) :=
  inferInstanceAs (Decidable (_ = _))

/-- A network appears, or one of the networks is lost. -/
def step (w : Watch) : Callback → Option Watch
  | .available network => some ⟨insert network w.networks, onAvailable w.service network⟩
  | .lost network allNetworks =>
      if network ∈ w.networks ∧ Shows allNetworks (w.networks.erase network) then
        some ⟨w.networks.erase network, onLost w.service allNetworks⟩
      else none

/-- The published state is `UNSTABLE` if there is no network, and `ACTIVE` otherwise. -/
def Tracks (w : Watch) : Prop :=
  w.service.status.state = if w.networks = ∅ then .unstable else .active

/-- After each callback of a run the published state is that of the networks. -/
def TracksRun (w : Watch) (callbacks : List Callback) : Prop :=
  ∀ earlier c, earlier ++ [c] <+: callbacks → ∀ t, Run.exec step w (earlier ++ [c]) = some t →
    Tracks t

/-- A network appears while the published state is `UNSTABLE`. -/
def EndsOutage (w : Watch) (c : Callback) : Prop :=
  w.service.status.state = .unstable ∧ ∃ network, c = .available network

instance (w : Watch) : (c : Callback) → Decidable (EndsOutage w c)
  | .available _ => decidable_of_iff (w.service.status.state = .unstable) (by simp [EndsOutage])
  | .lost _ _ => isFalse (by simp [EndsOutage])

/-! ### Runs -/

/-- There is an underlying network exactly if there is a candidate. -/
theorem current_eq_none_iff (allNetworks : List NetworkInfo) :
  UnderlyingNetwork.current allNetworks = none
    ↔ allNetworks.filter NetworkInfo.isCandidate = []
  := by
  rw [UnderlyingNetwork.current, Option.map_eq_none_iff, Option.or_eq_none_iff,
    List.head?_eq_none_iff]
  constructor
  · intro h
    exact h.2
  · intro h
    rw [h]
    exact ⟨rfl, rfl⟩

/-- After a loss the published state is that of the networks. -/
theorem tracks_lost {w t : Watch} {network : ℕ} {allNetworks : List NetworkInfo}
    (h : step w (.lost network allNetworks) = some t) :
  Tracks t
  := by
  rw [step] at h
  split_ifs at h with henabled
  obtain rfl := Option.some.inj h
  have hempty : w.networks.erase network = ∅
      ↔ UnderlyingNetwork.current allNetworks = none := by
    rw [current_eq_none_iff, ← henabled.2, List.toFinset_eq_empty_iff, List.map_eq_nil_iff]
  rw [Tracks]
  cases hcurrent : UnderlyingNetwork.current allNetworks with
  | none =>
      rw [if_pos (hempty.mpr hcurrent), onLost, hcurrent]
      rfl
  | some next =>
      have hnonempty : ¬ w.networks.erase network = ∅ := by
        rw [hempty, hcurrent]
        simp
      rw [if_neg hnonempty, onLost, hcurrent]
      rfl

/-- After a network has appeared the published state is that of the networks exactly if it was
`ACTIVE` before. -/
theorem tracks_available_iff {w : Watch} {network : ℕ} :
  Tracks ⟨insert network w.networks, onAvailable w.service network⟩
    ↔ w.service.status.state = .active
  := by
  rw [Tracks, if_neg (Finset.insert_ne_empty network w.networks)]
  rfl

/-- The published state is `ACTIVE` or `UNSTABLE`. -/
def Watched (w : Watch) : Prop :=
  w.service.status.state = .active ∨ w.service.status.state = .unstable

theorem watched_step (w : Watch) (c : Callback) (t : Watch) (h : Watched w)
    (hstep : step w c = some t) :
  Watched t
  := by
  cases c with
  | available network =>
      obtain rfl := Option.some.inj hstep
      apply h
  | lost network allNetworks =>
      have htracks := tracks_lost hstep
      rw [Tracks] at htracks
      rw [Watched, htracks]
      split_ifs
      · right
        rfl
      · left
        rfl

/-- A callback leaves the published state that of the networks exactly if it does not end an
outage. -/
theorem tracks_step_iff {w t : Watch} {c : Callback} (h : Watched w) (hstep : step w c = some t) :
  Tracks t ↔ ¬ EndsOutage w c
  := by
  cases c with
  | available network =>
      obtain rfl := Option.some.inj hstep
      rw [tracks_available_iff, EndsOutage]
      obtain hactive | hunstable := h
      · simp [hactive]
      · simp [hunstable]
  | lost network allNetworks =>
      have htracks := tracks_lost hstep
      simp [htracks, EndsOutage]

/-- The block that is tried ends by publishing `ACTIVE`, if it comes to a tunnel. -/
theorem tryStart_endsAs_active {a : Start} (h : (tryStart a).result = .ok true) :
  ∃ status : VpnRuntimeStatus, status.state = .active
    ∧ (tryStart a).EndsAs (do Emit.tell (.set status); return true)
  := by
  rw [tryStart] at h ⊢
  obtain ⟨⟨settings, pfd⟩, hacquire, hfinish⟩ := Emit.result_bind_eq_ok.mp h
  have hends := Emit.endsAs_bind hacquire fun x => finish a x.1 x.2
  cases pfd with
  | none => cases (finish_none_eq_ok.mp hfinish).1
  | some fd =>
      simp only [finish, Emit.result_andThen_eq_ok, Emit.result_answer] at hfinish
      obtain ⟨htun, hwatcher, hconfig, hnative, hhev, -⟩ := hfinish
      refine ⟨⟨.active, settings.modeLabel, true, a.ipv6, !settings.hasUpstreamSocks⟩, rfl, ?_⟩
      apply hends.trans
      apply (Emit.endsAs_bind htun _).trans
      apply (Emit.endsAs_bind hwatcher _).trans
      apply (Emit.endsAs_bind hconfig _).trans
      apply (Emit.endsAs_bind hnative _).trans
      apply Emit.endsAs_bind hhev

/-- A start that succeeds publishes `ACTIVE`. -/
theorem active_of_started {a : Start} {s : Service} (h : (startVpn a s).1 = .started) :
  (startVpn a s).2.status.state = .active
  := by
  rw [startVpn] at h ⊢
  split_ifs at h ⊢ with hguard
  dsimp only at h ⊢
  cases hforeground : a.foreground with
  | error e =>
      rw [hforeground] at h
      cases h
  | ok u =>
      rw [hforeground] at h
      dsimp only at h ⊢
      have hresult : (tryStart a).result = .ok true := by
        rw [conclude] at h
        rcases hbody : (tryStart a).result with (_ | _) | (_ | _)
        · rw [hbody] at h
          cases h
        · rw [hbody] at h
          cases h
        · rw [hbody] at h
          cases h
        · rfl
      obtain ⟨status, hactive, ws, hwrites, -⟩ := tryStart_endsAs_active hresult
      rw [conclude, hresult, hwrites]
      dsimp only
      rw [Service.applyAll, List.foldl_append]
      apply hactive

/-- After a start that succeeds, with any networks and in every run of the callbacks, the published
state is that of the networks after each callback exactly if no network appears while the state is
`UNSTABLE`. -/
theorem tracksRun_iff (a : Start) (s : Service) (hstarted : (startVpn a s).1 = .started)
    (networks : Finset ℕ) (callbacks : List Callback) (last : Watch)
    (hrun : Run.exec step ⟨networks, (startVpn a s).2⟩ callbacks = some last) :
  TracksRun ⟨networks, (startVpn a s).2⟩ callbacks
    ↔ Run.Meets step (fun w c => ¬ EndsOutage w c) ⟨networks, (startVpn a s).2⟩ callbacks
  := by
  have hwatched : Watched ⟨networks, (startVpn a s).2⟩ := Or.inl (active_of_started hstarted)
  constructor
  · intro htracks
    rw [Run.meets_iff]
    rintro earlier c later w rfl hearlier
    rw [List.append_cons, Run.exec_append, Option.bind_eq_some_iff] at hrun
    obtain ⟨t, ht, -⟩ := hrun
    have hstep : step w c = some t := by
      obtain ⟨r, hr, hstep⟩ := (Run.exec_concat_eq_some step).mp ht
      obtain rfl := Option.some.inj (hr.symm.trans hearlier)
      exact hstep
    apply (tracks_step_iff (Run.invariant watched_step hwatched hearlier) hstep).mp
    apply htracks earlier c
    · rw [List.append_cons earlier c later]
      apply List.prefix_append
    · apply ht
  · intro hmeets earlier c hearlier t ht
    obtain ⟨w, hw, hstep⟩ := (Run.exec_concat_eq_some step).mp ht
    apply (tracks_step_iff (Run.invariant watched_step hwatched hw) hstep).mpr
    apply Run.ok_of_meets hmeets hearlier hw

/-- The only network is lost and comes back. -/
def returning : List Callback := [.lost 1 [], .available 1]

/-- The published state remains `UNSTABLE` after the network has come back. -/
theorem not_tracksRun_returning :
  (startVpn smoothStart idle).1 = .started
    ∧ (Run.exec step ⟨{1}, (startVpn smoothStart idle).2⟩ returning).map
        (fun w => (w.networks, w.service.status.state)) = some ({1}, .unstable)
    ∧ ¬ TracksRun ⟨{1}, (startVpn smoothStart idle).2⟩ returning
  := by
  have hend : (Run.exec step ⟨{1}, (startVpn smoothStart idle).2⟩ returning).map
      (fun w => (w.networks, w.service.status.state)) = some ({1}, .unstable) := by
    decide +kernel
  refine ⟨by decide +kernel, hend, ?_⟩
  intro h
  rw [Option.map_eq_some_iff] at hend
  obtain ⟨w, hw, hpair⟩ := hend
  obtain ⟨hnetworks, hstate⟩ := Prod.mk.inj hpair
  have htracks := h [.lost 1 []] (.available 1) (List.prefix_refl _) w hw
  rw [Tracks, hnetworks, hstate] at htracks
  revert htracks
  decide

/-- A change from the network 1 to the network 2 is followed. -/
theorem tracksRun_handover :
  TracksRun ⟨{1}, (startVpn smoothStart idle).2⟩
    [.available 2, .lost 1 [⟨2, some ⟨true, false, true⟩⟩]]
  := by
  have hrun : (Run.exec step ⟨{1}, (startVpn smoothStart idle).2⟩
      [.available 2, .lost 1 [⟨2, some ⟨true, false, true⟩⟩]]).isSome = true := by
    decide +kernel
  obtain ⟨last, hlast⟩ := Option.isSome_iff_exists.mp hrun
  apply (tracksRun_iff smoothStart idle (by decide +kernel) {1} _ last hlast).mpr
  decide +kernel

end Vpn
