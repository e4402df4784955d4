import DtmaOne.Library.Run
import DtmaOne.Warp.Controller

/-!
# Health checks in sequence

`refreshHealth` publishes `ON` unless the tunnel is down, the peer has not answered yet, or
the received bytes have not grown for `STALL_MS`.  The third branch also asks that the mode is
`ON`, so the check after the one that published `UNHEALTHY` publishes `ON` again, although
nothing was received in between.

A run is a sequence of checks with a clock that does not go back.
-/

namespace Warp.WarpController

/-- A call of `refreshHealth`: the answers of the backend, and the clock. -/
structure Check where
  fromUser : Bool := false
  autoReconnect : Bool := true
  state : Option TunnelState
  statistics : Option (ℤ × ℤ)
  clock : Clock
  deriving DecidableEq, Repr

/-- The controller between two checks, and the last reading of the clock. -/
structure Monitored where
  controller : Controller
  now : ℤ
  deriving DecidableEq, Repr

/-- What a check reads, if it does not return early. -/
def Check.reading (k : Check) (c : Controller) : Option Reading :=
  readHealth c k.fromUser k.state k.statistics

/-- The controller after a check. -/
def Check.run (platform : Platform) (k : Check) (c : Controller) : Controller :=
  match k.reading c with
  | none => skipHealth c k.fromUser
  | some r => publishHealth platform c r k.fromUser k.autoReconnect k.clock

/-- One check. -/
def checkStep (platform : Platform) (s : Monitored) (k : Check) : Option Monitored :=
  if s.now ≤ k.clock.noted ∧ k.clock.noted ≤ k.clock.peer ∧ k.clock.peer ≤ k.clock.stall then
    some { controller := k.run platform s.controller, now := k.clock.stall }
  else none

/-- The branch the check takes, if it does not return early. -/
def Check.verdict (k : Check) (c : Controller) : Option Verdict :=
  (k.reading c).map fun r => WarpController.verdict (noteGrowth c r k.clock) r k.clock

variable (platform : Platform)

/-- A check that does not return early publishes the mode of its branch, and notes received
bytes that have grown. -/
theorem run_of_reading {k : Check} {c : Controller} {r : Reading} (h : k.reading c = some r) :
  (k.run platform c).status.mode = (verdict (noteGrowth c r k.clock) r k.clock).mode ∧
    (k.run platform c).lastRx = (noteGrowth c r k.clock).lastRx ∧
    (k.run platform c).lastRxChangeAt = (noteGrowth c r k.clock).lastRxChangeAt
  := by
  simp only [Check.run, h, publishHealth]
  refine ⟨?_, ?_, ?_⟩
  · apply publishVerdict_mode
  · apply (publishVerdict_lastRx platform _ r k.fromUser _).1
  · apply (publishVerdict_lastRx platform _ r k.fromUser _).2

/-- A check that returns early leaves the mode or publishes `OFF`, and notes nothing. -/
theorem run_of_skip {k : Check} {c : Controller} (h : k.reading c = none) :
  ((k.run platform c).status.mode = c.status.mode ∨ (k.run platform c).status.mode = .off) ∧
    (k.run platform c).lastRxChangeAt = c.lastRxChangeAt
  := by
  simp only [Check.run, h, skipHealth]
  split_ifs
  · exact ⟨Or.inr rfl, rfl⟩
  · exact ⟨Or.inl rfl, rfl⟩

theorem noteGrowth_of_not_grown {c : Controller} {r : Reading} {clock : Clock}
    (h : ¬ r.rx > c.lastRx) :
  noteGrowth c r clock = c
  := by
  rw [noteGrowth, if_neg h]

/-! ### The law of the mode `ON` -/

/-- The check finds the tunnel up and no growth within `STALL_MS`, in a mode other than `ON`,
and does not wait for the peer. -/
def StaleCheck (s : Monitored) (k : Check) : Prop :=
  ∃ r ∈ k.reading s.controller, r.mode ≠ .on ∧ r.tunnelState = .up ∧
    ¬ (r.rx = 0 ∧ r.tx > 0 ∧
      k.clock.peer - (noteGrowth s.controller r k.clock).lastRxChangeAt > 5000) ∧
    k.clock.stall - (noteGrowth s.controller r k.clock).lastRxChangeAt > stallMs

/-- If the check from `s` to `t` publishes `ON`, then the received bytes have grown within
`STALL_MS`, and if the mode was `UNHEALTHY`, they have grown since. -/
def OnIsRecent (s : Monitored) (k : Check) (t : Monitored) : Prop :=
  (k.verdict s.controller = some .healthy →
    k.clock.stall - t.controller.lastRxChangeAt ≤ stallMs) ∧
  (s.controller.status.mode = .unhealthy → t.controller.status.mode = .on →
    s.controller.lastRx < t.controller.lastRx)

/-- An unhealthy controller has received nothing for longer than `STALL_MS`. -/
def UnhealthyIsStalled (s : Monitored) : Prop :=
  s.controller.status.mode = .unhealthy → s.now - s.controller.lastRxChangeAt > stallMs

theorem verdict_stalled {c : Controller} {r : Reading} {clock : Clock}
    (h : verdict c r clock = .stalled) :
  clock.stall - c.lastRxChangeAt > stallMs
  := by
  simp only [verdict] at h
  split_ifs at h with hup hpeer hstall
  apply hstall.1

/-- The check publishes `ON` although nothing was received within `STALL_MS` exactly when it
is stale. -/
theorem staleCheck_iff {s : Monitored} {k : Check} {r : Reading}
    (hr : k.reading s.controller = some r) :
  StaleCheck s k ↔
    verdict (noteGrowth s.controller r k.clock) r k.clock = .healthy ∧
      k.clock.stall - (noteGrowth s.controller r k.clock).lastRxChangeAt > stallMs
  := by
  simp only [StaleCheck, hr, Option.mem_def, Option.some.injEq, exists_eq_left', verdict]
  split_ifs with hup hpeer hstall
  · simp [hup]
  · simp [hpeer]
  · simp [hstall.2]
  · rw [ne_eq, not_not] at hup
    constructor
    · rintro ⟨-, -, -, hlate⟩
      exact ⟨rfl, hlate⟩
    · rintro ⟨-, hlate⟩
      refine ⟨?_, hup, hpeer, hlate⟩
      intro hon
      apply hstall
      exact ⟨hlate, hon⟩

theorem unhealthyIsStalled_step {s t : Monitored} {k : Check} (hs : UnhealthyIsStalled s)
    (h : checkStep platform s k = some t) :
  UnhealthyIsStalled t
  := by
  simp only [checkStep] at h
  split_ifs at h with hclock
  obtain rfl := Option.some.inj h
  intro hmode
  dsimp only at hmode ⊢
  cases hr : k.reading s.controller with
  | none =>
      obtain ⟨hmode' | hoff, hlast⟩ := run_of_skip platform hr
      · rw [hmode'] at hmode
        have hstalled := hs hmode
        rw [hlast]
        omega
      · rw [hoff] at hmode
        cases hmode
  | some r =>
      obtain ⟨hmode', -, hlast⟩ := run_of_reading platform hr
      rw [hmode'] at hmode
      rw [hlast]
      apply verdict_stalled (Verdict.mode_eq_unhealthy.mp hmode)

/-- A check that is not stale publishes `ON` only when bytes have been received recently. -/
theorem onIsRecent_of_not_stale {s t : Monitored} {k : Check} (hs : UnhealthyIsStalled s)
    (hstale : ¬ StaleCheck s k) (h : checkStep platform s k = some t) :
  OnIsRecent s k t
  := by
  simp only [checkStep] at h
  split_ifs at h with hclock
  obtain rfl := Option.some.inj h
  cases hr : k.reading s.controller with
  | none =>
      obtain ⟨hmode, -⟩ := run_of_skip platform hr
      constructor
      · intro hv
        rw [Check.verdict, hr] at hv
        cases hv
      · intro hbad hon
        dsimp only at hon
        obtain hmode | hoff := hmode
        · rw [hmode, hbad] at hon
          cases hon
        · rw [hoff] at hon
          cases hon
  | some r =>
      obtain ⟨hmode, hrx, hlast⟩ := run_of_reading platform hr
      rw [staleCheck_iff hr] at hstale
      have hrecent : verdict (noteGrowth s.controller r k.clock) r k.clock = .healthy →
          k.clock.stall - (noteGrowth s.controller r k.clock).lastRxChangeAt ≤ stallMs := by
        intro hv
        by_contra hlate
        apply hstale
        exact ⟨hv, by omega⟩
      constructor
      · intro hv
        rw [Check.verdict, hr, Option.map_some, Option.some.injEq] at hv
        dsimp only
        rw [hlast]
        apply hrecent hv
      · intro hbad hon
        dsimp only at hon ⊢
        rw [hmode] at hon
        have hstalled := hs hbad
        have hsoon := hrecent (Verdict.mode_eq_on.mp hon)
        rw [hrx]
        by_cases hgrown : r.rx > s.controller.lastRx
        · rw [noteGrowth, if_pos hgrown]
          apply hgrown
        · rw [noteGrowth_of_not_grown hgrown] at hsoon
          omega

/-- For every run of checks after a start, with a clock that does not go back, every check that
publishes `ON` does so within `STALL_MS` of the last growth of the received bytes, and
`UNHEALTHY` becomes `ON` only by such a growth, exactly when no check of the run is stale. -/
theorem onIsRecent_iff (platform : Platform) (s₀ : Monitored) (ks : List Check) (last : Monitored)
    (hstart : s₀.controller.status.mode = .on)
    (hrun : Run.exec (checkStep platform) s₀ ks = some last) :
  (∀ pre k post s t, ks = pre ++ k :: post → Run.exec (checkStep platform) s₀ pre = some s →
      checkStep platform s k = some t → OnIsRecent s k t) ↔
    Run.Meets (checkStep platform) (fun s k => ¬ StaleCheck s k) s₀ ks
  := by
  have hinit : UnhealthyIsStalled s₀ := by
    intro hmode
    rw [hstart] at hmode
    cases hmode
  rw [Run.meets_iff]
  constructor
  · rintro h pre k post s rfl hpre hstale
    rw [Run.exec_append, hpre, Option.bind_some, Run.exec_cons_eq_some] at hrun
    obtain ⟨t, ht, -⟩ := hrun
    have hrecent := (h pre k post s t rfl hpre ht).1
    obtain ⟨r, hr, -⟩ := id hstale
    obtain ⟨hv, hlate⟩ := (staleCheck_iff hr).mp hstale
    obtain ⟨-, -, hlast⟩ := run_of_reading platform hr
    simp only [checkStep] at ht
    split_ifs at ht
    obtain rfl := Option.some.inj ht
    dsimp only at hrecent
    rw [hlast] at hrecent
    have hsoon := hrecent (by rw [Check.verdict, hr, Option.map_some, hv])
    omega
  · rintro h pre k post s t rfl hpre ht
    have hs : UnhealthyIsStalled s :=
      Run.invariant (fun _ _ _ hs ht => unhealthyIsStalled_step platform hs ht) hinit hpre
    apply onIsRecent_of_not_stale platform hs (h pre k post s rfl hpre) ht

/-! ### A peer that stays silent -/

/-- A controller right after a successful start. -/
def started : Monitored where
  controller :=
    { backend := true
      tunnel := .up
      status := { mode := .on }
      monitor := true
      lastRx := 92
      lastRxChangeAt := 0 }
  now := 0

/-- A check of a tunnel that is up and has received nothing since the start. -/
def silentCheck (t : ℤ) : Check where
  state := some .up
  statistics := some (92, 4000)
  clock := ⟨t, t, t⟩

/-- Of two checks of a silent tunnel the first publishes `UNHEALTHY` and the second `ON`. -/
theorem not_onIsRecent_silentCheck :
  ¬ ∀ (s₀ : Monitored) (ks : List Check) (last : Monitored),
    s₀.controller.status.mode = .on → Run.exec (checkStep Platform.ascii) s₀ ks = some last →
    ∀ pre k post s t, ks = pre ++ k :: post →
      Run.exec (checkStep Platform.ascii) s₀ pre = some s →
      checkStep Platform.ascii s k = some t → OnIsRecent s k t
  := by
  intro h
  have hrecent := h started [silentCheck 26000, silentCheck 29000] _ rfl rfl
    [silentCheck 26000] (silentCheck 29000) [] _ _ rfl rfl rfl
  exact absurd (hrecent.1 (by decide)) (by decide)

/-- A check of a tunnel that has received bytes since the start. -/
def growingCheck : Check where
  state := some .up
  statistics := some (200, 4000)
  clock := ⟨26000, 26000, 26000⟩

/-- A check of a tunnel that keeps receiving publishes `ON` rightly. -/
theorem onIsRecent_growingCheck :
  ∃ t, checkStep Platform.ascii started growingCheck = some t ∧
    t.controller.status.mode = .on ∧ OnIsRecent started growingCheck t
  := by
  refine ⟨_, rfl, by decide, ?_⟩
  have hmeets : Run.Meets (checkStep Platform.ascii) (fun s k => ¬ StaleCheck s k) started
      [growingCheck] := by
    constructor
    · unfold StaleCheck
      decide
    · intro t _
      trivial
  apply (onIsRecent_iff Platform.ascii started [growingCheck] _ rfl rfl).mpr hmeets [] growingCheck
    [] started _ rfl rfl rfl

end Warp.WarpController
