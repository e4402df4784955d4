import DtmaOne.Warp.FailedStart

/-!
# What bringing the tunnel up leaves behind

The loops of `bringUpOnce` either end with the handshake of an endpoint, or with an exception.

* After a handshake there is a backend, the mode is `ON`, and bytes have been received.
* After an exception the configuration is the one from before, in memory and in the file.
-/

namespace Warp.WarpController

/-! ### The loops -/

/-- A start has succeeded. -/
structure Started (c : Controller) : Prop where
  backend : c.backend = true
  mode : c.status.mode = .on
  lastRx : 0 < c.lastRx

/-- The effect leaves the configuration in memory and in the file. -/
def Effect.keepsConf : Effect → Bool
  | .setConfCache _ | .savePersistentConf _ | .clearPersistentConf => false
  | _ => true

theorem keepsConf_of_announces {w : Effect} (hw : w.announces = true) :
  w.keepsConf = true
  := by
  cases w with
  | publish _ | postIntent _ => rfl
  | _ => cases hw

theorem applyAll_keepsConf {ws : List Effect} (hws : ∀ w ∈ ws, w.keepsConf = true)
    (c : Controller) :
  (c.applyAll ws).confCache = c.confCache ∧ (c.applyAll ws).savedConf = c.savedConf
  := by
  induction ws generalizing c with
  | nil => exact ⟨rfl, rfl⟩
  | cons w ws ih =>
      have hw : (c.apply w).confCache = c.confCache ∧ (c.apply w).savedConf = c.savedConf := by
        have hkeeps := hws w List.mem_cons_self
        cases w with
        | setConfCache _ | savePersistentConf _ | clearPersistentConf => cases hkeeps
        | tearDown ok =>
            simp only [Controller.apply]
            split_ifs <;> exact ⟨rfl, rfl⟩
        | _ => exact ⟨rfl, rfl⟩
      have hrest := ih (fun v hv => hws v (List.mem_cons_of_mem w hv)) (c.apply w)
      rw [hw.1, hw.2] at hrest
      apply hrest

theorem backend_applyAll {c : Controller} (hc : c.backend = true) (ws : List Effect) :
  (c.applyAll ws).backend = true
  := by
  induction ws generalizing c with
  | nil => apply hc
  | cons w ws ih => apply ih (backend_apply hc w)

/-- A loop that ends with a handshake leaves a start that succeeded, and keeps the configuration if
it does not. -/
structure Connects (m : Body (Option Progress)) : Prop where
  started : m.result = .ok none → ∀ c : Controller, c.backend = true → Started (c.applyAll m.writes)
  keeps : m.result ≠ .ok none → ∀ w ∈ m.writes, w.keepsConf = true

namespace Connects

/-- Effects before a loop. -/
theorem after {α : Type} {m : Body α} {f : α → Body (Option Progress)}
    (hm : ∀ w ∈ m.writes, w.keepsConf = true) (hf : ∀ a, Connects (f a)) :
  Connects (m >>= f)
  := by
  cases hr : m.result with
  | error e =>
      rw [Emit.bind_of_error hr]
      exact ⟨fun h => (by cases h), fun _ => hm⟩
  | ok a =>
      rw [Emit.bind_of_ok hr]
      constructor
      · intro hdone c hc
        rw [applyAll_append]
        apply (hf a).started hdone _ (backend_applyAll hc _)
      · intro hnot w hw
        obtain hw | hw := List.mem_append.mp hw
        · apply hm w hw
        · apply (hf a).keeps hnot w hw

/-- A loop that goes on with another loop. -/
theorem andThen {m : Body (Option Progress)} (hm : Connects m)
    {g : Option Progress → Body (Option Progress)} (hnone : g none = pure none)
    (hsome : ∀ p, Connects (g (some p))) :
  Connects (m >>= g)
  := by
  by_cases hr : m.result = .ok none
  · rw [Emit.bind_of_ok hr, hnone, Emit.writes_pure, List.append_nil, Emit.result_pure]
    exact ⟨fun _ => hm.started hr, fun h => absurd rfl h⟩
  · have hkeeps := hm.keeps hr
    cases hr' : m.result with
    | error e =>
        rw [Emit.bind_of_error hr']
        exact ⟨fun h => (by cases h), fun _ => hkeeps⟩
    | ok r =>
        cases r with
        | none => exact absurd hr' hr
        | some p =>
            have hp := hsome p
            rw [Emit.bind_of_ok hr']
            constructor
            · intro hdone c hc
              rw [applyAll_append]
              apply hp.started hdone _ (backend_applyAll hc _)
            · intro hnot w hw
              obtain hw | hw := List.mem_append.mp hw
              · apply hkeeps w hw
              · apply hp.keeps hnot w hw

end Connects

section Loops

variable {platform : Platform}

theorem connects_pure (p : Progress) :
  Connects (pure (some p))
  := by
  constructor
  · intro h
    cases h
  · intro _ w hw
    cases hw

theorem connects_awaitHandshake (variant : WarpConfig) (address ep : String) (attempt : ℕ)
    (polls : List (Option Poll)) (lastTx : ℤ) (f : ℤ → Progress) :
  Connects (awaitHandshake (connected platform variant address ep attempt) polls lastTx >>=
    fun tx => pure (tx.map f))
  := by
  induction polls generalizing lastTx with
  | nil => apply connects_pure
  | cons poll polls ih =>
      cases poll with
      | none => apply ih lastTx
      | some p =>
          rw [awaitHandshake]
          by_cases hp : 0 < p.rx
          · rw [if_pos hp]
            constructor
            · intro _ c hc
              exact ⟨hc, rfl, hp⟩
            · intro h
              exact absurd rfl h
          · rw [if_neg hp]
            apply ih p.tx

theorem connects_tryEndpoint (base : WarpConfig) (count cIdx candidates attempt idx : ℕ)
    (ep : String) (a : Attempt) (progress : Progress) :
  Connects (tryEndpoint platform base count cIdx candidates attempt idx ep a progress)
  := by
  rw [tryEndpoint]
  apply Connects.after (by simp)
  intro _
  apply Connects.after
  · rw [Emit.writes_tellAll]
    split_ifs <;> simp [Effect.keepsConf]
  intro _
  apply Connects.after (by simp [Effect.keepsConf])
  intro _
  apply Connects.after (by simp)
  intro _
  apply Connects.after (by simp [Effect.keepsConf])
  intro _
  apply connects_awaitHandshake

theorem connects_tryEndpoints (base : WarpConfig) (count cIdx candidates attempt : ℕ)
    (attempts : ℕ → Attempt) (idx : ℕ) (eps : List String) (progress : Progress) :
  Connects (tryEndpoints platform base count cIdx candidates attempt attempts idx eps progress)
  := by
  induction eps generalizing idx progress with
  | nil => apply connects_pure
  | cons ep eps ih =>
      rw [tryEndpoints]
      apply Connects.andThen
      · apply connects_tryEndpoint
      · rfl
      · intro p
        apply ih

theorem connects_tryCandidates (answers : BringUp) (candidates attempt cIdx : ℕ)
    (configs : List WarpConfig) (progress : Progress) :
  Connects (tryCandidates platform answers candidates attempt cIdx configs progress)
  := by
  induction configs generalizing cIdx progress with
  | nil => apply connects_pure
  | cons base0 rest ih =>
      rw [tryCandidates]
      apply Connects.andThen
      · rw [tryCandidate]
        apply Connects.after (by simp [Effect.keepsConf])
        intro _
        apply connects_tryEndpoints
      · rfl
      · intro p
        apply ih

/-- `raceEndpoints` returns if its loops end with a handshake. -/
theorem raceEndpoints_eq_ok {answers : BringUp} {candidates : List WarpConfig} {attempt : ℕ} :
  (raceEndpoints platform answers candidates attempt).result = .ok () ↔
    (tryCandidates platform answers candidates.length attempt 0 candidates {}).result = .ok none
  := by
  rw [raceEndpoints, Emit.result_andThen_eq_ok, Emit.result_bind_eq_ok]
  constructor
  · rintro ⟨-, r, hr, hok⟩
    cases r with
    | none => apply hr
    | some p => cases hok
  · intro hr
    exact ⟨rfl, none, hr, rfl⟩

/-- If `bringUpOnce` returns, a start has succeeded. -/
theorem started_bringUpOnce {answers : BringUp} {confCache : Option WarpConfig} {attempt : ℕ}
    {allowRegister : Bool}
    (h : (bringUpOnce platform answers confCache attempt allowRegister).result = .ok ())
    (c : Controller) :
  Started (c.applyAll (bringUpOnce platform answers confCache attempt allowRegister).writes)
  := by
  obtain ⟨ws, -, ⟨-, ⟨e, he⟩, -⟩ | ⟨-, -, hwrites, hresult⟩⟩ :=
    bringUpOnce_cases platform answers confCache attempt allowRegister
  · rw [he] at h
    cases h
  · rw [hresult, raceEndpoints_eq_ok] at h
    rw [hwrites, writes_raceEndpoints, applyAll_append]
    apply (connects_tryCandidates _ _ _ _ _ _).started h ((c.applyAll ws).apply .createBackend) rfl

/-- If `bringUpOnce` throws, the configuration is the one from before. -/
theorem keepsConf_bringUpOnce {answers : BringUp} {confCache : Option WarpConfig} {attempt : ℕ}
    {allowRegister : Bool}
    (h : (bringUpOnce platform answers confCache attempt allowRegister).result ≠ .ok ()) :
  ∀ w ∈ (bringUpOnce platform answers confCache attempt allowRegister).writes, w.keepsConf = true
  := by
  obtain ⟨ws, hannounces, ⟨hwrites, -, -⟩ | ⟨-, -, hwrites, hresult⟩⟩ :=
    bringUpOnce_cases platform answers confCache attempt allowRegister
  · rw [hwrites]
    intro w hw
    apply keepsConf_of_announces (hannounces w hw)
  · rw [hresult, Ne, raceEndpoints_eq_ok] at h
    rw [hwrites, writes_raceEndpoints]
    intro w hw
    obtain hw | hw := List.mem_append.mp hw
    · apply keepsConf_of_announces (hannounces w hw)
    · obtain rfl | hw := List.mem_cons.mp hw
      · rfl
      · apply (connects_tryCandidates _ _ _ _ _ _).keeps h w hw

/-- If an attempt of `start` is the last one because it returns, a start has succeeded. -/
theorem started_startAttempts {answers : StartAnswers} {attempts : List ℕ} {regen : ℕ}
    {confCache : Option WarpConfig} {lastErr : Option String}
    (h : (startAttempts platform answers attempts regen confCache lastErr).result = .ok none)
    (c : Controller) :
  Started (c.applyAll (startAttempts platform answers attempts regen confCache lastErr).writes)
  := by
  induction attempts generalizing regen confCache lastErr c with
  | nil => cases h
  | cons attempt rest ih =>
      rw [startAttempts, Emit.bind_of_ok (Emit.result_tell _),
        Emit.bind_of_ok (Emit.result_tell _), Emit.bind_of_ok (Emit.result_runCatching _)] at h ⊢
      simp only [applyAll_append]
      cases hr : (bringUpOnce platform (answers.bringUp attempt) confCache attempt true).result with
      | ok _ =>
          have hstarted := started_bringUpOnce hr
          change Started (Controller.apply (Controller.applyAll _ _) .startMonitor)
          exact ⟨(hstarted _).backend, (hstarted _).mode, (hstarted _).lastRx⟩
      | error message =>
          rw [hr] at h
          apply ih h (Controller.applyAll _ [.setConfCache none, .clearPersistentConf,
            .tearDown (answers.tearDown attempt)])

/-- If `start` returns a success, a start has succeeded. -/
theorem started_start {answers : StartAnswers} {confCache : Option WarpConfig}
    {forceNewAccount : Bool}
    (h : (start platform answers confCache forceNewAccount).result = .ok true) (c : Controller) :
  Started (c.applyAll (start platform answers confCache forceNewAccount).writes)
  := by
  rw [start, Emit.bind_of_ok (Emit.result_tellAll _), Emit.bind_of_ok (Emit.result_tellAll _)] at h ⊢
  simp only [applyAll_append]
  obtain ⟨r, hr, hok⟩ := Emit.result_bind_eq_ok.mp h
  cases r with
  | some lastErr => cases hok
  | none =>
      rw [Emit.bind_of_ok hr]
      simp only [applyAll_append]
      apply started_startAttempts hr

end Loops

end Warp.WarpController
