import DtmaOne.Warp.Failover
import DtmaOne.Warp.System

/-!
# Failed starts

`bringUpOnce` sets the tunnel up for every endpoint it tries and throws when none of them answers,
with the tunnel as the last endpoint left it.  `start` tears the tunnel down after every attempt
that fails.  `startFromConf` makes a single attempt and does not, so that the tunnel stays up after
silent endpoints.

The tunnel is down after a failed `startFromConf` exactly when the failure comes before the first
`setState(UP)`, or from a `setState(UP)` that throws.
-/

namespace Warp.WarpController

/-- If the command fails, the last state set on the backend is `DOWN`. -/
def FailsDown (c : Controller) (body : Body Bool) : Prop :=
  body.result = .ok false → (c.applyAll body.writes).tunnel = .down

/-- Every request for the state `DOWN` succeeds. -/
structure Answers.DownSucceeds (answers : Answers) : Prop where
  start : ∀ k, answers.start.tearDown k = true
  startEndpoint : ∀ k cIdx idx, ((answers.start.bringUp k).attempts cIdx idx).down = true
  conf : answers.conf.tearDown = true
  confEndpoint : ∀ cIdx idx, (answers.conf.bringUp.attempts cIdx idx).down = true

/-- `Config.parse` returns and `setState(UP)` throws. -/
def Slot.refused (s : Slot) : Bool :=
  match s.attempt.parse, s.attempt.up with
  | .ok (), .error _ => true
  | _, _ => false

/-- There is an endpoint that answers or throws, and the first such one answers, or its
`setState(UP)` throws, or it is the first of all. -/
def Settled (L : List Slot) : Prop :=
  ∃ d, L.find? Slot.decisive = some d ∧
    (d.answers = true ∨ d.refused = true ∨ L.head? = some d)

/-- What is imported is no configuration, the service is not alive, or the endpoints of the
configuration are settled. -/
def ImportSettled (platform : Platform) (answers : ConfAnswers) (confText : String) : Prop :=
  ∀ conf, answers.fromConfText confText = .ok conf → answers.bringUp.service = .ok true →
    Settled (slots platform answers.bringUp 0
      (candidatesOf platform answers.bringUp (some conf) false))

/-! ### Effects and the tunnel -/

/-- The effect does not touch the backend. -/
def Effect.neutral : Effect → Bool
  | .setState _ | .tearDown _ | .createBackend => false
  | _ => true

/-- The effect only tells others: it publishes or posts an intent. -/
def Effect.announces : Effect → Bool
  | .publish _ | .postIntent _ => true
  | _ => false

theorem neutral_of_announces {w : Effect} (hw : w.announces = true) :
  w.neutral = true
  := by
  cases w with
  | publish _ | postIntent _ => rfl
  | _ => cases hw

theorem apply_neutral {w : Effect} (hw : w.neutral = true) (c : Controller) :
  (c.apply w).backend = c.backend ∧ (c.apply w).tunnel = c.tunnel
  := by
  cases w with
  | setState _ | tearDown _ | createBackend => cases hw
  | _ => exact ⟨rfl, rfl⟩

theorem applyAll_append (c : Controller) (ws ws' : List Effect) :
  c.applyAll (ws ++ ws') = (c.applyAll ws).applyAll ws'
  := List.foldl_append

/-- Neutral effects change neither the backend nor the tunnel. -/
theorem applyAll_neutral {ws : List Effect} (hws : ∀ w ∈ ws, w.neutral = true) (c : Controller) :
  (c.applyAll ws).backend = c.backend ∧ (c.applyAll ws).tunnel = c.tunnel
  := by
  induction ws generalizing c with
  | nil => exact ⟨rfl, rfl⟩
  | cons w ws ih =>
      obtain ⟨hbackend, htunnel⟩ := apply_neutral (hws w List.mem_cons_self) c
      have hrest := ih (fun v hv => hws v (List.mem_cons_of_mem w hv)) (c.apply w)
      rw [hbackend, htunnel] at hrest
      apply hrest

/-- Without a backend the tunnel is down. -/
def Grounded (c : Controller) : Prop :=
  c.backend = true ∨ c.tunnel = .down

/-- The state of the tunnel is set only after the backend has been created. -/
def SetsLate (ws : List Effect) : Prop :=
  ∀ pre state post, ws = pre ++ .setState state :: post → .createBackend ∈ pre

theorem setsLate_append {ws ws' : List Effect} (h : SetsLate ws) (h' : SetsLate ws') :
  SetsLate (ws ++ ws')
  := by
  intro pre state post heq
  obtain ⟨as, rfl, hpost⟩ | ⟨cs, hws, hpost⟩ := List.append_eq_append_iff.mp heq
  · apply List.mem_append_right ws (h' as state post hpost)
  · cases cs with
    | nil =>
        cases h' [] state post hpost.symm
    | cons w cs =>
        obtain ⟨rfl, -⟩ := List.cons_eq_cons.mp hpost
        apply h pre state cs hws

theorem setsLate_of_forall {ws : List Effect} (hws : ∀ w ∈ ws, ∀ state, w ≠ .setState state) :
  SetsLate ws
  := by
  rintro pre state post rfl
  exact absurd rfl (hws _ (List.mem_append_right pre List.mem_cons_self) state)

theorem setsLate_createBackend (ws : List Effect) :
  SetsLate (.createBackend :: ws)
  := by
  rintro (_ | ⟨w, pre⟩) state post heq
  · cases heq
  · obtain ⟨rfl, -⟩ := List.cons_eq_cons.mp heq
    apply List.mem_cons_self

/-- There is a backend, or the tunnel is down and set only after the backend has been created. -/
def Based (c : Controller) (ws : List Effect) : Prop :=
  c.backend = true ∨ (c.tunnel = .down ∧ SetsLate ws)

theorem Grounded.based {c : Controller} (hc : Grounded c) {ws : List Effect} (hws : SetsLate ws) :
  Based c ws
  := by
  obtain hbackend | hdown := hc
  · left
    apply hbackend
  · right
    exact ⟨hdown, hws⟩

theorem Based.grounded {c : Controller} {ws : List Effect} (h : Based c ws) :
  Grounded c
  := by
  obtain hbackend | ⟨hdown, -⟩ := h
  · left
    apply hbackend
  · right
    apply hdown

/-- A backend is never given up. -/
theorem backend_apply {c : Controller} (hc : c.backend = true) (w : Effect) :
  (c.apply w).backend = true
  := by
  cases w with
  | createBackend => rfl
  | tearDown ok =>
      simp only [Controller.apply]
      split_ifs <;> apply hc
  | _ => apply hc

/-- An effect of the list keeps this. -/
theorem Based.apply {c : Controller} {w : Effect} {ws : List Effect} (h : Based c (w :: ws)) :
  Based (c.apply w) ws
  := by
  obtain hbackend | ⟨hdown, hlate⟩ := h
  · left
    apply backend_apply hbackend
  · have hrest : w ≠ .createBackend → SetsLate ws := by
      intro hw pre state post heq
      obtain heq' | hmem := List.mem_cons.mp (hlate (w :: pre) state post (by rw [heq]; rfl))
      · exact absurd heq'.symm hw
      · apply hmem
    cases w with
    | createBackend => exact Or.inl rfl
    | setState state => cases hlate [] state ws rfl
    | tearDown ok =>
        right
        constructor
        · simp only [Controller.apply]
          split_ifs
          · rfl
          · apply hdown
        · apply hrest (by simp)
    | _ => exact Or.inr ⟨hdown, hrest (by simp)⟩

theorem Based.applyAll {c : Controller} {ws ws' : List Effect} (h : Based c (ws ++ ws')) :
  Based (c.applyAll ws) ws'
  := by
  induction ws generalizing c with
  | nil => apply h
  | cons w ws ih => apply ih h.apply

/-- From a grounded state `tearDownTunnel` leaves the tunnel down, if its request succeeds. -/
theorem tunnel_tearDown {c : Controller} (hc : Grounded c) :
  (c.apply (.tearDown true)).tunnel = .down
  := by
  simp only [Controller.apply]
  split_ifs with hbackend
  · rfl
  · obtain hc | hc := hc
    · exact absurd ⟨hc, trivial⟩ hbackend
    · apply hc

/-! ### The bodies set the tunnel late -/

section Bodies

variable {platform : Platform}

/-- Before its loops `bringUpOnce` only announces, and it comes to them with a configuration and a
service that is alive. -/
theorem bringUpOnce_cases (platform : Platform) (answers : BringUp) (confCache : Option WarpConfig)
    (attempt : ℕ) (allowRegister : Bool) :
  let body := bringUpOnce platform answers confCache attempt allowRegister
  let candidates := candidatesOf platform answers confCache allowRegister
  let race := raceEndpoints platform answers candidates attempt
  ∃ ws, (∀ w ∈ ws, w.announces = true) ∧
    ((body.writes = ws ∧ (∃ e, body.result = .error e) ∧
        (candidates = [] ∨ answers.service ≠ .ok true)) ∨
      (candidates ≠ [] ∧ answers.service = .ok true ∧ body.writes = ws ++ race.writes ∧
        body.result = race.result))
  := by
  dsimp only
  have hannounces : ∀ (p : Publication) (w : Effect), w ∈ [Effect.publish p] → w.announces = true := by
    intro p w hw
    obtain rfl := List.mem_singleton.mp hw
    rfl
  have hannounces' : ∀ (p : Publication) (w : Effect),
      w ∈ [Effect.publish p, .postIntent .start] → w.announces = true := by
    intro p w hw
    obtain rfl | rfl := List.mem_pair.mp hw <;> rfl
  unfold bringUpOnce
  obtain ⟨dns, generate, bootstrap, service, attempts⟩ := answers
  generalize candidatesOf platform _ confCache allowRegister = candidates
  cases candidates with
  | nil =>
      cases allowRegister <;>
        exact ⟨_, hannounces _, Or.inl ⟨rfl, ⟨_, rfl⟩, Or.inl rfl⟩⟩
  | cons conf confs =>
      rcases service with e | _ | _
      · exact ⟨_, hannounces _, Or.inl ⟨rfl, ⟨_, rfl⟩, Or.inr (by simp)⟩⟩
      · exact ⟨_, hannounces' _, Or.inl ⟨rfl, ⟨_, rfl⟩, Or.inr (by simp)⟩⟩
      · exact ⟨_, hannounces' _, Or.inr ⟨by simp, rfl, rfl, rfl⟩⟩

theorem setsLate_bringUpOnce (answers : BringUp) (confCache : Option WarpConfig) (attempt : ℕ)
    (allowRegister : Bool) :
  SetsLate (bringUpOnce platform answers confCache attempt allowRegister).writes
  := by
  obtain ⟨ws, hannounces, hcases⟩ := bringUpOnce_cases platform answers confCache attempt
    allowRegister
  have hws : SetsLate ws := by
    apply setsLate_of_forall
    rintro w hw state rfl
    cases hannounces _ hw
  obtain ⟨hwrites, -, -⟩ | ⟨-, -, hwrites, -⟩ := hcases
  · rw [hwrites]
    apply hws
  · rw [hwrites, raceEndpoints, Emit.bind_of_ok (Emit.result_tell _)]
    apply setsLate_append hws
    apply setsLate_createBackend

theorem setsLate_nil :
  SetsLate []
  := by
  apply setsLate_of_forall
  intro w hw
  cases hw

/-- Setting the tunnel late is compositional. -/
theorem compositional_setsLate :
  Compositional platform SetsLate
  := by
  constructor
  · apply setsLate_nil
  · intro ws ws' h h'
    apply setsLate_append h h'
  · intro w hw
    apply setsLate_of_forall
    rintro v hv state rfl
    obtain rfl := List.mem_singleton.mp hv
    cases hw
  · apply setsLate_bringUpOnce

theorem setsLate_bodyOf (c : Controller) (answers : Answers) (r : Request) :
  SetsLate (bodyOf platform c answers r)
  := by
  cases r with
  | start forceNewAccount => apply compositional_setsLate.start
  | startFromConf confText => apply compositional_setsLate.startFromConf
  | stop echo =>
      apply setsLate_of_forall
      simp only [bodyOf, stop, stopInternal]
      split_ifs <;> simp
  | reconnect => apply compositional_setsLate.start

end Bodies

/-! ### Reachable states -/

/-- The effects that the command with the mutex still has to make. -/
def System.remaining (s : System) : List Effect :=
  (s.holder.map Holder.remaining).getD []

section Reachable

variable {platform : Platform} {s t : System}

/-- A health check touches neither the backend nor the tunnel. -/
theorem publishVerdict_tunnel (platform : Platform) (c : Controller) (r : Reading) (fromUser : Bool)
    (v : Verdict) :
  (publishVerdict platform c r fromUser v).backend = c.backend ∧
    (publishVerdict platform c r fromUser v).tunnel = c.tunnel
  := by
  cases v with
  | tunnelDown =>
      simp only [publishVerdict]
      split_ifs <;> exact ⟨rfl, rfl⟩
  | waitingForPeer => exact ⟨rfl, rfl⟩
  | stalled => exact ⟨rfl, rfl⟩
  | healthy =>
      simp only [publishVerdict]
      split_ifs <;> exact ⟨rfl, rfl⟩

theorem publishHealth_tunnel (platform : Platform) (c : Controller) (r : Reading)
    (fromUser autoReconnect : Bool) (clock : Clock) :
  (publishHealth platform c r fromUser autoReconnect clock).backend = c.backend ∧
    (publishHealth platform c r fromUser autoReconnect clock).tunnel = c.tunnel
  := by
  have hnoted : (noteGrowth c r clock).backend = c.backend ∧
      (noteGrowth c r clock).tunnel = c.tunnel := by
    rw [noteGrowth]
    split_ifs <;> exact ⟨rfl, rfl⟩
  have hpublished := publishVerdict_tunnel platform (noteGrowth c r clock) r fromUser
    (verdict (noteGrowth c r clock) r clock)
  rw [hnoted.1, hnoted.2] at hpublished
  apply hpublished

/-- Every step keeps the tunnel based on a backend. -/
theorem based_step (h : Based s.controller s.remaining) {e : Event}
    (hstep : step platform s e = some t) :
  Based t.controller t.remaining
  := by
  cases e with
  | userStart _ | userStartFromConf _ | userStop | notificationStop | revoke =>
      obtain rfl := Option.some.inj hstep
      apply h
  | deliver i =>
      obtain ⟨intent, -, rfl⟩ := step_deliver hstep
      cases intent <;> apply h
  | acquire answers =>
      obtain ⟨r, rest, -, -, rfl⟩ := step_acquire hstep
      apply h.grounded.based (setsLate_bodyOf _ _ _)
  | effect =>
      obtain ⟨r, w, ws, hholder, rfl⟩ := step_effect hstep
      rw [System.remaining, hholder] at h
      apply h.apply
  | release =>
      obtain ⟨r, hholder, rfl⟩ := step_release hstep
      apply h.grounded.based setsLate_nil
  | requestReconnect | resetReconnecting | wake | beginCheck _ _ =>
      simp only [step] at hstep
      split_ifs at hstep
      obtain rfl := Option.some.inj hstep
      apply h
  | endCheck i autoReconnect clock =>
      obtain ⟨r, -, rfl⟩ := step_endCheck hstep
      have hkept := publishHealth_tunnel platform s.controller r false autoReconnect clock
      simp only [Based, System.finishCheck, hkept.1, hkept.2]
      apply h

/-- In every reachable state the tunnel is down if there is no backend. -/
theorem grounded_run {es : List Event} (hrun : Run.exec (step platform) {} es = some s) :
  Grounded s.controller
  := by
  have hstep : ∀ s e t, Based s.controller s.remaining → step platform s e = some t →
      Based t.controller t.remaining := fun _ _ _ h hstep => based_step h hstep
  have hinit : Based ({} : System).controller ({} : System).remaining := Or.inr ⟨rfl, setsLate_nil⟩
  apply (Run.invariant hstep hinit hrun).grounded

end Reachable

/-! ### The tunnel after the loops -/

/-- The state of the tunnel after the endpoints have been tried, when every request for `DOWN`
succeeds. -/
def tunnelAfter : TunnelState → List Slot → TunnelState
  | t, [] => t
  | t, s :: L =>
      match s.attempt.parse, s.attempt.up with
      | .error _, _ => t
      | .ok (), .error _ => .down
      | .ok (), .ok () => if s.answers then .up else tunnelAfter .up L

theorem tunnelAfter_silent (t : TunnelState) {s : Slot} (hs : s.decisive = false) (L : List Slot) :
  tunnelAfter t (s :: L) = tunnelAfter .up L
  := by
  obtain ⟨ep, parse, down, up, polls⟩ := s
  rw [Slot.decisive, Bool.or_eq_false_iff] at hs
  obtain ⟨hthrows, hanswers⟩ := hs
  rcases parse with e | ⟨⟩
  · cases hthrows
  · rcases up with e | ⟨⟩
    · cases hthrows
    · rw [tunnelAfter, hanswers]
      rfl

/-- A decisive endpoint leaves the tunnel up if it answers, down if `setState(UP)` throws, and as
it was if `Config.parse` throws. -/
theorem tunnelAfter_decisive (t : TunnelState) {s : Slot} (hs : s.decisive = true) (L : List Slot) :
  tunnelAfter t (s :: L) = if s.refused then .down else if s.throws then t else .up
  := by
  obtain ⟨ep, parse, down, up, polls⟩ := s
  rcases parse with e | ⟨⟩
  · rfl
  · rcases up with e | ⟨⟩
    · rfl
    · have hanswers : (Slot.mk ep ⟨.ok (), down, .ok (), polls⟩).answers = true := hs
      rw [tunnelAfter]
      simp only [hanswers, if_true]
      rfl

/-- The endpoints after the first decisive one are not tried. -/
theorem tunnelAfter_append (t : TunnelState) (L L' : List Slot) :
  tunnelAfter t (L ++ L') =
    if (L.find? Slot.decisive).isSome then tunnelAfter t L else tunnelAfter (tunnelAfter t L) L'
  := by
  induction L generalizing t with
  | nil => rfl
  | cons s L ih =>
      cases hs : s.decisive with
      | true =>
          rw [List.find?_cons_of_pos hs, Option.isSome_some, if_pos rfl, List.cons_append,
            tunnelAfter_decisive t hs, tunnelAfter_decisive t hs]
      | false =>
          rw [List.find?_cons_of_neg (by rw [hs]; exact Bool.false_ne_true), List.cons_append,
            tunnelAfter_silent t hs, tunnelAfter_silent t hs]
          apply ih

/-- A loop over the endpoints `L` leaves the tunnel as they say. -/
def Leaves (m : Body (Option Progress)) (L : List Slot) : Prop :=
  ∀ c : Controller, (c.applyAll m.writes).tunnel = tunnelAfter c.tunnel L

section Loops

variable {platform : Platform}

/-- A loop that goes on with another loop. -/
theorem Leaves.andThen {m : Body (Option Progress)} {L L' : List Slot} (h : Leaves m L)
    (hm : Decides platform m L) {f : Progress → Body (Option Progress)}
    (hf : ∀ p, Leaves (f p) L') {g : Option Progress → Body (Option Progress)}
    (hnone : g none = pure none) (hsome : ∀ p, g (some p) = f p) :
  Leaves (m >>= g) (L ++ L')
  := by
  intro c
  rw [tunnelAfter_append]
  cases hfind : L.find? Slot.decisive with
  | none =>
      obtain ⟨p, hp⟩ := hm.undecided hfind
      rw [Emit.bind_of_ok hp, hsome, applyAll_append, hf p, h c]
      rfl
  | some s =>
      have hwrites : (m >>= g).writes = m.writes := by
        cases hthrows : s.throws with
        | true =>
            obtain ⟨e, he⟩ := hm.thrown s hfind hthrows
            rw [Emit.bind_of_error he]
        | false =>
            obtain ⟨hok, -⟩ := hm.answered s hfind hthrows
            rw [Emit.bind_of_ok hok, hnone, Emit.writes_pure, List.append_nil]
      rw [hwrites, h c]
      rfl

theorem awaitHandshake_neutral (variant : WarpConfig) (address ep : String) (attempt : ℕ)
    (polls : List (Option Poll)) (lastTx : ℤ) :
  ∀ w ∈ (awaitHandshake (connected platform variant address ep attempt) polls lastTx).writes,
    w.neutral = true
  := by
  induction polls generalizing lastTx with
  | nil =>
      intro w hw
      cases hw
  | cons poll polls ih =>
      cases poll with
      | none => apply ih
      | some p =>
          rw [awaitHandshake]
          split_ifs
          · apply Emit.forall_writes_bind
            · simp [connected, Effect.neutral]
            · intro _ w hw
              cases hw
          · apply ih

theorem leaves_tryEndpoint (base : WarpConfig) (count cIdx candidates attempt idx : ℕ)
    (ep : String) {a : Attempt} (ha : a.down = true) (progress : Progress) :
  Leaves (tryEndpoint platform base count cIdx candidates attempt idx ep a progress) [⟨ep, a⟩]
  := by
  intro c
  obtain ⟨parse, down, up, polls⟩ := a
  obtain rfl : down = true := ha
  rcases parse with e | ⟨⟩
  · rfl
  · rcases up with e | ⟨⟩
    · rfl
    · have hup : tunnelAfter c.tunnel [⟨ep, ⟨.ok (), true, .ok (), polls⟩⟩] = .up := by
        simp [tunnelAfter]
      rw [hup, tryEndpoint, Emit.bind_of_ok (Emit.result_answer _),
        Emit.bind_of_ok (Emit.result_tellAll _), Emit.bind_of_ok (Emit.result_tell _),
        Emit.bind_of_ok (Emit.result_answer _), Emit.bind_of_ok (Emit.result_tell _)]
      simp only [applyAll_append]
      rw [(applyAll_neutral _ _).2]
      · rfl
      · apply Emit.forall_writes_bind (awaitHandshake_neutral _ _ _ _ _ _)
        intro _ w hw
        cases hw

theorem leaves_tryEndpoints (base : WarpConfig) (count cIdx candidates attempt : ℕ)
    {attempts : ℕ → Attempt} (hdown : ∀ idx, (attempts idx).down = true) (idx : ℕ)
    (eps : List String) (progress : Progress) :
  Leaves (tryEndpoints platform base count cIdx candidates attempt attempts idx eps progress)
    (endpointSlots attempts idx eps)
  := by
  induction eps generalizing idx progress with
  | nil =>
      intro c
      rfl
  | cons ep eps ih =>
      rw [tryEndpoints]
      change Leaves _ ([⟨ep, attempts idx⟩] ++ endpointSlots attempts (idx + 1) eps)
      apply Leaves.andThen (leaves_tryEndpoint base count cIdx candidates attempt idx ep (hdown idx)
        progress) (decides_tryEndpoint _ _ _ _ _ _ _ _ _) (ih (idx + 1))
      · rfl
      · intro p
        rfl

theorem leaves_tryCandidates {answers : BringUp}
    (hdown : ∀ cIdx idx, (answers.attempts cIdx idx).down = true) (candidates attempt cIdx : ℕ)
    (configs : List WarpConfig) (progress : Progress) :
  Leaves (tryCandidates platform answers candidates attempt cIdx configs progress)
    (slots platform answers cIdx configs)
  := by
  induction configs generalizing cIdx progress with
  | nil =>
      intro c
      rfl
  | cons base0 rest ih =>
      rw [tryCandidates, slots]
      apply Leaves.andThen _ (decides_tryCandidate _ _ _ _ _ _) (ih (cIdx + 1))
      · rfl
      · intro p
        rfl
      · intro c
        rw [tryCandidate, Emit.bind_of_ok (Emit.result_tell _), applyAll_append]
        apply leaves_tryEndpoints _ _ _ _ _ (hdown cIdx)

theorem writes_raceEndpoints (answers : BringUp) (candidates : List WarpConfig) (attempt : ℕ) :
  (raceEndpoints platform answers candidates attempt).writes =
    .createBackend ::
      (tryCandidates platform answers candidates.length attempt 0 candidates {}).writes
  := by
  rw [raceEndpoints, Emit.bind_of_ok (Emit.result_tell _)]
  cases hr : (tryCandidates platform answers candidates.length attempt 0 candidates {}).result with
  | error e =>
      rw [Emit.bind_of_error hr]
      rfl
  | ok r =>
      rw [Emit.bind_of_ok hr]
      cases r <;> simp

/-- The loops leave the tunnel as the endpoints say. -/
theorem tunnel_raceEndpoints {answers : BringUp}
    (hdown : ∀ cIdx idx, (answers.attempts cIdx idx).down = true) (candidates : List WarpConfig)
    (attempt : ℕ) (c : Controller) :
  (c.applyAll (raceEndpoints platform answers candidates attempt).writes).tunnel =
    tunnelAfter c.tunnel (slots platform answers 0 candidates)
  := by
  rw [writes_raceEndpoints]
  apply leaves_tryCandidates hdown

/-- The loops return if the first decisive endpoint answers. -/
theorem result_raceEndpoints (answers : BringUp) (candidates : List WarpConfig) (attempt : ℕ) :
  (raceEndpoints platform answers candidates attempt).result = .ok () ↔
    ∃ d, (slots platform answers 0 candidates).find? Slot.decisive = some d ∧ d.throws = false
  := by
  have hdecides : Decides platform _ _ :=
    decides_tryCandidates answers candidates.length attempt 0 candidates {}
  rw [raceEndpoints, Emit.bind_of_ok (Emit.result_tell _)]
  cases hfind : (slots platform answers 0 candidates).find? Slot.decisive with
  | none =>
      obtain ⟨p, hp⟩ := hdecides.undecided hfind
      simp [Emit.bind_of_ok hp]
  | some s =>
      cases hthrows : s.throws with
      | true =>
          obtain ⟨e, he⟩ := hdecides.thrown s hfind hthrows
          simp [Emit.bind_of_error he, hthrows]
      | false =>
          obtain ⟨hok, -⟩ := hdecides.answered s hfind hthrows
          simp [Emit.bind_of_ok hok, hthrows]

end Loops

/-! ### Settled endpoints -/

theorem tunnelAfter_up_eq_down_iff (L : List Slot) :
  tunnelAfter .up L = .down ↔ ∃ d, L.find? Slot.decisive = some d ∧ d.refused = true
  := by
  induction L with
  | nil => simp [tunnelAfter]
  | cons s L ih =>
      cases hs : s.decisive with
      | true =>
          rw [List.find?_cons_of_pos hs, tunnelAfter_decisive .up hs]
          cases hrefused : s.refused <;> simp [hrefused]
      | false =>
          rw [List.find?_cons_of_neg (by rw [hs]; exact Bool.false_ne_true),
            tunnelAfter_silent .up hs]
          apply ih

theorem answers_of_decisive {s : Slot} (hs : s.decisive = true) (hthrows : s.throws = false) :
  s.answers = true
  := by
  rw [Slot.decisive, hthrows, Bool.false_or] at hs
  apply hs

/-- Settled endpoints are those that answer or leave the tunnel down. -/
theorem settled_iff {L : List Slot} (hL : L ≠ []) :
  Settled L ↔
    (∃ d, L.find? Slot.decisive = some d ∧ d.throws = false) ∨ tunnelAfter .down L = .down
  := by
  cases L with
  | nil => exact absurd rfl hL
  | cons s L =>
      cases hs : s.decisive with
      | true =>
          have hfind : (s :: L).find? Slot.decisive = some s := List.find?_cons_of_pos hs
          have hsettled : Settled (s :: L) := ⟨s, hfind, Or.inr (Or.inr rfl)⟩
          apply iff_of_true hsettled
          cases hthrows : s.throws with
          | true =>
              right
              rw [tunnelAfter_decisive .down hs, hthrows]
              simp
          | false =>
              left
              exact ⟨s, hfind, hthrows⟩
      | false =>
          rw [tunnelAfter_silent .down hs, tunnelAfter_up_eq_down_iff, Settled,
            List.find?_cons_of_neg (by rw [hs]; exact Bool.false_ne_true)]
          constructor
          · rintro ⟨d, hd, hanswers | hrefused | hhead⟩
            · left
              exact ⟨d, hd, throws_of_answers hanswers⟩
            · right
              exact ⟨d, hd, hrefused⟩
            · obtain rfl := Option.some.inj hhead
              have hdecisive := List.find?_some hd
              rw [hs] at hdecisive
              cases hdecisive
          · rintro (⟨d, hd, hthrows⟩ | ⟨d, hd, hrefused⟩)
            · exact ⟨d, hd, Or.inl (answers_of_decisive (List.find?_some hd) hthrows)⟩
            · exact ⟨d, hd, Or.inr (Or.inl hrefused)⟩

/-! ### The commands -/

section Commands

variable {platform : Platform}

theorem tunnel_stopInternal {c : Controller} (hc : Grounded c) :
  (c.applyAll (stopInternal true)).tunnel = .down
  := by
  change ((c.apply .cancelMonitor).apply (.tearDown true)).tunnel = .down
  apply tunnel_tearDown (c := c.apply .cancelMonitor) hc

/-- Every failed attempt of `start` is followed by `tearDownTunnel`. -/
theorem startAttempts_cons_failed {answers : StartAnswers} {attempt : ℕ} {rest : List ℕ}
    {regen : ℕ} {confCache : Option WarpConfig} {lastErr e : Option String}
    (hfail : (startAttempts platform answers (attempt :: rest) regen confCache lastErr).result =
      .ok (some e)) :
  ∃ ws message, SetsLate ws ∧
    (startAttempts platform answers (attempt :: rest) regen confCache lastErr).writes =
      ws ++ .tearDown (answers.tearDown attempt) ::
        (startAttempts platform answers rest (regen + 1) none message).writes ∧
    (startAttempts platform answers rest (regen + 1) none message).result = .ok (some e)
  := by
  rw [startAttempts, Emit.bind_of_ok (Emit.result_tell _), Emit.bind_of_ok (Emit.result_tell _),
    Emit.bind_of_ok (Emit.result_runCatching _)] at hfail ⊢
  cases hr : (bringUpOnce platform (answers.bringUp attempt) confCache attempt true).result with
  | ok _ =>
      rw [hr] at hfail
      cases hfail
  | error message =>
      rw [hr] at hfail
      use [.publish
          { mode := .starting
            message := "WARP " ++ toString attempt ++ "/" ++ toString maxAutoRegen ++ "…"
            attempts := some attempt
            autoRegen := some regen }, .setVpnStarting] ++
        (bringUpOnce platform (answers.bringUp attempt) confCache attempt true).writes ++
        [.setConfCache none, .clearPersistentConf], message
      refine ⟨?_, ?_, hfail⟩
      · apply setsLate_append (setsLate_append _ (setsLate_bringUpOnce _ _ _ _))
        · apply setsLate_of_forall
          simp
        · apply setsLate_of_forall
          simp
      · rw [List.append_assoc, List.append_assoc]
        rfl

theorem tunnel_startAttempts {answers : StartAnswers} (hdown : ∀ k, answers.tearDown k = true)
    (attempts : List ℕ) (regen : ℕ) (confCache : Option WarpConfig) (lastErr : Option String)
    {c : Controller} (hc : c.tunnel = .down) {e : Option String}
    (hfail : (startAttempts platform answers attempts regen confCache lastErr).result =
      .ok (some e)) :
  (c.applyAll
    (startAttempts platform answers attempts regen confCache lastErr).writes).tunnel = .down
  := by
  induction attempts generalizing regen confCache lastErr c with
  | nil => apply hc
  | cons attempt rest ih =>
      obtain ⟨ws, message, hlate, hwrites, hrest⟩ := startAttempts_cons_failed hfail
      have hbased : Based c (ws ++ []) := Grounded.based (Or.inr hc) (by rwa [List.append_nil])
      rw [hwrites, hdown, applyAll_append]
      apply ih _ _ _ (tunnel_tearDown hbased.applyAll.grounded) hrest

/-- A `start` that fails has made its attempts after a stop. -/
theorem start_failed {answers : StartAnswers} {confCache : Option WarpConfig}
    {forceNewAccount : Bool}
    (hfail : (start platform answers confCache forceNewAccount).result = .ok false) :
  ∃ pre conf e post, (∀ w ∈ pre, w.neutral = true) ∧ (∀ w ∈ post, w.neutral = true) ∧
    (startAttempts platform answers (List.range' 1 maxAutoRegen) 0 conf none).result =
      .ok (some e) ∧
    (start platform answers confCache forceNewAccount).writes =
      pre ++ (stopInternal (answers.tearDown 0) ++
        ((startAttempts platform answers (List.range' 1 maxAutoRegen) 0 conf none).writes ++ post))
  := by
  have hcached : ∀ conf, ∀ w ∈ (if forceNewAccount then
      [Effect.setConfCache none, .clearPersistentConf] else [.setConfCache conf]),
      w.neutral = true := by
    cases forceNewAccount <;> simp [Effect.neutral]
  rw [start, Emit.bind_of_ok (Emit.result_tellAll _), Emit.bind_of_ok (Emit.result_tellAll _)]
    at hfail ⊢
  generalize (if forceNewAccount then none else confCache <|> answers.loadSaved) = conf at *
  generalize hm : startAttempts platform answers (List.range' 1 maxAutoRegen) 0 conf none = m at *
  obtain ⟨writes, result⟩ := m
  rcases result with e | _ | e
  · cases hfail
  · cases hfail
  · refine ⟨_, conf, e, _, hcached conf, ?_, by rw [hm], by rw [hm]; rfl⟩
    intro w hw
    obtain rfl | rfl := List.mem_pair.mp hw <;> rfl

/-- A failed `start` leaves the tunnel down. -/
theorem failsDown_start {answers : StartAnswers} (hdown : ∀ k, answers.tearDown k = true)
    {c : Controller} (hc : Grounded c) (confCache : Option WarpConfig) (forceNewAccount : Bool) :
  FailsDown c (start platform answers confCache forceNewAccount)
  := by
  intro hfail
  obtain ⟨pre, conf, e, post, hpre, hpost, hattempts, hwrites⟩ := start_failed hfail
  have hgrounded : Grounded (c.applyAll pre) := by
    rw [Grounded, (applyAll_neutral hpre c).1, (applyAll_neutral hpre c).2]
    apply hc
  rw [hwrites, hdown]
  simp only [applyAll_append]
  rw [(applyAll_neutral hpost _).2]
  apply tunnel_startAttempts hdown _ _ _ _ (tunnel_stopInternal hgrounded) hattempts

theorem slots_ne_nil (answers : BringUp) (base : WarpConfig) :
  slots platform answers 0 [base] ≠ []
  := by
  have hendpoints : ∀ base : WarpConfig, endpointsOf base ≠ [] := by
    intro base
    rw [endpointsOf, ne_eq, List.take_eq_nil_iff, not_or]
    split_ifs with hempty
    · simp
    · exact ⟨by decide, fun h => hempty (by rw [h]; rfl)⟩
  rw [slots, slots, List.append_nil]
  intro h
  cases heps : endpointsOf
      (WarpConfigGenerator.expandEndpoints platform (answers.dns (0 + 1)) base) with
  | nil => apply hendpoints _ heps
  | cons ep eps =>
      rw [heps] at h
      cases h

/-- The attempt of an import returns or leaves the tunnel down exactly when the endpoints are
settled, if the service is alive. -/
theorem bringUpOnce_import_iff {answers : BringUp}
    (hdown : ∀ cIdx idx, (answers.attempts cIdx idx).down = true) (conf : WarpConfig)
    {c : Controller} (hc : c.tunnel = .down) :
  ((bringUpOnce platform answers (some conf) 1 false).result = .ok () ∨
      (c.applyAll (bringUpOnce platform answers (some conf) 1 false).writes).tunnel = .down) ↔
    (answers.service = .ok true →
      Settled (slots platform answers 0 (candidatesOf platform answers (some conf) false)))
  := by
  have hcandidates : candidatesOf platform answers (some conf) false = _ :=
    candidatesOf_import answers conf
  obtain ⟨ws, hannounces, hcases⟩ := bringUpOnce_cases platform answers (some conf) 1 false
  have hneutral : ∀ w ∈ ws, w.neutral = true := fun w hw => neutral_of_announces (hannounces w hw)
  obtain ⟨hwrites, -, hnever⟩ | ⟨-, halive, hwrites, hresult⟩ := hcases
  · apply iff_of_true
    · right
      rw [hwrites, (applyAll_neutral hneutral c).2, hc]
    · intro halive
      obtain hnone | hdead := hnever
      · rw [hcandidates] at hnone
        cases hnone
      · exact absurd halive hdead
  · rw [hwrites, hresult, applyAll_append, tunnel_raceEndpoints hdown, result_raceEndpoints,
      (applyAll_neutral hneutral c).2, hc, ← settled_iff]
    · exact ⟨fun h _ => h, fun h => h halive⟩
    · rw [hcandidates]
      apply slots_ne_nil

/-- An import returns or leaves the tunnel down exactly when it is settled. -/
theorem importConf_iff {answers : ConfAnswers}
    (hdown : ∀ cIdx idx, (answers.bringUp.attempts cIdx idx).down = true) (confText : String)
    {c : Controller} (hc : c.tunnel = .down) :
  ((importConf platform answers confText).result = .ok () ∨
      (c.applyAll (importConf platform answers confText).writes).tunnel = .down) ↔
    ImportSettled platform answers confText
  := by
  rw [importConf, ImportSettled]
  cases hparsed : answers.fromConfText confText with
  | error e =>
      apply iff_of_true
      · right
        apply hc
      · intro conf hconf
        cases hconf
  | ok conf =>
      simp only [Except.ok.injEq, forall_eq']
      rw [← bringUpOnce_import_iff hdown conf
        (c := c.applyAll [.setConfCache (some conf), .savePersistentConf conf.confText]) hc]
      rw [Emit.bind_of_ok rfl, Emit.bind_of_ok (Emit.result_tell _),
        Emit.bind_of_ok (Emit.result_tell _)]
      cases hr : (bringUpOnce platform answers.bringUp (some conf) 1 false).result with
      | ok _ =>
          rw [Emit.bind_of_ok hr]
          exact iff_of_true (Or.inl rfl) (Or.inl rfl)
      | error e =>
          rw [Emit.bind_of_error hr]
          simp only [applyAll_append]
          rfl

theorem failsDown_startFromConf_iff {answers : ConfAnswers} (htearDown : answers.tearDown = true)
    (hdown : ∀ cIdx idx, (answers.bringUp.attempts cIdx idx).down = true) (confText : String)
    {c : Controller} (hc : Grounded c) :
  FailsDown c (startFromConf platform answers confText) ↔ ImportSettled platform answers confText
  := by
  rw [← importConf_iff hdown confText (tunnel_stopInternal hc), FailsDown, startFromConf, htearDown,
    Emit.bind_of_ok (Emit.result_tellAll _), Emit.bind_of_ok (Emit.result_runCatching _)]
  cases hr : (importConf platform answers confText).result with
  | ok _ =>
      apply iff_of_true
      · intro hfail
        cases hfail
      · exact Or.inl rfl
  | error message =>
      simp only [applyAll_append]
      constructor
      · intro hfails
        right
        apply hfails rfl
      · rintro (hok | hlowered) _
        · cases hok
        · apply hlowered

end Commands

/-- From every reachable state, for every configuration, every imported text and every outcome of
every endpoint, with every request for `DOWN` succeeding: both commands leave the tunnel down when
they fail exactly when the import is settled. -/
theorem failsDown_iff (platform : Platform) (es : List Event) (s : System)
    (hrun : Run.exec (step platform) {} es = some s) (answers : Answers)
    (hdown : answers.DownSucceeds) (forceNewAccount : Bool) (confText : String) :
  (FailsDown s.controller
        (start platform answers.start s.controller.confCache forceNewAccount) ∧
      FailsDown s.controller (startFromConf platform answers.conf confText)) ↔
    ImportSettled platform answers.conf confText
  := by
  have hgrounded := grounded_run hrun
  rw [failsDown_startFromConf_iff hdown.conf hdown.confEndpoint confText hgrounded]
  apply and_iff_right (failsDown_start hdown.start hgrounded _ _)

/-! ### Silent endpoints -/

/-- A service that is alive and endpoints that behave like `attempt`. -/
def uniform (attempt : ℕ → Attempt) : BringUp where
  dns _ _ := []
  generateOrBootstrap := .error none
  loadAllBootstrap := []
  service := .ok true
  attempts _ idx := attempt idx

/-- A text that is imported as a configuration, and endpoints that behave like `attempt`. -/
def importWith (attempt : ℕ → Attempt) : Answers where
  start := ⟨none, fun _ => true, fun _ => uniform attempt⟩
  conf := ⟨fun _ => .ok sampleConf, true, uniform attempt⟩
  stop := ⟨true, true⟩

theorem downSucceeds_importWith (attempt : ℕ → Attempt) (h : ∀ idx, (attempt idx).down = true) :
  (importWith attempt).DownSucceeds
  := ⟨fun _ => rfl, fun _ _ => h, rfl, fun _ => h⟩

/-- An endpoint that is set up and stays silent. -/
def silent : Attempt := ⟨.ok (), true, .ok (), [some ⟨0, 148, 1000⟩]⟩

/-- An endpoint that cannot be set up. -/
def refusing : Attempt := ⟨.ok (), true, .error (some "Bad address"), []⟩

/-- After silent endpoints a failed import leaves the tunnel up. -/
theorem not_failsDown_silent :
  ¬ ∀ (es : List Event) (s : System), Run.exec (step Platform.ascii) {} es = some s →
    ∀ answers : Answers, answers.DownSucceeds → ∀ (forceNewAccount : Bool) (confText : String),
      FailsDown s.controller
          (start Platform.ascii answers.start s.controller.confCache forceNewAccount) ∧
        FailsDown s.controller (startFromConf Platform.ascii answers.conf confText)
  := by
  intro h
  have hdown := downSucceeds_importWith (fun _ => silent) (fun _ => rfl)
  have hfails := (h [] {} rfl (importWith fun _ => silent) hdown false "").2
  have hup : (startFromConf Platform.ascii (importWith fun _ => silent).conf "").result =
      .ok false ∧
      ((({} : Controller).applyAll
        (startFromConf Platform.ascii (importWith fun _ => silent).conf "").writes).tunnel =
          .up) := by
    decide +kernel
  cases hup.2.symm.trans (hfails hup.1)

/-- The first endpoint is silent and the second one cannot be set up. -/
def secondRefuses (idx : ℕ) : Attempt :=
  if idx = 0 then silent else refusing

/-- An import that is refused at its second endpoint lowers the tunnel that a first import has left
up. -/
theorem failsDown_secondRefuses :
  ∃ s, Run.exec (step Platform.ascii) {}
      (.userStartFromConf "" :: runFirst (importWith fun _ => silent) 34) = some s ∧
    s.controller.tunnel = .up ∧
    FailsDown s.controller (startFromConf Platform.ascii (importWith secondRefuses).conf "")
  := by
  have hup : (Run.exec (step Platform.ascii) {}
      (.userStartFromConf "" :: runFirst (importWith fun _ => silent) 34)).any
      fun s => s.controller.tunnel = .up := by
    decide +kernel
  have hrefused : ((slots Platform.ascii (uniform secondRefuses) 0
      (candidatesOf Platform.ascii (uniform secondRefuses) (some sampleConf) false)).find?
        Slot.decisive).any Slot.refused := by
    decide +kernel
  cases hrun : Run.exec (step Platform.ascii) {}
      (.userStartFromConf "" :: runFirst (importWith fun _ => silent) 34) with
  | none =>
      rw [hrun] at hup
      cases hup
  | some s =>
      rw [hrun, Option.any_some, decide_eq_true_eq] at hup
      refine ⟨s, rfl, hup, ?_⟩
      have hdown := downSucceeds_importWith secondRefuses (by
        intro idx
        rw [secondRefuses]
        split_ifs <;> rfl)
      apply ((failsDown_iff Platform.ascii _ s hrun _ hdown false "").mpr _).2
      intro conf hconf _
      obtain rfl := Except.ok.inj hconf
      obtain ⟨d, hd, hd'⟩ := (Option.any_eq_true _ _).mp hrefused
      exact ⟨d, hd, Or.inr (Or.inl hd')⟩

end Warp.WarpController
