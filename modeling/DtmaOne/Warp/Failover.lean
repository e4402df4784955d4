import DtmaOne.Warp.Controller

/-!
# Endpoint failover

`bringUpOnce` tries the first eight endpoints of every configuration in turn, until one
answers.  The statistics and the shutdown of the tunnel are guarded, but `Config.parse` and
`setState(UP)` are not, so an exception there ends the search.

The search finds an endpoint that answers, if there is one, exactly when no endpoint before
the first such one makes `Config.parse` or `setState(UP)` throw.
-/

namespace Warp.WarpController

/-- An endpoint `bringUpOnce` is allowed to try, and what happens when it is tried. -/
structure Slot where
  endpoint : String
  attempt : Attempt

/-- `Config.parse` or `setState(UP)` throws. -/
def Slot.throws (s : Slot) : Bool :=
  match s.attempt.parse, s.attempt.up with
  | .ok (), .ok () => false
  | _, _ => true

/-- The statistics show received bytes before the deadline. -/
def Slot.answers (s : Slot) : Bool :=
  !s.throws && s.attempt.polls.any fun poll => poll.any fun p => 0 < p.rx

/-- The search does not go on after this endpoint. -/
def Slot.decisive (s : Slot) : Bool :=
  s.throws || s.answers

/-- The endpoints of a list, from the index `idx` on. -/
def endpointSlots (attempts : ℕ → Attempt) : ℕ → List String → List Slot
  | _, [] => []
  | idx, ep :: eps => ⟨ep, attempts idx⟩ :: endpointSlots attempts (idx + 1) eps

/-- The endpoints of the configurations, from the index `cIdx` on. -/
def slots (platform : Platform) (answers : BringUp) : ℕ → List WarpConfig → List Slot
  | _, [] => []
  | cIdx, base0 :: rest =>
      let base := WarpConfigGenerator.expandEndpoints platform (answers.dns (cIdx + 1)) base0
      endpointSlots (answers.attempts cIdx) 0 (endpointsOf base) ++
        slots platform answers (cIdx + 1) rest

variable {platform : Platform}

/-- An import tries one configuration. -/
theorem candidatesOf_import (answers : BringUp) (conf : WarpConfig) :
  candidatesOf platform answers (some conf) false =
    [WarpConfigGenerator.expandEndpoints platform (answers.dns 0) conf]
  := by
  simp [candidatesOf]

theorem exists_attempt_of_mem_endpointSlots {attempts : ℕ → Attempt} {idx : ℕ} {eps : List String}
    {s : Slot} (h : s ∈ endpointSlots attempts idx eps) :
  ∃ i, s.attempt = attempts i
  := by
  induction eps generalizing idx with
  | nil => cases h
  | cons ep eps ih =>
      obtain rfl | hlater := List.mem_cons.mp h
      · exact ⟨idx, rfl⟩
      · exact ih hlater

/-- What happens at an endpoint is one of the answers. -/
theorem exists_attempt_of_mem_slots {answers : BringUp} {cIdx : ℕ} {confs : List WarpConfig}
    {s : Slot} (h : s ∈ slots platform answers cIdx confs) :
  ∃ c i, s.attempt = answers.attempts c i
  := by
  induction confs generalizing cIdx with
  | nil => cases h
  | cons conf confs ih =>
      obtain hhere | hlater := List.mem_append.mp h
      · obtain ⟨i, hi⟩ := exists_attempt_of_mem_endpointSlots hhere
        exact ⟨cIdx, i, hi⟩
      · exact ih hlater

/-! ### The loops decide on the first decisive endpoint -/

variable (platform)

/-- The effects end with the ones of an answer of `ep`. -/
def EndsConnected (ep : String) (ws : List Effect) : Prop :=
  ∃ pre variant address attempt p, ws = pre ++ connected platform variant address ep attempt p

/-- A loop over the endpoints `L` ends as the first decisive one of them says: with an
exception, connected, or with none of them. -/
structure Decides (m : Body (Option Progress)) (L : List Slot) : Prop where
  undecided : L.find? Slot.decisive = none → ∃ p, m.result = .ok (some p)
  thrown : ∀ s, L.find? Slot.decisive = some s → s.throws = true → ∃ e, m.result = .error e
  answered : ∀ s, L.find? Slot.decisive = some s → s.throws = false →
    m.result = .ok none ∧ EndsConnected platform s.endpoint m.writes

variable {platform}

theorem EndsConnected.append {ep : String} {ws : List Effect} (h : EndsConnected platform ep ws)
    (pre : List Effect) :
  EndsConnected platform ep (pre ++ ws)
  := by
  obtain ⟨pre', variant, address, attempt, p, rfl⟩ := h
  use pre ++ pre', variant, address, attempt, p
  rw [List.append_assoc]

/-- Effects before a loop change nothing. -/
theorem Decides.of_endsAs {m m' : Body (Option Progress)} {L : List Slot}
    (h : Decides platform m' L) (hm : m.EndsAs m') :
  Decides platform m L
  := by
  obtain ⟨ws, hwrites, hresult⟩ := hm
  constructor
  · rw [hresult]
    apply h.undecided
  · rw [hresult]
    apply h.thrown
  · intro s hs hthrows
    obtain ⟨hok, hends⟩ := h.answered s hs hthrows
    rw [hresult, hwrites]
    exact ⟨hok, hends.append ws⟩

/-- A loop that goes on with another loop. -/
theorem Decides.andThen {m : Body (Option Progress)} {L L' : List Slot}
    (hm : Decides platform m L) {f : Progress → Body (Option Progress)}
    (hf : ∀ p, Decides platform (f p) L') {g : Option Progress → Body (Option Progress)}
    (hnone : g none = pure none) (hsome : ∀ p, g (some p) = f p) :
  Decides platform (m >>= g) (L ++ L')
  := by
  cases hfind : L.find? Slot.decisive with
  | none =>
      obtain ⟨p, hp⟩ := hm.undecided hfind
      have hskip : (L ++ L').find? Slot.decisive = L'.find? Slot.decisive := by
        rw [List.find?_append, hfind, Option.none_or]
      rw [Emit.bind_of_ok hp, hsome]
      refine ⟨?_, ?_, ?_⟩
      · rw [hskip]
        apply (hf p).undecided
      · rw [hskip]
        apply (hf p).thrown
      · rw [hskip]
        intro s hs hthrows
        obtain ⟨hresult, hwrites⟩ := (hf p).answered s hs hthrows
        exact ⟨hresult, hwrites.append _⟩
  | some s =>
      have hstop : (L ++ L').find? Slot.decisive = some s := by
        rw [List.find?_append, hfind, Option.some_or]
      refine ⟨?_, ?_, ?_⟩
      · rw [hstop]
        intro h
        cases h
      · intro s' hs' hthrows
        obtain rfl := Option.some.inj (hstop.symm.trans hs')
        obtain ⟨e, he⟩ := hm.thrown s hfind hthrows
        use e
        rw [Emit.bind_of_error he]
      · intro s' hs' hthrows
        obtain rfl := Option.some.inj (hstop.symm.trans hs')
        obtain ⟨hresult, hwrites⟩ := hm.answered s hfind hthrows
        rw [Emit.bind_of_ok hresult, hnone, Emit.writes_pure, List.append_nil]
        exact ⟨rfl, hwrites⟩

/-- The wait ends with the first statistics that show received bytes. -/
theorem awaitHandshake_answered (onReceived : Poll → List Effect) (polls : List (Option Poll))
    (lastTx : ℤ) (h : polls.any fun poll => poll.any fun p => 0 < p.rx) :
  ∃ p, awaitHandshake onReceived polls lastTx = ⟨onReceived p, .ok none⟩
  := by
  induction polls generalizing lastTx with
  | nil => cases h
  | cons poll polls ih =>
      cases poll with
      | none => apply ih lastTx (by simpa using h)
      | some p =>
          rw [awaitHandshake]
          by_cases hp : 0 < p.rx
          · rw [if_pos hp]
            use p
            rw [Emit.bind_of_ok rfl]
            simp
          · rw [if_neg hp]
            apply ih p.tx (by simpa [hp] using h)

/-- Without received bytes the wait has no effects. -/
theorem awaitHandshake_silent (onReceived : Poll → List Effect) (polls : List (Option Poll))
    (lastTx : ℤ) (h : ¬ polls.any fun poll => poll.any fun p => 0 < p.rx) :
  ∃ tx, awaitHandshake onReceived polls lastTx = ⟨[], .ok (some tx)⟩
  := by
  induction polls generalizing lastTx with
  | nil => exact ⟨lastTx, rfl⟩
  | cons poll polls ih =>
      cases poll with
      | none => apply ih lastTx (by simpa using h)
      | some p =>
          rw [List.any_cons, Bool.or_eq_true, not_or] at h
          have hp : ¬ 0 < p.rx := by simpa using h.1
          rw [awaitHandshake, if_neg hp]
          apply ih p.tx h.2

theorem decides_nil (p : Progress) :
  Decides platform (pure (some p)) []
  := by
  refine ⟨fun _ => ⟨p, rfl⟩, ?_, ?_⟩
  · intro s hs
    cases hs
  · intro s hs
    cases hs

theorem decides_of_throws {m : Body (Option Progress)} {s : Slot} (hs : s.throws)
    {e : Option String} (hm : m.result = .error e) :
  Decides platform m [s]
  := by
  have hfind : [s].find? Slot.decisive = some s := by
    simp [Slot.decisive, hs]
  refine ⟨?_, ?_, ?_⟩
  · rw [hfind]
    intro h
    cases h
  · intro _ _ _
    use e
  · intro s' hs' hthrows
    obtain rfl := Option.some.inj (hfind.symm.trans hs')
    rw [hs] at hthrows
    cases hthrows

/-- The wait for the handshake decides on an endpoint that does not throw. -/
theorem decides_awaitHandshake (variant : WarpConfig) (address ep : String) (attempt : ℕ)
    (a : Attempt) (lastTx : ℤ) (f : ℤ → Progress) (hs : (Slot.mk ep a).throws = false) :
  Decides platform
    (awaitHandshake (connected platform variant address ep attempt) a.polls lastTx >>= fun tx =>
      pure (tx.map f)) [⟨ep, a⟩]
  := by
  by_cases hpolls : a.polls.any fun poll => poll.any fun p => 0 < p.rx
  · have hfind : [Slot.mk ep a].find? Slot.decisive = some ⟨ep, a⟩ := by
      simp [Slot.decisive, Slot.answers, hs, hpolls]
    obtain ⟨p, hp⟩ := awaitHandshake_answered (connected platform variant address ep attempt)
      a.polls lastTx hpolls
    rw [hp, Emit.bind_of_ok rfl]
    refine ⟨?_, ?_, ?_⟩
    · rw [hfind]
      intro h
      cases h
    · intro s' hs' hthrows
      obtain rfl := Option.some.inj (hfind.symm.trans hs')
      rw [hs] at hthrows
      cases hthrows
    · intro s' hs' _
      obtain rfl := Option.some.inj (hfind.symm.trans hs')
      refine ⟨rfl, [], variant, address, attempt, p, ?_⟩
      simp
  · have hfind : [Slot.mk ep a].find? Slot.decisive = none := by
      simp [Slot.decisive, Slot.answers, hs, hpolls]
    obtain ⟨tx, htx⟩ := awaitHandshake_silent (connected platform variant address ep attempt)
      a.polls lastTx hpolls
    rw [htx, Emit.bind_of_ok rfl]
    refine ⟨fun _ => ⟨f tx, rfl⟩, ?_, ?_⟩
    · intro s' hs'
      rw [hfind] at hs'
      cases hs'
    · intro s' hs'
      rw [hfind] at hs'
      cases hs'

theorem decides_tryEndpoint (base : WarpConfig) (count cIdx candidates attempt idx : ℕ)
    (ep : String) (a : Attempt) (progress : Progress) :
  Decides platform (tryEndpoint platform base count cIdx candidates attempt idx ep a progress)
    [⟨ep, a⟩]
  := by
  obtain ⟨parse, down, up, polls⟩ := a
  unfold tryEndpoint
  cases parse with
  | error e => apply decides_of_throws rfl (by rw [Emit.bind_of_error rfl])
  | ok u =>
      cases up with
      | error e =>
          apply decides_of_throws rfl
          rw [Emit.bind_of_ok rfl, Emit.bind_of_ok rfl, Emit.bind_of_ok rfl, Emit.bind_of_error rfl]
      | ok v =>
          apply Decides.of_endsAs _ (Emit.endsAs_bind (Emit.result_answer _) _)
          apply Decides.of_endsAs _ (Emit.endsAs_bind (Emit.result_tellAll _) _)
          apply Decides.of_endsAs _ (Emit.endsAs_bind (Emit.result_tell _) _)
          apply Decides.of_endsAs _ (Emit.endsAs_bind (Emit.result_answer _) _)
          apply Decides.of_endsAs _ (Emit.endsAs_bind (Emit.result_tell _) _)
          apply decides_awaitHandshake _ _ _ _ ⟨.ok u, down, .ok v, polls⟩ _ _ rfl

theorem decides_tryEndpoints (base : WarpConfig) (count cIdx candidates attempt : ℕ)
    (attempts : ℕ → Attempt) (idx : ℕ) (eps : List String) (progress : Progress) :
  Decides platform
    (tryEndpoints platform base count cIdx candidates attempt attempts idx eps progress)
    (endpointSlots attempts idx eps)
  := by
  induction eps generalizing idx progress with
  | nil => apply decides_nil
  | cons ep eps ih =>
      rw [tryEndpoints]
      change Decides platform _ ([⟨ep, attempts idx⟩] ++ endpointSlots attempts (idx + 1) eps)
      apply Decides.andThen (decides_tryEndpoint base count cIdx candidates attempt idx ep
        (attempts idx) progress) (ih (idx + 1))
      · rfl
      · intro p
        rfl

theorem decides_tryCandidate (candidates attempt cIdx : ℕ) (attempts : ℕ → Attempt)
    (base : WarpConfig) (progress : Progress) :
  Decides platform (tryCandidate platform candidates attempt cIdx attempts base progress)
    (endpointSlots attempts 0 (endpointsOf base))
  := by
  apply Decides.of_endsAs _ (Emit.endsAs_bind (Emit.result_tell _) _)
  apply decides_tryEndpoints

theorem decides_tryCandidates (answers : BringUp) (candidates attempt cIdx : ℕ)
    (configs : List WarpConfig) (progress : Progress) :
  Decides platform (tryCandidates platform answers candidates attempt cIdx configs progress)
    (slots platform answers cIdx configs)
  := by
  induction configs generalizing cIdx progress with
  | nil => apply decides_nil
  | cons base0 rest ih =>
      rw [tryCandidates, slots]
      apply Decides.andThen (decides_tryCandidate candidates attempt cIdx
        (answers.attempts cIdx) _ progress) (ih (cIdx + 1))
      · rfl
      · intro p
        rfl

/-! ### What `bringUpOnce` publishes -/

/-- The state after the effects of a body. -/
def Controller.applyAll (c : Controller) (ws : List Effect) : Controller :=
  ws.foldl Controller.apply c

theorem applyAll_of_endsConnected {ep : String} {ws : List Effect}
    (h : EndsConnected platform ep ws) (c : Controller) :
  (c.applyAll ws).status.mode = .on ∧ (c.applyAll ws).status.endpoint = some ep
  := by
  obtain ⟨pre, variant, address, attempt, p, rfl⟩ := h
  rw [Controller.applyAll, List.foldl_append]
  exact ⟨rfl, rfl⟩

/-- With a configuration and a service that is alive, `bringUpOnce` comes to its loops. -/
theorem bringUpOnce_endsAs (answers : BringUp) (confCache : Option WarpConfig) (attempt : ℕ)
    (allowRegister : Bool) (hne : candidatesOf platform answers confCache allowRegister ≠ [])
    (halive : answers.service = .ok true) :
  (bringUpOnce platform answers confCache attempt allowRegister).EndsAs
    (raceEndpoints platform answers (candidatesOf platform answers confCache allowRegister) attempt)
  := by
  unfold bringUpOnce
  simp only [hne, halive, false_and, if_false]
  apply (Emit.endsAs_bind (Emit.result_tell _) _).trans
  apply (Emit.endsAs_bind (Emit.result_answer _) _).trans
  apply (Emit.endsAs_bind (Emit.result_tell _) _).trans
  simp only [not_true_eq_false, if_false]
  exact ⟨[], rfl, rfl⟩

/-- `bringUpOnce` ends as the first decisive endpoint says. -/
theorem bringUpOnce_spec (answers : BringUp) (confCache : Option WarpConfig) (attempt : ℕ)
    (allowRegister : Bool) (hne : candidatesOf platform answers confCache allowRegister ≠ [])
    (halive : answers.service = .ok true) :
  let body := bringUpOnce platform answers confCache attempt allowRegister
  let L := slots platform answers 0 (candidatesOf platform answers confCache allowRegister)
  (∀ s, L.find? Slot.decisive = some s → s.throws = true → ∃ e, body.result = .error e) ∧
    ∀ s, L.find? Slot.decisive = some s → s.throws = false →
      body.result = .ok () ∧ EndsConnected platform s.endpoint body.writes
  := by
  obtain ⟨ws, hwrites, hresult⟩ := bringUpOnce_endsAs answers confCache attempt allowRegister hne
    halive
  have hdecides : Decides platform _ _ := decides_tryCandidates answers
    (candidatesOf platform answers confCache allowRegister).length attempt 0
    (candidatesOf platform answers confCache allowRegister) {}
  dsimp only
  rw [hwrites, hresult, raceEndpoints, Emit.bind_of_ok (Emit.result_tell _)]
  constructor
  · intro s hs hthrows
    obtain ⟨e, he⟩ := hdecides.thrown s hs hthrows
    use e
    rw [Emit.bind_of_error he]
  · intro s hs hthrows
    obtain ⟨hok, hends⟩ := hdecides.answered s hs hthrows
    rw [Emit.bind_of_ok hok, Emit.writes_pure, List.append_nil]
    exact ⟨rfl, (hends.append _).append ws⟩

/-- The search is complete: if an endpoint it is allowed to try answers, then `bringUpOnce`
returns with such an endpoint published `ON`. -/
def FailoverComplete (c : Controller) (body : Body Unit) (L : List Slot) : Prop :=
  (∃ s ∈ L, s.answers = true) →
    body.result = .ok () ∧ (c.applyAll body.writes).status.mode = .on ∧
      ∃ s ∈ L, s.answers = true ∧ (c.applyAll body.writes).status.endpoint = some s.endpoint

/-- Before the first endpoint that answers, if there is one, no endpoint makes `Config.parse`
or `setState(UP)` throw. -/
def NoThrowBeforeAnswer (L : List Slot) : Prop :=
  ∀ pre s post, L = pre ++ s :: post → s.answers = true → (∀ t ∈ pre, t.answers = false) →
    ∀ t ∈ pre, t.throws = false

theorem throws_of_answers {s : Slot} (h : s.answers = true) :
  s.throws = false
  := by
  rw [Slot.answers, Bool.and_eq_true, Bool.not_eq_true'] at h
  apply h.1

/-- Where no endpoint throws before the first one that answers, that one is decisive. -/
theorem find_decisive_of_noThrow {L : List Slot} (h : NoThrowBeforeAnswer L) {s : Slot}
    (hs : L.find? Slot.answers = some s) :
  L.find? Slot.decisive = some s
  := by
  obtain ⟨hanswers, pre, post, rfl, hpre⟩ := List.find?_eq_some_iff_append.mp hs
  have hsilent : ∀ t ∈ pre, t.answers = false := by
    intro t ht
    simpa using hpre t ht
  have hquiet := h pre s post rfl hanswers hsilent
  apply List.find?_eq_some_iff_append.mpr
  constructor
  · simp [Slot.decisive, hanswers]
  · use pre, post, rfl
    intro t ht
    simp [Slot.decisive, hsilent t ht, hquiet t ht]

/-- Where an endpoint throws before the first one that answers, a throwing one is decisive. -/
theorem find_decisive_of_throw {pre post : List Slot} {s t : Slot}
    (hsilent : ∀ q ∈ pre, q.answers = false) (ht : t ∈ pre) (hthrows : t.throws = true) :
  ∃ d, (pre ++ s :: post).find? Slot.decisive = some d ∧ d.throws = true
  := by
  have hsome : (pre.find? Slot.decisive).isSome := by
    rw [List.find?_isSome]
    use t, ht
    simp [Slot.decisive, hthrows]
  obtain ⟨d, hd⟩ := Option.isSome_iff_exists.mp hsome
  use d
  constructor
  · rw [List.find?_append, hd, Option.some_or]
  · have hdecisive := List.find?_some hd
    rw [Slot.decisive, hsilent d (List.mem_of_find?_eq_some hd), Bool.or_false] at hdecisive
    apply hdecisive

/-- For every list of configurations and every outcome of every endpoint, with the service
alive, the search is complete exactly when no endpoint before the first one that answers makes
`Config.parse` or `setState(UP)` throw. -/
theorem bringUpOnce_complete_iff (platform : Platform) (answers : BringUp)
    (confCache : Option WarpConfig) (attempt : ℕ) (allowRegister : Bool) (c : Controller)
    (hne : candidatesOf platform answers confCache allowRegister ≠ [])
    (halive : answers.service = .ok true) :
  let L := slots platform answers 0 (candidatesOf platform answers confCache allowRegister)
  FailoverComplete c (bringUpOnce platform answers confCache attempt allowRegister) L ↔
    NoThrowBeforeAnswer L
  := by
  obtain ⟨hthrown, hanswered⟩ := bringUpOnce_spec answers confCache attempt allowRegister hne halive
  dsimp only
  generalize slots platform answers 0 (candidatesOf platform answers confCache allowRegister) = L
    at *
  constructor
  · rintro hcomplete pre s post rfl hs hsilent t ht
    by_contra hthrows
    rw [Bool.not_eq_false] at hthrows
    obtain ⟨d, hd, hdthrows⟩ := find_decisive_of_throw hsilent ht hthrows
    obtain ⟨e, he⟩ := hthrown d hd hdthrows
    have hok := (hcomplete ⟨s, by simp, hs⟩).1
    rw [he] at hok
    cases hok
  · rintro hnothrow ⟨q, hq, hqanswers⟩
    have hsome : (L.find? Slot.answers).isSome := by
      rw [List.find?_isSome]
      exact ⟨q, hq, hqanswers⟩
    obtain ⟨s, hs⟩ := Option.isSome_iff_exists.mp hsome
    have hsanswers := List.find?_some hs
    obtain ⟨hok, hends⟩ := hanswered s (find_decisive_of_noThrow hnothrow hs)
      (throws_of_answers hsanswers)
    obtain ⟨hmode, hendpoint⟩ := applyAll_of_endsConnected hends c
    exact ⟨hok, hmode, s, List.mem_of_find?_eq_some hs, hsanswers, hendpoint⟩

/-! ### A configuration whose first endpoint cannot be set up -/

/-- An imported configuration. -/
def sampleConf : WarpConfig where
  confText := ""
  addressV4 := "172.16.0.2/32"
  endpoint := "162.159.192.1:2408"
  clientId := ""
  privateKey := "k"
  publicKey := ""
  endpointCandidates := ["162.159.192.1:2408"]
  peerPublicKey := "p"
  source := "conf"

/-- `setState(UP)` throws for the first endpoint, and the second one answers at once. -/
def secondAnswers : BringUp where
  dns _ _ := []
  generateOrBootstrap := .error none
  loadAllBootstrap := []
  service := .ok true
  attempts _ idx :=
    { parse := .ok ()
      down := true
      up := if idx = 0 then .error (some "Bad address") else .ok ()
      polls := [some ⟨92, 148, 1000⟩] }

/-- The endpoint that would answer is not tried after `setState(UP)` has thrown for another
one. -/
theorem not_failoverComplete_secondAnswers :
  ¬ ∀ (answers : BringUp) (confCache : Option WarpConfig) (c : Controller),
    candidatesOf Platform.ascii answers confCache false ≠ [] → answers.service = .ok true →
    FailoverComplete c (bringUpOnce Platform.ascii answers confCache 1 false)
      (slots Platform.ascii answers 0 (candidatesOf Platform.ascii answers confCache false))
  := by
  intro h
  have hne : candidatesOf Platform.ascii secondAnswers (some sampleConf) false ≠ [] := by
    rw [candidatesOf_import]
    exact List.cons_ne_nil _ _
  have hcomplete := h secondAnswers (some sampleConf) {} hne rfl
  have hresult := (hcomplete (by decide +kernel)).1
  revert hresult
  decide +kernel

/-- The first endpoint is silent, and the second one answers at once. -/
def firstSilent : BringUp where
  dns _ _ := []
  generateOrBootstrap := .error none
  loadAllBootstrap := []
  service := .ok true
  attempts _ idx :=
    { parse := .ok ()
      down := false
      up := .ok ()
      polls := [none, some ⟨if idx = 0 then 0 else 92, 148, 1000⟩] }

/-- After a silent endpoint the next one is tried. -/
theorem failoverComplete_firstSilent :
  candidatesOf Platform.ascii firstSilent (some sampleConf) false ≠ [] ∧
    FailoverComplete {} (bringUpOnce Platform.ascii firstSilent (some sampleConf) 1 false)
      (slots Platform.ascii firstSilent 0
        (candidatesOf Platform.ascii firstSilent (some sampleConf) false))
  := by
  have hne : candidatesOf Platform.ascii firstSilent (some sampleConf) false ≠ [] := by
    rw [candidatesOf_import]
    exact List.cons_ne_nil _ _
  refine ⟨hne, ?_⟩
  apply (bringUpOnce_complete_iff Platform.ascii firstSilent (some sampleConf) 1 false {} hne
    rfl).mpr
  have hnothrow : ∀ t ∈ slots Platform.ascii firstSilent 0
      (candidatesOf Platform.ascii firstSilent (some sampleConf) false), t.throws = false := by
    intro t ht
    obtain ⟨c, i, hattempt⟩ := exists_attempt_of_mem_slots ht
    rw [Slot.throws, hattempt]
    rfl
  intro pre s post heq _ _ t ht
  apply hnothrow t
  rw [heq]
  apply List.mem_append_left _ ht

end Warp.WarpController
