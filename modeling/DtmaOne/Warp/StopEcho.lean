import DtmaOne.Warp.System

/-!
# Echoes of a stop

Every stop posts `ACTION_STOP`, and the service answers every `ACTION_STOP` with a stop, so a
stop is echoed between the two for as long as the intents are delivered, and turns off whatever
was started in the meantime.

Every stop that was requested pays for two executions: its own, and the one of its first echo.
What is left to spend by the stops that wait, are in flight or are still to be posted bounds
the executions of a run in which no later echo is delivered, and no echo is delivered after
another start.
-/

namespace Warp.WarpController

/-! ### Only stops post stops -/

/-- The stop a command asks for. -/
def Request.echoes : Request → List Echo
  | .stop echo => [echo]
  | _ => []

/-- The stop an intent asks for. -/
def Intent.echoes : Intent → List Echo
  | .start => []
  | .stop echo => [echo]

/-- The stops an effect posts. -/
def Effect.echoes (w : Effect) : List Echo :=
  w.posted.flatMap Intent.echoes

/-- The body posts no stop. -/
def Mute {α : Type} (m : Body α) : Prop :=
  ∀ w ∈ m.writes, w.echoes = []

section Mute

variable {α β : Type} {platform : Platform}

theorem mute_pure (a : α) :
  Mute (pure a)
  := by
  intro w hw
  cases hw

theorem mute_raise (e : Option String) :
  Mute (Emit.raise e : Body α)
  := by
  intro w hw
  cases hw

theorem mute_answer (r : Except (Option String) α) :
  Mute (Emit.answer r)
  := by
  intro w hw
  cases hw

theorem mute_tell {w : Effect} (hw : w.echoes = []) :
  Mute (Emit.tell w)
  := by
  intro v hv
  obtain rfl := List.mem_singleton.mp hv
  apply hw

theorem mute_bind {m : Body α} {f : α → Body β} (hm : Mute m) (hf : ∀ a, Mute (f a)) :
  Mute (m >>= f)
  := by
  apply Emit.forall_writes_bind hm hf

/-- A check that raises and goes on otherwise. -/
theorem mute_guard {p : Prop} [Decidable p] (e : Option String) {k : Unit → Body β}
    (hk : ∀ u, Mute (k u)) :
  Mute (if p then Emit.raise e >>= k else k ())
  := by
  split_ifs
  · apply mute_bind (mute_raise e) hk
  · apply hk

theorem mute_connected (variant : WarpConfig) (address ep : String) (attempt : ℕ) (p : Poll) :
  Mute (Emit.tellAll (connected platform variant address ep attempt p))
  := by
  simp [Mute, connected, Effect.echoes, Effect.posted]

theorem mute_awaitHandshake (variant : WarpConfig) (address ep : String) (attempt : ℕ)
    (polls : List (Option Poll)) (lastTx : ℤ) :
  Mute (awaitHandshake (connected platform variant address ep attempt) polls lastTx)
  := by
  induction polls generalizing lastTx with
  | nil => apply mute_pure
  | cons poll polls ih =>
      cases poll with
      | none => apply ih
      | some p =>
          rw [awaitHandshake]
          split_ifs
          · apply mute_bind (mute_connected variant address ep attempt p)
            intro _
            apply mute_pure
          · apply ih

theorem mute_tryEndpoint (base : WarpConfig) (count cIdx candidates attempt idx : ℕ) (ep : String)
    (a : Attempt) (progress : Progress) :
  Mute (tryEndpoint platform base count cIdx candidates attempt idx ep a progress)
  := by
  apply mute_bind (mute_answer _)
  intro _
  apply mute_bind
  · split_ifs <;> simp [Mute, Effect.echoes, Effect.posted]
  intro _
  apply mute_bind (mute_tell rfl)
  intro _
  apply mute_bind (mute_answer _)
  intro _
  apply mute_bind (mute_tell rfl)
  intro _
  apply mute_bind (mute_awaitHandshake _ _ _ _ _ _)
  intro _
  apply mute_pure

theorem mute_tryEndpoints (base : WarpConfig) (count cIdx candidates attempt : ℕ)
    (attempts : ℕ → Attempt) (idx : ℕ) (eps : List String) (progress : Progress) :
  Mute (tryEndpoints platform base count cIdx candidates attempt attempts idx eps progress)
  := by
  induction eps generalizing idx progress with
  | nil => apply mute_pure
  | cons ep eps ih =>
      apply mute_bind (mute_tryEndpoint base count cIdx candidates attempt idx ep _ progress)
      rintro (_ | progress)
      · apply mute_pure
      · apply ih

theorem mute_tryCandidates (answers : BringUp) (candidates attempt cIdx : ℕ)
    (configs : List WarpConfig) (progress : Progress) :
  Mute (tryCandidates platform answers candidates attempt cIdx configs progress)
  := by
  induction configs generalizing cIdx progress with
  | nil => apply mute_pure
  | cons base0 rest ih =>
      rw [tryCandidates]
      apply mute_bind
      · apply mute_bind (mute_tell rfl)
        intro _
        apply mute_tryEndpoints
      · rintro (_ | progress)
        · apply mute_pure
        · apply ih

theorem mute_bringUpOnce (answers : BringUp) (confCache : Option WarpConfig) (attempt : ℕ)
    (allowRegister : Bool) :
  Mute (bringUpOnce platform answers confCache attempt allowRegister)
  := by
  have hrace : ∀ candidates, Mute (raceEndpoints platform answers candidates attempt) := by
    intro candidates
    apply mute_bind (mute_tell rfl)
    intro _
    apply mute_bind (mute_tryCandidates _ _ _ _ _ _)
    rintro (_ | progress)
    · apply mute_pure
    · apply mute_raise
  unfold bringUpOnce
  apply mute_bind (mute_tell rfl)
  intro _
  dsimp only
  apply mute_guard
  intro _
  apply mute_guard
  intro _
  apply mute_bind (mute_answer _)
  intro _
  apply mute_bind (mute_tell rfl)
  intro _
  apply mute_guard
  intro _
  apply hrace

/-- Posting no stop is compositional. -/
theorem compositional_mute :
  Compositional platform fun ws => ∀ w ∈ ws, w.echoes = []
  := by
  constructor
  · intro w hw
    cases hw
  · intro ws ws' h h' w hw
    obtain hw | hw := List.mem_append.mp hw
    · apply h w hw
    · apply h' w hw
  · intro w hw
    apply mute_tell
    cases w with
    | setState _ | createBackend | postIntent _ => cases hw
    | _ => rfl
  · apply mute_bringUpOnce

end Mute

/-! ### What the stops may spend -/

/-- The executions a list of stops pays for: a stop for its own and for the one of its echo, an
echo for its own. -/
def credit (echoes : List Echo) : ℕ :=
  (echoes.map fun echo => 2 - echo.hops).sum

/-- The stops that wait, are in flight, or are still to be posted. -/
def System.echoes (s : System) : List Echo :=
  s.waiting.flatMap Request.echoes ++ s.intents.flatMap Intent.echoes ++
    (s.holder.toList.flatMap Holder.remaining).flatMap Effect.echoes

@[simp]
theorem credit_nil :
  credit [] = 0
  := rfl

@[simp]
theorem credit_cons (echo : Echo) (echoes : List Echo) :
  credit (echo :: echoes) = 2 - echo.hops + credit echoes
  := by
  simp [credit]

@[simp]
theorem credit_append (l l' : List Echo) :
  credit (l ++ l') = credit l + credit l'
  := by
  simp [credit]

/-- Only a stop posts a stop, and it posts at most one, its echo. -/
theorem credit_bodyOf (platform : Platform) (c : Controller) (answers : Answers) (r : Request) :
  credit ((bodyOf platform c answers r).flatMap Effect.echoes) ≤
    credit (r.echoes.map Echo.next)
  := by
  have hmute : ∀ {α : Type} {m : Body α}, Mute m → m.writes.flatMap Effect.echoes = [] := by
    intro α m hm
    rw [List.flatMap_eq_nil_iff]
    apply hm
  cases r with
  | start forceNewAccount =>
      rw [bodyOf, hmute (compositional_mute.start _ _ _)]
      apply Nat.zero_le
  | startFromConf confText =>
      rw [bodyOf, hmute (compositional_mute.startFromConf _ _)]
      apply Nat.zero_le
  | stop echo =>
      simp only [bodyOf, stop, stopInternal]
      split_ifs <;> simp [Effect.echoes, Effect.posted, Intent.echoes, Request.echoes]
  | reconnect =>
      rw [bodyOf, hmute (compositional_mute.start _ _ _)]
      apply Nat.zero_le

/-- What a command that takes the mutex spends, and what it leaves to its echo, is not more than
what it paid for. -/
theorem isStop_toNat_add_credit {r : Request} (hr : ∀ echo ∈ r.echoes, echo.hops ≤ 1) :
  r.isStop.toNat + credit (r.echoes.map Echo.next) ≤ credit r.echoes
  := by
  cases r with
  | start forceNewAccount => apply le_refl
  | startFromConf confText => apply le_refl
  | reconnect => apply le_refl
  | stop echo =>
      have hhops := hr echo (List.mem_singleton.mpr rfl)
      simp only [Request.isStop, Request.echoes, Echo.next, List.map_cons, List.map_nil,
        credit_cons, credit_nil, Bool.toNat_true]
      omega

theorem credit_ask (s : System) (r : Request) :
  credit (s.ask r).echoes = credit s.echoes + credit r.echoes
  := by
  simp only [System.echoes, System.ask, List.flatMap_append, List.flatMap_singleton, credit_append]
  omega

theorem credit_eraseIdx {intents : List Intent} {i : ℕ} {intent : Intent}
    (hi : intents[i]? = some intent) :
  credit ((intents.eraseIdx i).flatMap Intent.echoes) + credit intent.echoes =
    credit (intents.flatMap Intent.echoes)
  := by
  induction intents generalizing i with
  | nil => cases hi
  | cons a intents ih =>
      cases i with
      | zero =>
          obtain rfl := Option.some.inj hi
          simp [Nat.add_comm]
      | succ i =>
          have hrest := ih hi
          simp only [List.eraseIdx_cons_succ, List.flatMap_cons, credit_append]
          omega

/-! ### The invariant -/

/-- The stops have not been echoed too often, and no echo has run after a later start. -/
def NotEchoed (s : System) : Prop :=
  s.stopRuns ≤ 2 * s.externalStops ∧ s.overrun = false

/-- An intent that is delivered is not the echo of an echo, and no start was issued since the
stop it echoes was requested. -/
def Direct (s : System) : Event → Prop
  | .deliver i =>
      ∀ intent ∈ s.intents[i]?, ∀ echo ∈ intent.echoes, 0 < echo.hops →
        echo.hops = 1 ∧ s.startsIssued = echo.startsBefore
  | _ => True

/-- The invariant of the runs in which every delivery is direct. -/
structure Frugal (s : System) : Prop where
  budget : s.stopRuns + credit s.echoes ≤ 2 * s.externalStops
  single : ∀ r ∈ s.waiting, ∀ echo ∈ r.echoes, echo.hops ≤ 1
  counted : s.startsRun + s.waiting.countP Request.isUserStart = s.startsIssued
  /-- The starts that run before an echo were issued before the stop it echoes. -/
  ahead : ∀ pre r post, s.waiting = pre ++ r :: post → ∀ echo ∈ r.echoes, 0 < echo.hops →
    s.startsRun + pre.countP Request.isUserStart ≤ echo.startsBefore
  unbroken : s.overrun = false

theorem frugal_init :
  Frugal {}
  := by
  constructor
  · apply le_refl
  · intro r hr
    cases hr
  · rfl
  · intro pre r post h
    simp at h
  · rfl

variable {platform : Platform} {s t : System}

theorem countP_isUserStart_cons (r : Request) (rest : List Request) :
  (r :: rest).countP Request.isUserStart =
    r.isUserStart.toNat + rest.countP Request.isUserStart
  := by
  rw [List.countP_cons]
  cases r.isUserStart <;> simp [Nat.add_comm]

/-- The invariant is kept when a command asks for the mutex within the budget. -/
theorem Frugal.of_ask (h : Frugal s) {r : Request} (hwaiting : t.waiting = s.waiting ++ [r])
    (hrun : t.startsRun = s.startsRun)
    (hissued : t.startsIssued = s.startsIssued + r.isUserStart.toNat)
    (hoverrun : t.overrun = s.overrun)
    (hbudget : t.stopRuns + credit t.echoes ≤ 2 * t.externalStops)
    (hsingle : ∀ echo ∈ r.echoes, echo.hops ≤ 1)
    (hsince : ∀ echo ∈ r.echoes, 0 < echo.hops → s.startsIssued ≤ echo.startsBefore) :
  Frugal t
  := by
  refine ⟨hbudget, ?_, ?_, ?_, hoverrun.trans h.unbroken⟩
  · intro q hq
    rw [hwaiting, List.mem_append, List.mem_singleton] at hq
    obtain hq | rfl := hq
    · apply h.single q hq
    · apply hsingle
  · have hcounted := h.counted
    rw [hwaiting, hrun, hissued, List.countP_append, countP_isUserStart_cons, List.countP_nil]
    omega
  · intro pre q post hpost echo hecho hhops
    rw [hwaiting] at hpost
    rw [hrun]
    obtain rfl | ⟨post, last, rfl⟩ := List.eq_nil_or_concat post
    · obtain ⟨rfl, hlast⟩ := List.append_inj' hpost rfl
      obtain rfl := List.singleton_inj.mp hlast
      rw [h.counted]
      apply hsince echo hecho hhops
    · rw [List.concat_eq_append, ← List.cons_append, ← List.append_assoc] at hpost
      obtain ⟨hpost, -⟩ := List.append_inj' hpost rfl
      apply h.ahead pre q post hpost echo hecho hhops

theorem frugal_issueStart (h : Frugal s) {r : Request} (hr : r.isUserStart = true) :
  Frugal (s.issueStart r)
  := by
  have hechoes : r.echoes = [] := by
    cases r with
    | start forceNewAccount => rfl
    | startFromConf confText => rfl
    | stop echo => cases hr
    | reconnect => cases hr
  refine h.of_ask (t := s.issueStart r) (r := r) rfl rfl (by rw [hr]; rfl) rfl ?_ ?_ ?_
  · have hcredit : credit (s.issueStart r).echoes = credit s.echoes := by
      apply (credit_ask s r).trans
      rw [hechoes, credit_nil, Nat.add_zero]
    rw [hcredit]
    apply h.budget
  · simp [hechoes]
  · simp [hechoes]

theorem frugal_issueStop (h : Frugal s) :
  Frugal s.issueStop
  := by
  refine h.of_ask (t := s.issueStop) (r := .stop s.newEcho) rfl rfl rfl rfl ?_ ?_ ?_
  · have hcredit : credit s.issueStop.echoes = credit s.echoes + 2 := credit_ask s (.stop s.newEcho)
    have hbudget := h.budget
    rw [hcredit]
    simp only [System.issueStop, System.ask]
    omega
  · simp [Request.echoes, System.newEcho]
  · simp [Request.echoes, System.newEcho]

theorem frugal_postStop (h : Frugal s) :
  Frugal s.postStop
  := by
  refine ⟨?_, h.single, h.counted, h.ahead, h.unbroken⟩
  have hbudget := h.budget
  simp only [System.echoes, System.postStop, List.flatMap_append, List.flatMap_singleton,
    Intent.echoes, System.newEcho, credit_append, credit_cons, credit_nil] at hbudget ⊢
  omega

theorem frugal_deliver (h : Frugal s) {i : ℕ} (hok : Direct s (.deliver i))
    (hstep : step platform s (.deliver i) = some t) :
  Frugal t
  := by
  obtain ⟨intent, hi, rfl⟩ := step_deliver hstep
  have herase := credit_eraseIdx hi
  have hbudget := h.budget
  cases intent with
  | start =>
      refine ⟨?_, h.single, h.counted, h.ahead, h.unbroken⟩
      simp only [System.echoes, System.onStartCommand, Intent.echoes, credit_append, credit_nil]
        at herase hbudget ⊢
      omega
  | stop echo =>
      have hdirect := hok (.stop echo) hi echo (List.mem_singleton.mpr rfl)
      set q : System := { s with intents := s.intents.eraseIdx i }
      refine h.of_ask (t := q.ask (.stop echo)) (r := .stop echo) rfl rfl rfl rfl ?_ ?_ ?_
      · rw [credit_ask]
        simp only [q, System.echoes, System.ask, Intent.echoes, Request.echoes, credit_append]
          at herase hbudget ⊢
        omega
      · simp only [Request.echoes, List.mem_singleton, forall_eq]
        omega
      · simp only [Request.echoes, List.mem_singleton, forall_eq]
        omega

theorem frugal_acquire (h : Frugal s) {answers : Answers}
    (hstep : step platform s (.acquire answers) = some t) :
  Frugal t
  := by
  obtain ⟨r, rest, hholder, hwaiting, rfl⟩ := step_acquire hstep
  have hsingle := h.single
  have hcounted := h.counted
  rw [hwaiting] at hsingle hcounted
  have hr : ∀ echo ∈ r.echoes, echo.hops ≤ 1 := hsingle r List.mem_cons_self
  constructor
  · have hspend := isStop_toNat_add_credit hr
    have hbody := credit_bodyOf platform s.controller answers r
    have hbudget := h.budget
    simp only [System.echoes, System.enter, hholder, hwaiting, List.flatMap_cons, List.flatMap_nil,
      Option.toList_none, Option.toList_some, List.append_nil, credit_append] at hbudget ⊢
    omega
  · intro q hq
    apply hsingle q (List.mem_cons_of_mem r hq)
  · rw [countP_isUserStart_cons] at hcounted
    simp only [System.enter]
    omega
  · intro pre q post hpost echo hecho hhops
    have hsplit : s.waiting = r :: pre ++ q :: post := by
      rw [hwaiting, List.cons_append, ← hpost]
      rfl
    have hahead := h.ahead (r :: pre) q post hsplit echo hecho hhops
    rw [countP_isUserStart_cons] at hahead
    simp only [System.enter]
    omega
  · have hahead := h.ahead [] r rest hwaiting
    simp only [System.enter, h.unbroken, Bool.false_or]
    cases r with
    | start forceNewAccount => rfl
    | startFromConf confText => rfl
    | reconnect => rfl
    | stop echo =>
        simp only [Request.echoes, List.mem_singleton, forall_eq, List.countP_nil] at hahead
        simp only [Request.overruns, Bool.and_eq_false_iff, decide_eq_false_iff_not]
        omega

theorem frugal_effect (h : Frugal s) (hstep : step platform s .effect = some t) :
  Frugal t
  := by
  obtain ⟨r, w, ws, hholder, rfl⟩ := step_effect hstep
  refine ⟨?_, h.single, h.counted, h.ahead, h.unbroken⟩
  have hbudget := h.budget
  simp only [System.echoes, System.perform, hholder, Option.toList_some, List.flatMap_append,
    List.flatMap_cons, List.flatMap_nil, List.append_nil, credit_append] at hbudget ⊢
  rw [Effect.echoes] at hbudget
  omega

theorem frugal_release (h : Frugal s) (hstep : step platform s .release = some t) :
  Frugal t
  := by
  obtain ⟨r, hholder, rfl⟩ := step_release hstep
  refine ⟨?_, h.single, h.counted, h.ahead, h.unbroken⟩
  have hbudget := h.budget
  simp only [System.echoes, System.leave, hholder] at hbudget ⊢
  apply hbudget

theorem frugal_requestReconnect (h : Frugal s)
    (hstep : step platform s .requestReconnect = some t) :
  Frugal t
  := by
  simp only [step] at hstep
  split_ifs at hstep
  obtain rfl := Option.some.inj hstep
  set q : System := { s.ask .reconnect with launched := s.launched - 1 }
  refine h.of_ask (t := q) (r := .reconnect) rfl rfl rfl rfl ?_ ?_ ?_
  · have hcredit : credit q.echoes = credit s.echoes := credit_ask s .reconnect
    rw [hcredit]
    apply h.budget
  · simp [Request.echoes]
  · simp [Request.echoes]

/-- A step with direct deliveries keeps the invariant. -/
theorem frugal_step (h : Frugal s) {e : Event} (hok : Direct s e)
    (hstep : step platform s e = some t) :
  Frugal t
  := by
  cases e with
  | userStart forceNewAccount =>
      obtain rfl := Option.some.inj hstep
      apply frugal_issueStart h rfl
  | userStartFromConf confText =>
      obtain rfl := Option.some.inj hstep
      apply frugal_issueStart h rfl
  | userStop =>
      obtain rfl := Option.some.inj hstep
      apply frugal_issueStop h
  | notificationStop =>
      obtain rfl := Option.some.inj hstep
      apply frugal_postStop h
  | revoke =>
      obtain rfl := Option.some.inj hstep
      apply frugal_issueStop h
  | deliver i => apply frugal_deliver h hok hstep
  | acquire answers => apply frugal_acquire h hstep
  | effect => apply frugal_effect h hstep
  | release => apply frugal_release h hstep
  | requestReconnect => apply frugal_requestReconnect h hstep
  | resetReconnecting =>
      simp only [step] at hstep
      split_ifs at hstep
      obtain rfl := Option.some.inj hstep
      exact ⟨h.budget, h.single, h.counted, h.ahead, h.unbroken⟩
  | wake =>
      simp only [step] at hstep
      split_ifs at hstep
      obtain rfl := Option.some.inj hstep
      exact ⟨h.budget, h.single, h.counted, h.ahead, h.unbroken⟩
  | beginCheck state statistics =>
      simp only [step] at hstep
      split_ifs at hstep
      obtain rfl := Option.some.inj hstep
      exact ⟨h.budget, h.single, h.counted, h.ahead, h.unbroken⟩
  | endCheck i autoReconnect clock =>
      obtain ⟨r, hi, rfl⟩ := step_endCheck hstep
      exact ⟨h.budget, h.single, h.counted, h.ahead, h.unbroken⟩

/-- In every run in which the service gets no echo of an echo, and no echo after a later start,
every state reached has at most two executions of `stop` for every stop that was requested, and
no start was turned off by an older stop. -/
theorem notEchoed_run (platform : Platform) (es : List Event)
    (hmeets : Run.Meets (step platform) Direct {} es) (pre : List Event) (hpre : pre <+: es)
    (t : System) (hrun : Run.exec (step platform) {} pre = some t) :
  NotEchoed t
  := by
  have hfrugal : Frugal t := Run.invariant_of_meets_prefix
    (fun _ _ _ hs hok hstep => frugal_step hs hok hstep) frugal_init hmeets hpre hrun
  have hbudget := hfrugal.budget
  refine ⟨?_, hfrugal.unbroken⟩
  omega

/-! ### A stop that comes back -/

instance (s : System) : ∀ e : Event, Decidable (Direct s e)
  | .deliver i =>
      inferInstanceAs (Decidable (∀ intent ∈ s.intents[i]?, ∀ echo ∈ intent.echoes,
        0 < echo.hops → echo.hops = 1 ∧ s.startsIssued = echo.startsBefore))
  | .userStart _ | .userStartFromConf _ | .userStop | .notificationStop | .revoke
  | .acquire _ | .effect | .release | .requestReconnect | .resetReconnecting
  | .wake | .beginCheck _ _ | .endCheck _ _ _ => isTrue trivial

/-- The network and the service do not answer. -/
def deaf : BringUp where
  dns _ _ := []
  generateOrBootstrap := .error none
  loadAllBootstrap := []
  service := .error none
  attempts _ _ := ⟨.error none, true, .error none, []⟩

/-- The tunnel is torn down, and `startService` returns. -/
def stopAnswers : Answers where
  start := ⟨none, fun _ => true, fun _ => deaf⟩
  conf := ⟨fun _ => .error none, true, deaf⟩
  stop := ⟨true, true⟩

/-- A stop, and its echo. -/
def echoedOnce : List Event :=
  .userStop :: runFirst stopAnswers 6 ++ .deliver 0 :: runFirst stopAnswers 6

/-- A single stop is executed a third time when its second echo is delivered. -/
theorem not_notEchoed_secondEcho :
  ¬ ∀ (es : List Event) (t : System), Run.exec (step Platform.ascii) {} es = some t → NotEchoed t
  := by
  intro h
  have hbound := h (echoedOnce ++ .deliver 0 :: runFirst stopAnswers 6) _ rfl
  exact absurd hbound.1 (by decide)

/-- A stop whose first echo is delivered at once is executed twice. -/
theorem notEchoed_echoedOnce :
  ∃ t, Run.exec (step Platform.ascii) {} echoedOnce = some t ∧ t.stopRuns = 2 ∧ NotEchoed t
  := by
  refine ⟨_, rfl, rfl, ?_⟩
  apply notEchoed_run Platform.ascii echoedOnce (by decide +kernel) echoedOnce List.prefix_rfl _ rfl

/-- The only thing left to happen is the delivery of a stop. -/
structure Pending (echo : Echo) (s : System) : Prop where
  holder : s.holder = none
  waiting : s.waiting = []
  intents : s.intents = [.stop echo]

/-- A stop that is delivered runs once and leaves its echo. -/
theorem pending_deliver (platform : Platform) {echo : Echo} (h : Pending echo s) :
  ∃ t, Run.exec (step platform) s (.deliver 0 :: runFirst stopAnswers 6) = some t ∧
    Pending echo.next t ∧ t.stopRuns = s.stopRuns + 1 ∧ t.externalStops = s.externalStops
  := by
  obtain ⟨controller, holder, waiting, intents⟩ := s
  obtain ⟨rfl, rfl, rfl⟩ := h
  exact ⟨_, rfl, ⟨rfl, rfl, rfl⟩, rfl, rfl⟩

/-- A single stop in the notification is executed any number of times, when nothing else happens
and its echoes are delivered. -/
theorem exists_stopRuns (platform : Platform) (n : ℕ) :
  ∃ es t, Run.exec (step platform) {} es = some t ∧ t.externalStops = 1 ∧ t.stopRuns = n
  := by
  suffices h : ∃ es t echo, Run.exec (step platform) {} es = some t ∧ Pending echo t ∧
      t.externalStops = 1 ∧ t.stopRuns = n by
    obtain ⟨es, t, -, hrun, -, hcounts⟩ := h
    exact ⟨es, t, hrun, hcounts⟩
  induction n with
  | zero => exact ⟨[.notificationStop], _, _, rfl, ⟨rfl, rfl, rfl⟩, rfl, rfl⟩
  | succ n ih =>
      obtain ⟨es, s, echo, hrun, hpending, hexternal, hruns⟩ := ih
      obtain ⟨t, ht, hnext, htruns, htexternal⟩ := pending_deliver platform hpending
      use es ++ (.deliver 0 :: runFirst stopAnswers 6), t, echo.next
      refine ⟨?_, hnext, ?_, ?_⟩
      · rw [Run.exec_append, hrun]
        apply ht
      · rw [htexternal, hexternal]
      · rw [htruns, hruns]

end Warp.WarpController
