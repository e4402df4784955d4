import DtmaOne.Https.StrictHttpsTester

/-!
# The race of the strict HTTPS tester

What holds in every state of the race: a task ends with its own probe, or because there is a winner,
and a winner has been set by one task, whose probe has succeeded.  So nobody is cancelled in a race
without a winner.
-/

namespace Https

open Paer Paer.RaceCoordinatorLogic

/-! ### The steps -/

section Steps

variable {S : Type} {a : Answers} {scheduled : List (ScheduledCandidate S)}

/-- The cases of a step. -/
inductive Steps (a : Answers) (scheduled : List (ScheduledCandidate S)) (s : Race S) :
    Event → Race S → Prop where
  | elapse (i : ℕ) (hdelayed : s.tasks i = .delayed) :
      Steps a scheduled s (.elapse i) (s.setTask i .ready)
  | cancel (i : ℕ) (item : ScheduledCandidate S) (hitem : scheduled[i]? = some item)
      (hready : s.tasks i = .ready) (hwon : s.winnerHolder ≠ none) :
      Steps a scheduled s (.check i) (s.setTask i (.finished (cancelledProbe item) false))
  | check (i : ℕ) (hready : s.tasks i = .ready) (hopen : s.winnerHolder = none) :
      Steps a scheduled s (.check i) (s.setTask i .probing)
  | probe (i : ℕ) (item : ScheduledCandidate S) (hitem : scheduled[i]? = some item)
      (hprobing : s.tasks i = .probing) :
      Steps a scheduled s (.probe i)
        (s.setTask i (.probed (probeSecureChannel a i item.candidate)))
  | win (i : ℕ) (item : ScheduledCandidate S) (result : ProbeOutcome S)
      (hitem : scheduled[i]? = some item) (hprobed : s.tasks i = .probed result)
      (hok : result.ok = true) (hopen : s.winnerHolder = none) :
      Steps a scheduled s (.settle i)
        { s.setTask i (.finished result true) with winnerHolder := some item.candidate }
  | lose (i : ℕ) (result : ProbeOutcome S) (hprobed : s.tasks i = .probed result)
      (hok : result.ok = true) (hwon : s.winnerHolder ≠ none) :
      Steps a scheduled s (.settle i) (s.setTask i (.finished result false))
  | fail (i : ℕ) (result : ProbeOutcome S) (hprobed : s.tasks i = .probed result)
      (hok : result.ok = false) :
      Steps a scheduled s (.settle i) (s.setTask i (.finished result false))

theorem steps_of_step {s t : Race S} {e : Event} (h : step a scheduled s e = some t) :
  Steps a scheduled s e t
  := by
  cases e with
  | elapse i =>
      simp only [step] at h
      split at h
      · obtain rfl := Option.some.inj h
        apply Steps.elapse i (by assumption)
      · cases h
  | check i =>
      simp only [step] at h
      split at h
      · split at h
        · obtain rfl := Option.some.inj h
          apply Steps.cancel i _ (by assumption) (by assumption) (by simp [*])
        · obtain rfl := Option.some.inj h
          apply Steps.check i (by assumption) (by assumption)
      · cases h
  | probe i =>
      simp only [step] at h
      split at h
      · obtain rfl := Option.some.inj h
        apply Steps.probe i _ (by assumption) (by assumption)
      · cases h
  | settle i =>
      simp only [step] at h
      split at h
      · split_ifs at h with hok
        · split at h
          · obtain rfl := Option.some.inj h
            apply Steps.win i _ _ (by assumption) (by assumption) hok (by assumption)
          · obtain rfl := Option.some.inj h
            apply Steps.lose i _ (by assumption) hok (by simp [*])
        · obtain rfl := Option.some.inj h
          apply Steps.fail i _ (by assumption) (by simpa using hok)
      · cases h

/-- A task that has ended does not change. -/
theorem finished_step {s t : Race S} {e : Event} (h : step a scheduled s e = some t) {i : ℕ}
    {result : ProbeOutcome S} {swapped : Bool} (hfinished : s.tasks i = .finished result swapped) :
  t.tasks i = .finished result swapped
  := by
  have hother : ∀ (j : ℕ) (phase : Phase S), s.tasks j ≠ s.tasks i →
      (s.setTask j phase).tasks i = .finished result swapped := by
    intro j phase hne
    rw [Race.setTask_tasks, if_neg, hfinished]
    rintro rfl
    exact hne rfl
  cases steps_of_step h with
  | elapse j hdelayed => exact hother j _ (by simp [hdelayed, hfinished])
  | cancel j item hitem hready hwon => exact hother j _ (by simp [hready, hfinished])
  | check j hready hopen => exact hother j _ (by simp [hready, hfinished])
  | probe j item hitem hprobing => exact hother j _ (by simp [hprobing, hfinished])
  | win j item result' hitem hprobed hok hopen => exact hother j _ (by simp [hprobed, hfinished])
  | lose j result' hprobed hok hwon => exact hother j _ (by simp [hprobed, hfinished])
  | fail j result' hprobed hok => exact hother j _ (by simp [hprobed, hfinished])

/-! ### What every run keeps -/

/-- A phase of the task `i` that fits to the winner.  The outcome of a probe is that of the task; a
task ends with its probe, or because there is a winner. -/
def Phase.Fits (a : Answers) (scheduled : List (ScheduledCandidate S))
    (winnerHolder : Option (EndpointCandidate S)) (i : ℕ) : Phase S → Prop
  | .probed result =>
      ∃ item, scheduled[i]? = some item ∧ result = probeSecureChannel a i item.candidate
  | .finished result swapped =>
      ∃ item, scheduled[i]? = some item
        ∧ (result = probeSecureChannel a i item.candidate ∧ (result.ok = true → winnerHolder ≠ none)
            ∧ (swapped = true → result.ok = true ∧ winnerHolder = some item.candidate)
          ∨ result = cancelledProbe item ∧ swapped = false ∧ winnerHolder ≠ none)
  | _ => True

/-- What holds in every state of the race. -/
structure Sound (a : Answers) (scheduled : List (ScheduledCandidate S)) (s : Race S) : Prop where
  fits : ∀ i, (s.tasks i).Fits a scheduled s.winnerHolder i
  /-- A winner has been set by a task. -/
  holder : s.winnerHolder ≠ none → ∃ i result, s.tasks i = .finished result true
  /-- One task at most has set the winner. -/
  unique : ∀ i j result result', s.tasks i = .finished result true →
    s.tasks j = .finished result' true → i = j

theorem sound_start :
  Sound a scheduled (start scheduled)
  := by
  have htasks : ∀ i, (start scheduled).tasks i = .delayed ∨ (start scheduled).tasks i = .ready := by
    intro i
    rw [start]
    dsimp only
    split_ifs
    · left
      rfl
    · right
      rfl
  constructor
  · intro i
    obtain h | h := htasks i
    · rw [h]
      trivial
    · rw [h]
      trivial
  · intro h
    exact absurd rfl h
  · intro i j result result' hi
    obtain h | h := htasks i
    · rw [h] at hi
      cases hi
    · rw [h] at hi
      cases hi

/-- As long as there is no winner, no task has succeeded. -/
theorem Phase.Fits.of_none {i : ℕ} {phase : Phase S} (h : phase.Fits a scheduled none i)
    (c : EndpointCandidate S) :
  phase.Fits a scheduled (some c) i
  := by
  cases phase with
  | finished result swapped =>
      obtain ⟨item, hitem, ⟨hresult, hok, hswapped⟩ | ⟨-, -, hwon⟩⟩ := h
      · refine ⟨item, hitem, Or.inl ⟨hresult, ?_, ?_⟩⟩
        · simp
        · intro hs
          cases (hswapped hs).2
      · exact absurd rfl hwon
  | probed result => exact h
  | delayed => trivial
  | ready => trivial
  | probing => trivial

/-- A step of a task by which it does not set the winner. -/
theorem sound_setTask {s : Race S} (hs : Sound a scheduled s) {i : ℕ} {phase : Phase S}
    (hold : ∀ result, s.tasks i ≠ .finished result true)
    (hnew : ∀ result, phase ≠ .finished result true)
    (hfits : phase.Fits a scheduled s.winnerHolder i) :
  Sound a scheduled (s.setTask i phase)
  := by
  have hswapped : ∀ j result, (s.setTask i phase).tasks j = .finished result true
      ↔ s.tasks j = .finished result true := by
    intro j result
    rw [Race.setTask_tasks]
    split_ifs with hj
    · subst hj
      simp [hold, hnew]
    · rfl
  constructor
  · intro j
    rw [Race.setTask_tasks]
    split_ifs with hj
    · subst hj
      apply hfits
    · apply hs.fits
  · intro hwon
    obtain ⟨j, result, hj⟩ := hs.holder hwon
    exact ⟨j, result, (hswapped j result).mpr hj⟩
  · intro j k result result' hj hk
    exact hs.unique j k result result' ((hswapped j result).mp hj) ((hswapped k result').mp hk)

/-- A probed task ends without setting the winner, if its probe has failed or there is a winner. -/
theorem sound_setTask_finished {s : Race S} (hs : Sound a scheduled s) {i : ℕ}
    {result : ProbeOutcome S} (hprobed : s.tasks i = .probed result)
    (hlost : result.ok = true → s.winnerHolder ≠ none) :
  Sound a scheduled (s.setTask i (.finished result false))
  := by
  have hfits := hs.fits i
  rw [hprobed] at hfits
  obtain ⟨item, hitem, hresult⟩ := hfits
  apply sound_setTask hs
  · simp [hprobed]
  · simp
  · exact ⟨item, hitem, Or.inl ⟨hresult, hlost, by simp⟩⟩

theorem sound_step {s t : Race S} {e : Event} (hs : Sound a scheduled s)
    (h : step a scheduled s e = some t) :
  Sound a scheduled t
  := by
  cases steps_of_step h with
  | elapse i hdelayed =>
      apply sound_setTask hs
      · simp [hdelayed]
      · simp
      · trivial
  | cancel i item hitem hready hwon =>
      apply sound_setTask hs
      · simp [hready]
      · simp
      · exact ⟨item, hitem, Or.inr ⟨rfl, rfl, hwon⟩⟩
  | check i hready hopen =>
      apply sound_setTask hs
      · simp [hready]
      · simp
      · trivial
  | probe i item hitem hprobing =>
      apply sound_setTask hs
      · simp [hprobing]
      · simp
      · exact ⟨item, hitem, rfl⟩
  | win i item result hitem hprobed hok hopen =>
      have hnone : ∀ j result', s.tasks j ≠ .finished result' true := by
        intro j result' hj
        have hfits := hs.fits j
        rw [hj, hopen] at hfits
        obtain ⟨_, -, ⟨-, -, hswapped⟩ | ⟨-, -, hwon⟩⟩ := hfits
        · cases (hswapped rfl).2
        · exact hwon rfl
      have hfits := hs.fits i
      rw [hprobed] at hfits
      obtain ⟨item', hitem', hresult⟩ := hfits
      obtain rfl := Option.some.inj (hitem.symm.trans hitem')
      constructor
      · intro j
        dsimp only
        rw [Race.setTask_tasks]
        split_ifs with hj
        · subst hj
          exact ⟨item, hitem, Or.inl ⟨hresult, by simp, fun _ => ⟨hok, rfl⟩⟩⟩
        · apply Phase.Fits.of_none
          rw [← hopen]
          apply hs.fits
      · intro _
        refine ⟨i, result, ?_⟩
        dsimp only
        rw [Race.setTask_tasks, if_pos rfl]
      · have hwinner : ∀ j result', (s.setTask i (.finished result true)).tasks j
            = .finished result' true → j = i := by
          intro j result' hj
          rw [Race.setTask_tasks] at hj
          split_ifs at hj with heq
          · exact heq
          · exact absurd hj (hnone j result')
        intro j k result' result'' hj hk
        rw [hwinner j result' hj, hwinner k result'' hk]
  | lose i result hprobed hok hwon =>
      exact sound_setTask_finished hs hprobed fun _ => hwon
  | fail i result hprobed hok =>
      apply sound_setTask_finished hs hprobed
      simp [hok]

theorem sound_run {events : List Event} {s : Race S}
    (hrun : Run.exec (step a scheduled) (start scheduled) events = some s) :
  Sound a scheduled s
  := by
  apply Run.invariant (fun s e t hs h => sound_step hs h) sound_start hrun

/-! ### The outcomes -/

/-- There is one outcome for each task. -/
theorem awaitAll_length {s : Race S} {outcomes : List (ProbeOutcome S)}
    (h : awaitAll scheduled s = some outcomes) :
  outcomes.length = scheduled.length
  := by
  have hmap := congrArg List.length (Collections.mapM_eq_some.mp h)
  simpa using hmap.symm

/-- The outcomes are those of the tasks. -/
theorem awaitAll_getElem? {s : Race S} (hs : Sound a scheduled s) {outcomes : List (ProbeOutcome S)}
    (h : awaitAll scheduled s = some outcomes) {i : ℕ} {result : ProbeOutcome S} :
  outcomes[i]? = some result ↔ ∃ swapped, s.tasks i = .finished result swapped
  := by
  have hmap := Collections.mapM_eq_some.mp h
  have hget := congrArg (fun l => l[i]?) hmap
  simp only [List.getElem?_map] at hget
  constructor
  · intro hresult
    rw [hresult, Option.map_some, Option.map_eq_some_iff] at hget
    obtain ⟨j, hj, houtcome⟩ := hget
    obtain ⟨hlt, hij⟩ := List.getElem?_eq_some_iff.mp hj
    rw [List.getElem_range] at hij
    subst hij
    cases hphase : s.tasks i with
    | finished result' swapped =>
        rw [hphase] at houtcome
        obtain rfl := Option.some.inj houtcome
        exact ⟨swapped, rfl⟩
    | _ =>
        rw [hphase] at houtcome
        cases houtcome
  · rintro ⟨swapped, hfinished⟩
    have hfits := hs.fits i
    rw [hfinished] at hfits
    obtain ⟨item, hitem, -⟩ := hfits
    obtain ⟨hi, -⟩ := List.getElem?_eq_some_iff.mp hitem
    rw [List.getElem?_range hi, Option.map_some, hfinished] at hget
    cases hresult : outcomes[i]? with
    | none =>
        rw [hresult] at hget
        cases hget
    | some result' =>
        rw [hresult] at hget
        rw [← Option.some.inj (Option.some.inj hget)]

theorem probeSecureChannel_candidate (i : ℕ) (candidate : EndpointCandidate S) :
  (probeSecureChannel a i candidate).candidate = candidate
  := by
  rw [probeSecureChannel]
  split <;> rfl

/-- A probe succeeds, or fails at a stage of its own. -/
theorem probeSecureChannel_stage (i : ℕ) (candidate : EndpointCandidate S) :
  (probeSecureChannel a i candidate).ok = true ∧ (probeSecureChannel a i candidate).stage = none
    ∨ (probeSecureChannel a i candidate).ok = false
      ∧ ∃ stage, (probeSecureChannel a i candidate).stage = some stage ∧ stage ≠ .cancelledByRace
  := by
  have hfailed : ∀ stage : FailureStage, stage ≠ .cancelledByRace →
      (failedProbe candidate stage).ok = true ∧ (failedProbe candidate stage).stage = none
      ∨ (failedProbe candidate stage).ok = false
        ∧ ∃ stage', (failedProbe candidate stage).stage = some stage'
          ∧ stage' ≠ .cancelledByRace := by
    intro stage hstage
    exact Or.inr ⟨rfl, stage, rfl, hstage⟩
  rw [probeSecureChannel]
  cases a.channel i with
  | completed transportMs secureMs alpn => exact Or.inl ⟨rfl, rfl⟩
  | socketException message =>
      apply hfailed
      split_ifs
      · simp
      · simp
  | certificateException => apply hfailed _ (by simp)
  | sslHandshakeException => apply hfailed _ (by simp)
  | socketTimeoutException => apply hfailed _ (by simp)
  | connectException => apply hfailed _ (by simp)
  | exception => apply hfailed _ (by simp)

/-- The body of the application request is run once. -/
theorem sendRequest_writes (http : HttpEnd) (request : Request) :
  (sendRequest http request).writes = [request]
  := by
  cases http <;> rfl

/-- A new guard lets the block run. -/
theorem trySendOnce_new {α : Type} (block : Emit Request Unit α) :
  trySendOnce {} block = block >>= fun value => return ({ sent := true }, some value)
  := rfl

section Report

variable {host url : String} {outcomes : List (ProbeOutcome S)}

/-- The winner that is reported is the first candidate of the schedule whose probe has succeeded. -/
theorem report_winner {result : TestResult S}
    (h : (report a host url outcomes).result = .ok result) :
  result.winner = (outcomes.find? ProbeOutcome.ok).map
    fun best => { best.candidate with currentState := .selected }
  := by
  rw [report] at h
  cases hbest : outcomes.find? ProbeOutcome.ok with
  | none =>
      rw [hbest] at h
      obtain rfl := Except.ok.inj h
      rfl
  | some best =>
      rw [hbest] at h
      obtain ⟨sent, -, hsent⟩ := Emit.result_bind_eq_ok.mp h
      obtain rfl := Except.ok.inj hsent
      rfl

/-- Without a winner the stage that is reported is that of the first outcome. -/
theorem report_failureStage {result : TestResult S}
    (h : (report a host url outcomes).result = .ok result)
    (hnone : outcomes.find? ProbeOutcome.ok = none) :
  result.failureStage = some ((outcomes.head?.bind ProbeOutcome.stage).getD .transportTimeout)
  := by
  rw [report, hnone] at h
  obtain rfl := Except.ok.inj h
  rfl

/-- For a winner one application request is sent. -/
theorem report_writes {best : ProbeOutcome S} (h : outcomes.find? ProbeOutcome.ok = some best)
    {result : TestResult S} (hresult : (report a host url outcomes).result = .ok result) :
  (report a host url outcomes).writes = [⟨url, best.candidate.ipAddress⟩]
  := by
  rw [report, h] at hresult ⊢
  dsimp only at hresult ⊢
  obtain ⟨sent, hsent, -⟩ := Emit.result_bind_eq_ok.mp hresult
  rw [Emit.bind_of_ok hsent]
  rw [trySendOnce_new] at hsent ⊢
  obtain ⟨value, hvalue, -⟩ := Emit.result_bind_eq_ok.mp hsent
  rw [Emit.bind_of_ok hvalue]
  simp [sendRequest_writes]

end Report

/-- The task has ended with a probe that has succeeded. -/
structure Succeeded (a : Answers) (scheduled : List (ScheduledCandidate S)) (s : Race S) (i : ℕ)
    (item : ScheduledCandidate S) (swapped : Bool) : Prop where
  isScheduled : scheduled[i]? = some item
  ok : (probeSecureChannel a i item.candidate).ok = true
  task : s.tasks i = .finished (probeSecureChannel a i item.candidate) swapped

section Sound

variable {s : Race S}

/-- A success is that of the probe of the task. -/
theorem Sound.succeeded (hs : Sound a scheduled s) {i : ℕ} {result : ProbeOutcome S}
    {swapped : Bool} (hi : s.tasks i = .finished result swapped) (hok : result.ok = true) :
  ∃ item, result = probeSecureChannel a i item.candidate ∧ Succeeded a scheduled s i item swapped
  := by
  have hfits := hs.fits i
  rw [hi] at hfits
  obtain ⟨item, hitem, ⟨rfl, -, -⟩ | ⟨rfl, -, -⟩⟩ := hfits
  · exact ⟨item, rfl, hitem, hok, hi⟩
  · cases hok

/-- A task that has set the winner has succeeded, and the winner is its candidate. -/
theorem Sound.swapped (hs : Sound a scheduled s) {w : ℕ} {result : ProbeOutcome S}
    (hw : s.tasks w = .finished result true) :
  ∃ item, s.winnerHolder = some item.candidate ∧ Succeeded a scheduled s w item true
  := by
  have hfits := hs.fits w
  rw [hw] at hfits
  obtain ⟨item, hitem, ⟨rfl, -, hswapped⟩ | ⟨-, hfalse, -⟩⟩ := hfits
  · exact ⟨item, (hswapped rfl).2, hitem, (hswapped rfl).1, hw⟩
  · cases hfalse

/-- The winner is the candidate of a task whose probe has succeeded. -/
theorem Sound.winner (hs : Sound a scheduled s) (hwon : s.winnerHolder ≠ none) :
  ∃ w item, Succeeded a scheduled s w item true ∧ s.winnerHolder = some item.candidate
  := by
  obtain ⟨w, result, hw⟩ := hs.holder hwon
  obtain ⟨item, hholder, hsucceeded⟩ := hs.swapped hw
  exact ⟨w, item, hsucceeded, hholder⟩

/-- After a success there is a winner. -/
theorem Sound.won (hs : Sound a scheduled s) {i : ℕ} {result : ProbeOutcome S} {swapped : Bool}
    (hi : s.tasks i = .finished result swapped) (hok : result.ok = true) :
  s.winnerHolder ≠ none
  := by
  have hfits := hs.fits i
  rw [hi] at hfits
  obtain ⟨item, -, ⟨-, hwon, -⟩ | ⟨rfl, -, -⟩⟩ := hfits
  · apply hwon hok
  · cases hok

/-- The best outcome is the success of the first task of the schedule that has succeeded. -/
theorem Sound.best (hs : Sound a scheduled s) {outcomes : List (ProbeOutcome S)}
    (houtcomes : awaitAll scheduled s = some outcomes) {best : ProbeOutcome S}
    (hbest : outcomes.find? ProbeOutcome.ok = some best) :
  ∃ f item swapped, best = probeSecureChannel a f item.candidate
    ∧ Succeeded a scheduled s f item swapped
    ∧ ∀ j result swapped', s.tasks j = .finished result swapped' → result.ok = true → f ≤ j
  := by
  obtain ⟨hok, f, hf, hget, hfirst⟩ := List.find?_eq_some_iff_getElem.mp hbest
  have hsome : outcomes[f]? = some best := by
    rw [List.getElem?_eq_getElem hf, hget]
  obtain ⟨swapped, htask⟩ := (awaitAll_getElem? hs houtcomes).mp hsome
  obtain ⟨item, hresult, hsucceeded⟩ := hs.succeeded htask hok
  refine ⟨f, item, swapped, hresult, hsucceeded, ?_⟩
  intro j result swapped' hj hjok
  by_contra hlt
  have hjsome := (awaitAll_getElem? hs houtcomes).mpr ⟨swapped', hj⟩
  obtain ⟨hjlt, hjget⟩ := List.getElem?_eq_some_iff.mp hjsome
  have hnot := hfirst j (Nat.lt_of_not_le hlt)
  rw [hjget, hjok] at hnot
  cases hnot

/-- There is a best outcome if a task has succeeded. -/
theorem Sound.exists_best (hs : Sound a scheduled s) {outcomes : List (ProbeOutcome S)}
    (houtcomes : awaitAll scheduled s = some outcomes) {i : ℕ} {result : ProbeOutcome S}
    {swapped : Bool} (hi : s.tasks i = .finished result swapped) (hok : result.ok = true) :
  ∃ best, outcomes.find? ProbeOutcome.ok = some best
  := by
  apply Option.isSome_iff_exists.mp
  rw [List.find?_isSome]
  have hsome := (awaitAll_getElem? hs houtcomes).mpr ⟨swapped, hi⟩
  exact ⟨result, List.mem_of_getElem? hsome, hok⟩

/-- Without a best outcome every candidate has been probed and has failed. -/
theorem Sound.failed (hs : Sound a scheduled s) {outcomes : List (ProbeOutcome S)}
    (houtcomes : awaitAll scheduled s = some outcomes)
    (hnone : outcomes.find? ProbeOutcome.ok = none) {i : ℕ} {item : ScheduledCandidate S}
    (hitem : scheduled[i]? = some item) :
  (probeSecureChannel a i item.candidate).ok = false
    ∧ s.tasks i = .finished (probeSecureChannel a i item.candidate) false
    ∧ outcomes[i]? = some (probeSecureChannel a i item.candidate)
  := by
  have hfailure : ∀ j result swapped, s.tasks j = .finished result swapped →
      ¬ result.ok = true := by
    intro j result swapped hj hok
    obtain ⟨best, hbest⟩ := hs.exists_best houtcomes hj hok
    rw [hbest] at hnone
    cases hnone
  have hopen : s.winnerHolder = none := by
    by_contra hwon
    obtain ⟨w, witem, hw, -⟩ := hs.winner hwon
    exact hfailure w _ true hw.task hw.ok
  obtain ⟨hi, -⟩ := List.getElem?_eq_some_iff.mp hitem
  rw [← awaitAll_length houtcomes] at hi
  have hsome : outcomes[i]? = some outcomes[i] := List.getElem?_eq_getElem hi
  obtain ⟨swapped, htask⟩ := (awaitAll_getElem? hs houtcomes).mp hsome
  have hfits := hs.fits i
  rw [htask, hopen] at hfits
  obtain ⟨item', hitem', ⟨hresult, -, hswapped⟩ | ⟨-, -, hwon⟩⟩ := hfits
  · obtain rfl := Option.some.inj (hitem.symm.trans hitem')
    rw [hresult] at htask hsome
    have hnotok := hfailure i _ swapped htask
    refine ⟨Bool.eq_false_iff.mpr hnotok, ?_, hsome⟩
    cases swapped with
    | false => exact htask
    | true => cases (hswapped rfl).2
  · exact absurd rfl hwon

end Sound

/-! ### A race without a winner -/

/-- In every state of every race a task has been cancelled only if the probe of another one has
succeeded.  If a test of a plan that is not empty has no winner, every candidate has been probed and
has failed, and the stage that is reported is that of the probe of the first one.  If there is a
winner, its own probe has succeeded, and one application request is sent, to it. -/
theorem cancelled_run (a : Answers) (scheduled : List (ScheduledCandidate S)) (events : List Event)
    (s : Race S) (hrun : Run.exec (step a scheduled) (start scheduled) events = some s) :
  (∀ i result swapped, s.tasks i = .finished result swapped →
    result.stage = some .cancelledByRace →
    ∃ j item swapped', j ≠ i ∧ Succeeded a scheduled s j item swapped')
  ∧ ∀ host url outcomes result, awaitAll scheduled s = some outcomes →
    (report a host url outcomes).result = .ok result →
    (scheduled ≠ [] → result.winner = none →
      (∀ i item, scheduled[i]? = some item →
        (probeSecureChannel a i item.candidate).ok = false
        ∧ s.tasks i = .finished (probeSecureChannel a i item.candidate) false)
      ∧ ∃ item, scheduled[0]? = some item
        ∧ result.failureStage = (probeSecureChannel a 0 item.candidate).stage
        ∧ result.failureStage ≠ some .cancelledByRace)
    ∧ ∀ c, result.winner = some c →
      ∃ i item swapped, Succeeded a scheduled s i item swapped
        ∧ c = { item.candidate with currentState := .selected }
        ∧ (report a host url outcomes).writes = [⟨url, c.ipAddress⟩]
  := by
  have hs := sound_run hrun
  refine ⟨?_, ?_⟩
  · intro i result swapped hi hstage
    have hfits := hs.fits i
    rw [hi] at hfits
    obtain ⟨item, hitem, ⟨rfl, -, -⟩ | ⟨rfl, -, hwon⟩⟩ := hfits
    · obtain ⟨-, hnone⟩ | ⟨-, stage, hsome, hne⟩ := probeSecureChannel_stage i item.candidate
      · rw [hnone] at hstage
        cases hstage
      · rw [hsome] at hstage
        exact absurd (Option.some.inj hstage) hne
    · obtain ⟨w, witem, hw, -⟩ := hs.winner hwon
      refine ⟨w, witem, true, ?_, hw⟩
      rintro rfl
      have hok := hw.ok
      rw [hw.task] at hi
      rw [(Phase.finished.inj hi).1] at hok
      cases hok
  · intro host url outcomes result houtcomes hresult
    have hwinner := report_winner hresult
    refine ⟨?_, ?_⟩
    · intro hnonempty hnone
      rw [hnone] at hwinner
      have hfind := Option.map_eq_none_iff.mp hwinner.symm
      constructor
      · intro i item hitem
        obtain ⟨hfailed, htask, -⟩ := hs.failed houtcomes hfind hitem
        exact ⟨hfailed, htask⟩
      · obtain ⟨item, rest, rfl⟩ := List.exists_cons_of_ne_nil hnonempty
        have hzero : (item :: rest)[0]? = some item := List.getElem?_cons_zero
        obtain ⟨hfailed, -, hfirst⟩ := hs.failed houtcomes hfind hzero
        obtain ⟨hok, -⟩ | ⟨-, stage, hstage, hne⟩ :=
          probeSecureChannel_stage (a := a) 0 item.candidate
        · rw [hfailed] at hok
          cases hok
        · have hreported : result.failureStage = some stage := by
            rw [report_failureStage hresult hfind, List.head?_eq_getElem?, hfirst,
              Option.bind_some, hstage]
            rfl
          refine ⟨item, rfl, ?_, ?_⟩
          · rw [hreported, hstage]
          · rw [hreported]
            intro heq
            exact hne (Option.some.inj heq)
    · intro c hc
      rw [hc] at hwinner
      obtain ⟨best, hbest, rfl⟩ := Option.map_eq_some_iff.mp hwinner.symm
      obtain ⟨f, item, swapped, hprobe, hsucceeded, -⟩ := hs.best houtcomes hbest
      refine ⟨f, item, swapped, hsucceeded, ?_, report_writes hbest hresult⟩
      rw [hprobe, probeSecureChannel_candidate]

end Steps

/-- A candidate of the host `example.org`. -/
def address (ipAddress : String) : EndpointCandidate ℕ where
  hostname := "example.org"
  ipAddress := ipAddress
  ipFamily := .ipv4
  port := 443
  transport := .tcp
  source := .currentDns
  networkContextId := "network"
  discoveredAt := 0
  decayedScore := 0

/-- The plan for two candidates. -/
def twoCandidates : List (ScheduledCandidate ℕ) :=
  [⟨{ address "192.0.2.1" with currentState := .scheduled }, 0, 0⟩,
    ⟨{ address "192.0.2.2" with currentState := .scheduled }, 250, 1⟩]

/-- Every probe completes its secure channel. -/
def bothComplete : Answers :=
  ⟨fun c d => c == d, fun _ => .completed 20 40 none, .response 200⟩

/-- The first candidate succeeds during the delay of the second one. -/
def firstWins : List Event :=
  [.check 0, .probe 0, .settle 0, .elapse 1, .check 1]

/-- The second task is cancelled, because the probe of the first one has succeeded. -/
theorem cancelled_firstWins :
  ∃ s, Run.exec (step bothComplete twoCandidates) (start twoCandidates) firstWins = some s
    ∧ ∃ j item swapped, j ≠ 1 ∧ Succeeded bothComplete twoCandidates s j item swapped
  := by
  refine ⟨_, rfl, ?_⟩
  exact (cancelled_run bothComplete twoCandidates firstWins _ rfl).1 1 _ false rfl rfl

end Https
