import DtmaOne.Https.ProbeRace

/-!
# The winner of the strict HTTPS tester

Later starters are cancelled because of the candidate in `winnerHolder`, which is that of the task
that succeeds first.  The result names the first candidate of the schedule that has succeeded.  The
two are the same exactly as long as no task succeeds after one that is scheduled later.
-/

namespace Https

open Paer Paer.RaceCoordinatorLogic

section Winner

variable {S : Type} {a : Answers} {scheduled : List (ScheduledCandidate S)}

/-! ### The order of the successes -/

/-- The candidate as it is reported. -/
def selected (item : ScheduledCandidate S) : EndpointCandidate S :=
  { item.candidate with currentState := .selected }

/-- If a probe has succeeded, the winner that is reported is the candidate of the task whose
`compareAndSet` has succeeded. -/
def ReportsHolder (s : Race S) (result : TestResult S) : Prop :=
  (∃ i outcome swapped, s.tasks i = .finished outcome swapped ∧ outcome.ok = true) →
    ∃ c, s.winnerHolder = some c ∧ result.winner = some { c with currentState := .selected }

/-- A task that has succeeded does not come to its `compareAndSet` after a task that is scheduled
later has set the winner. -/
def InOrder (s : Race S) : Event → Prop
  | .settle j => ∀ result, s.tasks j = .probed result → result.ok = true →
      ∀ w result', s.tasks w = .finished result' true → w ≤ j
  | _ => True

/-- No task before the one that has set the winner has succeeded. -/
def Ordered (s : Race S) : Prop :=
  ∀ j result swapped, s.tasks j = .finished result swapped → result.ok = true →
    ∀ w result', s.tasks w = .finished result' true → w ≤ j

/-- A task before the one that has set the winner has succeeded. -/
def Overtaken (s : Race S) : Prop :=
  ∃ j result swapped w result', s.tasks j = .finished result swapped ∧ result.ok = true
    ∧ s.tasks w = .finished result' true ∧ j < w

theorem ordered_start :
  Ordered (start scheduled)
  := by
  intro j result swapped hj
  rw [start] at hj
  dsimp only at hj
  split_ifs at hj

/-- A step by which a task does not come to a success. -/
theorem ordered_setTask {s : Race S} (hs : Ordered s) {i : ℕ} {phase : Phase S}
    (hnew : ∀ result swapped, phase = .finished result swapped →
      result.ok = false ∧ swapped = false) :
  Ordered (s.setTask i phase)
  := by
  intro j result swapped hj hok w result' hw
  rw [Race.setTask_tasks] at hj hw
  split_ifs at hj with hji
  · rw [(hnew result swapped hj).1] at hok
    cases hok
  · split_ifs at hw with hwi
    · cases (hnew result' true hw).2
    · exact hs j result swapped hj hok w result' hw

theorem ordered_step {s t : Race S} {e : Event} (hsound : Sound a scheduled s) (hs : Ordered s)
    (hok : InOrder s e) (h : step a scheduled s e = some t) :
  Ordered t
  := by
  cases steps_of_step h with
  | elapse i hdelayed =>
      apply ordered_setTask hs
      simp
  | cancel i item hitem hready hwon =>
      apply ordered_setTask hs
      rintro result swapped ⟨rfl, rfl⟩
      exact ⟨rfl, rfl⟩
  | check i hready hopen =>
      apply ordered_setTask hs
      simp
  | probe i item hitem hprobing =>
      apply ordered_setTask hs
      simp
  | fail i result hprobed hfail =>
      apply ordered_setTask hs
      rintro result' swapped ⟨rfl, rfl⟩
      exact ⟨hfail, rfl⟩
  | win i item result hitem hprobed hsuccess hopen =>
      intro j result' swapped hj hjok w result'' hw
      dsimp only at hj hw
      rw [Race.setTask_tasks] at hj hw
      have hfirst : ∀ k outcome swapped', s.tasks k = .finished outcome swapped' →
          ¬ outcome.ok = true := by
        intro k outcome swapped' hk hkok
        exact hsound.won hk hkok hopen
      split_ifs at hw with hwi
      · split_ifs at hj with hji
        · rw [hwi, hji]
        · exact absurd hjok (hfirst j result' swapped hj)
      · obtain ⟨witem, -, hsucceeded⟩ := hsound.swapped hw
        exact absurd hsucceeded.ok (hfirst w _ true hsucceeded.task)
  | lose i result hprobed hsuccess hwon =>
      intro j result' swapped hj hjok w result'' hw
      rw [Race.setTask_tasks] at hj hw
      split_ifs at hw with hwi
      · cases hw
      · split_ifs at hj with hji
        · rw [hji]
          exact hok result hprobed hsuccess w result'' hw
        · exact hs j result' swapped hj hjok w result'' hw

theorem overtaken_step {s t : Race S} {e : Event} (hs : Overtaken s)
    (h : step a scheduled s e = some t) :
  Overtaken t
  := by
  obtain ⟨j, result, swapped, w, result', hj, hok, hw, hlt⟩ := hs
  exact ⟨j, result, swapped, w, result', finished_step h hj, hok, finished_step h hw, hlt⟩

/-- A step out of order leaves a success behind that has been overtaken. -/
theorem overtaken_of_not_inOrder {s t : Race S} {e : Event} (hsound : Sound a scheduled s)
    (hnot : ¬ InOrder s e) (h : step a scheduled s e = some t) :
  Overtaken t
  := by
  cases e with
  | settle j =>
      simp only [InOrder, not_forall] at hnot
      obtain ⟨result, hprobed, hok, w, result', hw, hlt⟩ := hnot
      refine ⟨j, result, false, w, result', ?_, hok, finished_step h hw, Nat.lt_of_not_le hlt⟩
      have hwon : s.winnerHolder ≠ none := by
        obtain ⟨witem, hwitem, hsucceeded⟩ := hsound.swapped hw
        exact hsound.won hsucceeded.task hsucceeded.ok
      cases steps_of_step h with
      | win _ item result'' hitem hprobed' hok' hopen => exact absurd hopen hwon
      | lose _ result'' hprobed' hok' _ =>
          rw [Race.setTask_tasks, if_pos rfl]
          obtain rfl := Phase.probed.inj (hprobed.symm.trans hprobed')
          rfl
      | fail _ result'' hprobed' hfail =>
          obtain rfl := Phase.probed.inj (hprobed.symm.trans hprobed')
          rw [hok] at hfail
          cases hfail
  | elapse i => exact absurd trivial hnot
  | check i => exact absurd trivial hnot
  | probe i => exact absurd trivial hnot

/-- As long as there is no winner, every step is in order. -/
theorem inOrder_of_open {s : Race S} (hsound : Sound a scheduled s) (hopen : s.winnerHolder = none)
    (e : Event) :
  InOrder s e
  := by
  cases e with
  | settle j =>
      intro result hprobed hok w result' hw
      obtain ⟨item, hholder, -⟩ := hsound.swapped hw
      rw [hopen] at hholder
      cases hholder
  | elapse i => trivial
  | check i => trivial
  | probe i => trivial

/-! ### The winner that is reported -/

/-- In every race up to the end of all tasks, for every plan and all answers: if no task succeeds
after a task that is scheduled later has set the winner, the winner that is reported is the one that
has been set; and if no candidate is scheduled twice, only then. -/
theorem reportsHolder_run (a : Answers) (scheduled : List (ScheduledCandidate S))
    (events : List Event) (s : Race S)
    (hrun : Run.exec (step a scheduled) (start scheduled) events = some s)
    (outcomes : List (ProbeOutcome S)) (houtcomes : awaitAll scheduled s = some outcomes)
    (host url : String) (result : TestResult S)
    (hresult : (report a host url outcomes).result = .ok result) :
  (Run.Meets (step a scheduled) InOrder (start scheduled) events → ReportsHolder s result)
  ∧ ((scheduled.map selected).Nodup → ReportsHolder s result →
    Run.Meets (step a scheduled) InOrder (start scheduled) events)
  := by
  have hs := sound_run hrun
  have hwinner := report_winner hresult
  constructor
  · rintro hmeets ⟨i, outcome, swapped, hi, hok⟩
    have hordered : Ordered s := by
      have hboth : Sound a scheduled s ∧ Ordered s := by
        apply Run.invariant_of_meets _ ⟨sound_start, ordered_start⟩ hmeets hrun
        rintro r e t ⟨hr, hordered⟩ hin hstep
        exact ⟨sound_step hr hstep, ordered_step hr hordered hin hstep⟩
      exact hboth.2
    obtain ⟨w, witem, hw, hholder⟩ := hs.winner (hs.won hi hok)
    obtain ⟨best, hbest⟩ := hs.exists_best houtcomes hi hok
    obtain ⟨f, item, swapped', hprobe, hf, hfirst⟩ := hs.best houtcomes hbest
    have heq : f = w := by
      apply le_antisymm
      · exact hfirst w _ true hw.task hw.ok
      · exact hordered f _ swapped' hf.task hf.ok w _ hw.task
    subst heq
    obtain rfl := Option.some.inj (hf.isScheduled.symm.trans hw.isScheduled)
    refine ⟨item.candidate, hholder, ?_⟩
    rw [hwinner, hbest, hprobe, Option.map_some, probeSecureChannel_candidate]
  · intro hnodup hreports
    by_contra hnot
    have hovertaken : Overtaken s := by
      apply Run.bad_of_not_meets (fun s e t hs h => sound_step hs h)
        (fun s e t hs hnot h => overtaken_of_not_inOrder hs hnot h)
        (fun s e t _ hs h => overtaken_step hs h) sound_start hrun hnot
    obtain ⟨j, outcome, swapped, w, outcome', hj, hok, hw, hlt⟩ := hovertaken
    obtain ⟨c, hc, hreported⟩ := hreports ⟨j, outcome, swapped, hj, hok⟩
    obtain ⟨witem, hholder, hwitem⟩ := hs.swapped hw
    obtain ⟨best, hbest⟩ := hs.exists_best houtcomes hj hok
    obtain ⟨f, item, swapped', hprobe, hf, hfirst⟩ := hs.best houtcomes hbest
    have hfj := hfirst j outcome swapped hj hok
    have hsame : selected item = selected witem := by
      rw [hwinner, hbest, hprobe, Option.map_some, probeSecureChannel_candidate] at hreported
      rw [hholder] at hc
      obtain rfl := Option.some.inj hc
      exact Option.some.inj hreported
    have hfw : f = w := by
      obtain ⟨hflt, -⟩ := List.getElem?_eq_some_iff.mp hf.isScheduled
      apply (List.getElem?_inj (by rw [List.length_map]; exact hflt) hnodup).mp
      rw [List.getElem?_map, List.getElem?_map, hf.isScheduled, hwitem.isScheduled,
        Option.map_some, Option.map_some, hsame]
    omega

/-! ### The test as the screen sees it -/

/-- A task that has ended has failed exactly if there is a stage. -/
theorem Sound.stage_eq_none_iff {s : Race S} (hs : Sound a scheduled s) {i : ℕ}
    {outcome : ProbeOutcome S} {swapped : Bool} (hi : s.tasks i = .finished outcome swapped) :
  outcome.stage = none ↔ outcome.ok = true
  := by
  have hfits := hs.fits i
  rw [hi] at hfits
  obtain ⟨item, -, ⟨rfl, -, -⟩ | ⟨rfl, -, -⟩⟩ := hfits
  · obtain ⟨hok, hstage⟩ | ⟨hok, stage, hstage, -⟩ :=
      probeSecureChannel_stage (a := a) i item.candidate
    · simp [hok, hstage]
    · simp [hok, hstage]
  · simp [cancelledProbe, failedProbe]

/-- The first success of the outcomes, by the stages of the tasks. -/
theorem bestProbe_eq {s : Race S} (hs : Sound a scheduled s) {outcomes : List (ProbeOutcome S)}
    (houtcomes : awaitAll scheduled s = some outcomes) :
  (Storage.ConnectionTest.bestProbe (fun i => outcomes[i]?.bind ProbeOutcome.stage) scheduled).map
      ScheduledCandidate.candidate
    = (outcomes.find? ProbeOutcome.ok).map ProbeOutcome.candidate
  := by
  have hstage : ∀ i, i < scheduled.length →
      ∃ outcome, outcomes[i]? = some outcome ∧ (outcome.stage = none ↔ outcome.ok = true) := by
    intro i hi
    rw [← awaitAll_length houtcomes] at hi
    have hsome : outcomes[i]? = some outcomes[i] := List.getElem?_eq_getElem hi
    obtain ⟨swapped, htask⟩ := (awaitAll_getElem? hs houtcomes).mp hsome
    exact ⟨_, hsome, hs.stage_eq_none_iff htask⟩
  rw [Storage.ConnectionTest.bestProbe]
  cases hbest : outcomes.find? ProbeOutcome.ok with
  | none =>
      rw [Option.map_none, Option.map_eq_none_iff, Option.map_eq_none_iff, List.find?_eq_none]
      rintro ⟨item, i⟩ hmem hfirst
      obtain ⟨hi, -⟩ := List.getElem?_eq_some_iff.mp (List.mem_zipIdx_iff_getElem?.mp hmem)
      obtain ⟨outcome, hsome, hiff⟩ := hstage i hi
      rw [hsome, Option.bind_some, Option.isNone_iff_eq_none, hiff] at hfirst
      exact List.find?_eq_none.mp hbest outcome (List.mem_of_getElem? hsome) hfirst
  | some best =>
      obtain ⟨f, item, swapped, hprobe, hf, hfirst⟩ := hs.best houtcomes hbest
      obtain ⟨hflt, hget⟩ := List.getElem?_eq_some_iff.mp hf.isScheduled
      have hfind : scheduled.zipIdx.find?
          (fun x => (outcomes[x.2]?.bind ProbeOutcome.stage).isNone) = some (item, f) := by
        apply List.find?_eq_some_iff_getElem.mpr
        constructor
        · have hsome := (awaitAll_getElem? hs houtcomes).mpr ⟨swapped, hf.task⟩
          rw [hsome, Option.bind_some, Option.isNone_iff_eq_none, hs.stage_eq_none_iff hf.task]
          exact hf.ok
        · refine ⟨f, by rw [List.length_zipIdx]; exact hflt, by simp [hget], ?_⟩
          intro j hj
          obtain ⟨outcome, hsome, hiff⟩ := hstage j (lt_trans hj hflt)
          obtain ⟨swapped', htask⟩ := (awaitAll_getElem? hs houtcomes).mp hsome
          have hnot : ¬ outcome.ok = true := by
            intro hok
            have hle := hfirst j outcome swapped' htask hok
            omega
          rw [← hiff] at hnot
          rw [List.getElem_zipIdx, Bool.not_eq_true']
          dsimp only
          rw [Nat.zero_add, hsome, Option.bind_some, Option.isNone_eq_false_iff,
            Option.isSome_iff_ne_none]
          exact hnot
      rw [hfind, hprobe, Option.map_some, Option.map_some, Option.map_some,
        probeSecureChannel_candidate]

/-- A test is successful if there is a best outcome and the application request ends with a
status. -/
theorem report_success {host url : String} {outcomes : List (ProbeOutcome S)}
    {result : TestResult S} (h : (report a host url outcomes).result = .ok result) :
  result.success = ((outcomes.find? ProbeOutcome.ok).isSome
    && (result.statusCode.isSome && result.failureStage ≠ some .tlsValidationFailed))
  := by
  rw [report] at h
  cases hbest : outcomes.find? ProbeOutcome.ok with
  | none =>
      rw [hbest] at h
      obtain rfl := Except.ok.inj h
      rfl
  | some best =>
      rw [hbest] at h
      obtain ⟨sent, -, hsent⟩ := Emit.result_bind_eq_ok.mp h
      obtain rfl := Except.ok.inj hsent
      rfl

/-- Every result of a test in some interleaving is one of the test as the screen sees it, which
takes the outcomes of the probes as given. -/
theorem test_refines {platform : Storage.ConnectionTest.Platform} {config : RaceConfig}
    {url : String} {candidates : List (EndpointCandidate S)} {events : List Event}
    {body : Emit Request Unit (TestResult S)} {result : TestResult S}
    (htest : test platform a config url candidates events = some body)
    (hresult : body.result = .ok result) :
  ∃ answers, Storage.ConnectionTest.test platform config {} answers url candidates
    = some ⟨result.success, result.winner, result.failureStage⟩
  := by
  have hhost : ∀ h : Option Storage.ConnectionTest.Readable,
      (((h.map fun h => h.text).getD "").toList.all platform.isWhitespace = true)
        ↔ (h.all fun h => h.text.toList.all platform.isWhitespace) = true := by
    intro h
    cases h with
    | none => simp
    | some h => simp
  rw [test] at htest
  split_ifs at htest with hblank hscheme
  · obtain rfl := Option.some.inj htest
    obtain rfl := Except.ok.inj hresult
    use ⟨fun _ => none, none, none⟩
    rw [Storage.ConnectionTest.test, if_pos (Or.inl ((hhost _).mp hblank))]
    rfl
  · rw [hhost] at hblank
    have hgo := not_or.mpr ⟨hblank, not_not.mpr hscheme⟩
    cases hplan : buildPlan config {} candidates with
    | error message =>
        rw [hplan] at htest
        obtain rfl := Option.some.inj htest
        cases hresult
    | ok plan =>
        rw [hplan] at htest
        dsimp only at htest
        split_ifs at htest with hempty
        · obtain rfl := Option.some.inj htest
          obtain rfl := Except.ok.inj hresult
          use ⟨fun _ => none, none, none⟩
          rw [Storage.ConnectionTest.test, if_neg hgo, hplan]
          dsimp only
          rw [if_pos hempty]
          rfl
        · rw [race, Option.bind_eq_some_iff] at htest
          obtain ⟨s, hrun, hraced⟩ := htest
          obtain ⟨outcomes, houtcomes, rfl⟩ := Option.map_eq_some_iff.mp hraced
          have hprobe := bestProbe_eq (sound_run hrun) houtcomes
          use ⟨fun i => outcomes[i]?.bind ProbeOutcome.stage, result.statusCode,
            result.failureStage⟩
          rw [Storage.ConnectionTest.test, if_neg hgo, hplan]
          dsimp only
          rw [if_neg hempty, report_success hresult, report_winner hresult]
          cases hbest : outcomes.find? ProbeOutcome.ok with
          | none =>
              rw [hbest, Option.map_none, Option.map_eq_none_iff] at hprobe
              rw [hprobe, report_failureStage hresult hbest, List.head?_eq_getElem?]
              rfl
          | some best =>
              rw [hbest] at hprobe
              obtain ⟨item, hitem, hcandidate⟩ := Option.map_eq_some_iff.mp hprobe
              rw [hitem]
              dsimp only
              rw [hcandidate]
              rfl
  · obtain rfl := Option.some.inj htest
    obtain rfl := Except.ok.inj hresult
    use ⟨fun _ => none, none, none⟩
    rw [Storage.ConnectionTest.test, if_pos (Or.inr hscheme)]
    rfl

end Winner

/-- The first candidate completes its secure channel after the second one. -/
def overtaking : List Event :=
  [.check 0, .elapse 1, .check 1, .probe 1, .settle 1, .probe 0, .settle 0]

/-- The second candidate has won the race, and the first one is reported. -/
theorem not_reportsHolder_overtaking :
  buildPlan {} {} [address "192.0.2.1", address "192.0.2.2"] = .ok ⟨twoCandidates, 4⟩
    ∧ ∃ s outcomes result,
      Run.exec (step bothComplete twoCandidates) (start twoCandidates) overtaking = some s
      ∧ awaitAll twoCandidates s = some outcomes
      ∧ (report bothComplete "example.org" "https://example.org" outcomes).result = .ok result
      ∧ s.winnerHolder.map EndpointCandidate.ipAddress = some "192.0.2.2"
      ∧ result.winner.map EndpointCandidate.ipAddress = some "192.0.2.1"
      ∧ ¬ ReportsHolder s result
  := by
  refine ⟨by decide +kernel, _, _, _, rfl, rfl, rfl, rfl, rfl, ?_⟩
  intro h
  obtain ⟨c, hc, hresult⟩ := h ⟨0, _, _, rfl, rfl⟩
  obtain rfl := Option.some.inj hc
  have hip := congrArg (fun winner => winner.map EndpointCandidate.ipAddress) hresult
  revert hip
  decide +kernel

/-- The first candidate wins the race and is reported. -/
theorem reportsHolder_firstWins :
  ∃ s outcomes result,
    Run.exec (step bothComplete twoCandidates) (start twoCandidates) firstWins = some s
    ∧ awaitAll twoCandidates s = some outcomes
    ∧ (report bothComplete "example.org" "https://example.org" outcomes).result = .ok result
    ∧ result.winner.map EndpointCandidate.ipAddress = some "192.0.2.1"
    ∧ ReportsHolder s result
  := by
  refine ⟨_, _, _, rfl, rfl, rfl, rfl, ?_⟩
  apply (reportsHolder_run bothComplete twoCandidates firstWins _ rfl _ rfl "example.org"
    "https://example.org" _ rfl).1
  refine ⟨trivial, fun r hr => ⟨trivial, fun s hs => ⟨?_, fun t _ => ⟨trivial, fun u _ =>
    ⟨trivial, fun _ _ => trivial⟩⟩⟩⟩⟩
  have hrun : Run.exec (step bothComplete twoCandidates) (start twoCandidates) [.check 0, .probe 0]
      = some s := by
    rw [Run.exec, hr, Option.bind_some, Run.exec, hs]
    rfl
  apply inOrder_of_open (sound_run hrun)
  obtain rfl := Option.some.inj hr
  obtain rfl := Option.some.inj hs
  rfl

end Https
