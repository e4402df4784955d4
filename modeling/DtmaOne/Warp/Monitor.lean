import DtmaOne.Warp.BringUp
import DtmaOne.Warp.Health

/-!
# The health monitor in the long run

The monitor calls `refreshHealth` in the modes `ON` and `UNHEALTHY` only: in every other mode the
call returns at once.  But the checks publish two such modes themselves, `OFF` for a tunnel that is
not up and `STARTING` for a peer that has not answered.  After one of them the monitor reads
nothing any more, and bytes that are received later do not bring it back to `ON`.
-/

namespace Warp.WarpController

variable (platform : Platform)

/-- One check of the monitor, at any time. -/
def monitorStep (c : Controller) (k : Check) : Option Controller :=
  if k.fromUser then none else some (k.run platform c)

/-- The largest number of received bytes that has been read, in the checks `ks` or before. -/
def largestRx : Controller → ℤ → List Check → ℤ
  | _, rx, [] => rx
  | c, rx, k :: ks =>
      largestRx (k.run platform c) ((k.reading c).elim rx fun r => max rx r.rx) ks

/-- The check reads a tunnel that is not up, or no received bytes and sent ones more than five
seconds after the last growth. -/
def GoesBlind (c : Controller) (k : Check) : Prop :=
  ∃ r ∈ k.reading c, r.tunnelState ≠ .up ∨
    r.rx = 0 ∧ r.tx > 0 ∧ k.clock.peer - (noteGrowth c r k.clock).lastRxChangeAt > 5000

/-- The mode is one in which the monitor checks. -/
def Watched (c : Controller) : Prop :=
  c.status.mode = .on ∨ c.status.mode = .unhealthy

variable {platform}

/-! ### One check -/

theorem noteGrowth_lastRx (c : Controller) (r : Reading) (clock : Clock) :
  (noteGrowth c r clock).lastRx = max c.lastRx r.rx
  := by
  rw [noteGrowth]
  split_ifs with h
  · exact (max_eq_right (le_of_lt h)).symm
  · exact (max_eq_left (not_lt.mp h)).symm

theorem backend_run (c : Controller) (k : Check) :
  (k.run platform c).backend = c.backend
  := by
  rw [Check.run]
  cases k.reading c with
  | none =>
      rw [skipHealth]
      split_ifs <;> rfl
  | some r => apply (publishHealth_tunnel platform c r k.fromUser k.autoReconnect k.clock).1

/-- With a backend, the monitor reads in the watched modes and in no other. -/
theorem reading_eq_none_iff {c : Controller} {k : Check} (hc : c.backend = true)
    (hk : k.fromUser = false) :
  k.reading c = none ↔ ¬ Watched c
  := by
  simp [Check.reading, readHealth, hc, hk, Watched]

theorem lastRx_run (c : Controller) {k : Check} (hk : k.fromUser = false) :
  (k.run platform c).lastRx = (k.reading c).elim c.lastRx fun r => max c.lastRx r.rx
  := by
  cases hr : k.reading c with
  | none =>
      rw [Check.run, hr]
      simp [skipHealth, hk]
  | some r =>
      obtain ⟨-, hrx, -⟩ := run_of_reading platform hr
      rw [hrx, noteGrowth_lastRx]
      rfl

/-- A check that reads leaves the watched modes exactly if it goes blind. -/
theorem watched_run_iff {c : Controller} {k : Check} {r : Reading} (hr : k.reading c = some r) :
  Watched (k.run platform c) ↔ ¬ GoesBlind c k
  := by
  obtain ⟨hmode, -, -⟩ := run_of_reading platform hr
  simp only [Watched, hmode, GoesBlind, hr, Option.mem_def, Option.some.injEq, exists_eq_left',
    verdict]
  split_ifs with hup hpeer hstall
  · simp [Verdict.mode, hup]
  · simp [Verdict.mode, hpeer]
  · simp [Verdict.mode, hup, hpeer]
  · simp [Verdict.mode, hup, hpeer]

/-- A monitor that does not watch stays so. -/
theorem not_watched_run {c : Controller} {k : Check} (hc : c.backend = true)
    (hk : k.fromUser = false) (h : ¬ Watched c) :
  ¬ Watched (k.run platform c)
  := by
  have hskip := (reading_eq_none_iff hc hk).mpr h
  rw [Check.run, hskip]
  simpa [skipHealth, hk] using h

theorem monitorStep_eq_some {c d : Controller} {k : Check} :
  monitorStep platform c k = some d ↔ k.fromUser = false ∧ k.run platform c = d
  := by
  simp [monitorStep]

/-- A check that reads more received bytes than ever publishes `ON`, unless it is slow in the mode
`ON`. -/
theorem mode_run_of_grown {c : Controller} {k : Check} {rx tx : ℤ} (hc : c.backend = true)
    (hk : k.fromUser = false) (hwatched : Watched c) (hpositive : 0 < c.lastRx)
    (hup : k.state = some .up) (hstatistics : k.statistics = some (rx, tx)) (hgrown : c.lastRx < rx) :
  (k.run platform c).status.mode = .on ↔
    ¬ (c.status.mode = .on ∧ k.clock.stall - k.clock.noted > stallMs)
  := by
  have hr : k.reading c = some ⟨c.status.mode, .up, rx, tx⟩ := by
    have hread : ¬ k.reading c = none := by
      rw [reading_eq_none_iff hc hk, not_not]
      apply hwatched
    rw [Check.reading, readHealth, hup, hstatistics] at hread ⊢
    split at hread
    · exact absurd rfl hread
    case isFalse h => rw [if_neg h]; rfl
  obtain ⟨hmode, -, -⟩ := run_of_reading platform hr
  have hnoted : (noteGrowth c ⟨c.status.mode, .up, rx, tx⟩ k.clock).lastRxChangeAt =
      k.clock.noted := by
    rw [noteGrowth, if_pos hgrown]
  have hnonzero : rx ≠ 0 := by omega
  rw [hmode, Verdict.mode_eq_on, verdict, hnoted]
  simp [hnonzero, and_comm]

/-! ### Runs -/

/-- What is noted is the largest number of received bytes that has been read. -/
theorem lastRx_of_exec {c d : Controller} {ks : List Check}
    (hrun : Run.exec (monitorStep platform) c ks = some d) :
  d.lastRx = largestRx platform c c.lastRx ks
  := by
  induction ks generalizing c with
  | nil =>
      obtain rfl := Option.some.inj hrun
      rfl
  | cons k ks ih =>
      obtain ⟨e, he, hrun'⟩ := (Run.exec_cons_eq_some _).mp hrun
      obtain ⟨hk, rfl⟩ := monitorStep_eq_some.mp he
      rw [ih hrun', largestRx, lastRx_run c hk]

theorem backend_step {c d : Controller} {k : Check} (hc : c.backend = true)
    (h : monitorStep platform c k = some d) :
  d.backend = true
  := by
  obtain ⟨-, rfl⟩ := monitorStep_eq_some.mp h
  rw [backend_run, hc]

theorem lastRx_step {c d : Controller} {k : Check} (hc : 0 < c.lastRx)
    (h : monitorStep platform c k = some d) :
  0 < d.lastRx
  := by
  obtain ⟨hk, rfl⟩ := monitorStep_eq_some.mp h
  rw [lastRx_run c hk]
  cases k.reading c with
  | none => apply hc
  | some r => exact lt_max_of_lt_left hc

theorem not_watched_step {c d : Controller} {k : Check} (hc : c.backend = true)
    (hblind : ¬ Watched c) (h : monitorStep platform c k = some d) :
  ¬ Watched d
  := by
  obtain ⟨hk, rfl⟩ := monitorStep_eq_some.mp h
  apply not_watched_run hc hk hblind

/-- From a watched mode a check leads out of the watched modes exactly if it goes blind. -/
theorem watched_step_iff {c d : Controller} {k : Check} (hc : c.backend = true)
    (hwatched : Watched c) (h : monitorStep platform c k = some d) :
  Watched d ↔ ¬ GoesBlind c k
  := by
  obtain ⟨hk, rfl⟩ := monitorStep_eq_some.mp h
  cases hr : k.reading c with
  | none => exact absurd hwatched ((reading_eq_none_iff hc hk).mp hr)
  | some r => apply watched_run_iff hr

/-- The monitor watches at the end of a run exactly if no check of it went blind. -/
theorem watched_of_exec_iff {c d : Controller} {ks : List Check} (hc : c.backend = true)
    (hwatched : Watched c) (hrun : Run.exec (monitorStep platform) c ks = some d) :
  Watched d ↔ Run.Meets (monitorStep platform) (fun c k => ¬ GoesBlind c k) c ks
  := by
  constructor
  · intro hd
    by_contra hnot
    have hblind : ∀ s k t, Controller.backend s = true → ¬ ¬ GoesBlind s k →
        monitorStep platform s k = some t → ¬ Watched t := by
      intro s k t hs hblind ht
      rw [not_not] at hblind
      by_cases hsees : Watched s
      · rw [watched_step_iff hs hsees ht, not_not]
        apply hblind
      · apply not_watched_step hs hsees ht
    exact Run.bad_of_not_meets (fun _ _ _ hs ht => backend_step hs ht) hblind
      (fun _ _ _ hs hbad ht => not_watched_step hs hbad ht) hc hrun hnot hd
  · intro hmeets
    have hstep : ∀ s k t, Controller.backend s = true ∧ Watched s → ¬ GoesBlind s k →
        monitorStep platform s k = some t → Controller.backend t = true ∧ Watched t := by
      rintro s k t ⟨hs, hsees⟩ hblind ht
      exact ⟨backend_step hs ht, (watched_step_iff hs hsees ht).mpr hblind⟩
    exact (Run.invariant_of_meets hstep ⟨hc, hwatched⟩ hmeets hrun).2

/-- After a start that has succeeded and any checks of the monitor, a check that finds the tunnel up
and more received bytes than any before publishes `ON` exactly if no check before it read a tunnel
that was not up or a peer that had not answered for five seconds, and it does not itself take
longer than `STALL_MS` in the mode `ON`. -/
theorem publishesOn_iff (platform : Platform) (answers : StartAnswers)
    (confCache : Option WarpConfig) (forceNewAccount : Bool)
    (hstart : (start platform answers confCache forceNewAccount).result = .ok true)
    (c₀ c d : Controller)
    (hc : c = c₀.applyAll (start platform answers confCache forceNewAccount).writes)
    (ks : List Check) (hrun : Run.exec (monitorStep platform) c ks = some d) (k : Check)
    (hk : k.fromUser = false) (hup : k.state = some .up) (rx tx : ℤ)
    (hstatistics : k.statistics = some (rx, tx)) (hgrown : largestRx platform c c.lastRx ks < rx) :
  (k.run platform d).status.mode = .on ↔
    Run.Meets (monitorStep platform) (fun c k => ¬ GoesBlind c k) c ks ∧
      ¬ (d.status.mode = .on ∧ k.clock.stall - k.clock.noted > stallMs)
  := by
  have hstarted : Started c := by
    rw [hc]
    apply started_start hstart
  rw [← watched_of_exec_iff hstarted.backend (Or.inl hstarted.mode) hrun]
  rw [← lastRx_of_exec hrun] at hgrown
  have hbackend : d.backend = true :=
    Run.invariant (fun _ _ _ hs ht => backend_step hs ht) hstarted.backend hrun
  have hpositive : 0 < d.lastRx :=
    Run.invariant (fun _ _ _ hs ht => lastRx_step hs ht) hstarted.lastRx hrun
  constructor
  · intro hon
    have hwatched : Watched d := by
      by_contra hblind
      apply not_watched_run hbackend hk hblind
      left
      apply hon
    refine ⟨hwatched, ?_⟩
    exact (mode_run_of_grown hbackend hk hwatched hpositive hup hstatistics hgrown).mp hon
  · rintro ⟨hwatched, hprompt⟩
    exact (mode_run_of_grown hbackend hk hwatched hpositive hup hstatistics hgrown).mpr hprompt

/-! ### A peer that is silent for a while -/

/-- An endpoint that answers at once. -/
def answering : Attempt := ⟨.ok (), true, .ok (), [some ⟨92, 148, 1000⟩]⟩

/-- A start with a saved configuration whose endpoints answer. -/
def promptStart : StartAnswers := ⟨some sampleConf, fun _ => true, fun _ => uniform fun _ => answering⟩

/-- The controller after that start. -/
def afterStart : Controller :=
  ({} : Controller).applyAll (start Platform.ascii promptStart none false).writes

/-- A check of a tunnel that is up. -/
def upCheck (rx tx now : ℤ) : Check where
  state := some .up
  statistics := some (rx, tx)
  clock := ⟨now, now, now⟩

/-- The start succeeds, and what is noted comes from the first answer. -/
theorem afterStart_facts :
  (start Platform.ascii promptStart none false).result = .ok true ∧
    afterStart.lastRx = 92 ∧ afterStart.lastRxChangeAt = 1000
  := by
  decide +kernel

theorem reading_upCheck (rx tx now : ℤ) :
  (upCheck rx tx now).reading afterStart = some ⟨.on, .up, rx, tx⟩
  := by
  have hstarted : Started afterStart := started_start afterStart_facts.1 {}
  simp [Check.reading, readHealth, upCheck, hstarted.backend, hstarted.mode]

theorem largestRx_upCheck (rx tx now : ℤ) :
  largestRx Platform.ascii afterStart afterStart.lastRx [upCheck rx tx now] = max 92 rx
  := by
  rw [largestRx, largestRx, reading_upCheck, afterStart_facts.2.1]
  rfl

/-- Bytes that are received after the monitor has published `STARTING` do not bring it back to
`ON`. -/
theorem not_publishesOn_waiting :
  (start Platform.ascii promptStart none false).result = .ok true ∧
    ∃ d, Run.exec (monitorStep Platform.ascii) afterStart [upCheck 0 500 7000] = some d ∧
      largestRx Platform.ascii afterStart afterStart.lastRx [upCheck 0 500 7000] < 4000 ∧
      d.status.mode = .starting ∧
      ((upCheck 4000 900 10000).run Platform.ascii d).status.mode ≠ .on
  := by
  refine ⟨afterStart_facts.1, (upCheck 0 500 7000).run Platform.ascii afterStart, rfl, ?_, ?_⟩
  · rw [largestRx_upCheck]
    decide
  have hmode : ((upCheck 0 500 7000).run Platform.ascii afterStart).status.mode = .starting := by
    obtain ⟨hmode, -, -⟩ := run_of_reading Platform.ascii (reading_upCheck 0 500 7000)
    rw [hmode, noteGrowth_of_not_grown (by simp [afterStart_facts.2.1]), verdict,
      afterStart_facts.2.2]
    rfl
  refine ⟨hmode, ?_⟩
  have hbackend : ((upCheck 0 500 7000).run Platform.ascii afterStart).backend = true := by
    rw [backend_run]
    apply (started_start afterStart_facts.1 {}).backend
  have hblind : ¬ Watched ((upCheck 4000 900 10000).run Platform.ascii
      ((upCheck 0 500 7000).run Platform.ascii afterStart)) := by
    apply not_watched_run hbackend rfl
    simp [Watched, hmode]
  intro hon
  exact hblind (Or.inl hon)

/-- Bytes that are received while the monitor watches bring it to `ON`. -/
theorem publishesOn_growing :
  ∃ d, Run.exec (monitorStep Platform.ascii) afterStart [upCheck 92 500 4000] = some d ∧
    ((upCheck 4000 900 10000).run Platform.ascii d).status.mode = .on
  := by
  have hrun : Run.exec (monitorStep Platform.ascii) afterStart [upCheck 92 500 4000] =
      some ((upCheck 92 500 4000).run Platform.ascii afterStart) := rfl
  have hgrown : largestRx Platform.ascii afterStart afterStart.lastRx [upCheck 92 500 4000] <
      4000 := by
    rw [largestRx_upCheck]
    decide
  refine ⟨_, hrun, ?_⟩
  apply (publishesOn_iff Platform.ascii promptStart none false afterStart_facts.1 {} afterStart _
    rfl _ hrun (upCheck 4000 900 10000) rfl rfl 4000 900 rfl hgrown).mpr
  refine ⟨⟨?_, fun _ _ => trivial⟩, ?_⟩
  · rintro ⟨r, hr, hblind⟩
    obtain rfl := Option.some.inj ((reading_upCheck 92 500 4000).symm.trans hr)
    simp at hblind
  · rintro ⟨-, hslow⟩
    revert hslow
    decide

end Warp.WarpController
