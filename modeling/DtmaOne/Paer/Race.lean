import DtmaOne.Library.RoundedArithmetic
import DtmaOne.Paer.PlanLaws
import Mathlib.Algebra.Field.Rat
import Mathlib.Algebra.Order.Ring.Rat
import Mathlib.Tactic.Linarith
import Mathlib.Tactic.NormNum

/-!
# The start of a race

`RaceCoordinatorLogic.buildPlan` schedules the first candidates of a plan, the first of them
without a delay.  With the default weights the first candidate of a plan is the best fresh one,
as soon as there is a candidate of the current DNS answer without failures: such a candidate has
at least 100 points, and a cached one at most as many, however it is decayed and whatever bonuses
it gets.  At a tie the fresh candidate is in front, because it is merged first, its group comes
first, and the sorts are stable.
-/

namespace Paer

open Collections

/-! ### The coordinator -/

/-- `PaerLimits.MAX_SIMULTANEOUS_CANDIDATES` -/
def Default.maxSimultaneousCandidates : ℤ := 3

/-- `PaerLimits.DEFAULT_SIMULTANEOUS_CANDIDATES` -/
def Default.simultaneousCandidates : ℤ := 2

/-- `PaerLimits.MAX_TOTAL_ATTEMPTS_PER_REQUEST` -/
def Default.maxTotalAttemptsPerRequest : ℤ := 4

/-- `PaerLimits.ACTIVE_BACKGROUND_PROBES` -/
def Default.activeBackgroundProbes : ℤ := 0

/-- `PaerLimits`, as far as the coordinator reads it. -/
structure RaceLimits where
  maxSimultaneousCandidates : ℤ := Default.maxSimultaneousCandidates
  maxTotalAttemptsPerRequest : ℤ := Default.maxTotalAttemptsPerRequest
  activeBackgroundProbes : ℤ := Default.activeBackgroundProbes
  deriving DecidableEq, Repr

/-- `RaceConfig` -/
structure RaceConfig where
  width : ℤ := Default.simultaneousCandidates
  secondStartDelayMs : ℤ := 250
  thirdStartDelayMs : ℤ := 750
  batterySaver : Bool := false
  deriving DecidableEq, Repr

/-- `RaceConfig.effectiveWidth` -/
def RaceConfig.effectiveWidth (config : RaceConfig) : ℤ :=
  let max_ := if config.batterySaver then 2 else Default.maxSimultaneousCandidates
  max 1 (min config.width max_)

/-- `RaceConfig.delayForIndex` -/
def RaceConfig.delayForIndex (config : RaceConfig) (index : ℕ) : ℤ :=
  if config.batterySaver then
    if index = 0 then 0 else 500
  else if index = 0 then 0
  else if index = 1 then config.secondStartDelayMs
  else config.thirdStartDelayMs

namespace RaceCoordinatorLogic

/-- `RaceCoordinatorLogic.ScheduledCandidate` -/
structure ScheduledCandidate (S : Type) where
  candidate : EndpointCandidate S
  startDelayMs : ℤ
  attemptIndex : ℕ
  deriving DecidableEq, Repr

/-- `RaceCoordinatorLogic.RacePlan` -/
structure RacePlan (S : Type) where
  scheduled : List (ScheduledCandidate S)
  totalAttemptsAllowed : ℤ
  deriving DecidableEq, Repr

/-- `take(n)`, which throws if `n` is negative. -/
def take {α : Type} (n : ℤ) (l : List α) : Except String (List α) :=
  if n < 0 then .error ("Requested element count " ++ toString n ++ " is less than zero.")
  else .ok (l.take n.toNat)

/-- `RaceCoordinatorLogic.buildPlan` -/
def buildPlan {S : Type} (config : RaceConfig) (limits : RaceLimits)
    (candidates : List (EndpointCandidate S)) : Except String (RacePlan S) := do
  if limits.activeBackgroundProbes ≠ 0 then
    throw "ACTIVE_BACKGROUND_PROBES must remain 0"
  let width := min config.effectiveWidth limits.maxSimultaneousCandidates
  let maxAttempts := min limits.maxTotalAttemptsPerRequest Default.maxTotalAttemptsPerRequest
  let taken ← take (min (min width maxAttempts) candidates.length) candidates
  let scheduled := taken.mapIdx fun index c =>
    { candidate := { c with currentState := .scheduled }
      startDelayMs := config.delayForIndex index
      attemptIndex := index }
  return { scheduled := scheduled, totalAttemptsAllowed := maxAttempts }

/-- The scheduled candidates are among the given ones. -/
theorem mem_scheduled {S : Type} {config : RaceConfig} {limits : RaceLimits}
    {candidates : List (EndpointCandidate S)} {racePlan : RacePlan S}
    (h : buildPlan config limits candidates = .ok racePlan) {item : ScheduledCandidate S}
    (hitem : item ∈ racePlan.scheduled) :
  ∃ c ∈ candidates, item.candidate = { c with currentState := .scheduled }
  := by
  rw [buildPlan] at h
  split_ifs at h
  · cases h
  · dsimp only at h
    rw [take] at h
    split_ifs at h
    · cases h
    · obtain rfl := Except.ok.inj h
      obtain ⟨index, hindex, rfl⟩ := List.mem_mapIdx.mp hitem
      exact ⟨_, List.mem_of_mem_take (List.getElem_mem hindex), rfl⟩

theorem delayForIndex_zero (config : RaceConfig) :
  config.delayForIndex 0 = 0
  := by
  rw [RaceConfig.delayForIndex, if_pos rfl, if_pos rfl, ite_self]

theorem one_le_effectiveWidth (config : RaceConfig) :
  1 ≤ config.effectiveWidth
  := le_max_left _ _

/-- With the default limits the first candidate is scheduled first, without a delay. -/
theorem buildPlan_cons {S : Type} (config : RaceConfig) (c : EndpointCandidate S)
    (candidates : List (EndpointCandidate S)) :
  ∃ racePlan, buildPlan config {} (c :: candidates) = .ok racePlan ∧
    racePlan.scheduled.head?
      = some { candidate := { c with currentState := .scheduled }
               startDelayMs := 0
               attemptIndex := 0 }
  := by
  obtain ⟨n, hn⟩ : ∃ n : ℕ, min (min (min config.effectiveWidth 3) (min 4 4))
      ((c :: candidates).length : ℤ) = 1 + n := by
    apply Int.exists_add_of_le
    have hwidth := one_le_effectiveWidth config
    rw [List.length_cons]
    omega
  have htake : take (min (min (min config.effectiveWidth 3) (min 4 4))
      ((c :: candidates).length : ℤ)) (c :: candidates) = .ok (c :: candidates.take n) := by
    have hcount : (1 + n : ℤ).toNat = n + 1 := by
      omega
    rw [hn, take, if_neg (by omega), hcount, List.take_succ_cons]
  refine ⟨_, by simp only [buildPlan]; erw [htake]; rfl, ?_⟩
  rw [List.mapIdx_cons, List.head?_cons, delayForIndex_zero]

end RaceCoordinatorLogic

/-! ### The scores -/

namespace ScoreCalculator

open RoundedArithmetic

variable {S : Type} [LinearOrder S] [Zero S] [One S] [Add S] [Mul S] [IntCast S]
  [RoundedArithmetic S] {math : DoubleMath S} {candidate : EndpointCandidate S} {nowMs : ℤ}
  {currentContextId : String} {preferences : ContextPreferences} {halfLife : { h : S // 0 < h }}

/-- A bonus for a success is not negative. -/
theorem le_addSuccess (score : S) :
  score ≤ addSuccess candidate nowMs currentContextId (ScoringWeights.default halfLife) score
  := by
  unfold addSuccess
  split
  · apply le_rfl
  · dsimp only
    split_ifs
    · apply le_add_intCast (by decide)
    · apply le_add_intCast (by decide)
    · apply le_rfl
    · apply le_add_intCast (by decide)

theorem addSuccess_le {score : S} (hscore : score ≤ ((40 : ℤ) : S)) :
  addSuccess candidate nowMs currentContextId (ScoringWeights.default halfLife) score
    ≤ ((75 : ℤ) : S)
  := by
  have hle : score ≤ ((75 : ℤ) : S) := hscore.trans (intCast_le _ _ (by decide))
  unfold addSuccess
  split
  · apply hle
  · dsimp only
    split_ifs
    · apply add_intCast_le hscore (by decide) (by decide) (by decide)
    · apply add_intCast_le hscore (by decide) (by decide) (by decide)
    · apply hle
    · apply add_intCast_le hscore (by decide) (by decide) (by decide)

/-- A penalty for failures is not positive. -/
theorem addFailures_le (score : S) :
  addFailures candidate (ScoringWeights.default halfLife) score ≤ score
  := by
  unfold addFailures
  split_ifs
  · apply le_rfl
  · apply add_intCast_le_self (by decide)
  · apply add_intCast_le_self (by decide)

/-- A bonus for a preference is not negative. -/
theorem le_addPreferences (score : S) :
  score ≤ addPreferences candidate currentContextId preferences (ScoringWeights.default halfLife)
    score
  := by
  unfold addPreferences
  dsimp only
  split_ifs
  · apply le_trans _ (le_add_intCast (by decide))
    apply le_add_intCast (by decide)
  · apply le_add_intCast (by decide)
  · apply le_add_intCast (by decide)
  · apply le_rfl
  · apply le_rfl

theorem addPreferences_le {score : S} (hscore : score ≤ ((75 : ℤ) : S)) :
  addPreferences candidate currentContextId preferences (ScoringWeights.default halfLife) score
    ≤ ((100 : ℤ) : S)
  := by
  have hle : score ≤ ((100 : ℤ) : S) := hscore.trans (intCast_le _ _ (by decide))
  unfold addPreferences
  dsimp only
  split_ifs
  · apply add_intCast_le (m := 90) _ (by decide) (by decide) (by decide)
    apply add_intCast_le hscore (by decide) (by decide) (by decide)
  · apply add_intCast_le hscore (by decide) (by decide) (by decide)
  · apply add_intCast_le hscore (by decide) (by decide) (by decide)
  · apply hle
  · apply hle

variable [Neg S] [Div S]

/-- A candidate of the current DNS answer without failures has at least 100 points. -/
theorem le_score_of_currentDns (hsource : candidate.source = .currentDns)
    (hfailures : candidate.consecutiveFailures = 0) :
  ((100 : ℤ) : S)
    ≤ score math candidate nowMs currentContextId preferences (ScoringWeights.default halfLife)
  := by
  have hstart : startScore math candidate nowMs (ScoringWeights.default halfLife)
      = ((100 : ℤ) : S) := by
    rw [startScore, hsource]
    rfl
  rw [score, hstart, addFailures, if_pos hfailures]
  apply (le_addSuccess _).trans (le_addPreferences _)

/-- A cached candidate has at most 100 points. -/
theorem score_le_of_cache (hsource : candidate.source = .recentlyValidatedCache)
    (hfactor : ∀ ageHours : S, 0 ≤ cacheTimeFactor math ageHours halfLife ∧
      cacheTimeFactor math ageHours halfLife ≤ 1) :
  score math candidate nowMs currentContextId preferences (ScoringWeights.default halfLife)
    ≤ ((100 : ℤ) : S)
  := by
  have hstart : startScore math candidate nowMs (ScoringWeights.default halfLife)
      ≤ ((40 : ℤ) : S) := by
    rw [startScore, hsource]
    cases candidate.lastSuccessAt with
    | none => apply le_rfl
    | some successAt =>
        have hbound := hfactor (ageHours nowMs successAt)
        apply mul_le_of_le_one _ _ _ hbound.1 hbound.2
        rw [← intCast_zero]
        apply intCast_le _ _ (by decide)
  rw [score]
  apply addPreferences_le
  apply (addFailures_le _).trans
  apply addSuccess_le hstart

end ScoreCalculator

/-! ### The first candidate -/

namespace CandidatePlanner

/-- A fresh candidate in front of its group stays there. -/
theorem unshadow_cons {S : Type} {c : EndpointCandidate S} (hfresh : c.isFresh = true)
    (group : List (EndpointCandidate S)) :
  ∃ rest, unshadow (c :: group) = c :: rest
  := by
  rw [unshadow, List.any_cons, hfresh, Bool.true_or, if_pos rfl, List.filter_cons,
    shadowed_of_isFresh _ hfresh]
  exact ⟨_, rfl⟩

/-- A fresh candidate in front stays there when the candidates are regrouped. -/
theorem regroup_cons {S : Type} [LinearOrder S] [Zero S] (P : Params S) {c : EndpointCandidate S}
    (hfresh : c.isFresh = true) (l : List (EndpointCandidate S)) :
  ∃ rest, regroup P (c :: l) = c :: rest
  := by
  obtain ⟨rest, hrest⟩ := unshadow_cons hfresh (l.filter fun a => P.host a = P.host c)
  rw [regroup, flatMap_groupBy, List.map_cons, List.eraseDups_cons, List.flatMap_cons,
    List.filter_cons_of_pos (by simp), hrest]
  exact ⟨_, rfl⟩

theorem le_of_byScore_eq_cons {S : Type} [LinearOrder S] [Zero S]
    {l others : List (EndpointCandidate S)} {best : EndpointCandidate S}
    (hbest : byScore l = best :: others) {c : EndpointCandidate S} (hc : c ∈ l) :
  c.decayedScore ≤ best.decayedScore
  := by
  have hsorted := sortedByDescending_pairwise EndpointCandidate.decayedScore l
  rw [← byScore, hbest, List.pairwise_cons] at hsorted
  rw [← mem_byScore, hbest] at hc
  obtain rfl | hc := List.mem_cons.mp hc
  · apply le_rfl
  · apply hsorted.1 _ hc

open ScoreCalculator

variable {S : Type} [LinearOrder S] [Zero S] [One S] [Neg S] [Add S] [Mul S] [Div S] [IntCast S]
  {P : Params S} {dnsCandidates rvecCandidates : List (EndpointCandidate S)}

/-- The best fresh candidate is the first of the plan, if no cached one is better. -/
theorem plan_head {best : EndpointCandidate S} {others : List (EndpointCandidate S)}
    (hbest : byScore (fresh P dnsCandidates) = best :: others)
    (hcache : ∀ c ∈ cache P rvecCandidates, c.decayedScore ≤ best.decayedScore) :
  (plan P dnsCandidates rvecCandidates).head? = some best
  := by
  have hmem : best ∈ fresh P dnsCandidates := by
    rw [← mem_byScore, hbest]
    apply List.mem_cons_self
  obtain ⟨d, hd, hfresh, rfl⟩ := mem_fresh.mp hmem
  obtain ⟨rest, hmerged⟩ : ∃ rest, merged P dnsCandidates rvecCandidates = P.scored d :: rest := by
    obtain ⟨added, -, -, hval⟩ := values_merged P dnsCandidates rvecCandidates
    obtain ⟨post, hpost⟩ := prefix_values_mergeFresh (P := P) others
      [(P.key (P.scored d), P.scored d)]
    rw [merged, hval, hbest, mergeFresh_cons]
    change ∃ rest, (mergeFresh P others [(P.key (P.scored d), P.scored d)]).values ++ added = _
    rw [← hpost]
    exact ⟨_, rfl⟩
  obtain ⟨rest', hregroup⟩ := regroup_cons P (c := P.scored d) hfresh rest
  rw [← hmerged] at hregroup
  have hplan : plan P dnsCandidates rvecCandidates
      = byScore ((regroup P (merged P dnsCandidates rvecCandidates)).map P.scored) := rfl
  rw [hplan, hregroup, List.map_cons, byScore, sortedByDescending_cons_of_le]
  · rfl
  · intro b hb
    obtain ⟨c, hc, rfl⟩ := List.mem_map.mp hb
    have hmem : c ∈ merged P dnsCandidates rvecCandidates := by
      apply mem_of_mem_regroup (P := P)
      rw [hregroup]
      apply List.mem_cons_of_mem _ hc
    rw [scored_of_mem_merged hmem, scored_scored]
    obtain ⟨e, he, heFresh, rfl⟩ | hcached := mem_merged_cases hmem
    · apply le_of_byScore_eq_cons hbest
      apply mem_fresh.mpr ⟨e, he, heFresh, rfl⟩
    · apply hcache c hcached

/-- A race starts with the fresh candidates.  With the default weights, if there is a candidate of
the current DNS answer without failures, then the first candidate of a plan is that of the plan
without cached candidates, it is fresh, and the race schedules it first, without a delay. -/
theorem race_starts_fresh [RoundedArithmetic S] (P : Params S) (halfLife : { h : S // 0 < h })
    (hweights : P.weights = ScoringWeights.default halfLife)
    (hfactor : ∀ ageHours : S, 0 ≤ cacheTimeFactor P.math ageHours halfLife ∧
      cacheTimeFactor P.math ageHours halfLife ≤ 1)
    (dnsCandidates rvecCandidates : List (EndpointCandidate S))
    (hdns : ∃ d ∈ dnsCandidates, d.source = .currentDns ∧ d.consecutiveFailures = 0)
    (config : RaceConfig) :
  ∃ first : EndpointCandidate S, first.isFresh = true ∧
    (plan P dnsCandidates rvecCandidates).head? = some first ∧
    (plan P dnsCandidates []).head? = some first ∧
    ∃ racePlan,
      RaceCoordinatorLogic.buildPlan config {} (plan P dnsCandidates rvecCandidates)
        = .ok racePlan ∧
      racePlan.scheduled.head?
        = some { candidate := { first with currentState := .scheduled }
                 startDelayMs := 0
                 attemptIndex := 0 }
  := by
  obtain ⟨d, hd, hsource, hfailures⟩ := hdns
  have hscored : P.scored d ∈ fresh P dnsCandidates := by
    rw [mem_fresh]
    refine ⟨d, hd, ?_, rfl⟩
    rw [EndpointCandidate.isFresh, hsource]
    rfl
  obtain ⟨best, others, hbest⟩ : ∃ best others, byScore (fresh P dnsCandidates) = best :: others :=
    List.exists_cons_of_ne_nil (List.ne_nil_of_mem (mem_byScore.mpr hscored))
  have hpoints : ((100 : ℤ) : S) ≤ best.decayedScore := by
    have hle := le_of_byScore_eq_cons hbest hscored
    apply le_trans _ hle
    rw [Params.scored, withDecayedScore, hweights]
    apply le_score_of_currentDns hsource hfailures
  have hcache : ∀ c ∈ cache P rvecCandidates, c.decayedScore ≤ best.decayedScore := by
    intro c hc
    obtain ⟨e, -, hcached, -, rfl⟩ := mem_cache hc
    apply le_trans _ hpoints
    rw [Params.scored, withDecayedScore, hweights]
    apply score_le_of_cache hcached hfactor
  have hhead := plan_head hbest hcache
  have hfresh : best.isFresh = true := by
    have hmem : best ∈ fresh P dnsCandidates := by
      rw [← mem_byScore, hbest]
      apply List.mem_cons_self
    obtain ⟨e, -, hfresh, rfl⟩ := mem_fresh.mp hmem
    apply hfresh
  refine ⟨best, hfresh, hhead, ?_, ?_⟩
  · apply plan_head hbest
    rintro c ⟨⟩
  · obtain ⟨rest, hplan⟩ := List.head?_eq_some_iff.mp hhead
    rw [hplan]
    apply RaceCoordinatorLogic.buildPlan_cons

/-! ### A tie -/

/-- A function that agrees with the exponential at zero and takes values between zero and one
below it. -/
def tieMath : DoubleMath ℚ where
  exp x := 1 / (1 - x)
  ln2 := 693147 / 1000000

/-- The default half-life. -/
def tieHalfLife : { h : ℚ // 0 < h } := ⟨6, by norm_num⟩

/-- Parameters that prefer the endpoint of the cached candidate. -/
def tieParams : Params ℚ where
  lowercase := id
  math := tieMath
  nowMs := 1000
  currentContextId := "wifi"
  preferences :=
    { preferredTransport := some .tcp
      preferredIpFamily := some .ipv4
      networkContextId := some "wifi" }
  weights := ScoringWeights.default tieHalfLife

/-- A candidate of the current DNS answer with 100 points. -/
def tieDns : EndpointCandidate ℚ where
  hostname := "example.org"
  ipAddress := "2001:db8::1"
  ipFamily := .ipv6
  port := 443
  transport := .udp
  source := .currentDns
  networkContextId := "wifi"
  discoveredAt := 0
  decayedScore := 0

/-- A cached candidate with as many points, of a success in the future. -/
def tieCache : EndpointCandidate ℚ where
  hostname := "example.org"
  ipAddress := "192.0.2.1"
  ipFamily := .ipv4
  port := 443
  transport := .tcp
  source := .recentlyValidatedCache
  networkContextId := "wifi"
  discoveredAt := 0
  lastSuccessAt := some 2000
  decayedScore := 0

theorem cacheTimeFactor_tieMath (ageHours : ℚ) :
  0 ≤ cacheTimeFactor tieMath ageHours tieHalfLife ∧
    cacheTimeFactor tieMath ageHours tieHalfLife ≤ 1
  := by
  unfold cacheTimeFactor
  split_ifs with hage
  · exact ⟨by norm_num, le_rfl⟩
  · have hpos : (1 : ℚ) ≤ 1 - -(693147 / 1000000) * ageHours / 6 := by
      rw [not_le] at hage
      linarith
    have hexp : tieMath.exp (-tieMath.ln2 * ageHours / tieHalfLife.1)
        = 1 / (1 - -(693147 / 1000000) * ageHours / 6) := rfl
    rw [hexp]
    constructor
    · apply div_nonneg zero_le_one
      linarith
    · rw [div_le_one]
      · apply hpos
      · linarith

theorem race_starts_fresh_tie :
  (plan tieParams [tieDns] [tieCache]).length = 2 ∧
    (tieParams.scored tieDns).decayedScore = (tieParams.scored tieCache).decayedScore ∧
    (plan tieParams [tieDns] [tieCache]).head? = some (tieParams.scored tieDns)
  := by
  obtain ⟨first, -, hfirst, halone, -⟩ := race_starts_fresh tieParams tieHalfLife rfl
    cacheTimeFactor_tieMath [tieDns] [tieCache] ⟨tieDns, List.mem_singleton_self _, rfl, rfl⟩ {}
  refine ⟨by decide +kernel, by decide +kernel, ?_⟩
  rw [hfirst, ← halone]
  decide +kernel

end CandidatePlanner

end Paer
