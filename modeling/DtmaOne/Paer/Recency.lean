import DtmaOne.Paer.Candidate
import Mathlib.Analysis.SpecialFunctions.Log.Basic
import Mathlib.Tactic.FieldSimp
import Mathlib.Tactic.Linarith

/-!
# The score and the last success

How `ScoreCalculator.score` depends on the last recorded success of a candidate, with the default
weights and exact arithmetic.  Of the decay only what it is meant to be is asked: it does not
increase with the age, and it is one half at the half-life.

* A later success never counts for less, as long as the age of the earlier one fits into a `Long`.
* A recorded success counts at least as much as none for a candidate of the current DNS answer.  A
  cached candidate without one keeps the whole weight of the cache, since nothing is decayed; a
  success counts for less than that from the half-life on, and in another context earlier.
-/

namespace Paer

namespace ScoreCalculator

/-! ### What a success earns -/

variable {S : Type} [Field S] [LinearOrder S]

/-- The penalty does not depend on what it is added to. -/
theorem addFailures_eq (candidate : EndpointCandidate S) (weights : ScoringWeights S) (score : S) :
  addFailures candidate weights score = score + addFailures candidate weights 0
  := by
  unfold addFailures
  split_ifs <;> simp

/-- The bonuses for preferences do not depend on what they are added to. -/
theorem addPreferences_eq (candidate : EndpointCandidate S) (currentContextId : String)
    (preferences : ContextPreferences) (weights : ScoringWeights S) (score : S) :
  addPreferences candidate currentContextId preferences weights score
    = score + addPreferences candidate currentContextId preferences weights 0
  := by
  simp only [addPreferences]
  split_ifs <;> simp [add_assoc]

variable [IsStrictOrderedRing S]

/-- `DEFAULT_CACHE_HALF_LIFE_HOURS` -/
def defaultHalfLife : { h : S // 0 < h } :=
  ⟨((6 : ℤ) : S), Int.cast_pos.mpr (by decide)⟩

/-- `ScoringWeights.DEFAULT` -/
def defaultWeights : ScoringWeights S :=
  ScoringWeights.default defaultHalfLife

/-- `ScoreCalculator.score` with the default weights, for a candidate with the given last success. -/
def scoreOf (math : DoubleMath S) (candidate : EndpointCandidate S) (nowMs : ℤ)
    (currentContextId : String) (preferences : ContextPreferences) (lastSuccessAt : Option ℤ) : S :=
  score math { candidate with lastSuccessAt := lastSuccessAt } nowMs currentContextId preferences
    defaultWeights

/-- The age of a success in milliseconds, as the score computes it. -/
def ageMs (nowMs successAt : ℤ) : ℤ :=
  int64 (nowMs - successAt)

/-- The factor by which the weight of the cache is decayed for a success. -/
def factor (math : DoubleMath S) (nowMs successAt : ℤ) : S :=
  cacheTimeFactor math (ageHours nowMs successAt) defaultHalfLife

/-- The points for the source, which are decayed for a cached candidate with a success. -/
def sourcePoints (math : DoubleMath S) (source : CandidateSource) (nowMs : ℤ) : Option ℤ → S
  | none => baseSourceScore source defaultWeights
  | some successAt =>
      match source with
      | .recentlyValidatedCache => 40 * factor math nowMs successAt
      | source => baseSourceScore source defaultWeights

/-- The points for a success of the given age, in the current context or in another one. -/
def successPoints (sameContext : Prop) [Decidable sameContext] (ageMs : ℤ) : S :=
  if sameContext then
    if ageMs ≤ 3600000 then 35 else if ageMs ≤ 86400000 then 20 else 0
  else 5

/-- The points that depend on the last success. -/
def earned (math : DoubleMath S) (candidate : EndpointCandidate S) (nowMs : ℤ)
    (currentContextId : String) (lastSuccessAt : Option ℤ) : S :=
  sourcePoints math candidate.source nowMs lastSuccessAt +
    lastSuccessAt.elim 0 fun successAt =>
      successPoints (candidate.networkContextId = currentContextId) (ageMs nowMs successAt)

/-- The score starts from the points for the source. -/
theorem startScore_eq (math : DoubleMath S) (candidate : EndpointCandidate S) (nowMs : ℤ)
    (lastSuccessAt : Option ℤ) :
  startScore math { candidate with lastSuccessAt := lastSuccessAt } nowMs defaultWeights
    = sourcePoints math candidate.source nowMs lastSuccessAt
  := by
  unfold startScore sourcePoints
  dsimp only
  cases candidate.source with
  | currentDns => cases lastSuccessAt <;> rfl
  | httpsSvcb => cases lastSuccessAt <;> rfl
  | recentlyValidatedCache =>
      cases lastSuccessAt with
      | none => rfl
      | some successAt =>
          change ((40 : ℤ) : S) * factor math nowMs successAt = 40 * factor math nowMs successAt
          rw [Int.cast_ofNat]

/-- The points for a success are added. -/
theorem addSuccess_eq (candidate : EndpointCandidate S) (nowMs : ℤ) (currentContextId : String)
    (lastSuccessAt : Option ℤ) (score : S) :
  addSuccess { candidate with lastSuccessAt := lastSuccessAt } nowMs currentContextId
      defaultWeights score
    = score + lastSuccessAt.elim 0 fun successAt =>
      successPoints (candidate.networkContextId = currentContextId) (ageMs nowMs successAt)
  := by
  cases lastSuccessAt with
  | none => rw [addSuccess, Option.elim_none, add_zero]
  | some successAt =>
      simp only [addSuccess, Option.elim_some, successPoints, ageMs, defaultWeights,
        ScoringWeights.default]
      by_cases hcontext : candidate.networkContextId = currentContextId
      · simp only [hcontext, true_and, not_true_eq_false, if_true, if_false]
        split_ifs with hhour hday
        · simp [hhour]
        · simp [hhour, hday]
        · simp [hhour, hday]
      · simp [hcontext]

/-- The score is what the last success earns, and points that do not depend on it. -/
theorem scoreOf_eq (math : DoubleMath S) (candidate : EndpointCandidate S) (nowMs : ℤ)
    (currentContextId : String) (preferences : ContextPreferences) (lastSuccessAt : Option ℤ) :
  scoreOf math candidate nowMs currentContextId preferences lastSuccessAt
    = earned math candidate nowMs currentContextId lastSuccessAt +
      (addFailures candidate defaultWeights 0 +
        addPreferences candidate currentContextId preferences defaultWeights 0)
  := by
  rw [scoreOf, score, startScore_eq, addSuccess_eq, addPreferences_eq, addFailures_eq, add_assoc]
  rfl

/-! ### Ages -/

/-- What the decay is meant to be. -/
structure Decays (math : DoubleMath S) : Prop where
  antitone : Antitone fun ageHours : S => cacheTimeFactor math ageHours defaultHalfLife
  half : cacheTimeFactor math (defaultHalfLife : { h : S // 0 < h }).1 defaultHalfLife = 1 / 2

/-- The age of a success that is not in the future, unless it overflows. -/
theorem ageMs_eq {nowMs t : ℤ} (hnow : IsInt64 nowMs) (ht : IsInt64 t) (hle : t ≤ nowMs) :
  ageMs nowMs t = if nowMs - t < 2 ^ 63 then nowMs - t else nowMs - t - 2 ^ 64
  := by
  obtain ⟨hnow1, hnow2⟩ := hnow
  obtain ⟨ht1, ht2⟩ := ht
  rw [ageMs, int64, Int.bmod_def]
  split_ifs <;> omega

/-- A success of a smaller age has a larger factor. -/
theorem factor_le_factor {math : DoubleMath S} (hmath : Decays math) {nowMs a b : ℤ}
    (h : ageMs nowMs b ≤ ageMs nowMs a) :
  factor math nowMs a ≤ factor math nowMs b
  := by
  apply hmath.antitone
  rw [ageHours, ageHours]
  apply div_le_div_of_nonneg_right
  · rw [Int.cast_le]
    apply max_le_max_right 0 h
  · apply Int.cast_nonneg
    decide

/-- Nothing is decayed at an age of zero or less. -/
theorem factor_of_nonpos (math : DoubleMath S) {nowMs t : ℤ} (h : ageMs nowMs t ≤ 0) :
  factor math nowMs t = 1
  := by
  rw [factor, cacheTimeFactor, if_pos]
  rw [ageHours]
  change ((max (ageMs nowMs t) 0 : ℤ) : S) / _ ≤ 0
  rw [max_eq_right h, Int.cast_zero, zero_div]

theorem factor_le_one {math : DoubleMath S} (hmath : Decays math) (nowMs t : ℤ) :
  factor math nowMs t ≤ 1
  := by
  have hzero : cacheTimeFactor math 0 (defaultHalfLife : { h : S // 0 < h }) = 1 := if_pos le_rfl
  rw [← hzero]
  apply hmath.antitone
  apply div_nonneg
  · apply Int.cast_nonneg
    apply le_max_right
  · apply Int.cast_nonneg
    decide

/-- The half-life in milliseconds. -/
theorem half_eq {math : DoubleMath S} (hmath : Decays math) :
  cacheTimeFactor math (((21600000 : ℤ) : S) / ((3600000 : ℤ) : S)) defaultHalfLife = 1 / 2
  := by
  have hhours : ((21600000 : ℤ) : S) / ((3600000 : ℤ) : S)
      = (defaultHalfLife : { h : S // 0 < h }).1 := by
    rw [defaultHalfLife, div_eq_iff]
    · norm_num
    · norm_num
  rw [hhours, hmath.half]

/-- Up to the half-life at least half is left. -/
theorem half_le_factor {math : DoubleMath S} (hmath : Decays math) {nowMs t : ℤ}
    (h : ageMs nowMs t ≤ 21600000) :
  1 / 2 ≤ factor math nowMs t
  := by
  rw [← half_eq hmath]
  apply hmath.antitone
  apply div_le_div_of_nonneg_right
  · rw [Int.cast_le]
    apply max_le h
    decide
  · apply Int.cast_nonneg
    decide

/-- From the half-life on at most half is left. -/
theorem factor_le_half {math : DoubleMath S} (hmath : Decays math) {nowMs t : ℤ}
    (h : 21600000 ≤ ageMs nowMs t) :
  factor math nowMs t ≤ 1 / 2
  := by
  rw [← half_eq hmath]
  apply hmath.antitone
  apply div_le_div_of_nonneg_right
  · rw [Int.cast_le]
    apply le_max_of_le_left h
  · apply Int.cast_nonneg
    decide

/-! ### Comparing scores -/

/-- The success is recent enough to count for as much as none: it is not decayed, or at least half is
left after at most a day in the current context, or seven eighths are left in another context. -/
def RecentEnough (math : DoubleMath S) (candidate : EndpointCandidate S) (nowMs : ℤ)
    (currentContextId : String) (a : ℤ) : Prop :=
  candidate.source = .recentlyValidatedCache →
    if candidate.networkContextId = currentContextId then
      ageMs nowMs a ≤ 86400000 ∧ 1 / 2 ≤ factor math nowMs a
    else 7 / 8 ≤ factor math nowMs a

/-- The age of the earlier success does not overflow, or that makes no difference: the age of the later
one overflows too, or it is not decayed and counts for as much as a success of this moment. -/
def NoOverflow (math : DoubleMath S) (candidate : EndpointCandidate S) (nowMs : ℤ)
    (currentContextId : String) (a b : ℤ) : Prop :=
  nowMs - a < 2 ^ 63 ∨ 2 ^ 63 ≤ nowMs - b ∨
    ((candidate.networkContextId = currentContextId → nowMs - b ≤ 3600000) ∧
      (candidate.source = .recentlyValidatedCache → factor math nowMs b = 1))

/-- A success counts at least as much as none exactly if it is recent enough. -/
theorem scoreOf_none_le_iff {math : DoubleMath S} (hmath : Decays math)
    (candidate : EndpointCandidate S) (nowMs : ℤ) (currentContextId : String)
    (preferences : ContextPreferences) (a : ℤ) :
  scoreOf math candidate nowMs currentContextId preferences none
      ≤ scoreOf math candidate nowMs currentContextId preferences (some a) ↔
    RecentEnough math candidate nowMs currentContextId a
  := by
  rw [scoreOf_eq, scoreOf_eq, add_le_add_iff_right, earned, earned, RecentEnough, Option.elim_none,
    Option.elim_some, add_zero]
  have hpoints : (0 : S) ≤ successPoints (candidate.networkContextId = currentContextId)
      (ageMs nowMs a) := by
    unfold successPoints
    split_ifs <;> norm_num
  unfold sourcePoints
  cases candidate.source with
  | currentDns => simpa using hpoints
  | httpsSvcb => simpa using hpoints
  | recentlyValidatedCache =>
      have hcache : baseSourceScore .recentlyValidatedCache defaultWeights = (40 : S) := by
        change ((40 : ℤ) : S) = 40
        rw [Int.cast_ofNat]
      dsimp only
      rw [hcache, forall_prop_of_true rfl, successPoints]
      split_ifs with hcontext hhour hday
      · have hhalf : 1 / 2 ≤ factor math nowMs a := half_le_factor hmath (by omega)
        apply iff_of_true
        · linarith
        · exact ⟨by omega, hhalf⟩
      · constructor
        · intro h
          exact ⟨hday, by linarith⟩
        · rintro ⟨-, h⟩
          linarith
      · have hhalf : factor math nowMs a ≤ 1 / 2 := factor_le_half hmath (by omega)
        apply iff_of_false
        · rw [not_le]
          linarith
        · rintro ⟨h, -⟩
          exact hday h
      · constructor
        · intro h
          linarith
        · intro h
          linarith

/-- The points for a success do not grow with its age. -/
theorem successPoints_le {sameContext : Prop} [Decidable sameContext] {m n : ℤ} (h : m ≤ n) :
  (successPoints sameContext n : S) ≤ successPoints sameContext m
  := by
  unfold successPoints
  split_ifs <;> first | omega | norm_num

/-- A success of a smaller age earns at least as much. -/
theorem earned_le_earned {math : DoubleMath S} (hmath : Decays math)
    (candidate : EndpointCandidate S) {nowMs : ℤ} (currentContextId : String) {a b : ℤ}
    (h : ageMs nowMs b ≤ ageMs nowMs a) :
  earned math candidate nowMs currentContextId (some a)
    ≤ earned math candidate nowMs currentContextId (some b)
  := by
  rw [earned, earned, Option.elim_some, Option.elim_some]
  apply add_le_add
  · unfold sourcePoints
    cases candidate.source with
    | currentDns => rfl
    | httpsSvcb => rfl
    | recentlyValidatedCache =>
        have hfactor := factor_le_factor hmath h
        dsimp only
        linarith
  · apply successPoints_le h

/-- A success of this hour has the most points, and another one has as many exactly if it is of this
hour or in another context. -/
theorem successPoints_most (sameContext : Prop) [Decidable sameContext] {m n : ℤ}
    (hm : m ≤ 3600000) :
  (successPoints sameContext n : S) ≤ successPoints sameContext m ∧
    ((successPoints sameContext m : S) ≤ successPoints sameContext n ↔
      (sameContext → n ≤ 3600000))
  := by
  rw [successPoints, successPoints, if_pos hm]
  split_ifs with hcontext hhour hday
  · exact ⟨le_rfl, iff_of_true le_rfl fun _ => hhour⟩
  · exact ⟨by norm_num, iff_of_false (by norm_num) fun h => hhour (h hcontext)⟩
  · exact ⟨by norm_num, iff_of_false (by norm_num) fun h => hhour (h hcontext)⟩
  · exact ⟨le_rfl, iff_of_true le_rfl fun h => absurd h hcontext⟩

/-- A success that is not decayed has the most points for the source, and another one has as many
exactly if it is not decayed either. -/
theorem sourcePoints_most {math : DoubleMath S} (hmath : Decays math) (source : CandidateSource)
    {nowMs a : ℤ} (ha : factor math nowMs a = 1) (b : ℤ) :
  sourcePoints math source nowMs (some b) ≤ sourcePoints math source nowMs (some a) ∧
    (sourcePoints math source nowMs (some a) ≤ sourcePoints math source nowMs (some b) ↔
      (source = .recentlyValidatedCache → factor math nowMs b = 1))
  := by
  have hone := factor_le_one hmath nowMs b
  unfold sourcePoints
  cases source with
  | currentDns => simp
  | httpsSvcb => simp
  | recentlyValidatedCache =>
      dsimp only
      rw [ha, forall_prop_of_true rfl]
      constructor
      · linarith
      · constructor
        · intro h
          linarith
        · intro h
          rw [h]

/-- A success whose age overflows earns as much as one of this moment, and another one earns as much
exactly if it is of this hour or in another context, and is not decayed. -/
theorem earned_le_iff_of_neg {math : DoubleMath S} (hmath : Decays math)
    (candidate : EndpointCandidate S) {nowMs : ℤ} (currentContextId : String) {a b : ℤ}
    (ha : ageMs nowMs a < 0) :
  earned math candidate nowMs currentContextId (some a)
      ≤ earned math candidate nowMs currentContextId (some b) ↔
    (candidate.networkContextId = currentContextId → ageMs nowMs b ≤ 3600000) ∧
      (candidate.source = .recentlyValidatedCache → factor math nowMs b = 1)
  := by
  have hsuccess := successPoints_most (S := S) (n := ageMs nowMs b)
    (candidate.networkContextId = currentContextId) (ha.le.trans (by decide))
  have hsource := sourcePoints_most hmath candidate.source (factor_of_nonpos math ha.le) b
  rw [earned, earned, Option.elim_some, Option.elim_some, ← hsuccess.2, ← hsource.2]
  constructor
  · intro h
    constructor
    · linarith [hsource.1]
    · linarith [hsuccess.1]
  · rintro ⟨h, h'⟩
    linarith

/-- A later success counts at least as much exactly if the overflow of the age of the earlier one makes
no difference. -/
theorem scoreOf_le_iff {math : DoubleMath S} (hmath : Decays math)
    (candidate : EndpointCandidate S) {nowMs : ℤ} (currentContextId : String)
    (preferences : ContextPreferences) {a b : ℤ} (hnow : IsInt64 nowMs) (ha : IsInt64 a)
    (hb : IsInt64 b) (hab : a ≤ b) (hbnow : b ≤ nowMs) :
  scoreOf math candidate nowMs currentContextId preferences (some a)
      ≤ scoreOf math candidate nowMs currentContextId preferences (some b) ↔
    NoOverflow math candidate nowMs currentContextId a b
  := by
  rw [scoreOf_eq, scoreOf_eq, add_le_add_iff_right, NoOverflow]
  have hagea := ageMs_eq hnow ha (hab.trans hbnow)
  have hageb := ageMs_eq hnow hb hbnow
  by_cases hoverflow : nowMs - a < 2 ^ 63
  · apply iff_of_true
    · apply earned_le_earned hmath
      rw [hagea, hageb, if_pos hoverflow, if_pos (by omega)]
      omega
    · left
      apply hoverflow
  · rw [if_neg hoverflow] at hagea
    have hneg : ageMs nowMs a < 0 := by
      have hdiff : nowMs - a < 2 ^ 64 := by
        obtain ⟨-, hnow⟩ := hnow
        obtain ⟨ha, -⟩ := ha
        omega
      omega
    by_cases hlater : 2 ^ 63 ≤ nowMs - b
    · rw [if_neg (by omega)] at hageb
      apply iff_of_true
      · apply earned_le_earned hmath
        omega
      · right
        left
        apply hlater
    · rw [if_pos (by omega)] at hageb
      rw [earned_le_iff_of_neg hmath candidate currentContextId hneg, hageb]
      constructor
      · intro h
        right
        right
        apply h
      · rintro (h | h | h)
        · exact absurd h hoverflow
        · exact absurd h hlater
        · apply h

/-- A success counts at least as much as none, and a later one at least as much as an earlier one. -/
def EvidenceHelps (math : DoubleMath S) (candidate : EndpointCandidate S) (nowMs : ℤ)
    (currentContextId : String) (preferences : ContextPreferences) (a b : ℤ) : Prop :=
  scoreOf math candidate nowMs currentContextId preferences none
      ≤ scoreOf math candidate nowMs currentContextId preferences (some a) ∧
    scoreOf math candidate nowMs currentContextId preferences (some a)
      ≤ scoreOf math candidate nowMs currentContextId preferences (some b)

/-- The score is monotone in the recency of the last success exactly if the success is recent enough to
count for as much as none, and the overflow of its age makes no difference. -/
theorem evidenceHelps_iff {math : DoubleMath S} (hmath : Decays math)
    (candidate : EndpointCandidate S) (nowMs : ℤ) (currentContextId : String)
    (preferences : ContextPreferences) (a b : ℤ) (hnow : IsInt64 nowMs) (ha : IsInt64 a)
    (hb : IsInt64 b) (hab : a ≤ b) (hbnow : b ≤ nowMs) :
  EvidenceHelps math candidate nowMs currentContextId preferences a b ↔
    RecentEnough math candidate nowMs currentContextId a ∧
      NoOverflow math candidate nowMs currentContextId a b
  := by
  rw [EvidenceHelps, scoreOf_none_le_iff hmath,
    scoreOf_le_iff hmath candidate currentContextId preferences hnow ha hb hab hbnow]

/-! ### The exponential decay -/

/-- The exponential and the logarithm of the real numbers. -/
noncomputable def realMath : DoubleMath ℝ where
  exp := Real.exp
  ln2 := Real.log 2

theorem cacheTimeFactor_realMath {age : ℝ} (h : 0 ≤ age) :
  cacheTimeFactor realMath age defaultHalfLife = Real.exp (-Real.log 2 * age / 6)
  := by
  have hsix : (defaultHalfLife : { h : ℝ // 0 < h }).1 = 6 := by
    rw [defaultHalfLife]
    norm_num
  rw [cacheTimeFactor, hsix]
  split_ifs with hzero
  · obtain rfl := le_antisymm hzero h
    simp
  · rfl

/-- The decay of the code is one. -/
theorem decays_realMath :
  Decays realMath
  := by
  have hlog : 0 ≤ Real.log 2 := Real.log_nonneg (by norm_num)
  constructor
  · intro x y hxy
    dsimp only
    by_cases hy : y ≤ 0
    · rw [cacheTimeFactor, if_pos hy, cacheTimeFactor, if_pos (hxy.trans hy)]
    · rw [cacheTimeFactor_realMath (not_le.mp hy).le]
      by_cases hx : x ≤ 0
      · rw [cacheTimeFactor, if_pos hx, Real.exp_le_one_iff]
        have hprod := mul_nonneg hlog (not_le.mp hy).le
        linarith
      · rw [cacheTimeFactor_realMath (not_le.mp hx).le, Real.exp_le_exp]
        have hprod := mul_le_mul_of_nonneg_left hxy hlog
        linarith
  · have hsix : (defaultHalfLife : { h : ℝ // 0 < h }).1 = 6 := by
      rw [defaultHalfLife]
      norm_num
    rw [hsix, cacheTimeFactor_realMath (by norm_num), mul_div_assoc, div_self (by norm_num), mul_one,
      Real.exp_neg, Real.exp_log (by norm_num), one_div]

/-- A cached candidate of the current context. -/
noncomputable def cachedCandidate : EndpointCandidate ℝ where
  hostname := "example.com"
  ipAddress := "1.2.3.4"
  ipFamily := .ipv4
  port := 443
  transport := .tcp
  source := .recentlyValidatedCache
  networkContextId := "wifi"
  discoveredAt := 0
  decayedScore := 0

theorem networkContextId_cachedCandidate :
  cachedCandidate.networkContextId = "wifi"
  := rfl

/-- A success half a minute ago counts more than none. -/
theorem evidenceHelps_recent :
  EvidenceHelps realMath cachedCandidate 172800000 "wifi" {} 172770000 172800000
  := by
  apply (evidenceHelps_iff decays_realMath cachedCandidate 172800000 "wifi" {} 172770000 172800000
    (by decide) (by decide) (by decide) (by decide) (by decide)).mpr
  constructor
  · intro _
    rw [if_pos networkContextId_cachedCandidate]
    exact ⟨by decide, half_le_factor decays_realMath (by decide)⟩
  · left
    decide

/-- A success two days ago counts less than none. -/
theorem not_evidenceHelps_old :
  ¬ ∀ (math : DoubleMath ℝ) (candidate : EndpointCandidate ℝ) (nowMs : ℤ)
      (currentContextId : String) (preferences : ContextPreferences) (a b : ℤ),
    Decays math → IsInt64 nowMs → IsInt64 a → IsInt64 b → a ≤ b → b ≤ nowMs →
      EvidenceHelps math candidate nowMs currentContextId preferences a b
  := by
  intro h
  obtain ⟨hnone, -⟩ := h realMath cachedCandidate 172800000 "wifi" {} 0 172800000 decays_realMath
    (by decide) (by decide) (by decide) (by decide) (by decide)
  rw [scoreOf_none_le_iff decays_realMath] at hnone
  have hrecent := hnone rfl
  rw [if_pos networkContextId_cachedCandidate] at hrecent
  have hday : ¬ ageMs 172800000 0 ≤ 86400000 := by decide
  exact hday hrecent.1

end ScoreCalculator

end Paer
