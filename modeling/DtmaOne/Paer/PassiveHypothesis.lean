import DtmaOne.Library.Collections
import DtmaOne.Paer.Candidate
import Mathlib.Data.Rat.Defs

/-!
# The passive hypothesis engine

`PassiveHypothesisEngine.evaluate` assesses a list of observations by rules in a fixed order.  The
verdict, its hypothesis and its action, depends only on which observations there are.

A race that was lost is reported as an observation without success.  `RvecPolicy` does not take it for
a failure, but the engine does: among successes only it makes the network look abnormal, and it counts
for its address family.  Inserting lost races leaves a verdict with a success alone exactly if one of
the rules before these applies, or there are failures already and the families of the lost races are
those of failures.
-/

namespace Paer

open Collections

/-- `Hypothesis` -/
inductive Hypothesis where
  | normalNetworkVariation
  | possibleDnsProblem
  | endpointSpecificFailure
  | ipFamilySpecificFailure
  | transportSpecificFailure
  | secureHandshakeFailure
  | possibleServiceRejection
  | generalNetworkDegradation
  | insufficientData
  deriving DecidableEq, Repr

/-- `RecommendedAction` -/
inductive RecommendedAction where
  | none
  | retryLimited
  | useAlternateFamily
  | useAlternateTransport
  | cooldown
  | waitForNetwork
  | stopEndpointRetries
  deriving DecidableEq, Repr

/-- `HypothesisResult`, with the confidence as the decimal fraction that is written. -/
structure HypothesisResult where
  primaryHypothesis : Hypothesis
  confidence : ℚ
  alternativeHypotheses : List Hypothesis
  insufficientData : Bool
  recommendedAction : RecommendedAction
  cooldownUntil : Option ℤ
  humanReadableExplanation : String
  deriving DecidableEq

/-- `Observation` -/
structure Observation where
  stage : Option FailureStage := none
  httpStatus : Option ℤ := none
  ipFamily : Option IpFamily := none
  transport : Option Transport := none
  success : Bool := false
  distinctEndpointsTried : ℤ := 0
  distinctFamiliesTried : ℤ := 0
  dnsEmpty : Bool := false
  dnsNoResponse : Bool := false
  deriving DecidableEq, Repr

namespace PassiveHypothesisEngine

/-! ### The rules -/

/-- An answer with status 401 or 403. -/
def isRejection (o : Observation) : Bool :=
  o.httpStatus = some 401 || o.httpStatus = some 403

/-- No answer, or an empty one, from the name servers. -/
def isDnsProblem (o : Observation) : Bool :=
  o.dnsNoResponse || o.dnsEmpty

/-- A failure of the handshake. -/
def isHandshakeFailure (o : Observation) : Bool :=
  o.stage = some .tlsNotCompleted || o.stage = some .tlsValidationFailed ||
    o.stage = some .alpnMismatch

/-- A failure of the transport. -/
def isTransportFailure (o : Observation) : Bool :=
  o.stage = some .transportRefused || o.stage = some .transportTimeout

/-- `PassiveHypothesisEngine.evaluate` -/
def evaluate (observations : List Observation) (nowMs : ℤ) : HypothesisResult :=
  if observations.isEmpty ||
      observations.all fun o => o.distinctEndpointsTried = 0 && !o.success then
    { primaryHypothesis := .insufficientData
      confidence := 0
      alternativeHypotheses := []
      insufficientData := true
      recommendedAction := .none
      cooldownUntil := none
      humanReadableExplanation :=
        "Недостаточно данных для оценки. Possibly temporary; no blocking claim is made." }
  else
    let failures := observations.filter fun o => !o.success
    let successes := observations.filter fun o => o.success
    if observations.any isRejection then
      { primaryHypothesis := .possibleServiceRejection
        confidence := 7 / 10
        alternativeHypotheses := [.endpointSpecificFailure]
        insufficientData := false
        recommendedAction := .stopEndpointRetries
        cooldownUntil := some (int64 (nowMs + 5 * 60000))
        humanReadableExplanation :=
          "Сервис, вероятно, отклонил запрос (401/403). Endpoint retries остановлены; " ++
            "это не обязательно сетевая блокировка." }
    else if !successes.isEmpty && failures.isEmpty then
      { primaryHypothesis := .normalNetworkVariation
        confidence := 6 / 10
        alternativeHypotheses := [.insufficientData]
        insufficientData := false
        recommendedAction := .none
        cooldownUntil := none
        humanReadableExplanation :=
          "Соединения выглядят нормально. Possible normal network variation." }
    else if observations.any isDnsProblem then
      { primaryHypothesis := .possibleDnsProblem
        confidence := 55 / 100
        alternativeHypotheses := [.generalNetworkDegradation, .insufficientData]
        insufficientData := observations.length < 2
        recommendedAction := .retryLimited
        cooldownUntil := none
        humanReadableExplanation :=
          "Возможна проблема DNS (no response / empty). Это не доказательство блокировки." }
    else if failures.any isHandshakeFailure then
      { primaryHypothesis := .secureHandshakeFailure
        confidence := 5 / 10
        alternativeHypotheses := [.endpointSpecificFailure, .insufficientData]
        insufficientData := failures.length < 2
        recommendedAction := .cooldown
        cooldownUntil := some (int64 (nowMs + CooldownPolicy.cooldownDurationMs 1))
        humanReadableExplanation :=
          "Возможен сбой защищённого рукопожатия. Точная причина TLS alert недоступна " ++
            "без перехвата; блокировка не утверждается." }
    else
      let familyFailures := groupBy id (failures.filterMap Observation.ipFamily)
      if familyFailures.length = 1 ∧
          1 < (observations.filterMap Observation.ipFamily).eraseDups.length then
        { primaryHypothesis := .ipFamilySpecificFailure
          confidence := 45 / 100
          alternativeHypotheses := [.endpointSpecificFailure, .insufficientData]
          insufficientData := false
          recommendedAction := .useAlternateFamily
          cooldownUntil := none
          humanReadableExplanation :=
            "Вероятны проблемы с одним семейством IP (IPv4/IPv6). Возможно, другой путь доступен." }
      else if failures.length ≥ 2 ∧ successes.isEmpty then
        { primaryHypothesis := .generalNetworkDegradation
          confidence := 4 / 10
          alternativeHypotheses := [.endpointSpecificFailure, .insufficientData]
          insufficientData := false
          recommendedAction := .waitForNetwork
          cooldownUntil := some (int64 (nowMs + CooldownPolicy.cooldownDurationMs 2))
          humanReadableExplanation :=
            "Возможна общая деградация сети. Недостаточно данных, чтобы утверждать блокировку." }
      else if failures.any isTransportFailure then
        { primaryHypothesis := .endpointSpecificFailure
          confidence := 4 / 10
          alternativeHypotheses := [.normalNetworkVariation, .insufficientData]
          insufficientData := failures.length < 2
          recommendedAction := .retryLimited
          cooldownUntil := none
          humanReadableExplanation :=
            "Возможен отказ конкретного endpoint. Это наблюдение, а не доказательство инъекции RST." }
      else
        { primaryHypothesis := .insufficientData
          confidence := 2 / 10
          alternativeHypotheses := [.normalNetworkVariation]
          insufficientData := true
          recommendedAction := .none
          cooldownUntil := none
          humanReadableExplanation := "Недостаточно данных для уверенной гипотезы." }

/-- The hypothesis and the action of an assessment. -/
def verdict (observations : List Observation) (nowMs : ℤ) : Hypothesis × RecommendedAction :=
  ((evaluate observations nowMs).primaryHypothesis, (evaluate observations nowMs).recommendedAction)

/-! ### Verdicts by the observations there are -/

/-- There is a failure. -/
def HasFailure (observations : List Observation) : Prop :=
  ∃ o ∈ observations, o.success = false

/-- There is a failure of the given kind. -/
def HasFailureOf (kind : Observation → Bool) (observations : List Observation) : Prop :=
  ∃ o ∈ observations, o.success = false ∧ kind o = true

/-- There is an observation of the given kind. -/
def Has (kind : Observation → Bool) (observations : List Observation) : Prop :=
  ∃ o ∈ observations, kind o = true

/-- There is an observation of the family. -/
def Seen (observations : List Observation) (f : IpFamily) : Prop :=
  ∃ o ∈ observations, o.ipFamily = some f

/-- There is a failure of the family. -/
def Fails (observations : List Observation) (f : IpFamily) : Prop :=
  ∃ o ∈ observations, o.success = false ∧ o.ipFamily = some f

/-- Two families are seen, and one of them fails. -/
def OneFamilyFails (observations : List Observation) : Prop :=
  ∃ f g, Fails observations f ∧ ¬ Fails observations g ∧ Seen observations g

theorem mem_families {observations : List Observation} {f : IpFamily} :
  f ∈ observations.filterMap Observation.ipFamily ↔ Seen observations f
  := List.mem_filterMap

theorem seen_failures {observations : List Observation} {f : IpFamily} :
  Seen (observations.filter fun o => !o.success) f ↔ Fails observations f
  := by
  simp only [Seen, Fails, List.mem_filter, Bool.not_eq_true', and_assoc]

/-- There are two families only. -/
theorem eq_of_ne_of_ne {f g h : IpFamily} (hfg : f ≠ g) (hhg : h ≠ g) :
  h = f
  := by
  cases f <;> cases g <;> cases h <;> first | rfl | contradiction

/-- The rule for families asks whether one of two families fails. -/
theorem oneFamilyFails_iff (observations : List Observation) :
  ((groupBy id ((observations.filter fun o => !o.success).filterMap Observation.ipFamily)).length = 1 ∧
    1 < (observations.filterMap Observation.ipFamily).eraseDups.length) ↔
    OneFamilyFails observations
  := by
  rw [groupBy, List.length_map, List.map_id, length_eraseDups_eq_one, one_lt_length_eraseDups]
  simp only [mem_families, seen_failures]
  constructor
  · rintro ⟨⟨f, hf, hall⟩, a, ha, b, hb, hne⟩
    by_cases haf : a = f
    · subst haf
      exact ⟨a, b, hf, fun h => hne (hall b h), hb⟩
    · exact ⟨f, a, hf, fun h => haf (hall a h), ha⟩
  · rintro ⟨f, g, hf, hg, hseen⟩
    have hfg : f ≠ g := by
      rintro rfl
      apply hg hf
    refine ⟨⟨f, hf, ?_⟩, f, ?_, g, hseen, hfg.symm⟩
    · intro h hh
      apply eq_of_ne_of_ne hfg
      rintro rfl
      apply hg hh
    · obtain ⟨o, ho, -, hfamily⟩ := hf
      exact ⟨o, ho, hfamily⟩

open scoped Classical in
/-- The verdict on observations with a success, by which observations there are. -/
theorem verdict_eq {observations : List Observation}
    (hsuccess : ∃ o ∈ observations, o.success = true) (nowMs : ℤ) :
  verdict observations nowMs =
    if Has isRejection observations then (.possibleServiceRejection, .stopEndpointRetries)
    else if ¬ HasFailure observations then (.normalNetworkVariation, .none)
    else if Has isDnsProblem observations then (.possibleDnsProblem, .retryLimited)
    else if HasFailureOf isHandshakeFailure observations then (.secureHandshakeFailure, .cooldown)
    else if OneFamilyFails observations then (.ipFamilySpecificFailure, .useAlternateFamily)
    else if HasFailureOf isTransportFailure observations then
      (.endpointSpecificFailure, .retryLimited)
    else (.insufficientData, .none)
  := by
  obtain ⟨o, ho, hsuccess⟩ := hsuccess
  have hdata : ¬ (observations.isEmpty ||
      observations.all fun o => o.distinctEndpointsTried = 0 && !o.success) = true := by
    rw [Bool.or_eq_true, List.isEmpty_iff, List.all_eq_true, not_or]
    constructor
    · rintro rfl
      cases ho
    · intro hall
      simpa [hsuccess] using hall o ho
  have hsuccesses : (observations.filter fun o => o.success).isEmpty = false := by
    rw [List.isEmpty_eq_false_iff]
    apply List.ne_nil_of_mem (List.mem_filter.mpr ⟨ho, hsuccess⟩)
  have hfailures : (observations.filter fun o => !o.success).isEmpty = true ↔
      ¬ HasFailure observations := by
    simp [HasFailure]
  have hhas : ∀ kind, observations.any kind = true ↔ Has kind observations :=
    fun kind => List.any_eq_true
  have hfails : ∀ kind, (observations.filter fun o => !o.success).any kind = true ↔
      HasFailureOf kind observations := by
    intro kind
    simp [HasFailureOf]
  rw [verdict, evaluate, if_neg hdata]
  simp only [hsuccesses, Bool.not_false, Bool.true_and, hfailures, hhas, hfails,
    oneFamilyFails_iff, Bool.false_eq_true, and_false, if_false]
  split_ifs <;> rfl

/-! ### Lost races -/

/-- A race that was lost, as it is observed. -/
def IsLostRace (o : Observation) : Prop :=
  o.success = false ∧ o.stage = some .cancelledByRace ∧ o.httpStatus = none ∧ o.dnsEmpty = false ∧
    o.dnsNoResponse = false

instance (o : Observation) : Decidable (IsLostRace o) :=
  inferInstanceAs (Decidable (_ ∧ _))

/-- Of two families of which one is seen without failures: if the other one fails, no lost race is of
the family without failures, and if neither fails, the lost races are not of the other one only. -/
def FamiliesKept (observations inserted : List Observation) : Prop :=
  ∀ f g, f ≠ g → Seen observations g → ¬ Fails observations g →
    (Fails observations f → ¬ Seen inserted g) ∧
      (¬ Fails observations f → Seen inserted f → Seen inserted g)

/-- The lost races do not count: there are none; or a service rejects; or there are failures already, and
the name servers or a handshake failed, or the lost races do not tell the families apart in another
way. -/
def NotCounted (observations inserted : List Observation) : Prop :=
  inserted = [] ∨ Has isRejection observations ∨
    (HasFailure observations ∧
      (Has isDnsProblem observations ∨ HasFailureOf isHandshakeFailure observations ∨
        FamiliesKept observations inserted))

section Insertion

variable {observations inserted merged : List Observation}

/-- A kind of observation that no lost race is of is not inserted. -/
theorem has_merged (h : Interleaves observations inserted merged) {kind : Observation → Bool}
    (hkind : ∀ o ∈ inserted, kind o = false) :
  Has kind merged ↔ Has kind observations
  := by
  constructor
  · rintro ⟨o, ho, hk⟩
    obtain ho | ho := h.mem_iff.mp ho
    · exact ⟨o, ho, hk⟩
    · rw [hkind o ho] at hk
      cases hk
  · rintro ⟨o, ho, hk⟩
    exact ⟨o, h.mem_iff.mpr (Or.inl ho), hk⟩

theorem hasFailureOf_merged (h : Interleaves observations inserted merged)
    {kind : Observation → Bool} (hkind : ∀ o ∈ inserted, kind o = false) :
  HasFailureOf kind merged ↔ HasFailureOf kind observations
  := by
  constructor
  · rintro ⟨o, ho, hfailure, hk⟩
    obtain ho | ho := h.mem_iff.mp ho
    · exact ⟨o, ho, hfailure, hk⟩
    · rw [hkind o ho] at hk
      cases hk
  · rintro ⟨o, ho, hk⟩
    exact ⟨o, h.mem_iff.mpr (Or.inl ho), hk⟩

theorem seen_merged (h : Interleaves observations inserted merged) (f : IpFamily) :
  Seen merged f ↔ Seen observations f ∨ Seen inserted f
  := by
  simp only [Seen, h.mem_iff, or_and_right, exists_or]

theorem fails_merged (h : Interleaves observations inserted merged)
    (hfailure : ∀ o ∈ inserted, o.success = false) (f : IpFamily) :
  Fails merged f ↔ Fails observations f ∨ Seen inserted f
  := by
  have hinserted : (∃ o ∈ inserted, o.success = false ∧ o.ipFamily = some f) ↔ Seen inserted f := by
    constructor
    · rintro ⟨o, ho, -, hfamily⟩
      exact ⟨o, ho, hfamily⟩
    · rintro ⟨o, ho, hfamily⟩
      exact ⟨o, ho, hfailure o ho, hfamily⟩
  rw [← hinserted]
  simp only [Fails, h.mem_iff, or_and_right, exists_or]

theorem hasFailure_merged (h : Interleaves observations inserted merged)
    (hfailure : ∀ o ∈ inserted, o.success = false) :
  HasFailure merged ↔ HasFailure observations ∨ inserted ≠ []
  := by
  constructor
  · rintro ⟨o, ho, hf⟩
    obtain ho | ho := h.mem_iff.mp ho
    · left
      exact ⟨o, ho, hf⟩
    · right
      apply List.ne_nil_of_mem ho
  · rintro (⟨o, ho, hf⟩ | hne)
    · exact ⟨o, h.mem_iff.mpr (Or.inl ho), hf⟩
    · obtain ⟨o, ho⟩ := List.exists_mem_of_ne_nil inserted hne
      exact ⟨o, h.mem_iff.mpr (Or.inr ho), hfailure o ho⟩

/-- The rule for families is left as it is exactly if the lost races keep the families. -/
theorem oneFamilyFails_merged (h : Interleaves observations inserted merged)
    (hfailure : ∀ o ∈ inserted, o.success = false) :
  (OneFamilyFails merged ↔ OneFamilyFails observations) ↔ FamiliesKept observations inserted
  := by
  have hmerged : OneFamilyFails merged ↔ ∃ f g, (Fails observations f ∨ Seen inserted f) ∧
      ¬ Fails observations g ∧ ¬ Seen inserted g ∧ Seen observations g := by
    simp only [OneFamilyFails, seen_merged h, fails_merged h hfailure, not_or]
    apply exists_congr
    intro f
    apply exists_congr
    intro g
    tauto
  rw [hmerged]
  constructor
  · intro hiff f g hfg hseen hg
    constructor
    · intro hf
      obtain ⟨-, g', -, hg', hinserted, -⟩ := hiff.mpr ⟨f, g, hf, hg, hseen⟩
      have hgf : g' ≠ f := by
        rintro rfl
        apply hg' hf
      rw [← eq_of_ne_of_ne hfg.symm hgf]
      apply hinserted
    · intro hf hlost
      by_contra hinserted
      obtain ⟨f', -, hf', -⟩ := hiff.mp ⟨f, g, Or.inr hlost, hg, hinserted, hseen⟩
      have hf'g : f' ≠ g := by
        rintro rfl
        apply hg hf'
      rw [eq_of_ne_of_ne hfg hf'g] at hf'
      apply hf hf'
  · intro hkept
    constructor
    · rintro ⟨f, g, hf, hg, hinserted, hseen⟩
      have hfg : f ≠ g := by
        rintro rfl
        exact hf.elim hg hinserted
      by_cases hfails : Fails observations f
      · exact ⟨f, g, hfails, hg, hseen⟩
      · obtain hf | hf := hf
        · exact absurd hf hfails
        · exact absurd ((hkept f g hfg hseen hg).2 hfails hf) hinserted
    · rintro ⟨f, g, hf, hg, hseen⟩
      have hfg : f ≠ g := by
        rintro rfl
        apply hg hf
      exact ⟨f, g, Or.inl hf, hg, (hkept f g hfg hseen hg).1 hf, hseen⟩

end Insertion

/-- Inserting lost races leaves the verdict on observations with a success alone exactly if they do not
count. -/
theorem verdict_insert_iff (observations inserted merged : List Observation)
    (hsuccess : ∃ o ∈ observations, o.success = true)
    (h : Interleaves observations inserted merged) (hlost : ∀ o ∈ inserted, IsLostRace o)
    (nowMs : ℤ) :
  verdict merged nowMs = verdict observations nowMs ↔ NotCounted observations inserted
  := by
  classical
  have hfailure : ∀ o ∈ inserted, o.success = false := fun o ho => (hlost o ho).1
  have hsuccess' : ∃ o ∈ merged, o.success = true := by
    obtain ⟨o, ho, hs⟩ := hsuccess
    exact ⟨o, h.mem_iff.mpr (Or.inl ho), hs⟩
  have hrejection : ∀ o ∈ inserted, isRejection o = false := by
    intro o ho
    simp [isRejection, (hlost o ho).2.2.1]
  have hdns : ∀ o ∈ inserted, isDnsProblem o = false := by
    intro o ho
    simp [isDnsProblem, (hlost o ho).2.2.2]
  have hhandshake : ∀ o ∈ inserted, isHandshakeFailure o = false := by
    intro o ho
    simp [isHandshakeFailure, (hlost o ho).2.1]
  have htransport : ∀ o ∈ inserted, isTransportFailure o = false := by
    intro o ho
    simp [isTransportFailure, (hlost o ho).2.1]
  rw [verdict_eq hsuccess, verdict_eq hsuccess', NotCounted, ← oneFamilyFails_merged h hfailure]
  simp only [has_merged h hrejection, has_merged h hdns, hasFailureOf_merged h hhandshake,
    hasFailureOf_merged h htransport, hasFailure_merged h hfailure]
  by_cases hrej : Has isRejection observations
  · simp [hrej]
  by_cases hfail : HasFailure observations
  · by_cases hd : Has isDnsProblem observations
    · simp [hrej, hfail, hd]
    by_cases hh : HasFailureOf isHandshakeFailure observations
    · simp [hrej, hfail, hd, hh]
    have hnone : inserted = [] → (OneFamilyFails merged ↔ OneFamilyFails observations) := by
      rintro rfl
      rw [oneFamilyFails_merged h hfailure]
      intro f g _ _ _
      simp [Seen]
    by_cases ht : HasFailureOf isTransportFailure observations
    · by_cases hm : OneFamilyFails merged <;> by_cases ho : OneFamilyFails observations <;>
        simp_all
    · by_cases hm : OneFamilyFails merged <;> by_cases ho : OneFamilyFails observations <;>
        simp_all
  · by_cases hnil : inserted = []
    · simp [hrej, hfail, hnil]
    · apply iff_of_false
      · simp only [hrej, hfail, hnil, ne_eq, not_true_eq_false, not_false_eq_true, if_false, if_true,
          or_true]
        split_ifs <;> simp
      · simp [hrej, hfail, hnil]

/-- A race that was won over IPv4. -/
def wonRace : Observation where
  ipFamily := some .ipv4
  transport := some .tcp
  success := true
  distinctEndpointsTried := 2

/-- The loser of the race over the given family. -/
def lostRace (f : IpFamily) : Observation where
  stage := some .cancelledByRace
  ipFamily := some f
  transport := some .tcp
  distinctEndpointsTried := 2

/-- A failure over IPv4. -/
def timedOut : Observation where
  stage := some .transportTimeout
  ipFamily := some .ipv4
  transport := some .tcp
  distinctEndpointsTried := 1

/-- Among failures of its family a lost race does not count. -/
theorem verdict_insert_timedOut :
  verdict [wonRace, lostRace .ipv4, timedOut] 0 = verdict [wonRace, timedOut] 0
  := by
  apply (verdict_insert_iff [wonRace, timedOut] [lostRace .ipv4] _ ⟨wonRace, by decide, rfl⟩
    (.left _ (.right _ (.left _ .nil))) (by decide) 0).mpr
  right
  right
  refine ⟨⟨timedOut, by decide, rfl⟩, ?_⟩
  right
  right
  rintro f g hfg ⟨o, ho, hfamily⟩ hg
  have hipv4 : ∀ o ∈ [wonRace, timedOut], o.ipFamily = some .ipv4 := by decide
  rw [hipv4 o ho] at hfamily
  exact absurd ⟨timedOut, by decide, rfl, hfamily⟩ hg

/-- The only lost race of a network without failures makes it look abnormal. -/
theorem not_verdict_insert_wonRace :
  ¬ ∀ observations inserted merged : List Observation, (∃ o ∈ observations, o.success = true) →
    Interleaves observations inserted merged → (∀ o ∈ inserted, IsLostRace o) →
      ∀ nowMs, verdict merged nowMs = verdict observations nowMs
  := by
  intro h
  have hsame := h [wonRace] [lostRace .ipv6] [wonRace, lostRace .ipv6] ⟨wonRace, by decide, rfl⟩
    (.left _ (.right _ .nil)) (by decide) 0
  revert hsame
  decide +kernel

end PassiveHypothesisEngine

end Paer
