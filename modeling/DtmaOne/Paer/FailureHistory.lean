import DtmaOne.Paer.Planner
import DtmaOne.Paer.RvecPolicy
import Mathlib.Algebra.Order.Ring.Int
import Mathlib.Data.Int.ConditionallyCompleteOrder
import Mathlib.Data.List.Induction
import Mathlib.Order.ConditionallyCompleteLattice.Basic
import Mathlib.Order.Monotone.Defs

/-!
# The cooldown of a record

`RvecPolicy.onSuccess` and `onFailure` keep in a record how many failures there have been since the
last success, and until when the endpoint is left alone.  A race that was lost is no failure.

After any history of events the record says what the history does: the failures since the last
success are counted, and from the second one on the endpoint cools down from the last of them.  The
planner leaves the record out exactly until that time.
-/

namespace Paer

namespace CooldownPolicy

/-- More failures cool down longer. -/
theorem monotone_cooldownDurationMs :
  Monotone fun k : ℤ => cooldownDurationMs k
  := by
  intro j k hjk
  simp only [cooldownDurationMs, Default.maxCooldownHours]
  split_ifs <;> omega

/-- No cooldown is longer than a day. -/
theorem cooldownDurationMs_le (k : ℤ) :
  cooldownDurationMs k ≤ 24 * 3600000
  := min_le_right _ _

end CooldownPolicy

namespace RvecPolicy

/-! ### Histories -/

/-- A call of `onSuccess` or `onFailure`. -/
inductive Event where
  | success (nowMs : ℤ) (contextId : String)
  | failure (nowMs : ℤ) (stage : FailureStage) (contextId : String)
  deriving DecidableEq, Repr

def Event.isSuccess : Event → Bool
  | .success _ _ => true
  | .failure _ _ _ => false

/-- The time of an event. -/
def Event.nowMs : Event → ℤ
  | .success nowMs _ => nowMs
  | .failure nowMs _ _ => nowMs

/-- The time of a failure; a lost race is none. -/
def Event.failureTime : Event → Option ℤ
  | .success _ _ => none
  | .failure nowMs stage _ => if stage = .cancelledByRace then none else some nowMs

/-- A record after an event. -/
def apply (record : RvecRecord) : Event → RvecRecord
  | .success nowMs contextId => onSuccess record nowMs contextId
  | .failure nowMs stage contextId => onFailure record nowMs stage contextId

/-- A record after a history of events. -/
def replay (record : RvecRecord) (es : List Event) : RvecRecord :=
  es.foldl apply record

/-- The times of the failures since the last success, the last failure first. -/
def failureTimes (es : List Event) : List ℤ :=
  (es.reverse.takeWhile fun e => !e.isSuccess).filterMap Event.failureTime

/-- The number of failures since the last success. -/
def failures (es : List Event) : ℕ :=
  (failureTimes es).length

/-- The time of the last failure since the last success. -/
def lastFailure (es : List Event) : ℤ :=
  (failureTimes es).headD 0

/-- A success clears the failures before it. -/
theorem failureTimes_success (es : List Event) (nowMs : ℤ) (contextId : String) :
  failureTimes (es ++ [.success nowMs contextId]) = []
  := by
  rw [failureTimes, List.reverse_append, List.reverse_singleton, List.singleton_append]
  rfl

/-- A failure is added to those before it, and a lost race is not. -/
theorem failureTimes_failure (es : List Event) (nowMs : ℤ) (stage : FailureStage)
    (contextId : String) :
  failureTimes (es ++ [.failure nowMs stage contextId])
    = if stage = .cancelledByRace then failureTimes es else nowMs :: failureTimes es
  := by
  rw [failureTimes, List.reverse_append, List.reverse_singleton, List.singleton_append,
    List.takeWhile_cons, if_pos (by rfl), List.filterMap_cons, Event.failureTime]
  split_ifs <;> rfl

/-- The failures since the last success are failures of the history. -/
theorem failures_le (es : List Event) :
  failures es ≤ (es.filterMap Event.failureTime).length
  := by
  have hsub : (failureTimes es).Sublist (es.reverse.filterMap Event.failureTime) := by
    apply List.Sublist.filterMap
    apply List.takeWhile_sublist
  rw [List.filterMap_reverse] at hsub
  have hle := hsub.length_le
  rw [List.length_reverse] at hle
  apply hle

/-! ### What a record says -/

/-- The record says what the history does. -/
structure Records (record : RvecRecord) (es : List Event) : Prop where
  consecutiveFailures : record.consecutiveFailures = failures es
  cooldownUntil : record.cooldownUntil =
    if failures es < 2 then none
    else some (int64 (lastFailure es + CooldownPolicy.cooldownDurationMs (failures es)))

theorem records_apply {record : RvecRecord} {es : List Event} {e : Event}
    (h : Records record es) (hfew : failures (es ++ [e]) < 2 ^ 31) :
  Records (apply record e) (es ++ [e])
  := by
  obtain ⟨hfailures, hcooldown⟩ := h
  cases e with
  | success nowMs contextId =>
      constructor
      · rw [failures, failureTimes_success]
        rfl
      · rw [failures, failureTimes_success]
        rfl
  | failure nowMs stage contextId =>
      rw [apply, onFailure]
      by_cases hstage : stage = .cancelledByRace
      · rw [if_pos hstage]
        have htimes := failureTimes_failure es nowMs stage contextId
        rw [if_pos hstage] at htimes
        constructor
        · rw [failures, htimes]
          apply hfailures
        · rw [failures, lastFailure, htimes]
          apply hcooldown
      · rw [if_neg hstage]
        have htimes := failureTimes_failure es nowMs stage contextId
        rw [if_neg hstage] at htimes
        have hcount : failures (es ++ [.failure nowMs stage contextId]) = failures es + 1 := by
          rw [failures, htimes, List.length_cons, failures]
        have hlast : lastFailure (es ++ [.failure nowMs stage contextId]) = nowMs := by
          rw [lastFailure, htimes, List.headD_cons]
        rw [hcount] at hfew
        have hint : int32 (record.consecutiveFailures + 1) = (failures es + 1 : ℕ) := by
          rw [hfailures, int32_of_isInt32]
          · rfl
          · constructor <;> omega
        constructor
        · rw [hcount]
          apply hint
        · rw [hcount, hlast]
          dsimp only
          rw [hint]
          by_cases htwo : failures es + 1 < 2
          · rw [if_pos htwo, if_neg (by omega), hcooldown, if_pos (by omega)]
          · rw [if_neg htwo, if_pos (by omega), if_pos (by omega)]

/-- A record without failures says what has happened since. -/
theorem records_replay {record : RvecRecord} (hfailures : record.consecutiveFailures = 0)
    (hcooldown : record.cooldownUntil = none) {es : List Event}
    (hfew : (es.filterMap Event.failureTime).length < 2 ^ 31) :
  Records (replay record es) es
  := by
  induction es using List.reverseRecOn with
  | nil => exact ⟨hfailures, hcooldown⟩
  | append_singleton es e ih =>
      have hfew' : failures (es ++ [e]) < 2 ^ 31 := (failures_le _).trans_lt hfew
      rw [List.filterMap_append, List.length_append] at hfew
      rw [replay, List.foldl_append]
      apply records_apply (ih (by omega)) hfew'

end RvecPolicy

/-! ### The plan of one candidate -/

namespace CandidatePlanner

open Collections

variable {S : Type} [LinearOrder S] [Zero S] [One S] [Neg S] [Add S] [Mul S] [Div S] [IntCast S]

/-- A single cached candidate is used unless it cools down, or has failed twice and is not past its
cooldown. -/
theorem cache_singleton (P : Params S) (hquota : 0 < P.limits.maxCacheCandidatesPerHost)
    {c : EndpointCandidate S} (hsource : c.source = .recentlyValidatedCache) :
  cache P [c] =
    if CooldownPolicy.isInCooldown c P.nowMs = false ∧
      (c.consecutiveFailures < 2 ∨ c.cooldownUntil.getD 0 ≤ P.nowMs) then [P.scored c]
    else []
  := by
  obtain ⟨quota, hquota⟩ := Nat.exists_eq_succ_of_ne_zero hquota.ne'
  rw [cache, hquota, List.filter_cons_of_pos (by exact decide_eq_true hsource), List.filter_nil]
  split_ifs with husable
  · obtain ⟨hcooldown, hfailures⟩ := husable
    have hready : (!CooldownPolicy.isInCooldown c P.nowMs) = true := by rw [hcooldown]; rfl
    have hfew : (decide (c.consecutiveFailures < 2)
        || decide (c.cooldownUntil.getD 0 ≤ P.nowMs)) = true := by
      rw [Bool.or_eq_true, decide_eq_true_eq, decide_eq_true_eq]
      exact hfailures
    rw [List.filter_cons_of_pos (by exact hready), List.filter_nil, List.filter_cons_of_pos (by exact hfew),
      List.filter_nil, groupBy_singleton, List.flatMap_singleton]
    simp [byScore]
  · cases hcooldown : CooldownPolicy.isInCooldown c P.nowMs with
    | true =>
        rw [List.filter_cons_of_neg (by rw [hcooldown]; decide)]
        rfl
    | false =>
        have hready : (!CooldownPolicy.isInCooldown c P.nowMs) = true := by rw [hcooldown]; rfl
        have hfew : ¬ (decide (c.consecutiveFailures < 2)
            || decide (c.cooldownUntil.getD 0 ≤ P.nowMs)) = true := by
          rw [Bool.or_eq_true, decide_eq_true_eq, decide_eq_true_eq]
          exact mt (And.intro hcooldown) husable
        rw [List.filter_cons_of_pos (by exact hready), List.filter_nil, List.filter_cons_of_neg (by exact hfew)]
        rfl

/-- The plan of a single cached candidate is empty exactly if the candidate is not used. -/
theorem plan_singleton_eq_nil (P : Params S) (hquota : 0 < P.limits.maxCacheCandidatesPerHost)
    {c : EndpointCandidate S} (hsource : c.source = .recentlyValidatedCache) :
  plan P [] [c] = [] ↔ ¬ (CooldownPolicy.isInCooldown c P.nowMs = false ∧
    (c.consecutiveFailures < 2 ∨ c.cooldownUntil.getD 0 ≤ P.nowMs))
  := by
  obtain ⟨quota, hslots⟩ := Nat.exists_eq_succ_of_ne_zero hquota.ne'
  rw [plan, cache_singleton P hquota hsource]
  split_ifs with husable
  · have hgroup : unshadow [P.scored c] = [P.scored c] := by
      rw [unshadow, if_neg]
      simp [Params.scored, EndpointCandidate.not_isFresh_of_source hsource]
    apply iff_of_false _ (not_not_intro husable)
    simp [fresh, byScore, hslots, mergeFresh, mergeCache, LinkedMap.containsKey,
      LinkedMap.values, regroup, hgroup]
  · apply iff_of_true _ husable
    simp [fresh, byScore, mergeFresh, mergeCache, LinkedMap.values, regroup]

end CandidatePlanner

/-! ### Cooldown and history -/

namespace RvecPolicy

open CandidatePlanner

variable {S : Type} [LinearOrder S] [Zero S] [One S] [Neg S] [Add S] [Mul S] [Div S] [IntCast S]

/-- A record that says what the history does is left out of a plan exactly during its cooldown. -/
theorem Records.plan_eq_nil {record : RvecRecord} {es : List Event} (h : Records record es)
    (P : Params S) (hquota : 0 < P.limits.maxCacheCandidatesPerHost) :
  plan P [] [record.toCandidate] = [] ↔ 2 ≤ failures es ∧
    P.nowMs < int64 (lastFailure es + CooldownPolicy.cooldownDurationMs (failures es))
  := by
  obtain ⟨hfailures, hcooldown⟩ := h
  rw [plan_singleton_eq_nil P hquota rfl, CooldownPolicy.isInCooldown, RvecRecord.toCandidate]
  dsimp only
  rw [hfailures, hcooldown]
  by_cases htwo : failures es < 2
  · rw [if_pos htwo]
    simp
    omega
  · rw [if_neg htwo]
    simp
    omega

/-- After every history of a record without failures and without cooldown, its counter is the number of
failures since the last success, its cooldown ends the duration for so many failures after the last of
them if there are two of them, the duration grows with their number up to a day, and the planner leaves
the record out exactly from the second failure on and until that end.  The end is a sum of `Long`s. -/
theorem cooldown_follows_history (record : RvecRecord) (hfailures : record.consecutiveFailures = 0)
    (hcooldown : record.cooldownUntil = none) (es : List Event)
    (hfew : (es.filterMap Event.failureTime).length < 2 ^ 31) :
  (replay record es).consecutiveFailures = failures es ∧
    (replay record es).cooldownUntil =
      (if failures es < 2 then none
      else some (int64 (lastFailure es + CooldownPolicy.cooldownDurationMs (failures es)))) ∧
    Monotone (fun k : ℤ => CooldownPolicy.cooldownDurationMs k) ∧
    (∀ k : ℤ, CooldownPolicy.cooldownDurationMs k ≤ 24 * 3600000) ∧
    ∀ (P : Params S) (nowMs : ℤ),
      plan { P with nowMs := nowMs, limits := {} } [] [(replay record es).toCandidate] = [] ↔
        2 ≤ failures es ∧
          nowMs < int64 (lastFailure es + CooldownPolicy.cooldownDurationMs (failures es))
  := by
  have h := records_replay hfailures hcooldown hfew
  refine ⟨h.consecutiveFailures, h.cooldownUntil, CooldownPolicy.monotone_cooldownDurationMs,
    CooldownPolicy.cooldownDurationMs_le, ?_⟩
  intro P nowMs
  apply h.plan_eq_nil { P with nowMs := nowMs, limits := {} }
  exact Nat.succ_pos 3

/-- A record without failures. -/
def unfailedRecord : RvecRecord where
  hostname := "example.com"
  ipAddress := "1.2.3.4"
  ipFamily := .ipv4
  port := 443
  transport := .tcp
  alpn := []
  networkContextId := "wifi"
  lastSuccessAt := none
  lastFailureAt := none
  consecutiveFailures := 0
  cooldownUntil := none
  discoveredAt := 0
  noPath := by decide
  noQuery := by decide

/-- A success, two failures, and a lost race between them. -/
def twoFailures : List Event :=
  [.failure 1000 .transportReset "wifi", .success 2000 "wifi", .failure 3000 .transportTimeout "wifi",
    .failure 4000 .cancelledByRace "wifi", .failure 5000 .transportRefused "wifi"]

/-- After two failures the endpoint cools down for half an hour. -/
theorem cooldownUntil_twoFailures :
  (replay unfailedRecord twoFailures).cooldownUntil = some 1805000
  := by
  have h := cooldown_follows_history (S := ℤ) unfailedRecord rfl rfl twoFailures (by decide)
  rw [h.2.1]
  decide

end RvecPolicy

end Paer
