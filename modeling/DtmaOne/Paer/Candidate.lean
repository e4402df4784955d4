import Mathlib.Algebra.Order.Field.Basic
import Mathlib.Data.Int.Cast.Defs
import Mathlib.Order.Lattice

/-!
# Endpoint candidates and their scores

The data of `EndpointModels.kt` and `Scoring.kt`.  The score of a candidate is a `Double`;
the development is generic in the type `S` of scores, of which only the operations the code
applies are asked, with no laws but a linear order.  The exponential and the logarithm of
two are those of the platform, given as `DoubleMath S`.

`String.lowercase` is a table of the platform as well, and is passed around as a function.
-/

namespace Paer

/-! ### Integers -/

/-- The result of an operation on `Int`s. -/
def int32 (n : ℤ) : ℤ := n.bmod (2 ^ 32)

/-- The result of an operation on `Long`s. -/
def int64 (n : ℤ) : ℤ := n.bmod (2 ^ 64)

/-- The values of `Int`. -/
def IsInt32 (n : ℤ) : Prop := -2 ^ 31 ≤ n ∧ n ≤ 2 ^ 31 - 1

/-- The values of `Long`. -/
def IsInt64 (n : ℤ) : Prop := -2 ^ 63 ≤ n ∧ n ≤ 2 ^ 63 - 1

instance (n : ℤ) : Decidable (IsInt32 n) := inferInstanceAs (Decidable (_ ∧ _))

instance (n : ℤ) : Decidable (IsInt64 n) := inferInstanceAs (Decidable (_ ∧ _))

theorem isInt64_int64 (n : ℤ) :
  IsInt64 (int64 n)
  := by
  have hlo := Int.le_bmod (x := n) (m := 2 ^ 64) (by decide)
  have hhi := Int.bmod_lt (x := n) (m := 2 ^ 64) (by decide)
  constructor
  · unfold int64
    omega
  · unfold int64
    omega

/-- An addition that does not overflow. -/
theorem int32_of_isInt32 {n : ℤ} (hn : IsInt32 n) :
  int32 n = n
  := by
  obtain ⟨hlo, hhi⟩ := hn
  unfold int32
  rw [Int.bmod_eq_of_le] <;> omega

/-! ### Candidates -/

/-- `IpFamily` -/
inductive IpFamily where
  | ipv4
  | ipv6
  deriving DecidableEq, Repr

/-- `Transport` -/
inductive Transport where
  | tcp
  | udp
  | quicNotImplemented
  deriving DecidableEq, Repr

/-- The name of a transport, as `Enum.name` and `Enum.toString` give it. -/
def Transport.name : Transport → String
  | .tcp => "TCP"
  | .udp => "UDP"
  | .quicNotImplemented => "QUIC_NOT_IMPLEMENTED"

/-- `CandidateSource` -/
inductive CandidateSource where
  | currentDns
  | httpsSvcb
  | recentlyValidatedCache
  deriving DecidableEq, Repr

/-- `CandidateState` -/
inductive CandidateState where
  | new
  | scheduled
  | connecting
  | transportConnected
  | secureChannelReady
  | selected
  | failed
  | cancelled
  | cooldown
  deriving DecidableEq, Repr

/-- `FailureStage` -/
inductive FailureStage where
  | dnsNoResponse
  | dnsEmpty
  | transportTimeout
  | transportRefused
  | transportReset
  | tlsNotCompleted
  | tlsValidationFailed
  | alpnMismatch
  | applicationTimeout
  | applicationRejected
  | networkLost
  | cancelledByRace
  | unknownFailure
  deriving DecidableEq, Repr

/-- `EndpointCandidate`, with scores in `S`. -/
structure EndpointCandidate (S : Type) where
  hostname : String
  ipAddress : String
  ipFamily : IpFamily
  port : ℤ
  transport : Transport
  alpn : List String := []
  source : CandidateSource
  networkContextId : String
  discoveredAt : ℤ
  lastSuccessAt : Option ℤ := none
  lastFailureAt : Option ℤ := none
  consecutiveFailures : ℤ := 0
  decayedScore : S
  currentState : CandidateState := .new
  cooldownUntil : Option ℤ := none
  deriving DecidableEq, Repr

/-- The candidate comes from the resolution at hand: its source is `CURRENT_DNS` or
`HTTPS_SVCB`. -/
def EndpointCandidate.isFresh {S : Type} (c : EndpointCandidate S) : Bool :=
  c.source = .currentDns || c.source = .httpsSvcb

theorem EndpointCandidate.not_isFresh_of_source {S : Type} {c : EndpointCandidate S}
    (hsource : c.source = .recentlyValidatedCache) :
  c.isFresh = false
  := by
  rw [isFresh, hsource]
  rfl

/-- `PaerLimits.MAX_CACHE_CANDIDATES_PER_HOST` -/
def Default.maxCacheCandidatesPerHost : ℕ := 4

/-- `PaerLimits.MAX_GLOBAL_RVEC_ENTRIES` -/
def Default.maxGlobalRvecEntries : ℕ := 1000

/-- `PaerLimits.MAX_COOLDOWN_HOURS` -/
def Default.maxCooldownHours : ℤ := 24

/-- `PaerLimits`, as far as the planner reads it.  A negative quota makes `take` throw, so
the quota is a natural number. -/
structure PaerLimits where
  maxCacheCandidatesPerHost : ℕ := Default.maxCacheCandidatesPerHost
  deriving DecidableEq, Repr

/-! ### Scoring -/

/-- The functions of `kotlin.math` the score uses. -/
structure DoubleMath (S : Type) where
  /-- `exp` -/
  exp : S → S
  /-- `ln(2.0)` -/
  ln2 : S

/-- `ScoringWeights`.  `cacheTimeFactor` requires a positive half-life, so the weights carry
one. -/
structure ScoringWeights (S : Type) [LT S] [Zero S] where
  currentDns : S
  httpsSvcb : S
  rvec : S
  successCurrentContext1h : S
  successCurrentContext24h : S
  successOtherContext : S
  oneRecentFailure : S
  twoConsecutiveFailures : S
  successfulTransportCurrentContext : S
  successfulIpFamilyCurrentContext : S
  cacheHalfLifeHours : { h : S // 0 < h }

/-- `ScoringWeights.DEFAULT.copy(cacheHalfLifeHours = halfLife)`. -/
def ScoringWeights.default {S : Type} [LT S] [Zero S] [IntCast S]
    (halfLife : { h : S // 0 < h }) : ScoringWeights S where
  currentDns := ((100 : ℤ) : S)
  httpsSvcb := ((95 : ℤ) : S)
  rvec := ((40 : ℤ) : S)
  successCurrentContext1h := ((35 : ℤ) : S)
  successCurrentContext24h := ((20 : ℤ) : S)
  successOtherContext := ((5 : ℤ) : S)
  oneRecentFailure := ((-40 : ℤ) : S)
  twoConsecutiveFailures := ((-100 : ℤ) : S)
  successfulTransportCurrentContext := ((15 : ℤ) : S)
  successfulIpFamilyCurrentContext := ((10 : ℤ) : S)
  cacheHalfLifeHours := halfLife

/-- `ContextPreferences` -/
structure ContextPreferences where
  preferredTransport : Option Transport := none
  preferredIpFamily : Option IpFamily := none
  networkContextId : Option String := none
  deriving DecidableEq, Repr

namespace ScoreCalculator

variable {S : Type} [LinearOrder S] [Zero S] [One S] [Neg S] [Add S] [Mul S] [Div S] [IntCast S]

/-- `ScoreCalculator.cacheTimeFactor` -/
def cacheTimeFactor (math : DoubleMath S) (ageHours : S) (halfLifeHours : { h : S // 0 < h }) :
    S :=
  if ageHours ≤ 0 then 1 else math.exp (-math.ln2 * ageHours / halfLifeHours.1)

/-- `ScoreCalculator.decayedScore` -/
def decayedScore (math : DoubleMath S) (baseCacheScore ageHours : S)
    (halfLifeHours : { h : S // 0 < h }) : S :=
  baseCacheScore * cacheTimeFactor math ageHours halfLifeHours

/-- `ScoreCalculator.baseSourceScore` -/
def baseSourceScore (source : CandidateSource) (weights : ScoringWeights S) : S :=
  match source with
  | .currentDns => weights.currentDns
  | .httpsSvcb => weights.httpsSvcb
  | .recentlyValidatedCache => weights.rvec

/-- The age of a success in hours, as the score computes it. -/
def ageHours (nowMs successAt : ℤ) : S :=
  (max (int64 (nowMs - successAt)) 0 : ℤ) / ((3600000 : ℤ) : S)

/-- The score a candidate starts from: the weight of its source, decayed for a cached
candidate with a recorded success. -/
def startScore (math : DoubleMath S) (candidate : EndpointCandidate S) (nowMs : ℤ)
    (weights : ScoringWeights S) : S :=
  match candidate.source, candidate.lastSuccessAt with
  | .recentlyValidatedCache, some successAt =>
      decayedScore math weights.rvec (ageHours nowMs successAt) weights.cacheHalfLifeHours
  | source, _ => baseSourceScore source weights

/-- Add the bonus for a recorded success. -/
def addSuccess (candidate : EndpointCandidate S) (nowMs : ℤ) (currentContextId : String)
    (weights : ScoringWeights S) (score : S) : S :=
  match candidate.lastSuccessAt with
  | none => score
  | some lastSuccess =>
      let ageMs := int64 (nowMs - lastSuccess)
      let sameContext := candidate.networkContextId = currentContextId
      if sameContext ∧ ageMs ≤ 3600000 then score + weights.successCurrentContext1h
      else if sameContext ∧ ageMs ≤ 86400000 then score + weights.successCurrentContext24h
      else if ¬ sameContext then score + weights.successOtherContext
      else score

/-- Add the penalty for consecutive failures. -/
def addFailures (candidate : EndpointCandidate S) (weights : ScoringWeights S) (score : S) : S :=
  if candidate.consecutiveFailures = 0 then score
  else if candidate.consecutiveFailures = 1 then score + weights.oneRecentFailure
  else score + weights.twoConsecutiveFailures

/-- Add the bonuses for the preferred transport and address family. -/
def addPreferences (candidate : EndpointCandidate S) (currentContextId : String)
    (preferences : ContextPreferences) (weights : ScoringWeights S) (score : S) : S :=
  if preferences.networkContextId = some currentContextId then
    let score :=
      if preferences.preferredTransport = some candidate.transport then
        score + weights.successfulTransportCurrentContext
      else score
    if preferences.preferredIpFamily = some candidate.ipFamily then
      score + weights.successfulIpFamilyCurrentContext
    else score
  else score

/-- `ScoreCalculator.score` -/
def score (math : DoubleMath S) (candidate : EndpointCandidate S) (nowMs : ℤ)
    (currentContextId : String) (preferences : ContextPreferences)
    (weights : ScoringWeights S) : S :=
  addPreferences candidate currentContextId preferences weights
    (addFailures candidate weights
      (addSuccess candidate nowMs currentContextId weights
        (startScore math candidate nowMs weights)))

/-- `ScoreCalculator.withDecayedScore` -/
def withDecayedScore (math : DoubleMath S) (candidate : EndpointCandidate S) (nowMs : ℤ)
    (currentContextId : String) (preferences : ContextPreferences)
    (weights : ScoringWeights S) : EndpointCandidate S :=
  { candidate with
    decayedScore := score math candidate nowMs currentContextId preferences weights }

@[simp]
theorem withDecayedScore_isFresh (math : DoubleMath S) (candidate : EndpointCandidate S)
    (nowMs : ℤ) (currentContextId : String) (preferences : ContextPreferences)
    (weights : ScoringWeights S) :
  (withDecayedScore math candidate nowMs currentContextId preferences weights).isFresh
    = candidate.isFresh
  := rfl

@[simp]
theorem withDecayedScore_source (math : DoubleMath S) (candidate : EndpointCandidate S)
    (nowMs : ℤ) (currentContextId : String) (preferences : ContextPreferences)
    (weights : ScoringWeights S) :
  (withDecayedScore math candidate nowMs currentContextId preferences weights).source
    = candidate.source
  := rfl

end ScoreCalculator

/-! ### Cooldown -/

namespace CooldownPolicy

/-- `CooldownPolicy.cooldownDurationMs` -/
def cooldownDurationMs (consecutiveFailures : ℤ)
    (maxHours : ℤ := Default.maxCooldownHours) : ℤ :=
  let hoursCapMs := maxHours * 3600000
  min
    (if consecutiveFailures ≤ 0 then 0
    else if consecutiveFailures = 1 then 5 * 60000
    else if consecutiveFailures = 2 then 30 * 60000
    else if consecutiveFailures = 3 then 6 * 3600000
    else hoursCapMs)
    hoursCapMs

/-- `CooldownPolicy.isInCooldown` -/
def isInCooldown {S : Type} (candidate : EndpointCandidate S) (nowMs : ℤ) : Bool :=
  match candidate.cooldownUntil with
  | none => false
  | some until_ => nowMs < until_

end CooldownPolicy

end Paer
