import DtmaOne.Library.Text
import DtmaOne.Paer.Candidate

/-!
# Recently validated endpoints

`RvecPolicy`: the record the cache keeps of an endpoint, and how a success and a failure
change it.  A record carries what its constructor requires of the hostname.
-/

namespace Paer

/-- `IpFamily.name` -/
def IpFamily.name : IpFamily → String
  | .ipv4 => "IPV4"
  | .ipv6 => "IPV6"

namespace RvecPolicy

/-- `RvecRecord`, with what its constructor requires. -/
structure RvecRecord where
  hostname : String
  ipAddress : String
  ipFamily : IpFamily
  port : ℤ
  transport : Transport
  alpn : List String
  networkContextId : String
  lastSuccessAt : Option ℤ
  lastFailureAt : Option ℤ
  consecutiveFailures : ℤ
  cooldownUntil : Option ℤ
  discoveredAt : ℤ
  /-- `hostname must not contain path` -/
  noPath : '/' ∉ hostname.toList
  /-- `hostname must not contain query` -/
  noQuery : '?' ∉ hostname.toList
  deriving DecidableEq

variable {S : Type} [Zero S]

/-- `RvecRecord.toCandidate` -/
def RvecRecord.toCandidate (r : RvecRecord) : EndpointCandidate S where
  hostname := r.hostname
  ipAddress := r.ipAddress
  ipFamily := r.ipFamily
  port := r.port
  transport := r.transport
  alpn := r.alpn
  source := .recentlyValidatedCache
  networkContextId := r.networkContextId
  discoveredAt := r.discoveredAt
  lastSuccessAt := r.lastSuccessAt
  lastFailureAt := r.lastFailureAt
  consecutiveFailures := r.consecutiveFailures
  decayedScore := 0
  cooldownUntil := r.cooldownUntil
  currentState :=
    match r.cooldownUntil with
    | some until_ => if 0 < until_ then .cooldown else .new
    | none => .new

/-- `RvecPolicy.onSuccess` -/
def onSuccess (record : RvecRecord) (nowMs : ℤ) (contextId : String) : RvecRecord :=
  { record with
    lastSuccessAt := some nowMs
    lastFailureAt := record.lastFailureAt
    consecutiveFailures := 0
    cooldownUntil := none
    networkContextId := contextId }

/-- `RvecPolicy.onFailure` -/
def onFailure (record : RvecRecord) (nowMs : ℤ) (stage : FailureStage) (contextId : String) :
    RvecRecord :=
  if stage = .cancelledByRace then record
  else
    let failures := int32 (record.consecutiveFailures + 1)
    let cooldown :=
      if failures ≥ 2 then int64 (nowMs + CooldownPolicy.cooldownDurationMs failures)
      else int64 (nowMs + CooldownPolicy.cooldownDurationMs 1)
    { record with
      lastFailureAt := some nowMs
      consecutiveFailures := failures
      cooldownUntil := if failures ≥ 2 then some cooldown else record.cooldownUntil
      networkContextId := contextId }

/-- `RvecPolicy.fromCandidate` -/
def fromCandidate {S : Type} (c : EndpointCandidate S) : RvecRecord where
  hostname := Text.substringBefore '?' (Text.substringBefore '/' c.hostname)
  ipAddress := c.ipAddress
  ipFamily := c.ipFamily
  port := c.port
  transport := c.transport
  alpn := c.alpn
  networkContextId := c.networkContextId
  lastSuccessAt := c.lastSuccessAt
  lastFailureAt := c.lastFailureAt
  consecutiveFailures := c.consecutiveFailures
  cooldownUntil := c.cooldownUntil
  discoveredAt := c.discoveredAt
  noPath hmem := Text.not_mem_substringBefore '/' _ (Text.mem_of_mem_substringBefore hmem)
  noQuery := Text.not_mem_substringBefore '?' _

/-- A record survives the way through a candidate. -/
theorem fromCandidate_toCandidate (r : RvecRecord) :
  fromCandidate (r.toCandidate (S := S)) = r
  := by
  obtain ⟨hostname, ipAddress, ipFamily, port, transport, alpn, networkContextId, lastSuccessAt,
    lastFailureAt, consecutiveFailures, cooldownUntil, discoveredAt, noPath, noQuery⟩ := r
  have hhost : Text.substringBefore '?' (Text.substringBefore '/' hostname) = hostname := by
    rw [Text.substringBefore_of_not_mem noPath, Text.substringBefore_of_not_mem noQuery]
  simp only [fromCandidate, RvecRecord.toCandidate, hhost]

/-- The hostname of a candidate without path and query is kept. -/
theorem fromCandidate_hostname {S : Type} {c : EndpointCandidate S} (hpath : '/' ∉ c.hostname.toList)
    (hquery : '?' ∉ c.hostname.toList) :
  (fromCandidate c).hostname = c.hostname
  := by
  change Text.substringBefore '?' (Text.substringBefore '/' c.hostname) = c.hostname
  rw [Text.substringBefore_of_not_mem hpath, Text.substringBefore_of_not_mem hquery]

end RvecPolicy

end Paer
