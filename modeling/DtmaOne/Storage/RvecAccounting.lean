import DtmaOne.Storage.RvecStore
import Mathlib.Data.List.Dedup
import Mathlib.Data.List.Induction
import Mathlib.Data.List.Perm.Subperm

/-!
# The failure accounting of the store

What the store is for: for every endpoint, the number of its failures since its last success,
and the cooldown that follows from it.  The calls are those of a fresh resolution: candidates
of the current DNS answer, without failures and cooldown.

The store keeps the accounts as long as `saveFailure` takes no row of another endpoint with the
same address and port for the one it looks for, and misses the row, because it is not among the
four most recent ones of its host, only while it has no failures.
-/

namespace Storage

open Paer Paer.RvecPolicy

/-! ### The calls -/

/-- A candidate of the current DNS answer. -/
structure DnsCandidate (S : Type) where
  candidate : EndpointCandidate S
  source : candidate.source = .currentDns
  noFailures : candidate.consecutiveFailures = 0
  noCooldown : candidate.cooldownUntil = none
  port : IsInt32 candidate.port
  discoveredAt : IsInt64 candidate.discoveredAt
  lastSuccessAt : ∀ n ∈ candidate.lastSuccessAt, IsInt64 n
  lastFailureAt : ∀ n ∈ candidate.lastFailureAt, IsInt64 n

/-- A call of `saveFailure`, or of `saveSuccess` if there is no stage, with the time and the
initialisation vector its `upsert` uses. -/
structure Call (S : Type) where
  dns : DnsCandidate S
  nowMs : ℤ
  contextId : String
  stage : Option FailureStage
  updatedAt : ℤ
  iv : ℕ
  isLong : IsInt64 nowMs

section Accounting

variable {S : Type} (lowercase : String → String) (crypto : RvecCrypto)

/-- The endpoint of a call. -/
def Call.endpoint (c : Call S) : Endpoint :=
  ⟨lowercase c.dns.candidate.hostname, c.dns.candidate.ipAddress, c.dns.candidate.port,
    c.dns.candidate.transport⟩

/-- The table after a call. -/
def perform [Zero S] (table : Table) (c : Call S) : Table :=
  match c.stage with
  | none =>
      saveSuccess lowercase crypto table c.dns.candidate c.nowMs c.contextId c.updatedAt c.iv
  | some stage =>
      saveFailure lowercase crypto table c.dns.candidate c.nowMs c.contextId stage c.updatedAt c.iv

/-- A call as a step of a run. -/
def step [Zero S] (table : Table) (c : Call S) : Option Table :=
  some (perform lowercase crypto table c)

/-! ### The account of an endpoint -/

/-- The failures of `e` since its last success, the latest first. -/
def sinceSuccess (e : Endpoint) (calls : List (Call S)) : List (Call S) :=
  (calls.filter fun c => c.endpoint lowercase = e).reverse.takeWhile fun c => c.stage.isSome

/-- A call that was not cancelled by the race. -/
def Call.counts (c : Call S) : Bool :=
  c.stage ≠ some .cancelledByRace

/-- The number of failures of `e` since its last success. -/
def ownFailures (e : Endpoint) (calls : List (Call S)) : ℕ :=
  (sinceSuccess lowercase e calls).countP Call.counts

/-- The time of the last failure of `e` since its last success. -/
def lastFailure (e : Endpoint) (calls : List (Call S)) : Option ℤ :=
  ((sinceSuccess lowercase e calls).find? Call.counts).map Call.nowMs

/-- The cooldown of `e`: none below two failures. -/
def ownCooldown (e : Endpoint) (calls : List (Call S)) : Option ℤ :=
  if 2 ≤ ownFailures lowercase e calls then
    (lastFailure lowercase e calls).map fun t =>
      int64 (t + CooldownPolicy.cooldownDurationMs (ownFailures lowercase e calls))
  else none

/-- The record keeps the account of `e`. -/
def Accounts (e : Endpoint) (calls : List (Call S)) (r : RvecRecord) : Prop :=
  r.consecutiveFailures = ownFailures lowercase e calls ∧
    r.cooldownUntil = ownCooldown lowercase e calls

/-- The endpoints that were called. -/
def endpoints (calls : List (Call S)) : List Endpoint :=
  calls.map (Call.endpoint lowercase)

variable {lowercase}

theorem sinceSuccess_of_ne {e : Endpoint} {calls : List (Call S)} {c : Call S}
    (hne : c.endpoint lowercase ≠ e) :
  sinceSuccess lowercase e (calls ++ [c]) = sinceSuccess lowercase e calls
  := by
  simp [sinceSuccess, hne]

theorem sinceSuccess_success {calls : List (Call S)} {c : Call S} (hstage : c.stage = none) :
  sinceSuccess lowercase (c.endpoint lowercase) (calls ++ [c]) = []
  := by
  simp [sinceSuccess, hstage]

theorem sinceSuccess_failure {calls : List (Call S)} {c : Call S} {stage : FailureStage}
    (hstage : c.stage = some stage) :
  sinceSuccess lowercase (c.endpoint lowercase) (calls ++ [c])
    = c :: sinceSuccess lowercase (c.endpoint lowercase) calls
  := by
  simp [sinceSuccess, hstage]

theorem sinceSuccess_of_not_mem {e : Endpoint} {calls : List (Call S)}
    (he : e ∉ endpoints lowercase calls) :
  sinceSuccess lowercase e calls = []
  := by
  have hnil : calls.filter (fun c => c.endpoint lowercase = e) = [] := by
    rw [List.filter_eq_nil_iff]
    intro c hc
    rw [decide_eq_true_iff]
    intro heq
    apply he
    exact List.mem_map.mpr ⟨c, hc, heq⟩
  rw [sinceSuccess, hnil]
  rfl

/-- A call for another endpoint leaves the account. -/
theorem accounts_of_ne {e : Endpoint} {calls : List (Call S)} {c : Call S} {r : RvecRecord}
    (hne : c.endpoint lowercase ≠ e) (h : Accounts lowercase e calls r) :
  Accounts lowercase e (calls ++ [c]) r
  := by
  unfold Accounts ownCooldown lastFailure ownFailures at *
  rw [sinceSuccess_of_ne hne]
  apply h

/-- A record without failures keeps the account of an endpoint without failures. -/
theorem accounts_of_sinceSuccess_eq_nil {e : Endpoint} {calls : List (Call S)} {r : RvecRecord}
    (hnil : sinceSuccess lowercase e calls = []) (hfailures : r.consecutiveFailures = 0)
    (hcooldown : r.cooldownUntil = none) :
  Accounts lowercase e calls r
  := by
  unfold Accounts ownCooldown ownFailures
  rw [hnil, hfailures, hcooldown]
  exact ⟨rfl, rfl⟩

/-- Where a record without failures keeps the account, any other one without failures and
cooldown does. -/
theorem accounts_of_accounts {e : Endpoint} {calls : List (Call S)} {r r' : RvecRecord}
    (h : Accounts lowercase e calls r) (hzero : r.consecutiveFailures = 0)
    (hfailures : r'.consecutiveFailures = 0) (hcooldown : r'.cooldownUntil = none) :
  Accounts lowercase e calls r'
  := by
  have hnone : ownFailures lowercase e calls = 0 := by
    have hcount := h.1
    rw [hzero] at hcount
    omega
  unfold Accounts ownCooldown
  rw [hnone, hfailures, hcooldown]
  exact ⟨rfl, rfl⟩

/-- `onFailure` keeps the account, if the count does not overflow. -/
theorem accounts_onFailure {calls : List (Call S)} {c : Call S} {stage : FailureStage}
    {r : RvecRecord} (hstage : c.stage = some stage)
    (h : Accounts lowercase (c.endpoint lowercase) calls r)
    (hroom : stage ≠ .cancelledByRace → IsInt32 (r.consecutiveFailures + 1)) :
  Accounts lowercase (c.endpoint lowercase) (calls ++ [c]) (onFailure r c.nowMs stage c.contextId)
  := by
  obtain ⟨hcount, hcooldown⟩ := h
  unfold Accounts ownCooldown lastFailure ownFailures at *
  rw [sinceSuccess_failure hstage]
  by_cases hcancelled : stage = .cancelledByRace
  · have hcounts : c.counts = false := by
      simp [Call.counts, hstage, hcancelled]
    rw [onFailure, if_pos hcancelled, List.countP_cons_of_neg (by simp [hcounts]),
      List.find?_cons_of_neg (by simp [hcounts])]
    exact ⟨hcount, hcooldown⟩
  · have hcounts : c.counts = true := by
      simp [Call.counts, hstage, hcancelled]
    have hfailures := int32_of_isInt32 (hroom hcancelled)
    rw [onFailure, if_neg hcancelled, List.countP_cons_of_pos (by simp [hcounts]),
      List.find?_cons_of_pos (by simp [hcounts])]
    rw [hcount] at hfailures
    simp only [hcount, hcooldown]
    generalize List.countP Call.counts _ = n at *
    rw [hfailures]
    constructor
    · simp
    · by_cases htwo : 2 ≤ n + 1
      · rw [if_pos htwo, if_pos (by omega), if_pos (by omega)]
        simp
      · rw [if_neg htwo, if_neg (by omega), if_neg (by omega)]

/-! ### The keys of the rows -/

/-- The separator of the key occurs in no text of the endpoint. -/
def Endpoint.Clean (e : Endpoint) : Prop :=
  '|' ∉ e.host.toList ∧ '|' ∉ e.ipAddress.toList

instance (e : Endpoint) : Decidable e.Clean := inferInstanceAs (Decidable (_ ∧ _))

theorem transport_name_injective {t t' : Transport} (h : t.name = t'.name) :
  t = t'
  := by
  apply Option.some.inj
  rw [← transportValueOf_name t, h, transportValueOf_name]

theorem not_mem_port (n : ℤ) :
  '|' ∉ (toString n).toList
  := Text.not_mem_toString (by decide) (by decide) n

theorem not_mem_transport (t : Transport) :
  '|' ∉ t.name.toList
  := by
  cases t <;> decide

/-- The key has a separator more than its texts for every field but the first. -/
theorem Endpoint.count_id (e : Endpoint) :
  e.id.toList.count '|' = e.host.toList.count '|' + e.ipAddress.toList.count '|' + 3
  := by
  have hport := List.count_eq_zero_of_not_mem (not_mem_port e.port)
  have htransport := List.count_eq_zero_of_not_mem (not_mem_transport e.transport)
  simp only [Endpoint.id, Text.toList_joinToString, List.map_cons, List.map_nil,
    List.intercalate_cons_cons, List.intercalate_singleton, List.count_append, hport, htransport,
    List.count_singleton_self]
  omega

theorem Endpoint.Clean.split_id {e : Endpoint} (he : e.Clean) :
  Text.split '|' e.id = [e.host, e.ipAddress, toString e.port, e.transport.name]
  := by
  apply Text.split_joinToString _ _ (List.cons_ne_nil _ _)
  simp only [List.forall_mem_cons, List.not_mem_nil, false_imp_iff, implies_true, and_true]
  exact ⟨he.1, he.2, not_mem_port _, not_mem_transport _⟩

/-- The key of an endpoint without separators is the key of no other endpoint. -/
theorem Endpoint.eq_of_id_eq {e e' : Endpoint} (he : e.Clean) (h : e'.id = e.id) :
  e' = e
  := by
  have he' : e'.Clean := by
    have hcount := e'.count_id
    rw [h, e.count_id, List.count_eq_zero_of_not_mem he.1, List.count_eq_zero_of_not_mem he.2]
      at hcount
    constructor <;> apply List.count_eq_zero.mp <;> omega
  have hsplit := he'.split_id
  rw [h, he.split_id] at hsplit
  obtain ⟨host, ipAddress, port, transport⟩ := e
  obtain ⟨host', ipAddress', port', transport'⟩ := e'
  simp only [List.cons.injEq, and_true] at hsplit
  obtain ⟨rfl, rfl, hport, htransport⟩ := hsplit
  obtain rfl := Text.toString_injective hport
  obtain rfl := transport_name_injective htransport
  rfl

/-! ### The rows keep the accounts -/

variable (lowercase)

/-- The row holds a record of `e` that keeps its account. -/
structure Stored (e : Endpoint) (calls : List (Call S)) (row : RvecEntity) (r : RvecRecord) :
    Prop where
  decrypts : decryptRecord crypto row = some r
  endpoint : recordEndpoint lowercase r = e
  id : row.id = e.id
  hash : row.hostnameHash = hostnameHash e.host
  inRange : InRange r
  separable : Separable r
  accounts : Accounts lowercase e calls r

/-- The table has one row for every endpoint that was called, and it keeps the account. -/
structure Tracks (calls : List (Call S)) (table : Table) : Prop where
  rows : ∀ row ∈ table, ∃ e ∈ endpoints lowercase calls, ∃ r, Stored lowercase crypto e calls row r
  called : ∀ e ∈ endpoints lowercase calls, ∃ row ∈ table, row.id = e.id
  clean : ∀ e ∈ endpoints lowercase calls, e.Clean
  nodup : (table.map (·.id)).Nodup

/-- The row has a record with the address and the port of the call. -/
def Call.matches (c : Call S) (row : RvecEntity) : Bool :=
  (decryptRecord crypto row).any fun r =>
    r.ipAddress = c.dns.candidate.ipAddress ∧ r.port = c.dns.candidate.port

/-- The row `saveFailure` finds: the first of the most recent rows of the host with the address
and the port of the call. -/
def Call.found (table : Table) (c : Call S) : Option RvecEntity :=
  (RvecDao.forHost table (hostnameHash (c.endpoint lowercase).host)
    Default.maxCacheCandidatesPerHost).find? (c.matches crypto)

/-- The records stored under the key of the endpoint of the call. -/
def Call.ownRecords (table : Table) (c : Call S) : List RvecRecord :=
  (table.filter fun row => row.id = (c.endpoint lowercase).id).filterMap (decryptRecord crypto)

/-- The call has texts that can be stored, and if it is a failure, then the row it finds is the
one of its endpoint, it misses that row only while it has no failures, and the count does not
overflow. -/
@[mk_iff]
structure Undisturbed (table : Table) (c : Call S) : Prop where
  noPath : '/' ∉ c.dns.candidate.hostname.toList
  noQuery : '?' ∉ c.dns.candidate.hostname.toList
  clean : (c.endpoint lowercase).Clean
  separable : Separable (fromCandidate c.dns.candidate)
  contextId : fieldSeparator ∉ c.contextId.toList
  own : c.stage.isSome →
    ∀ row ∈ c.found lowercase crypto table, row.id = (c.endpoint lowercase).id
  missed : c.stage.isSome → c.found lowercase crypto table = none →
    ∀ r ∈ c.ownRecords lowercase crypto table, r.consecutiveFailures = 0
  room : c.stage.isSome → c.counts →
    ∀ r ∈ c.ownRecords lowercase crypto table, r.consecutiveFailures < 2 ^ 31 - 1

variable {lowercase crypto}

instance (table : Table) (c : Call S) : Decidable (Undisturbed lowercase crypto table c) :=
  decidable_of_iff _ (undisturbed_iff lowercase crypto table c).symm

theorem tracks_nil :
  Tracks lowercase crypto ([] : List (Call S)) []
  := by
  constructor <;> simp [endpoints]

theorem recordEndpoint_fromCandidate {table : Table} {c : Call S}
    (hc : Undisturbed lowercase crypto table c) :
  recordEndpoint lowercase (fromCandidate c.dns.candidate) = c.endpoint lowercase
  := by
  rw [recordEndpoint, fromCandidate_hostname hc.noPath hc.noQuery]
  rfl

theorem inRange_fromCandidate (d : DnsCandidate S) :
  InRange (fromCandidate d.candidate)
  := by
  refine ⟨d.port, ?_, d.discoveredAt, d.lastSuccessAt, d.lastFailureAt, ?_⟩
  · change IsInt32 d.candidate.consecutiveFailures
    rw [d.noFailures]
    decide
  · intro n hn
    change n ∈ d.candidate.cooldownUntil at hn
    rw [d.noCooldown] at hn
    cases hn

theorem inRange_onSuccess {r : RvecRecord} (hr : InRange r) {nowMs : ℤ} (hnow : IsInt64 nowMs)
    (contextId : String) :
  InRange (onSuccess r nowMs contextId)
  := by
  refine ⟨hr.port, by change IsInt32 0; decide, hr.discoveredAt, ?_, hr.lastFailureAt, ?_⟩
  · rintro n ⟨⟩
    apply hnow
  · rintro n ⟨⟩

theorem separable_onSuccess {r : RvecRecord} (hr : Separable r) {contextId : String}
    (hcontext : fieldSeparator ∉ contextId.toList) (nowMs : ℤ) :
  Separable (onSuccess r nowMs contextId)
  := ⟨hr.hostname, hr.ipAddress, hr.alpn, hcontext⟩

theorem inRange_onFailure {r : RvecRecord} (hr : InRange r) {nowMs : ℤ} (hnow : IsInt64 nowMs)
    {stage : FailureStage}
    (hroom : stage ≠ .cancelledByRace → IsInt32 (r.consecutiveFailures + 1)) (contextId : String) :
  InRange (onFailure r nowMs stage contextId)
  := by
  unfold onFailure
  split_ifs with hcancelled
  · apply hr
  · refine ⟨hr.port, ?_, hr.discoveredAt, hr.lastSuccessAt, ?_, ?_⟩
    · change IsInt32 (int32 (r.consecutiveFailures + 1))
      rw [int32_of_isInt32 (hroom hcancelled)]
      apply hroom hcancelled
    · rintro n ⟨⟩
      apply hnow
    · intro n hn
      simp only [Option.mem_def] at hn
      split_ifs at hn with htwo
      · obtain rfl := Option.some.inj hn
        apply isInt64_int64
      · apply hr.cooldownUntil n hn

theorem separable_onFailure {r : RvecRecord} (hr : Separable r) {contextId : String}
    (hcontext : fieldSeparator ∉ contextId.toList) (nowMs : ℤ) (stage : FailureStage) :
  Separable (onFailure r nowMs stage contextId)
  := by
  unfold onFailure
  split_ifs
  · apply hr
  · exact ⟨hr.hostname, hr.ipAddress, hr.alpn, hcontext⟩

theorem recordEndpoint_onFailure (r : RvecRecord) (nowMs : ℤ) (stage : FailureStage)
    (contextId : String) :
  recordEndpoint lowercase (onFailure r nowMs stage contextId) = recordEndpoint lowercase r
  := by
  unfold onFailure
  split_ifs <;> rfl

/-- The row written for a record holds the record, up to its application protocols. -/
theorem stored_entityOf {calls : List (Call S)} {r : RvecRecord} {e : Endpoint}
    (hendpoint : recordEndpoint lowercase r = e) (hrange : InRange r) (hseparable : Separable r)
    (haccounts : Accounts lowercase e calls r) (updatedAt : ℤ) (iv : ℕ) :
  ∃ r', Stored lowercase crypto e calls (entityOf lowercase crypto r updatedAt iv) r'
  := by
  use { r with alpn := storedAlpn r.alpn }
  refine ⟨?_, hendpoint, ?_, ?_, ?_, separable_storedAlpn hseparable, haccounts⟩
  · rw [decryptRecord, entityOf, crypto.decrypt_encrypt, Option.bind_some,
      deserialize_serialize hrange hseparable]
  · rw [← hendpoint]
    rfl
  · rw [← hendpoint]
    rfl
  · exact ⟨hrange.port, hrange.consecutiveFailures, hrange.discoveredAt, hrange.lastSuccessAt,
      hrange.lastFailureAt, hrange.cooldownUntil⟩

/-- Writing the row of the called endpoint keeps the table in order. -/
theorem tracks_upsert {calls : List (Call S)} {table : Table} {c : Call S} {r : RvecRecord}
    (h : Tracks lowercase crypto calls table) (hclean : (c.endpoint lowercase).Clean)
    (hendpoint : recordEndpoint lowercase r = c.endpoint lowercase) (hrange : InRange r)
    (hseparable : Separable r)
    (haccounts : Accounts lowercase (c.endpoint lowercase) (calls ++ [c]) r) :
  Tracks lowercase crypto (calls ++ [c]) (upsert lowercase crypto table r c.updatedAt c.iv)
  := by
  obtain ⟨r', hr'⟩ : ∃ r', Stored lowercase crypto (c.endpoint lowercase) (calls ++ [c])
      (entityOf lowercase crypto r c.updatedAt c.iv) r' :=
    stored_entityOf hendpoint hrange hseparable haccounts c.updatedAt c.iv
  have hends : endpoints lowercase (calls ++ [c])
      = endpoints lowercase calls ++ [c.endpoint lowercase] := by
    simp [endpoints]
  have hid : (entityOf lowercase crypto r c.updatedAt c.iv).id = (c.endpoint lowercase).id := hr'.id
  refine ⟨?_, ?_, ?_, ?_⟩
  · intro row hrow
    rw [hends]
    rw [upsert, RvecDao.upsert, List.mem_append, List.mem_filter, List.mem_singleton] at hrow
    obtain ⟨hmem, hne⟩ | rfl := hrow
    · obtain ⟨e, he, q, hq⟩ := h.rows row hmem
      use e, List.mem_append_left _ he, q
      have hother : c.endpoint lowercase ≠ e := by
        rintro rfl
        rw [decide_eq_true_iff, hid, hq.id] at hne
        apply hne rfl
      exact ⟨hq.decrypts, hq.endpoint, hq.id, hq.hash, hq.inRange, hq.separable,
        accounts_of_ne hother hq.accounts⟩
    · exact ⟨c.endpoint lowercase, List.mem_append_right _ List.mem_cons_self, r', hr'⟩
  · intro e he
    rw [hends, List.mem_append, List.mem_singleton] at he
    by_cases heq : e.id = (c.endpoint lowercase).id
    · use entityOf lowercase crypto r c.updatedAt c.iv
      use List.mem_append_right _ List.mem_cons_self
      rw [hid, heq]
    · obtain he | rfl := he
      · obtain ⟨row, hrow, hrowid⟩ := h.called e he
        use row
        constructor
        · apply List.mem_append_left
          rw [List.mem_filter, decide_eq_true_iff, hid, hrowid]
          exact ⟨hrow, heq⟩
        · apply hrowid
      · exact absurd rfl heq
  · intro e he
    rw [hends, List.mem_append, List.mem_singleton] at he
    obtain he | rfl := he
    · apply h.clean e he
    · apply hclean
  · apply Collections.nodup_filter_append _ h.nodup

/-- The table has no more rows than endpoints were called. -/
theorem length_le_of_tracks {calls : List (Call S)} {table : Table}
    (h : Tracks lowercase crypto calls table) :
  table.length ≤ (endpoints lowercase calls).dedup.length
  := by
  have hsubset : table.map (·.id) ⊆ (endpoints lowercase calls).dedup.map Endpoint.id := by
    intro i hi
    obtain ⟨row, hrow, rfl⟩ := List.mem_map.mp hi
    obtain ⟨e, he, r, hr⟩ := h.rows row hrow
    rw [hr.id]
    apply List.mem_map_of_mem
    apply List.mem_dedup.mpr he
  have hle := (List.subperm_of_subset h.nodup hsubset).length_le
  simpa using hle

theorem row_eq_some {table : Table} (hnodup : (table.map (·.id)).Nodup) {row : RvecEntity}
    (hrow : row ∈ table) :
  RvecDao.row table row.id = some row
  := by
  induction table with
  | nil => cases hrow
  | cons first table ih =>
      rw [List.map_cons, List.nodup_cons] at hnodup
      rw [RvecDao.row, List.find?_cons]
      obtain rfl | hmem := List.mem_cons.mp hrow
      · simp
      · have hne : first.id ≠ row.id := by
          intro heq
          apply hnodup.1
          rw [heq]
          exact List.mem_map.mpr ⟨row, hmem, rfl⟩
        simp only [hne, decide_false]
        apply ih hnodup.2 hmem

/-- A row with the key of the called endpoint holds its record. -/
theorem stored_of_id {calls : List (Call S)} {table : Table} {e : Endpoint}
    (h : Tracks lowercase crypto calls table) {row : RvecEntity} (hrow : row ∈ table)
    (hid : row.id = e.id) :
  e ∈ endpoints lowercase calls ∧ ∃ r, Stored lowercase crypto e calls row r
  := by
  obtain ⟨e', he', r, hr⟩ := h.rows row hrow
  have heq : e = e' := by
    apply Endpoint.eq_of_id_eq (h.clean e' he')
    rw [← hid, hr.id]
  rw [heq]
  exact ⟨he', r, hr⟩

theorem mem_ownRecords {table : Table} {c : Call S} {row : RvecEntity} {r : RvecRecord}
    (hrow : row ∈ table) (hid : row.id = (c.endpoint lowercase).id)
    (hr : decryptRecord crypto row = some r) :
  r ∈ c.ownRecords lowercase crypto table
  := by
  apply List.mem_filterMap.mpr
  use row
  rw [List.mem_filter, decide_eq_true_iff]
  exact ⟨⟨hrow, hid⟩, hr⟩

/-- The record `saveFailure` counts on is that of the row it finds. -/
theorem failureBase_eq [Zero S] (table : Table) (c : Call S) :
  failureBase lowercase crypto table c.dns.candidate
    = (((c.found lowercase crypto table).bind (decryptRecord crypto)).getD
        (fromCandidate c.dns.candidate))
  := by
  have hfind : (listForHost lowercase crypto table c.dns.candidate.hostname).find?
      (fun it : EndpointCandidate S =>
        decide (it.ipAddress = c.dns.candidate.ipAddress ∧ it.port = c.dns.candidate.port))
      = (c.found lowercase crypto table).bind (decryptEntity crypto) := by
    rw [listForHost, List.find?_filterMap, Call.found]
    congr 2
    funext row
    simp only [decryptEntity, Call.matches, Option.any_map]
    rfl
  unfold failureBase
  rw [hfind]
  cases c.found lowercase crypto table with
  | none => rfl
  | some row =>
      rw [Option.bind_some, Option.bind_some, decryptEntity]
      cases decryptRecord crypto row with
      | none => rfl
      | some r => apply fromCandidate_toCandidate

/-- `saveFailure` counts on the record of the called endpoint, or on the candidate if there is
none or it has no failures; both keep the account. -/
theorem failureBase_spec [Zero S] {calls : List (Call S)} {table : Table} {c : Call S}
    {stage : FailureStage} (h : Tracks lowercase crypto calls table)
    (hc : Undisturbed lowercase crypto table c) (hstage : c.stage = some stage) :
  let base := failureBase lowercase crypto table c.dns.candidate
  recordEndpoint lowercase base = c.endpoint lowercase ∧ InRange base ∧ Separable base ∧
    Accounts lowercase (c.endpoint lowercase) calls base ∧
    (stage ≠ .cancelledByRace → IsInt32 (base.consecutiveFailures + 1))
  := by
  have hsome : c.stage.isSome := by
    rw [hstage]
    rfl
  rw [failureBase_eq]
  cases hfound : c.found lowercase crypto table with
  | some row =>
      have hid := hc.own hsome row hfound
      have hmem : row ∈ table :=
        (RvecDao.mem_of_mem_forHost (List.mem_of_find?_eq_some hfound)).1
      obtain ⟨-, r, hr⟩ := stored_of_id h hmem hid
      rw [Option.bind_some, hr.decrypts, Option.getD_some]
      refine ⟨hr.endpoint, hr.inRange, hr.separable, hr.accounts, ?_⟩
      intro hcounted
      have hcounts : c.counts := by
        simp [Call.counts, hstage, hcounted]
      have hroom := hc.room hsome hcounts r (mem_ownRecords hmem hid hr.decrypts)
      have hlow := hr.inRange.consecutiveFailures.1
      exact ⟨by omega, by omega⟩
  | none =>
      refine ⟨recordEndpoint_fromCandidate hc, inRange_fromCandidate c.dns, hc.separable, ?_, ?_⟩
      · by_cases hcalled : c.endpoint lowercase ∈ endpoints lowercase calls
        · obtain ⟨row, hrow, hid⟩ := h.called _ hcalled
          obtain ⟨-, r, hr⟩ := stored_of_id h hrow hid
          have hzero := hc.missed hsome hfound r (mem_ownRecords hrow hid hr.decrypts)
          apply accounts_of_accounts hr.accounts hzero c.dns.noFailures c.dns.noCooldown
        · apply accounts_of_sinceSuccess_eq_nil (sinceSuccess_of_not_mem hcalled) c.dns.noFailures
            c.dns.noCooldown
      · intro _
        change IsInt32 (c.dns.candidate.consecutiveFailures + 1)
        rw [c.dns.noFailures]
        decide

/-! ### What the store keeps over a run -/

theorem row_perform_aux {table : Table} {r : RvecRecord} {e : Endpoint}
    (hendpoint : recordEndpoint lowercase r = e) (updatedAt : ℤ) (iv : ℕ) {id : String}
    (hne : id ≠ e.id) :
  RvecDao.row (upsert lowercase crypto table r updatedAt iv) id = RvecDao.row table id
  := by
  apply RvecDao.row_upsert_of_ne
  rw [entityOf, hendpoint]
  apply hne

/-- A call keeps the table in order and touches only the row of its endpoint. -/
theorem tracks_perform [Zero S] {calls : List (Call S)} {table : Table} {c : Call S}
    (h : Tracks lowercase crypto calls table) (hc : Undisturbed lowercase crypto table c)
    (hfew : (endpoints lowercase (calls ++ [c])).dedup.length ≤ Default.maxGlobalRvecEntries) :
  Tracks lowercase crypto (calls ++ [c]) (perform lowercase crypto table c) ∧
    ∀ id, id ≠ (c.endpoint lowercase).id →
      RvecDao.row (perform lowercase crypto table c) id = RvecDao.row table id
  := by
  cases hstage : c.stage with
  | none =>
      have hendpoint : recordEndpoint lowercase
          (onSuccess (fromCandidate c.dns.candidate) c.nowMs c.contextId) = c.endpoint lowercase :=
        recordEndpoint_fromCandidate hc
      have htracks := tracks_upsert h hc.clean hendpoint
        (inRange_onSuccess (inRange_fromCandidate c.dns) c.isLong c.contextId)
        (separable_onSuccess hc.separable hc.contextId c.nowMs)
        (accounts_of_sinceSuccess_eq_nil (sinceSuccess_success hstage) rfl rfl)
      have htrim := RvecDao.trim_of_length_le ((length_le_of_tracks htracks).trans hfew)
      simp only [perform, hstage, saveSuccess, htrim]
      exact ⟨htracks, fun id hne => row_perform_aux hendpoint c.updatedAt c.iv hne⟩
  | some stage =>
      obtain ⟨hbase, hrange, hseparable, haccounts, hroom⟩ := failureBase_spec h hc hstage
      have hendpoint : recordEndpoint lowercase (onFailure
          (failureBase lowercase crypto table c.dns.candidate) c.nowMs stage c.contextId)
            = c.endpoint lowercase := by
        rw [recordEndpoint_onFailure, hbase]
      simp only [perform, hstage, saveFailure]
      constructor
      · apply tracks_upsert h hc.clean hendpoint
        · apply inRange_onFailure hrange c.isLong hroom
        · apply separable_onFailure hseparable hc.contextId
        · apply accounts_onFailure hstage haccounts hroom
      · intro id hne
        apply row_perform_aux hendpoint c.updatedAt c.iv hne

variable (lowercase crypto)

/-- The failures and the cooldown the table has stored for an endpoint. -/
def storedAccount (table : Table) (e : Endpoint) : Option (ℤ × Option ℤ) :=
  ((RvecDao.row table e.id).bind (decryptRecord crypto)).map fun r =>
    (r.consecutiveFailures, r.cooldownUntil)

/-- The account of an endpoint after the calls, if it was called. -/
def account (calls : List (Call S)) (e : Endpoint) : Option (ℤ × Option ℤ) :=
  if e ∈ endpoints lowercase calls then
    some (ownFailures lowercase e calls, ownCooldown lowercase e calls)
  else none

variable {lowercase crypto}

theorem storedAccount_of_tracks {calls : List (Call S)} {table : Table}
    (h : Tracks lowercase crypto calls table) (e : Endpoint) :
  storedAccount crypto table e = account lowercase calls e
  := by
  unfold storedAccount account
  split_ifs with he
  · obtain ⟨row, hrow, hid⟩ := h.called e he
    obtain ⟨-, r, hr⟩ := stored_of_id h hrow hid
    rw [← hid, row_eq_some h.nodup hrow, Option.bind_some, hr.decrypts, Option.map_some,
      hr.accounts.1, hr.accounts.2]
  · cases hrow : RvecDao.row table e.id with
    | none => rfl
    | some row =>
        have hid := List.find?_some hrow
        rw [decide_eq_true_iff] at hid
        exact absurd (stored_of_id h (List.mem_of_find?_eq_some hrow) hid).1 he

theorem dedup_length_mono {pre calls : List (Call S)} (hpre : pre <+: calls) :
  (endpoints lowercase pre).dedup.length ≤ (endpoints lowercase calls).dedup.length
  := by
  apply List.Subperm.length_le
  apply List.subperm_of_subset (List.nodup_dedup _)
  intro e he
  rw [List.mem_dedup] at *
  apply (hpre.map _).subset he

theorem tracks_run [Zero S] {calls : List (Call S)}
    (hfew : (endpoints lowercase calls).dedup.length ≤ Default.maxGlobalRvecEntries)
    (hmeets : Run.Meets (step lowercase crypto) (Undisturbed lowercase crypto) [] calls)
    (pre : List (Call S)) (hpre : pre <+: calls) :
  ∃ table, Run.exec (step lowercase crypto) [] pre = some table ∧ Tracks lowercase crypto pre table
  := by
  induction pre using List.reverseRecOn with
  | nil => exact ⟨[], rfl, tracks_nil⟩
  | append_singleton pre c ih =>
      obtain ⟨table, hrun, htracks⟩ := ih ((List.prefix_append pre [c]).trans hpre)
      have hc : Undisturbed lowercase crypto table c := Run.ok_of_meets hmeets hpre hrun
      use perform lowercase crypto table c
      constructor
      · rw [Run.exec_append, hrun]
        rfl
      · apply (tracks_perform htracks hc ((dedup_length_mono hpre).trans hfew)).1

/-- In every run whose calls are all undisturbed and that has at most as many endpoints as the
table may have rows, after every call the table has stored for every endpoint its failures
since its last success and the cooldown these give, and a call changes no row but that of its
endpoint. -/
theorem storedAccount_run [Zero S] (lowercase : String → String) (crypto : RvecCrypto)
    (calls : List (Call S))
    (hfew : (endpoints lowercase calls).dedup.length ≤ Default.maxGlobalRvecEntries)
    (hmeets : Run.Meets (step lowercase crypto) (Undisturbed lowercase crypto) [] calls)
    (pre : List (Call S)) (hpre : pre <+: calls) :
  ∃ table, Run.exec (step lowercase crypto) [] pre = some table ∧
    (∀ e, storedAccount crypto table e = account lowercase pre e) ∧
    ∀ c, pre ++ [c] <+: calls → ∀ id, id ≠ (c.endpoint lowercase).id →
      RvecDao.row (perform lowercase crypto table c) id = RvecDao.row table id
  := by
  obtain ⟨table, hrun, htracks⟩ := tracks_run hfew hmeets pre hpre
  refine ⟨table, hrun, storedAccount_of_tracks htracks, ?_⟩
  intro c hc
  apply (tracks_perform htracks (Run.ok_of_meets hmeets hc hrun)
    ((dedup_length_mono hc).trans hfew)).2

end Accounting

/-! ### Five addresses of one host -/

/-- A cipher that leaves the text as it is. -/
def plainText : RvecCrypto where
  encrypt _ plain := plain
  decrypt blob := some blob
  decrypt_encrypt _ _ := rfl

/-- A candidate for an address of `example.org`. -/
def exampleCandidate (ipAddress : String) : DnsCandidate ℤ where
  candidate :=
    { hostname := "example.org"
      ipAddress := ipAddress
      ipFamily := .ipv4
      port := 443
      transport := .tcp
      source := .currentDns
      networkContextId := "wifi"
      discoveredAt := 0
      decayedScore := 0 }
  source := rfl
  noFailures := rfl
  noCooldown := rfl
  port := by
    change IsInt32 443
    decide
  discoveredAt := by
    change IsInt64 0
    decide
  lastSuccessAt := by
    rintro n ⟨⟩
  lastFailureAt := by
    rintro n ⟨⟩

/-- A timeout of an address of `example.org` in the given millisecond. -/
def timeout (ipAddress : String) (t : Fin 1000) : Call ℤ where
  dns := exampleCandidate ipAddress
  nowMs := t
  contextId := "wifi"
  stage := some .transportTimeout
  updatedAt := t
  iv := t
  isLong := ⟨by omega, by omega⟩

/-- A timeout of the first address, of four others, and of the first again. -/
def fiveAddresses : List (Call ℤ) :=
  [timeout "10.0.0.1" 1, timeout "10.0.0.2" 2, timeout "10.0.0.3" 3, timeout "10.0.0.4" 4,
    timeout "10.0.0.5" 5, timeout "10.0.0.1" 6]

/-- The second failure of an address is counted as its first, when four other addresses of the
host failed in between. -/
theorem not_storedAccount_fiveAddresses :
  ¬ ∀ (lowercase : String → String) (crypto : RvecCrypto) (calls : List (Call ℤ)),
    (calls.Pairwise fun c c' => c.updatedAt < c'.updatedAt) →
    (endpoints lowercase calls).dedup.length ≤ Default.maxGlobalRvecEntries →
    ∀ table, Run.exec (step lowercase crypto) [] calls = some table →
      ∀ e, storedAccount crypto table e = account lowercase calls e
  := by
  intro h
  have hstored := h id plainText fiveAddresses (by decide) (by decide) _ rfl
    ⟨"example.org", "10.0.0.1", 443, .tcp⟩
  revert hstored
  decide +kernel

/-- Two timeouts of one address. -/
def oneAddress : List (Call ℤ) :=
  [timeout "10.0.0.1" 1, timeout "10.0.0.1" 6]

/-- Two failures in a row are counted, and give the cooldown of half an hour. -/
theorem storedAccount_oneAddress :
  ∃ table, Run.exec (step id plainText) [] oneAddress = some table ∧
    storedAccount plainText table ⟨"example.org", "10.0.0.1", 443, .tcp⟩
      = some (2, some 1800006)
  := by
  have hmeets : Run.Meets (step id plainText) (Undisturbed id plainText) [] oneAddress := by
    simp only [oneAddress, Run.Meets, step, Option.some.injEq, forall_eq', and_true]
    decide +kernel
  obtain ⟨table, hrun, hstored, -⟩ :=
    storedAccount_run id plainText oneAddress (by decide) hmeets oneAddress List.prefix_rfl
  use table, hrun
  rw [hstored]
  decide +kernel

end Storage
