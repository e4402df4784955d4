import DtmaOne.Library.Run
import DtmaOne.Paer.PlanLaws
import DtmaOne.Paer.Race
import DtmaOne.Storage.RvecTable
import Mathlib.Data.List.DropRight

/-!
# Connection tests

A test of the screen `ConnectionTestScreen`: it takes the network context, resolves the host of
the address, plans the resolved and the stored candidates, races them, and stores the outcome for
the winner under the identifier of the context.

`NetworkContextFactory.current` draws a new identifier for every test.  A stored candidate carries
the identifier of an earlier test, so that no test is ever in the context of a stored success,
whether or not the network has changed.

What the platform and the servers answer during a test is part of the test.  The table of the store
carries out its queries, and the cipher is a parameter, as in `RvecStore`.
-/

namespace Storage.ConnectionTest

open Paer Paer.RvecPolicy

/-! ### The network context -/

/-- `NetworkType` -/
inductive NetworkType where
  | wifi
  | cellular
  | ethernet
  | other
  | unknown
  deriving DecidableEq, Repr

/-- `NetworkContext` -/
structure NetworkContext where
  id : String
  networkType : NetworkType
  androidNetworkId : Option String
  hasIpv4 : Bool
  hasIpv6 : Bool
  dnsFingerprint : Option String
  createdAt : ℤ
  deriving DecidableEq, Repr

/-- `NetworkCapabilities`, as far as they are read. -/
structure Capabilities where
  wifi : Bool
  cellular : Bool
  ethernet : Bool
  deriving DecidableEq, Repr

/-- `LinkProperties`, as far as they are read; `none` is an address without text. -/
structure LinkProperties where
  linkAddresses : List (Option String)
  dnsServers : List (Option String)
  deriving DecidableEq, Repr

/-- What `ConnectivityManager` says of the active network. -/
structure Network where
  name : String
  capabilities : Option Capabilities
  link : Option LinkProperties
  deriving DecidableEq, Repr

/-- The type of a network. -/
def networkType : Option Capabilities → NetworkType
  | none => .unknown
  | some caps =>
      if caps.wifi then .wifi
      else if caps.cellular then .cellular
      else if caps.ethernet then .ethernet
      else .other

/-- A link address is one of IPv6 if its text has a colon. -/
def isIpv6Text (host : String) : Bool := host.toList.contains ':'

/-- The fingerprint of the DNS servers. -/
def dnsFingerprint (link : LinkProperties) : String :=
  let servers := (link.dnsServers.filterMap id).mergeSort (fun a b => a ≤ b)
  "dns:" ++ toString (Text.hashCode (Text.joinToString ',' servers))

/-- `NetworkContextFactory.current`, with the identifier `UUID.randomUUID` returns. -/
def NetworkContextFactory.current (network : Option Network) (uuid : String) (nowMs : ℤ) :
    NetworkContext :=
  let link := network.bind Network.link
  let hosts := ((link.map LinkProperties.linkAddresses).getD []).filterMap id
  { id := uuid
    networkType := networkType (network.bind Network.capabilities)
    androidNetworkId := network.map Network.name
    hasIpv4 := hosts.any fun host => !isIpv6Text host
    hasIpv6 := hosts.any isIpv6Text
    dnsFingerprint := link.map dnsFingerprint
    createdAt := nowMs }

/-! ### Resolving and racing -/

/-- A text that can be read back from a record. -/
structure Readable where
  text : String
  separable : fieldSeparator ∉ text.toList
  deriving DecidableEq

/-- An address of `InetAddress.getAllByName`: its `hostAddress` and its class. -/
structure HostAddress where
  hostAddress : Option Readable
  family : Option IpFamily

/-- The functions of the platform a test uses, with what is known of the texts they return. -/
structure Platform where
  /-- `String.lowercase` -/
  lowercase : String → String
  /-- `Char.isWhitespace` -/
  isWhitespace : Char → Bool
  /-- `java.net.URI(url).host`, `none` if there is none or the address is malformed. -/
  uriHost : String → Option Readable
  separable_lowercase : ∀ s, fieldSeparator ∉ s.toList → fieldSeparator ∉ (lowercase s).toList

/-- `trim` -/
def trim (isWhitespace : Char → Bool) (s : String) : String :=
  String.ofList ((s.toList.dropWhile isWhitespace).rdropWhile isWhitespace)

section Race

variable {S : Type}

/-- The candidate of a resolved address. -/
def dnsCandidate [Zero S] (host : String) (port : ℤ) (networkContextId : String) (nowMs : ℤ)
    (a : HostAddress) : Option (EndpointCandidate S) :=
  a.hostAddress.map fun ip =>
    { hostname := host
      ipAddress := ip.text
      ipFamily := a.family.getD (if isIpv6Text ip.text then .ipv6 else .ipv4)
      port := port
      transport := .tcp
      alpn := ["h2", "http/1.1"]
      source := .currentDns
      networkContextId := networkContextId
      discoveredAt := nowMs
      decayedScore := 0 }

/-- The host `SystemDnsResolver.resolve` asks for. -/
def resolvedHost (platform : Platform) (hostname : String) : String :=
  Text.substringBefore '?' (Text.substringBefore '/'
    (platform.lowercase (trim platform.isWhitespace hostname)))

/-- The candidates of `SystemDnsResolver.resolve`, none for `Empty` and `NoResponse`; the answer of
`InetAddress.getAllByName` is `none` for an exception. -/
def resolve [Zero S] (platform : Platform) (getAllByName : Option (List HostAddress))
    (hostname : String) (port : ℤ) (networkContextId : String) (nowMs : ℤ) :
    List (EndpointCandidate S) :=
  let host := resolvedHost platform hostname
  if host.isEmpty then []
  else (getAllByName.getD []).filterMap (dnsCandidate host port networkContextId nowMs)

/-- `StrictHttpsTester.TestResult`, as far as the screen stores it. -/
structure TestResult (S : Type) where
  success : Bool
  winner : Option (EndpointCandidate S)
  failureStage : Option FailureStage

/-- What the servers answer in a race. -/
structure RaceAnswers where
  /-- The outcome of the probe with an index: `none` if the secure channel is completed. -/
  probe : ℕ → Option FailureStage
  /-- The status of the application request. -/
  status : Option ℤ
  /-- The stage at which the application request has failed. -/
  appError : Option FailureStage

/-- The address `StrictHttpsTester.test` requests. -/
def normalized (url : String) : String :=
  if url.startsWith "http://" ∨ url.startsWith "https://" then url else "https://" ++ url

/-- The first scheduled candidate whose probe succeeds. -/
def bestProbe (probe : ℕ → Option FailureStage)
    (scheduled : List (RaceCoordinatorLogic.ScheduledCandidate S)) :
    Option (RaceCoordinatorLogic.ScheduledCandidate S) :=
  (scheduled.zipIdx.find? fun item => (probe item.2).isNone).map Prod.fst

/-- `StrictHttpsTester.test`; an exception is `none`. -/
def test (platform : Platform) (config : RaceConfig) (limits : RaceLimits) (answers : RaceAnswers)
    (url : String) (candidates : List (EndpointCandidate S)) : Option (TestResult S) :=
  let host := platform.uriHost (normalized url)
  if (host.all fun h => h.text.toList.all platform.isWhitespace) ∨
      ¬ (normalized url).startsWith "https://" then
    some ⟨false, none, some .unknownFailure⟩
  else
    match RaceCoordinatorLogic.buildPlan config limits candidates with
    | .error _ => none
    | .ok plan =>
        if plan.scheduled.isEmpty then some ⟨false, none, some .dnsEmpty⟩
        else
          match bestProbe answers.probe plan.scheduled with
          | none => some ⟨false, none, some ((answers.probe 0).getD .transportTimeout)⟩
          | some best =>
              some
                { success := answers.status.isSome && answers.appError ≠ some .tlsValidationFailed
                  winner := some { best.candidate with currentState := .selected }
                  failureStage := answers.appError }

end Race

/-! ### The screen -/

/-- A run of the test, with what the user has entered and what the platform answers. -/
structure Test (S : Type) [LT S] [Zero S] where
  url : String
  /-- The active network. -/
  network : Option Network
  /-- `UUID.randomUUID().toString()` -/
  uuid : Readable
  /-- `System.currentTimeMillis()` when the context is created. -/
  createdAt : ℤ
  getAllByName : Option (List HostAddress)
  /-- `System.currentTimeMillis()` when the host is resolved. -/
  resolvedAt : ℤ
  /-- `System.currentTimeMillis()` when the candidates are planned. -/
  plannedAt : ℤ
  /-- `settings.rvecHalfLifeHours` -/
  halfLifeHours : { h : S // 0 < h }
  /-- `settings.toRaceConfig()` -/
  raceConfig : RaceConfig
  race : RaceAnswers
  /-- `System.currentTimeMillis()` when the outcome is stored. -/
  savedAt : ℤ
  /-- The time and the initialisation vector `upsert` uses. -/
  updatedAt : ℤ
  iv : ℕ

/-- The network context of a test. -/
def Test.context {S : Type} [LT S] [Zero S] (t : Test S) : NetworkContext :=
  NetworkContextFactory.current t.network t.uuid.text t.createdAt

/-- The table, and the identifiers `UUID.randomUUID` has returned. -/
structure State where
  table : Table
  issued : List String

/-- The state before the first test. -/
def State.empty : State := ⟨[], []⟩

section Screen

variable {S : Type} [LinearOrder S] [Zero S] (platform : Platform) (crypto : RvecCrypto)

/-- The host of the address. -/
def Test.host (t : Test S) : String :=
  let u := if t.url.startsWith "http" then t.url else "https://" ++ t.url
  ((platform.uriHost u).map Readable.text).getD ""

/-- The resolved candidates. -/
def Test.dnsList (t : Test S) : List (EndpointCandidate S) :=
  resolve platform t.getAllByName (t.host platform) 443 t.context.id t.resolvedAt

/-- The stored candidates. -/
def Test.rvec (table : Table) (t : Test S) : List (EndpointCandidate S) :=
  listForHost platform.lowercase crypto table (t.host platform)

variable [One S] [Neg S] [Add S] [Mul S] [Div S] [IntCast S] (math : DoubleMath S)

/-- The planned candidates. -/
def Test.planned (table : Table) (t : Test S) : List (EndpointCandidate S) :=
  CandidatePlanner.plan
    { lowercase := platform.lowercase
      math := math
      nowMs := t.plannedAt
      currentContextId := t.context.id
      weights := ScoringWeights.default t.halfLifeHours }
    (t.dnsList platform) (t.rvec platform crypto table)

/-- The result of the race. -/
def Test.result (table : Table) (t : Test S) : Option (TestResult S) :=
  test platform t.raceConfig {} t.race t.url (t.planned platform crypto math table)

/-- The winner whose success is stored. -/
def Test.stored (table : Table) (t : Test S) : Option (EndpointCandidate S) :=
  (t.result platform crypto math table).bind fun result =>
    if result.success then result.winner else none

/-- The table after the test. -/
def Test.perform (table : Table) (t : Test S) : Table :=
  match t.result platform crypto math table with
  | some ⟨true, some winner, _⟩ =>
      saveSuccess platform.lowercase crypto table winner t.savedAt t.context.id t.updatedAt t.iv
  | some ⟨false, some winner, some stage⟩ =>
      saveFailure platform.lowercase crypto table winner t.savedAt t.context.id stage t.updatedAt
        t.iv
  | _ => table

/-- A test as a step; `UUID.randomUUID` returns no identifier twice. -/
def step (s : State) (t : Test S) : Option State :=
  if t.uuid.text ∈ s.issued then none
  else some ⟨t.perform platform crypto math s.table, s.issued ++ [t.uuid.text]⟩

end Screen

/-! ### The bonus of a success -/

/-- The bonuses for a recorded success. -/
inductive SuccessBonus where
  | currentContext1h
  | currentContext24h
  | otherContext
  deriving DecidableEq, Repr

/-- The weight of a bonus. -/
def SuccessBonus.weight {S : Type} [LT S] [Zero S] (weights : ScoringWeights S) :
    SuccessBonus → S
  | .currentContext1h => weights.successCurrentContext1h
  | .currentContext24h => weights.successCurrentContext24h
  | .otherContext => weights.successOtherContext

/-- The bonus `ScoreCalculator.score` gives. -/
def successBonus {S : Type} (candidate : EndpointCandidate S) (nowMs : ℤ)
    (currentContextId : String) : Option SuccessBonus :=
  candidate.lastSuccessAt.bind fun lastSuccess =>
    let ageMs := int64 (nowMs - lastSuccess)
    let sameContext := candidate.networkContextId = currentContextId
    if sameContext ∧ ageMs ≤ 3600000 then some .currentContext1h
    else if sameContext ∧ ageMs ≤ 86400000 then some .currentContext24h
    else if ¬ sameContext then some .otherContext
    else none

/-- The score adds the weight of the bonus. -/
theorem addSuccess_eq {S : Type} [LinearOrder S] [Zero S] [Add S] (candidate : EndpointCandidate S)
    (nowMs : ℤ) (currentContextId : String) (weights : ScoringWeights S) (score : S) :
  ScoreCalculator.addSuccess candidate nowMs currentContextId weights score =
    match successBonus candidate nowMs currentContextId with
    | some bonus => score + bonus.weight weights
    | none => score
  := by
  rw [ScoreCalculator.addSuccess, successBonus]
  cases candidate.lastSuccessAt with
  | none => rfl
  | some lastSuccess =>
      dsimp only [Option.bind_some]
      split_ifs <;> rfl

/-- A candidate of another context gets no bonus of the current one. -/
theorem successBonus_of_ne {S : Type} {candidate : EndpointCandidate S} {currentContextId : String}
    (hne : candidate.networkContextId ≠ currentContextId) (nowMs : ℤ) :
  ∀ bonus ∈ successBonus candidate nowMs currentContextId, bonus = .otherContext
  := by
  intro bonus hbonus
  rw [successBonus, Option.mem_def, Option.bind_eq_some_iff] at hbonus
  obtain ⟨lastSuccess, -, hbonus⟩ := hbonus
  simp only [hne, false_and, if_false, not_false_eq_true, if_true] at hbonus
  exact (Option.some.inj hbonus).symm

/-! ### Where the candidates come from -/

/-- The record can be read back, and its context is one of the given ones. -/
def Known (ids : List String) (r : RvecRecord) : Prop :=
  Separable r ∧ r.networkContextId ∈ ids

/-- The contexts of the rows are those of earlier tests. -/
def Attributed (crypto : RvecCrypto) (s : State) : Prop :=
  ∀ row ∈ s.table, ∀ r, decryptRecord crypto row = some r → r.networkContextId ∈ s.issued

section Origin

variable {platform : Platform} {crypto : RvecCrypto}

theorem mem_of_mem_trim {isWhitespace : Char → Bool} {s : String} {c : Char}
    (hc : c ∈ (trim isWhitespace s).toList) :
  c ∈ s.toList
  := by
  rw [trim, String.toList_ofList] at hc
  apply (List.dropWhile_sublist _).subset
  apply (List.rdropWhile_prefix _ _).subset hc

theorem separable_resolvedHost {hostname : String} (h : fieldSeparator ∉ hostname.toList) :
  fieldSeparator ∉ (resolvedHost platform hostname).toList
  := by
  intro hmem
  have hlower := Text.mem_of_mem_substringBefore (Text.mem_of_mem_substringBefore hmem)
  apply platform.separable_lowercase _ _ hlower
  intro htrim
  apply h (mem_of_mem_trim htrim)

theorem mem_of_bestProbe {S : Type} {probe : ℕ → Option FailureStage}
    {scheduled : List (RaceCoordinatorLogic.ScheduledCandidate S)}
    {best : RaceCoordinatorLogic.ScheduledCandidate S}
    (h : bestProbe probe scheduled = some best) :
  best ∈ scheduled
  := by
  rw [bestProbe, Option.map_eq_some_iff] at h
  obtain ⟨⟨item, index⟩, hfind, rfl⟩ := h
  apply List.fst_mem_of_mem_zipIdx (List.mem_of_find?_eq_some hfind)

/-- The winner is a candidate that was raced. -/
theorem winner_origin {S : Type} {config : RaceConfig} {limits : RaceLimits} {answers : RaceAnswers}
    {url : String} {candidates : List (EndpointCandidate S)} {result : TestResult S}
    (hresult : test platform config limits answers url candidates = some result)
    {w : EndpointCandidate S} (hw : result.winner = some w) :
  ∃ c ∈ candidates, fromCandidate w = fromCandidate c
  := by
  rw [test] at hresult
  split_ifs at hresult
  · obtain rfl := Option.some.inj hresult
    cases hw
  · cases hplan : RaceCoordinatorLogic.buildPlan config limits candidates with
    | error e =>
        rw [hplan] at hresult
        cases hresult
    | ok plan =>
        simp only [hplan] at hresult
        split_ifs at hresult
        · obtain rfl := Option.some.inj hresult
          cases hw
        · cases hbest : bestProbe answers.probe plan.scheduled with
          | none =>
              rw [hbest] at hresult
              obtain rfl := Option.some.inj hresult
              cases hw
          | some best =>
              rw [hbest] at hresult
              obtain rfl := Option.some.inj hresult
              obtain rfl := Option.some.inj hw
              obtain ⟨c, hc, heq⟩ := RaceCoordinatorLogic.mem_scheduled hplan
                (mem_of_bestProbe hbest)
              use c, hc
              calc fromCandidate { best.candidate with currentState := .selected }
                  = fromCandidate best.candidate := rfl
                _ = fromCandidate c := by
                  rw [heq]
                  rfl

theorem attributed_upsert {table : Table} {ids : List String} (h : Attributed crypto ⟨table, ids⟩)
    {record : RvecRecord} (hrecord : Known ids record) (updatedAt : ℤ) (iv : ℕ) :
  Attributed crypto ⟨upsert platform.lowercase crypto table record updatedAt iv, ids⟩
  := by
  intro row hrow r hr
  simp only [upsert, RvecDao.upsert, List.mem_append, List.mem_singleton] at hrow
  obtain hrow | rfl := hrow
  · apply h row (List.mem_of_mem_filter hrow) r hr
  · rw [decryptRecord, entityOf, crypto.decrypt_encrypt, Option.bind_some] at hr
    rw [networkContextId_of_deserialize hrecord.1 hr]
    apply hrecord.2

theorem known_onFailure {ids : List String} {record : RvecRecord} (h : Known ids record)
    {contextId : String} (hseparable : fieldSeparator ∉ contextId.toList) (hid : contextId ∈ ids)
    (nowMs : ℤ) (stage : FailureStage) :
  Known ids (onFailure record nowMs stage contextId)
  := by
  rw [onFailure]
  split_ifs
  · apply h
  · exact ⟨⟨h.1.hostname, h.1.ipAddress, h.1.alpn, hseparable⟩, hid⟩

theorem separable_of_decryptRecord {row : RvecEntity} {r : RvecRecord}
    (h : decryptRecord crypto row = some r) :
  Separable r
  := by
  obtain ⟨plain, -, hplain⟩ := Option.bind_eq_some_iff.mp h
  apply separable_of_deserialize hplain

theorem known_failureBase {S : Type} [Zero S] {table : Table} {ids : List String}
    (h : Attributed crypto ⟨table, ids⟩) {c : EndpointCandidate S}
    (hc : Known ids (fromCandidate c)) :
  Known ids (failureBase platform.lowercase crypto table c)
  := by
  obtain hbase | ⟨row, hrow, r, hr, -, -, hbase⟩ :=
    failureBase_cases platform.lowercase crypto table c
  · rw [hbase]
    apply hc
  · rw [hbase]
    exact ⟨separable_of_decryptRecord hr, h row hrow r hr⟩

section Lists

variable {S : Type} [LinearOrder S] [Zero S]

theorem separable_host (t : Test S) :
  fieldSeparator ∉ (t.host platform).toList
  := by
  rw [Test.host]
  cases platform.uriHost _ with
  | none => exact List.not_mem_nil
  | some host => apply host.separable

/-- The resolved candidates can be stored, and are of the context of the test. -/
theorem known_dnsList {t : Test S} {c : EndpointCandidate S} (hc : c ∈ t.dnsList platform) :
  c.lastSuccessAt = none ∧ Known [t.uuid.text] (fromCandidate c)
  := by
  rw [Test.dnsList, resolve] at hc
  split_ifs at hc
  · cases hc
  · obtain ⟨a, -, ha⟩ := List.mem_filterMap.mp hc
    rw [dnsCandidate, Option.map_eq_some_iff] at ha
    obtain ⟨ip, -, rfl⟩ := ha
    refine ⟨rfl, ⟨?_, ip.separable, ?_, t.uuid.separable⟩, List.mem_singleton_self _⟩
    · intro hmem
      apply separable_resolvedHost (separable_host t)
      apply Text.mem_of_mem_substringBefore (Text.mem_of_mem_substringBefore hmem)
    · change ∀ a ∈ ["h2", "http/1.1"], fieldSeparator ∉ a.toList
      decide

/-- The stored candidates are of earlier contexts. -/
theorem known_rvec {s : State} (h : Attributed crypto s) {t : Test S} {c : EndpointCandidate S}
    (hc : c ∈ t.rvec platform crypto s.table) :
  Known s.issued (fromCandidate c)
  := by
  obtain ⟨row, hrow, -, r, hr, rfl⟩ := mem_listForHost hc
  rw [fromCandidate_toCandidate]
  exact ⟨separable_of_decryptRecord hr, h row hrow r hr⟩

end Lists

variable {S : Type} [LinearOrder S] [Zero S] [One S] [Neg S] [Add S] [Mul S] [Div S] [IntCast S]
  {math : DoubleMath S}

theorem known_winner {s : State} (h : Attributed crypto s) {t : Test S} {result : TestResult S}
    (hresult : t.result platform crypto math s.table = some result) {w : EndpointCandidate S}
    (hw : result.winner = some w) :
  Known (s.issued ++ [t.uuid.text]) (fromCandidate w)
  := by
  obtain ⟨c, hc, heq⟩ := winner_origin hresult hw
  rw [heq]
  obtain ⟨d, hd, -, rfl⟩ | ⟨d, hd, -, -, rfl⟩ := CandidatePlanner.plan_origin hc
  · obtain ⟨-, hseparable, hid⟩ := known_dnsList hd
    exact ⟨hseparable, List.mem_append_right _ hid⟩
  · obtain ⟨hseparable, hid⟩ := known_rvec h hd
    exact ⟨hseparable, List.mem_append_left _ hid⟩

/-- A test keeps the rows attributed to the contexts of tests. -/
theorem attributed_step {s s' : State} {t : Test S} (h : Attributed crypto s)
    (hstep : step platform crypto math s t = some s') :
  Attributed crypto s'
  := by
  rw [step] at hstep
  split_ifs at hstep
  obtain rfl := Option.some.inj hstep
  have hlater : Attributed crypto ⟨s.table, s.issued ++ [t.uuid.text]⟩ := by
    intro row hrow r hr
    apply List.mem_append_left _ (h row hrow r hr)
  have hown : t.context.id ∈ s.issued ++ [t.uuid.text] :=
    List.mem_append_right _ (List.mem_singleton_self _)
  rw [Test.perform]
  split
  · next winner stage hresult =>
      obtain ⟨hseparable, -⟩ := known_winner h hresult rfl
      have hrecord : Known (s.issued ++ [t.uuid.text])
          (onSuccess (fromCandidate winner) t.savedAt t.context.id) :=
        ⟨⟨hseparable.hostname, hseparable.ipAddress, hseparable.alpn, t.uuid.separable⟩, hown⟩
      intro row hrow
      apply attributed_upsert hlater hrecord t.updatedAt t.iv row
      apply List.mem_of_mem_filter hrow
  · next winner stage hresult =>
      apply attributed_upsert hlater
      apply known_onFailure _ t.uuid.separable hown
      apply known_failureBase hlater (known_winner h hresult rfl)
  · apply hlater

end Origin

/-! ### Whole runs -/

section Runs

variable {S : Type} [LinearOrder S] [Zero S] [One S] [Neg S] [Add S] [Mul S] [Div S] [IntCast S]
  (platform : Platform) (crypto : RvecCrypto) (math : DoubleMath S)

/-- The later test plans within an hour after the outcome of the earlier one was stored. -/
def Test.WithinHour (earlier later : Test S) : Prop :=
  earlier.savedAt ≤ later.plannedAt ∧ later.plannedAt ≤ earlier.savedAt + 3600000

/-- After a test has stored a success, every test within the hour has the same context, and gives
the stored endpoint the bonus for a success in the current context. -/
def LearnsContext (tests : List (Test S)) : Prop :=
  ∀ pre earlier mid later post, tests = pre ++ earlier :: (mid ++ later :: post) →
    ∀ s s', Run.exec (step platform crypto math) State.empty pre = some s →
    Run.exec (step platform crypto math) State.empty (pre ++ earlier :: mid) = some s' →
    ∀ w, earlier.stored platform crypto math s.table = some w → earlier.WithinHour later →
      later.context.id = earlier.context.id ∧
      ∀ c ∈ later.rvec platform crypto s'.table,
        recordEndpoint platform.lowercase (fromCandidate c)
          = recordEndpoint platform.lowercase (fromCandidate w) →
        successBonus c later.plannedAt later.context.id = some .currentContext1h

/-- Some test of the run has stored a success within the hour before another one. -/
def Revisits (tests : List (Test S)) : Prop :=
  ∃ pre earlier mid later post s w, tests = pre ++ earlier :: (mid ++ later :: post) ∧
    Run.exec (step platform crypto math) State.empty pre = some s ∧
    earlier.stored platform crypto math s.table = some w ∧ earlier.WithinHour later

variable {platform crypto math}

theorem issued_step {s s' : State} {t : Test S} (h : step platform crypto math s t = some s') :
  t.uuid.text ∉ s.issued ∧ s'.issued = s.issued ++ [t.uuid.text]
  := by
  rw [step] at h
  split_ifs at h with hissued
  obtain rfl := Option.some.inj h
  exact ⟨hissued, rfl⟩

/-- The identifiers returned in a run are those of its tests. -/
theorem issued_run {tests : List (Test S)} {s s' : State}
    (h : Run.exec (step platform crypto math) s tests = some s') :
  s'.issued = s.issued ++ tests.map fun t => t.uuid.text
  := by
  induction tests generalizing s with
  | nil =>
      obtain rfl := Option.some.inj h
      rw [List.map_nil, List.append_nil]
  | cons t tests ih =>
      obtain ⟨r, hr, hrest⟩ := (Run.exec_cons_eq_some _).mp h
      rw [ih hrest, (issued_step hr).2, List.map_cons, List.append_assoc]
      rfl

/-- A run comes to each of its tests. -/
theorem step_of_run {tests pre post : List (Test S)} {t : Test S} {final : State}
    (hrun : Run.exec (step platform crypto math) State.empty tests = some final)
    (htests : tests = pre ++ t :: post) :
  ∃ s s', Run.exec (step platform crypto math) State.empty pre = some s ∧
    step platform crypto math s t = some s'
  := by
  rw [htests, Run.exec_append, Option.bind_eq_some_iff] at hrun
  obtain ⟨s, hpre, hrest⟩ := hrun
  obtain ⟨s', hstep, -⟩ := (Run.exec_cons_eq_some _).mp hrest
  exact ⟨s, s', hpre, hstep⟩

/-- Two tests of a run are never in one context. -/
theorem context_ne {tests pre mid post : List (Test S)} {earlier later : Test S} {final : State}
    (hrun : Run.exec (step platform crypto math) State.empty tests = some final)
    (htests : tests = pre ++ earlier :: (mid ++ later :: post)) :
  later.context.id ≠ earlier.context.id
  := by
  have hsplit : tests = (pre ++ earlier :: mid) ++ later :: post := by
    rw [htests, List.append_assoc, List.cons_append]
  obtain ⟨s, s', hpre, hstep⟩ := step_of_run hrun hsplit
  have hfresh := (issued_step hstep).1
  rw [issued_run hpre] at hfresh
  intro heq
  apply hfresh
  change later.context.id ∈ _
  rw [heq]
  apply List.mem_append_right
  rw [List.map_append]
  apply List.mem_append_right _ List.mem_cons_self

theorem attributed_run {tests : List (Test S)} {s : State}
    (hrun : Run.exec (step platform crypto math) State.empty tests = some s) :
  Attributed crypto s
  := by
  have hstep : ∀ s (t : Test S) s', Attributed crypto s →
      step platform crypto math s t = some s' → Attributed crypto s' :=
    fun _ _ _ h hstep => attributed_step h hstep
  apply Run.invariant hstep _ hrun
  rintro row ⟨⟩

/-- No candidate of a test gets a bonus of the context of the test. -/
theorem successBonus_of_run {tests pre post : List (Test S)} {t : Test S} {s final : State}
    (hrun : Run.exec (step platform crypto math) State.empty tests = some final)
    (htests : tests = pre ++ t :: post)
    (hpre : Run.exec (step platform crypto math) State.empty pre = some s)
    {c : EndpointCandidate S} (hc : c ∈ t.dnsList platform ++ t.rvec platform crypto s.table) :
  ∀ bonus ∈ successBonus c t.plannedAt t.context.id, bonus = .otherContext
  := by
  obtain hdns | hrvec := List.mem_append.mp hc
  · rw [successBonus, (known_dnsList hdns).1]
    rintro bonus ⟨⟩
  · obtain ⟨s', s'', hpre', hstep⟩ := step_of_run hrun htests
    obtain rfl := Option.some.inj (hpre.symm.trans hpre')
    apply successBonus_of_ne
    intro heq
    have hknown := (known_rvec (attributed_run hpre) hrvec).2
    apply (issued_step hstep).1
    change t.context.id ∈ s.issued
    rw [← heq]
    apply hknown

/-- A run in which there is something to learn does not learn it. -/
theorem not_learnsContext_of_revisits {tests : List (Test S)} {final : State}
    (hrun : Run.exec (step platform crypto math) State.empty tests = some final)
    (hrevisits : Revisits platform crypto math tests) :
  ¬ LearnsContext platform crypto math tests
  := by
  intro hlearns
  obtain ⟨pre, earlier, mid, later, post, s, w, htests, hpre, hstored, hwithin⟩ := hrevisits
  have hsplit : tests = (pre ++ earlier :: mid) ++ later :: post := by
    rw [htests, List.append_assoc, List.cons_append]
  obtain ⟨s', -, hmid, -⟩ := step_of_run hrun hsplit
  apply context_ne hrun htests
  apply (hlearns pre earlier mid later post htests s s' hpre hmid w hstored hwithin).1

/-- In every run, whether or not the network changes, what a test has learned in its context is
used by the later tests within the hour exactly when there are none; and no candidate of any test
gets a bonus of the context of the test. -/
theorem learnsContext_iff (platform : Platform) (crypto : RvecCrypto) (math : DoubleMath S)
    (tests : List (Test S)) (final : State)
    (hrun : Run.exec (step platform crypto math) State.empty tests = some final) :
  (LearnsContext platform crypto math tests ↔ ¬ Revisits platform crypto math tests) ∧
    ∀ pre t post, tests = pre ++ t :: post →
      ∀ s, Run.exec (step platform crypto math) State.empty pre = some s →
      ∀ c ∈ t.dnsList platform ++ t.rvec platform crypto s.table,
        ∀ bonus ∈ successBonus c t.plannedAt t.context.id, bonus = .otherContext
  := by
  refine ⟨⟨?_, ?_⟩, ?_⟩
  · intro hlearns hrevisits
    apply not_learnsContext_of_revisits hrun hrevisits hlearns
  · intro hnever pre earlier mid later post htests s s' hpre hmid w hstored hwithin
    exact absurd ⟨pre, earlier, mid, later, post, s, w, htests, hpre, hstored, hwithin⟩ hnever
  · intro pre t post htests s hpre c hc
    apply successBonus_of_run hrun htests hpre hc

end Runs

/-! ### Two tests in one network -/

/-- The functions of the platform on the address of the tests. -/
def asciiPlatform : Platform where
  lowercase := id
  isWhitespace := Char.isWhitespace
  uriHost url := if url = "https://example.org/" then some ⟨"example.org", by decide⟩ else none
  separable_lowercase _ h := h

/-- The value of `exp` for an age of ten minutes and a half-life of six hours. -/
def tenMinutes : DoubleMath ℚ where
  exp _ := 980930087668915 / 10 ^ 15
  ln2 := 6931471805599453 / 10 ^ 16

/-- A network that stays. -/
def homeNetwork : Network where
  name := "100"
  capabilities := some ⟨true, false, false⟩
  link := some ⟨[some "192.168.1.7"], [some "192.168.1.1"]⟩

/-- A test of `example.org` at home, which is answered if `status` says so. -/
def homeTest (uuid : Readable) (nowMs : ℤ) (status : Option ℤ) : Test ℚ where
  url := "https://example.org/"
  network := some homeNetwork
  uuid := uuid
  createdAt := nowMs
  getAllByName := some [⟨some ⟨"10.0.0.1", by decide⟩, some .ipv4⟩]
  resolvedAt := nowMs
  plannedAt := nowMs
  halfLifeHours := ⟨6, by decide +kernel⟩
  raceConfig := {}
  race := ⟨fun _ => none, status, none⟩
  savedAt := nowMs
  updatedAt := nowMs
  iv := 0

/-- A test that succeeds, and a test ten minutes later. -/
def twoTests : List (Test ℚ) :=
  [homeTest ⟨"b7f2e9c0-6f6b-4a7e-9a55-0d1c5b1f1a01", by decide⟩ 1000 (some 200),
    homeTest ⟨"3c1d2f44-9d0a-4c58-8f0e-6a7f6c2d9b02", by decide⟩ 601000 (some 200)]

theorem revisits_twoTests :
  (∃ final, Run.exec (step asciiPlatform plainText tenMinutes) State.empty twoTests = some final) ∧
    Revisits asciiPlatform plainText tenMinutes twoTests
  := by
  have hrun : (Run.exec (step asciiPlatform plainText tenMinutes) State.empty twoTests).isSome := by
    decide +kernel
  have hstored : ((homeTest ⟨"b7f2e9c0-6f6b-4a7e-9a55-0d1c5b1f1a01", by decide⟩ 1000
      (some 200)).stored asciiPlatform plainText tenMinutes []).isSome := by
    decide +kernel
  constructor
  · apply Option.isSome_iff_exists.mp hrun
  · obtain ⟨w, hw⟩ := Option.isSome_iff_exists.mp hstored
    exact ⟨[], _, [], _, [], State.empty, w, rfl, rfl, hw, by decide, by decide⟩

/-- Two tests in a network that stays are in different contexts. -/
theorem not_learnsContext_twoTests :
  ¬ ∀ (network : Option Network) (tests : List (Test ℚ)) (final : State),
    (∀ t ∈ tests, t.network = network) →
    Run.exec (step asciiPlatform plainText tenMinutes) State.empty tests = some final →
    LearnsContext asciiPlatform plainText tenMinutes tests
  := by
  intro h
  obtain ⟨⟨final, hrun⟩, hrevisits⟩ := revisits_twoTests
  have hnetwork : ∀ t ∈ twoTests, t.network = some homeNetwork := by
    intro t ht
    obtain rfl | rfl := List.mem_pair.mp ht <;> rfl
  apply not_learnsContext_of_revisits hrun hrevisits
  apply h (some homeNetwork) twoTests final hnetwork hrun

/-- The second of the two tests learns nothing from the first. -/
theorem learnsContext_iff_twoTests :
  Revisits asciiPlatform plainText tenMinutes twoTests ∧
    ¬ LearnsContext asciiPlatform plainText tenMinutes twoTests
  := by
  obtain ⟨⟨final, hrun⟩, hrevisits⟩ := revisits_twoTests
  refine ⟨hrevisits, ?_⟩
  rw [(learnsContext_iff asciiPlatform plainText tenMinutes twoTests final hrun).1, not_not]
  apply hrevisits

end Storage.ConnectionTest
