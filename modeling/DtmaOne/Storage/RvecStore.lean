import DtmaOne.Library.Collections
import DtmaOne.Library.Run
import DtmaOne.Library.Text
import DtmaOne.Paer.RvecPolicy
import Mathlib.Order.Defs.LinearOrder
import Mathlib.Data.Int.Order.Basic
import Mathlib.Tactic.MkIffOfInductiveProp

/-!
# The store of recently validated endpoints

`RvecStore`: a table of encrypted records, one row for every endpoint.  `saveSuccess` writes
the row of a candidate afresh; `saveFailure` looks for the record of the candidate among the
most recent rows of its host and counts the failure there.

The database carries out the queries as they are written.  The cipher is a parameter, of which
only is asked that `decrypt` undoes `encrypt`; a plaintext is the string whose UTF-8 bytes are
encrypted.  `String.lowercase` is a function of the platform.
-/

namespace Storage

open Paer Paer.RvecPolicy

/-! ### The table -/

/-- `RvecEntity` -/
structure RvecEntity where
  id : String
  blob : String
  hostnameHash : String
  updatedAt : ℤ
  deriving DecidableEq, Repr

/-- The table `rvec_entries`. -/
abbrev Table : Type := List RvecEntity

namespace RvecDao

/-- `SELECT * FROM rvec_entries ORDER BY updatedAt DESC LIMIT :limit` -/
def all (table : Table) (limit : ℕ) : List RvecEntity :=
  (Collections.sortedByDescending (·.updatedAt) table).take limit

/-- `SELECT * FROM rvec_entries WHERE hostnameHash = :hash ORDER BY updatedAt DESC LIMIT :limit` -/
def forHost (table : Table) (hash : String) (limit : ℕ) : List RvecEntity :=
  (Collections.sortedByDescending (·.updatedAt)
    (table.filter fun r => r.hostnameHash = hash)).take limit

/-- `@Insert(onConflict = OnConflictStrategy.REPLACE)` -/
def upsert (table : Table) (entity : RvecEntity) : Table :=
  table.filter (fun r => r.id ≠ entity.id) ++ [entity]

/-- `DELETE FROM rvec_entries WHERE id NOT IN (SELECT id FROM rvec_entries ORDER BY updatedAt DESC
LIMIT :keep)` -/
def trim (table : Table) (keep : ℕ) : Table :=
  table.filter fun r => r.id ∈ (all table keep).map (·.id)

/-- `DELETE FROM rvec_entries` -/
def clear (_ : Table) : Table := []

/-- The row with a given primary key. -/
def row (table : Table) (id : String) : Option RvecEntity :=
  table.find? fun r => r.id = id

theorem mem_of_mem_forHost {table : Table} {hash : String} {limit : ℕ} {r : RvecEntity}
    (hr : r ∈ forHost table hash limit) :
  r ∈ table ∧ r.hostnameHash = hash
  := by
  have hsorted := List.mem_of_mem_take hr
  rw [Collections.mem_sortedByDescending, List.mem_filter] at hsorted
  simpa using hsorted

/-- A table that is small enough is not trimmed. -/
theorem trim_of_length_le {table : Table} {keep : ℕ} (hlen : table.length ≤ keep) :
  trim table keep = table
  := by
  unfold trim
  rw [List.filter_eq_self]
  intro r hr
  rw [decide_eq_true_iff, List.mem_map]
  use r
  constructor
  · rw [all, List.take_of_length_le]
    · apply (Collections.mem_sortedByDescending _).mpr hr
    · rw [(Collections.sortedByDescending_perm _ _).length_eq]
      apply hlen
  · rfl

/-- The other rows are as they were. -/
theorem row_upsert_of_ne {table : Table} {entity : RvecEntity} {id : String}
    (hne : id ≠ entity.id) :
  row (upsert table entity) id = row table id
  := by
  have hlast : [entity].find? (fun r => decide (r.id = id)) = none := by
    simp [hne.symm]
  rw [row, upsert, List.find?_append, hlast, Option.or_none, row, List.find?_filter]
  congr 1
  funext r
  by_cases hr : r.id = id
  · simp [hr, hne]
  · simp [hr]

end RvecDao

/-! ### Records as text -/

/-- The separator `\u0001` of the fields. -/
def fieldSeparator : Char := Char.ofNat 1

/-- `toString` of a value, or the empty string for null. -/
def orEmpty : Option ℤ → String
  | some n => toString n
  | none => ""

/-- `RvecStore.serialize` -/
def serialize (r : RvecRecord) : String :=
  Text.joinToString fieldSeparator
    [r.hostname, r.ipAddress, r.ipFamily.name, toString r.port, r.transport.name,
      Text.joinToString ',' r.alpn, r.networkContextId, orEmpty r.lastSuccessAt,
      orEmpty r.lastFailureAt, toString r.consecutiveFailures, orEmpty r.cooldownUntil,
      toString r.discoveredAt]

/-- `IpFamily.valueOf` -/
def ipFamilyValueOf (s : String) : Option IpFamily :=
  [IpFamily.ipv4, .ipv6].find? fun f => f.name = s

/-- `Transport.valueOf` -/
def transportValueOf (s : String) : Option Transport :=
  [Transport.tcp, .udp, .quicNotImplemented].find? fun t => t.name = s

/-- The application protocols in a field. -/
def parseAlpn (s : String) : List String :=
  if s.isEmpty then [] else Text.split ',' s

/-- `RvecStore.deserialize`; an exception is `none`. -/
def deserialize (s : String) : Option RvecRecord :=
  match Text.split fieldSeparator s with
  | p0 :: p1 :: p2 :: p3 :: p4 :: p5 :: p6 :: p7 :: p8 :: p9 :: p10 :: p11 :: _ => do
      let ipFamily ← ipFamilyValueOf p2
      let port ← Text.toIntOrNull p3
      let transport ← transportValueOf p4
      let consecutiveFailures ← Text.toIntOrNull p9
      let discoveredAt ← Text.toLongOrNull p11
      if h : '/' ∉ p0.toList ∧ '?' ∉ p0.toList then
        some
          { hostname := p0
            ipAddress := p1
            ipFamily := ipFamily
            port := port
            transport := transport
            alpn := parseAlpn p5
            networkContextId := p6
            lastSuccessAt := Text.toLongOrNull p7
            lastFailureAt := Text.toLongOrNull p8
            consecutiveFailures := consecutiveFailures
            cooldownUntil := Text.toLongOrNull p10
            discoveredAt := discoveredAt
            noPath := h.1
            noQuery := h.2 }
      else none
  | _ => none

/-- The fields of the record are values of their types. -/
structure InRange (r : RvecRecord) : Prop where
  port : IsInt32 r.port
  consecutiveFailures : IsInt32 r.consecutiveFailures
  discoveredAt : IsInt64 r.discoveredAt
  lastSuccessAt : ∀ n ∈ r.lastSuccessAt, IsInt64 n
  lastFailureAt : ∀ n ∈ r.lastFailureAt, IsInt64 n
  cooldownUntil : ∀ n ∈ r.cooldownUntil, IsInt64 n

/-- No text of the record has the separator of the fields. -/
@[mk_iff]
structure Separable (r : RvecRecord) : Prop where
  hostname : fieldSeparator ∉ r.hostname.toList
  ipAddress : fieldSeparator ∉ r.ipAddress.toList
  alpn : ∀ a ∈ r.alpn, fieldSeparator ∉ a.toList
  networkContextId : fieldSeparator ∉ r.networkContextId.toList

instance (r : RvecRecord) : Decidable (Separable r) :=
  decidable_of_iff _ (separable_iff r).symm

theorem toLongOrNull_orEmpty {n : Option ℤ} (hn : ∀ k ∈ n, IsInt64 k) :
  Text.toLongOrNull (orEmpty n) = n
  := by
  cases n with
  | none => decide
  | some k => apply Text.number_toString (hn k rfl).1 (hn k rfl).2

theorem toIntOrNull_toString {n : ℤ} (hn : IsInt32 n) :
  Text.toIntOrNull (toString n) = some n
  := Text.number_toString hn.1 hn.2

theorem ipFamilyValueOf_name (f : IpFamily) :
  ipFamilyValueOf f.name = some f
  := by
  cases f <;> decide

theorem transportValueOf_name (t : Transport) :
  transportValueOf t.name = some t
  := by
  cases t <;> decide

theorem not_mem_orEmpty (n : Option ℤ) :
  fieldSeparator ∉ (orEmpty n).toList
  := by
  cases n with
  | none => simp [orEmpty]
  | some k => apply Text.not_mem_toString (by decide) (by decide)

theorem not_mem_ipFamily_name (f : IpFamily) :
  fieldSeparator ∉ f.name.toList
  := by
  cases f <;> decide

theorem not_mem_transport_name (t : Transport) :
  fieldSeparator ∉ t.name.toList
  := by
  cases t <;> decide

theorem not_mem_joined_alpn {r : RvecRecord} (hr : Separable r) :
  fieldSeparator ∉ (Text.joinToString ',' r.alpn).toList
  := Text.not_mem_joinToString (by decide) hr.alpn

/-- What is left of the application protocols after they have been written and read. -/
def storedAlpn (alpn : List String) : List String :=
  parseAlpn (Text.joinToString ',' alpn)

/-- The fields of a record are found again. -/
theorem split_serialize {r : RvecRecord} (hr : Separable r) :
  Text.split fieldSeparator (serialize r)
    = [r.hostname, r.ipAddress, r.ipFamily.name, toString r.port, r.transport.name,
      Text.joinToString ',' r.alpn, r.networkContextId, orEmpty r.lastSuccessAt,
      orEmpty r.lastFailureAt, toString r.consecutiveFailures, orEmpty r.cooldownUntil,
      toString r.discoveredAt]
  := by
  apply Text.split_joinToString _ _ (List.cons_ne_nil _ _)
  have hnumber : ∀ n : ℤ, fieldSeparator ∉ (toString n).toList :=
    Text.not_mem_toString (by decide) (by decide)
  simp only [List.forall_mem_cons, List.not_mem_nil, false_imp_iff, implies_true, and_true]
  exact ⟨hr.hostname, hr.ipAddress, not_mem_ipFamily_name _, hnumber _,
    not_mem_transport_name _, not_mem_joined_alpn hr, hr.networkContextId, not_mem_orEmpty _,
    not_mem_orEmpty _, hnumber _, not_mem_orEmpty _, hnumber _⟩

/-- A record is read back as it was written, up to its application protocols. -/
theorem deserialize_serialize {r : RvecRecord} (hrange : InRange r) (hr : Separable r) :
  deserialize (serialize r) = some { r with alpn := storedAlpn r.alpn }
  := by
  have hdiscovered : Text.toLongOrNull (toString r.discoveredAt) = some r.discoveredAt :=
    Text.number_toString hrange.discoveredAt.1 hrange.discoveredAt.2
  simp only [deserialize, split_serialize hr, ipFamilyValueOf_name,
    toIntOrNull_toString hrange.port, transportValueOf_name,
    toIntOrNull_toString hrange.consecutiveFailures, hdiscovered,
    toLongOrNull_orEmpty hrange.lastSuccessAt, toLongOrNull_orEmpty hrange.lastFailureAt,
    toLongOrNull_orEmpty hrange.cooldownUntil, Option.bind_eq_bind, Option.bind_some,
    dif_pos (And.intro r.noPath r.noQuery), storedAlpn]

theorem separable_storedAlpn {r : RvecRecord} (hr : Separable r) :
  Separable { r with alpn := storedAlpn r.alpn }
  := by
  refine ⟨hr.hostname, hr.ipAddress, ?_, hr.networkContextId⟩
  intro a ha hmem
  simp only [storedAlpn, parseAlpn] at ha
  split_ifs at ha
  · cases ha
  · apply not_mem_joined_alpn hr
    apply Text.mem_of_mem_split ha hmem

/-! ### The records that survive -/

/-- The texts of a record that was read are fields of the text, and its application protocols
are those of a field. -/
theorem deserialize_eq_some {s : String} {r : RvecRecord} (h : deserialize s = some r) :
  ∃ family port transport alpn rest, Text.split fieldSeparator s =
      r.hostname :: r.ipAddress :: family :: port :: transport :: alpn :: r.networkContextId ::
        rest ∧
    r.alpn = parseAlpn alpn
  := by
  unfold deserialize at h
  split at h
  · next p0 p1 p2 p3 p4 p5 p6 p7 p8 p9 p10 p11 rest hparts =>
      simp only [Option.bind_eq_bind, Option.bind_eq_some_iff] at h
      obtain ⟨ipFamily, -, port, -, transport, -, failures, -, discoveredAt, -, h⟩ := h
      split_ifs at h with hhost
      obtain rfl := Option.some.inj h
      exact ⟨p2, p3, p4, p5, _, hparts, rfl⟩
  · cases h

/-- The application protocols in a field have neither a comma nor a character that is not in
the field. -/
theorem not_mem_of_mem_parseAlpn {field a : String} (ha : a ∈ parseAlpn field) :
  ',' ∉ a.toList ∧ ∀ c ∈ a.toList, c ∈ field.toList
  := by
  unfold parseAlpn at ha
  split_ifs at ha
  · cases ha
  · exact ⟨Text.not_mem_of_mem_split ha, fun c hc => Text.mem_of_mem_split ha hc⟩

theorem parseAlpn_ne_singleton (field : String) :
  parseAlpn field ≠ [""]
  := by
  unfold parseAlpn
  split_ifs with hempty
  · simp
  · intro h
    apply hempty
    have hjoin : [','].intercalate (field.toList.splitOn ',') = field.toList :=
      List.intercalate_splitOn ','
    have hparts : field.toList.splitOn ',' = [[]] := by
      have hmap := congrArg (List.map String.toList) h
      simpa [Text.split, Function.comp_def] using hmap
    rw [hparts, List.intercalate_singleton] at hjoin
    rw [String.isEmpty_iff, ← String.ofList_toList (s := field), ← hjoin]

/-- Application protocols without commas are read back, unless there is one and it is empty. -/
theorem storedAlpn_of_not_mem {alpn : List String} (hcomma : ∀ a ∈ alpn, ',' ∉ a.toList)
    (hne : alpn ≠ [""]) :
  storedAlpn alpn = alpn
  := by
  unfold storedAlpn parseAlpn
  split_ifs with hempty
  · have hnil : (Text.joinToString ',' alpn).toList = [] := by
      rw [String.isEmpty_iff] at hempty
      rw [hempty]
      rfl
    rw [Text.toList_joinToString] at hnil
    cases alpn with
    | nil => rfl
    | cons a rest =>
        cases rest with
        | nil =>
            rw [List.map_singleton, List.intercalate_singleton] at hnil
            exact absurd (congrArg (fun b => [b]) (String.toList_eq_nil_iff.mp hnil)) hne
        | cons b rest => simp [List.intercalate_cons_cons] at hnil
  · apply Text.split_joinToString ',' alpn _ hcomma
    rintro rfl
    apply hempty
    rfl

/-- No text of a record that was read has the separator of the fields. -/
theorem separable_of_deserialize {s : String} {r : RvecRecord} (h : deserialize s = some r) :
  Separable r
  := by
  obtain ⟨family, port, transport, alpn, rest, hsplit, halpn⟩ := deserialize_eq_some h
  have hfield : ∀ p ∈ Text.split fieldSeparator s, fieldSeparator ∉ p.toList :=
    fun p hp => Text.not_mem_of_mem_split hp
  rw [hsplit] at hfield
  constructor
  · apply hfield
    simp
  · apply hfield
    simp
  · intro a ha hmem
    rw [halpn] at ha
    apply hfield alpn (by simp)
    apply (not_mem_of_mem_parseAlpn ha).2 _ hmem
  · apply hfield
    simp

/-- The identifier of the context is read back as it was written. -/
theorem networkContextId_of_deserialize {r r' : RvecRecord} (hr : Separable r)
    (h : deserialize (serialize r) = some r') :
  r'.networkContextId = r.networkContextId
  := by
  obtain ⟨family, port, transport, alpn, rest, hsplit, -⟩ := deserialize_eq_some h
  rw [split_serialize hr] at hsplit
  have hid := congrArg (fun fields => (fields.drop 6).head?) hsplit
  apply (Option.some.inj hid).symm

/-- Every record, whatever its numbers are, is read back as it was written exactly when no text
of it has the separator of the fields, no application protocol has a comma, and the list of
them is not a single empty one. -/
theorem deserialize_serialize_eq_self_iff (r : RvecRecord) (hrange : InRange r) :
  deserialize (serialize r) = some r ↔
    Separable r ∧ (∀ a ∈ r.alpn, ',' ∉ a.toList) ∧ r.alpn ≠ [""]
  := by
  constructor
  · intro h
    obtain ⟨family, port, transport, field, rest, -, halpn⟩ := deserialize_eq_some h
    refine ⟨separable_of_deserialize h, ?_, ?_⟩
    · intro a ha
      rw [halpn] at ha
      apply (not_mem_of_mem_parseAlpn ha).1
    · rw [halpn]
      apply parseAlpn_ne_singleton
  · rintro ⟨hseparable, hcomma, hne⟩
    rw [deserialize_serialize hrange hseparable, storedAlpn_of_not_mem hcomma hne]

/-- A record with negative numbers, no success and two application protocols. -/
def sampleRecord : RvecRecord where
  hostname := "example.org"
  ipAddress := "10.0.0.1"
  ipFamily := .ipv4
  port := -1
  transport := .tcp
  alpn := ["h2", "http/1.1"]
  networkContextId := ""
  lastSuccessAt := none
  lastFailureAt := some (-2 ^ 63)
  consecutiveFailures := 2 ^ 31 - 1
  cooldownUntil := some 0
  discoveredAt := 7
  noPath := by decide
  noQuery := by decide

theorem deserialize_serialize_sampleRecord :
  InRange sampleRecord ∧ deserialize (serialize sampleRecord) = some sampleRecord
  := by
  have hrange : InRange sampleRecord := by
    constructor <;> decide
  use hrange
  apply (deserialize_serialize_eq_self_iff sampleRecord hrange).mpr
  decide

/-! ### The store -/

/-- `RvecCrypto`: the cipher, with its random initialisation vector as an argument. -/
structure RvecCrypto where
  encrypt : ℕ → String → String
  decrypt : String → Option String
  decrypt_encrypt : ∀ iv plain, decrypt (encrypt iv plain) = some plain

/-- `hostname.lowercase().hashCode().toString()`, of the lower-cased hostname. -/
def hostnameHash (host : String) : String :=
  toString (Text.hashCode host)

/-- An endpoint: the key of a row. -/
structure Endpoint where
  host : String
  ipAddress : String
  port : ℤ
  transport : Transport
  deriving DecidableEq, Repr

/-- The primary key `upsert` gives to an endpoint. -/
def Endpoint.id (e : Endpoint) : String :=
  Text.joinToString '|' [e.host, e.ipAddress, toString e.port, e.transport.name]

section Store

variable {S : Type} [Zero S] (lowercase : String → String) (crypto : RvecCrypto)

/-- The endpoint of a record. -/
def recordEndpoint (r : RvecRecord) : Endpoint :=
  ⟨lowercase r.hostname, r.ipAddress, r.port, r.transport⟩

/-- The record of a row; an exception is `none`. -/
def decryptRecord (entity : RvecEntity) : Option RvecRecord :=
  (crypto.decrypt entity.blob).bind deserialize

/-- `RvecStore.decryptEntity` -/
def decryptEntity (entity : RvecEntity) : Option (EndpointCandidate S) :=
  (decryptRecord crypto entity).map RvecRecord.toCandidate

/-- `RvecStore.listForHost` -/
def listForHost (table : Table) (hostname : String)
    (limit : ℕ := Default.maxCacheCandidatesPerHost) : List (EndpointCandidate S) :=
  (RvecDao.forHost table (hostnameHash (lowercase hostname)) limit).filterMap
    (decryptEntity crypto)

/-- The row `upsert` writes for a record. -/
def entityOf (record : RvecRecord) (updatedAt : ℤ) (iv : ℕ) : RvecEntity where
  id := (recordEndpoint lowercase record).id
  blob := crypto.encrypt iv (serialize record)
  hostnameHash := hostnameHash (lowercase record.hostname)
  updatedAt := updatedAt

/-- `RvecStore.upsert` -/
def upsert (table : Table) (record : RvecRecord) (updatedAt : ℤ) (iv : ℕ) : Table :=
  RvecDao.upsert table (entityOf lowercase crypto record updatedAt iv)

/-- `RvecStore.saveSuccess` -/
def saveSuccess (table : Table) (candidate : EndpointCandidate S) (nowMs : ℤ)
    (contextId : String) (updatedAt : ℤ) (iv : ℕ) : Table :=
  let record := onSuccess (fromCandidate candidate) nowMs contextId
  RvecDao.trim (upsert lowercase crypto table record updatedAt iv) Default.maxGlobalRvecEntries

/-- The record `saveFailure` counts the failure on. -/
def failureBase (table : Table) (candidate : EndpointCandidate S) : RvecRecord :=
  let existing := (listForHost lowercase crypto (S := S) table candidate.hostname).find? fun it =>
    it.ipAddress = candidate.ipAddress ∧ it.port = candidate.port
  match existing with
  | some it => fromCandidate it
  | none => fromCandidate candidate

/-- `RvecStore.saveFailure` -/
def saveFailure (table : Table) (candidate : EndpointCandidate S) (nowMs : ℤ)
    (contextId : String) (stage : FailureStage) (updatedAt : ℤ) (iv : ℕ) : Table :=
  let record := onFailure (failureBase lowercase crypto table candidate) nowMs stage contextId
  upsert lowercase crypto table record updatedAt iv

end Store

end Storage
