import DtmaOne.Storage.RvecAccounting

/-!
# The rows of the store

What the table holds after any sequence of calls of `saveSuccess`, `saveFailure` and `clear`,
on any candidates.

The table is compared with a log that is never trimmed.  As long as no `saveFailure` adds a row
to a full table, the table has at most `MAX_GLOBAL_RVEC_ENTRIES` rows, and they are the latest
ones of the log: `saveSuccess` trims the table after it has written, `saveFailure` does not.

Rows are selected by the hash of the hostname only.  A host sees the candidates of another one
with the same hash; it sees only its own as long as there is no such host.
-/

namespace Storage

open Paer Paer.RvecPolicy

/-! ### Trimming -/

namespace RvecDao

/-- The latest rows are rows of the table. -/
theorem mem_of_mem_all {table : Table} {limit : ℕ} {r : RvecEntity} (hr : r ∈ all table limit) :
  r ∈ table
  := (Collections.mem_sortedByDescending _).mp (List.mem_of_mem_take hr)

theorem nodup_all {table : Table} (hnodup : (table.map (·.id)).Nodup) (limit : ℕ) :
  (all table limit).Nodup
  := by
  apply (List.take_sublist _ _).nodup
  apply (Collections.sortedByDescending_perm _ _).nodup_iff.mpr
  apply List.Nodup.of_map _ hnodup

/-- Trimming keeps the latest rows. -/
theorem trim_perm_all {table : Table} (hnodup : (table.map (·.id)).Nodup) (keep : ℕ) :
  (trim table keep).Perm (all table keep)
  := by
  rw [List.perm_ext_iff_of_nodup _ (nodup_all hnodup keep)]
  · intro r
    rw [trim, List.mem_filter, decide_eq_true_iff]
    constructor
    · rintro ⟨hr, hid⟩
      obtain ⟨r', hr', hid'⟩ := List.mem_map.mp hid
      obtain rfl := List.inj_on_of_nodup_map hnodup (mem_of_mem_all hr') hr hid'
      apply hr'
    · intro hr
      exact ⟨mem_of_mem_all hr, List.mem_map_of_mem hr⟩
  · apply List.filter_sublist.nodup
    apply List.Nodup.of_map _ hnodup

theorem length_all_le (table : Table) (limit : ℕ) :
  (all table limit).length ≤ limit
  := List.length_take_le _ _

theorem nodup_upsert {table : Table} (hnodup : (table.map (·.id)).Nodup) (entity : RvecEntity) :
  ((upsert table entity).map (·.id)).Nodup
  := Collections.nodup_filter_append _ hnodup entity

theorem nodup_trim {table : Table} (hnodup : (table.map (·.id)).Nodup) (keep : ℕ) :
  ((trim table keep).map (·.id)).Nodup
  := (List.filter_sublist.map _).nodup hnodup

/-- A row with a new key makes the table longer. -/
theorem length_upsert_of_not_mem {table : Table} {entity : RvecEntity}
    (hnew : entity.id ∉ table.map (·.id)) :
  (upsert table entity).length = table.length + 1
  := by
  rw [upsert, List.filter_eq_self.mpr, List.length_append, List.length_singleton]
  intro r hr
  rw [decide_eq_true_iff]
  rintro heq
  apply hnew
  rw [← heq]
  apply List.mem_map_of_mem hr

/-- A row that replaces another does not make the table longer. -/
theorem length_upsert_of_mem {table : Table} {entity : RvecEntity}
    (hold : entity.id ∈ table.map (·.id)) :
  (upsert table entity).length ≤ table.length
  := by
  obtain ⟨r, hr, hid⟩ := List.mem_map.mp hold
  rw [upsert, List.length_append, List.length_singleton]
  apply Nat.succ_le_of_lt
  apply List.length_filter_lt_length_iff_exists.mpr
  use r, hr
  simp [hid]

/-- The latest rows after a row was written that is later than all others. -/
theorem all_upsert {table : Table} {entity : RvecEntity}
    (hnew : ∀ r ∈ table, r.updatedAt < entity.updatedAt) (keep : ℕ) :
  all (upsert table entity) (keep + 1)
    = entity :: ((Collections.sortedByDescending (·.updatedAt) table).filter
        fun r => r.id ≠ entity.id).take keep
  := by
  rw [all, upsert, Collections.sortedByDescending_append_singleton, List.take_succ_cons,
    Collections.filter_sortedByDescending]
  intro r hr
  apply hnew r (List.mem_of_mem_filter hr)

/-- The latest rows of the table remain the latest ones of a log that is never trimmed, when a
later row is written to both and the table has or gets enough room for it. -/
theorem all_upsert_perm {table log : Table} {entity : RvecEntity} {keep : ℕ}
    (hlatest : table.Perm (all log (keep + 1))) (hkeys : (log.map (·.id)).Nodup)
    (htimes : (log.map (·.updatedAt)).Nodup)
    (hnew : ∀ r ∈ log, r.updatedAt < entity.updatedAt) :
  all (upsert table entity) (keep + 1) = all (upsert log entity) (keep + 1)
  := by
  have hsorted : Collections.sortedByDescending (·.updatedAt) table = all log (keep + 1) := by
    apply Collections.sortedByDescending_eq_of_perm _ hlatest
    · apply List.Pairwise.sublist (List.take_sublist _ _)
      apply Collections.sortedByDescending_pairwise
    · intro a ha b hb
      apply List.inj_on_of_nodup_map htimes (mem_of_mem_all ha) (mem_of_mem_all hb)
  have hkeys' : ((Collections.sortedByDescending (·.updatedAt) log).map (·.id)).Nodup :=
    ((Collections.sortedByDescending_perm _ log).map _).nodup_iff.mpr hkeys
  rw [all_upsert, all_upsert hnew, hsorted, all, Collections.take_filter_take _ hkeys']
  intro r hr
  apply hnew r (mem_of_mem_all (hlatest.mem_iff.mp hr))

/-- A table with room enough is a permutation of its latest rows. -/
theorem perm_all_of_length_le {table : Table} {limit : ℕ} (hlen : table.length ≤ limit) :
  table.Perm (all table limit)
  := by
  rw [all, List.take_of_length_le]
  · apply (Collections.sortedByDescending_perm _ _).symm
  · rw [(Collections.sortedByDescending_perm _ _).length_eq]
    apply hlen

end RvecDao

/-! ### The operations -/

/-- A call of the store, with the time and the initialisation vector its `upsert` uses. -/
inductive Operation (S : Type) where
  | saveSuccess (candidate : EndpointCandidate S) (nowMs : ℤ) (contextId : String)
      (updatedAt : ℤ) (iv : ℕ)
  | saveFailure (candidate : EndpointCandidate S) (nowMs : ℤ) (contextId : String)
      (stage : FailureStage) (updatedAt : ℤ) (iv : ℕ)
  | clear

/-- The time of the row an operation writes. -/
def Operation.updatedAt {S : Type} : Operation S → Option ℤ
  | .saveSuccess _ _ _ updatedAt _ => some updatedAt
  | .saveFailure _ _ _ _ updatedAt _ => some updatedAt
  | .clear => none

/-- The table, and the log: the table there would be if it were never trimmed. -/
structure Ledger where
  table : Table
  log : Table

/-- The store before the first call. -/
def Ledger.empty : Ledger := ⟨[], []⟩

section Increasing

variable {S : Type}

/-- The times of the rows the operations write increase. -/
def Increasing (ops : List (Operation S)) : Prop :=
  (ops.filterMap Operation.updatedAt).Pairwise (· < ·)

/-- The log of increasing operations, and what the table has of it. -/
structure Latest (pre : List (Operation S)) (s : Ledger) : Prop where
  perm : s.table.Perm (RvecDao.all s.log Default.maxGlobalRvecEntries)
  times : (s.log.map (·.updatedAt)).Nodup
  logged : ∀ r ∈ s.log, r.updatedAt ∈ pre.filterMap Operation.updatedAt

/-- The invariant of the runs in which every operation finds room. -/
structure Roomy (pre : List (Operation S)) (s : Ledger) : Prop where
  keys : (s.table.map (·.id)).Nodup
  logKeys : (s.log.map (·.id)).Nodup
  length : s.table.length ≤ Default.maxGlobalRvecEntries
  latest : Increasing pre → Latest pre s

theorem roomy_empty :
  Roomy ([] : List (Operation S)) Ledger.empty
  := by
  refine ⟨List.nodup_nil, List.nodup_nil, Nat.zero_le _, ?_⟩
  intro _
  exact ⟨List.Perm.refl _, List.nodup_nil, by rintro r ⟨⟩⟩

/-- A table that has room for a row holds the latest rows of the log after it was written. -/
theorem latest_upsert {pre : List (Operation S)} {s t : Ledger} {op : Operation S}
    {entity : RvecEntity} (hlatest : Latest pre s) (hkeys : (s.log.map (·.id)).Nodup)
    (htime : op.updatedAt = some entity.updatedAt) (hincreasing : Increasing (pre ++ [op]))
    (hlog : t.log = RvecDao.upsert s.log entity)
    (htable : t.table.Perm
      (RvecDao.all (RvecDao.upsert s.table entity) Default.maxGlobalRvecEntries)) :
  Latest (pre ++ [op]) t
  := by
  have htimes : (pre ++ [op]).filterMap Operation.updatedAt
      = pre.filterMap Operation.updatedAt ++ [entity.updatedAt] := by
    rw [List.filterMap_append, List.filterMap_cons_some htime, List.filterMap_nil]
  have hnew : ∀ r ∈ s.log, r.updatedAt < entity.updatedAt := by
    intro r hr
    rw [Increasing, htimes, List.pairwise_append] at hincreasing
    apply hincreasing.2.2 _ (hlatest.logged r hr) _ (List.mem_singleton_self _)
  constructor
  · rw [hlog]
    apply htable.trans
    apply List.Perm.of_eq
    apply RvecDao.all_upsert_perm hlatest.perm hkeys hlatest.times hnew
  · rw [hlog, RvecDao.upsert, List.map_append, List.nodup_append]
    refine ⟨(List.filter_sublist.map _).nodup hlatest.times, List.nodup_singleton _, ?_⟩
    intro i hi j hj
    obtain ⟨r, hr, rfl⟩ := List.mem_map.mp hi
    obtain rfl := List.mem_singleton.mp hj
    apply ne_of_lt (hnew r (List.mem_of_mem_filter hr))
  · intro r hr
    rw [htimes, List.mem_append, List.mem_singleton]
    rw [hlog, RvecDao.upsert, List.mem_append, List.mem_singleton] at hr
    obtain hr | rfl := hr
    · left
      apply hlatest.logged r (List.mem_of_mem_filter hr)
    · right
      rfl

end Increasing

section Operations

variable {S : Type} [Zero S] (lowercase : String → String) (crypto : RvecCrypto)

/-- The table after an operation. -/
def Operation.apply (table : Table) : Operation S → Table
  | .saveSuccess candidate nowMs contextId updatedAt iv =>
      Storage.saveSuccess lowercase crypto table candidate nowMs contextId updatedAt iv
  | .saveFailure candidate nowMs contextId stage updatedAt iv =>
      Storage.saveFailure lowercase crypto table candidate nowMs contextId stage updatedAt iv
  | .clear => RvecDao.clear table

/-- The row an operation writes. -/
def Operation.written (table : Table) : Operation S → Option RvecEntity
  | .saveSuccess candidate nowMs contextId updatedAt iv =>
      some (entityOf lowercase crypto (onSuccess (fromCandidate candidate) nowMs contextId)
        updatedAt iv)
  | .saveFailure candidate nowMs contextId stage updatedAt iv =>
      some (entityOf lowercase crypto
        (onFailure (failureBase lowercase crypto table candidate) nowMs stage contextId)
        updatedAt iv)
  | .clear => none

/-- An operation as a step of a run; the log takes every row that is written. -/
def Ledger.step (s : Ledger) (op : Operation S) : Option Ledger :=
  some
    { table := op.apply lowercase crypto s.table
      log := ((op.written lowercase crypto s.table).map (RvecDao.upsert s.log)).getD [] }

/-- A `saveFailure` finds room in the table, or replaces a row: that of the record its lookup
finds, or of the candidate if it finds none. -/
def Operation.Fits (s : Ledger) : Operation S → Prop
  | .saveFailure candidate _ _ _ _ _ =>
      s.table.length < Default.maxGlobalRvecEntries ∨
        (recordEndpoint lowercase (failureBase lowercase crypto s.table candidate)).id
          ∈ s.table.map (·.id)
  | _ => True

/-! ### The bound -/

/-- After every operation the table is small enough, and if the times increase, then it has the
latest rows of the log. -/
def KeepsLatest (ops : List (Operation S)) : Prop :=
  ∀ pre, pre <+: ops → ∀ s, Run.exec (Ledger.step lowercase crypto) Ledger.empty pre = some s →
    s.table.length ≤ Default.maxGlobalRvecEntries ∧
      (Increasing pre → s.table.Perm (RvecDao.all s.log Default.maxGlobalRvecEntries))

variable {lowercase crypto}

/-- What an operation that writes a row does to the ledger: the log takes the row, and so does
the table, which is trimmed or has room for it. -/
theorem step_of_written {s t : Ledger} {op : Operation S} {entity : RvecEntity}
    (hwritten : op.written lowercase crypto s.table = some entity)
    (hstep : Ledger.step lowercase crypto s op = some t) :
  op.updatedAt = some entity.updatedAt ∧ t.log = RvecDao.upsert s.log entity ∧
    (t.table = RvecDao.trim (RvecDao.upsert s.table entity) Default.maxGlobalRvecEntries ∨
      t.table = RvecDao.upsert s.table entity ∧
        (op.Fits lowercase crypto s ↔ s.table.length < Default.maxGlobalRvecEntries ∨
          entity.id ∈ s.table.map (·.id)))
  := by
  obtain rfl := Option.some.inj hstep
  cases op with
  | saveSuccess candidate nowMs contextId updatedAt iv =>
      obtain rfl := Option.some.inj hwritten
      exact ⟨rfl, rfl, Or.inl rfl⟩
  | saveFailure candidate nowMs contextId stage updatedAt iv =>
      obtain rfl := Option.some.inj hwritten
      refine ⟨rfl, rfl, Or.inr ⟨rfl, ?_⟩⟩
      rw [Operation.Fits, entityOf, recordEndpoint_onFailure]
  | clear => cases hwritten

theorem step_of_not_written {s t : Ledger} {op : Operation S}
    (hwritten : op.written lowercase crypto s.table = none)
    (hstep : Ledger.step lowercase crypto s op = some t) :
  t = Ledger.empty
  := by
  obtain rfl := Option.some.inj hstep
  cases op with
  | saveSuccess candidate nowMs contextId updatedAt iv => cases hwritten
  | saveFailure candidate nowMs contextId stage updatedAt iv => cases hwritten
  | clear => rfl

/-- An operation that finds room keeps the invariant. -/
theorem roomy_step {pre : List (Operation S)} {s t : Ledger} {op : Operation S}
    (h : Roomy pre s) (hfits : op.Fits lowercase crypto s)
    (hstep : Ledger.step lowercase crypto s op = some t) :
  Roomy (pre ++ [op]) t
  := by
  have hbefore : Increasing (pre ++ [op]) → Increasing pre := by
    intro hincreasing
    apply List.Pairwise.sublist _ hincreasing
    apply (List.sublist_append_left pre [op]).filterMap
  cases hwritten : op.written lowercase crypto s.table with
  | none =>
      obtain rfl := step_of_not_written hwritten hstep
      refine ⟨List.nodup_nil, List.nodup_nil, Nat.zero_le _, ?_⟩
      intro _
      exact ⟨List.Perm.refl _, List.nodup_nil, by rintro r ⟨⟩⟩
  | some entity =>
      obtain ⟨htime, hlog, htable⟩ := step_of_written hwritten hstep
      have hkeys := RvecDao.nodup_upsert h.keys entity
      have hlogKeys : (t.log.map (·.id)).Nodup := by
        rw [hlog]
        apply RvecDao.nodup_upsert h.logKeys
      obtain htable | ⟨htable, hroom⟩ := htable
      · have hperm := RvecDao.trim_perm_all hkeys Default.maxGlobalRvecEntries
        rw [← htable] at hperm
        refine ⟨?_, hlogKeys, ?_, ?_⟩
        · rw [htable]
          apply RvecDao.nodup_trim hkeys
        · rw [hperm.length_eq]
          apply RvecDao.length_all_le
        · intro hincreasing
          apply latest_upsert (h.latest (hbefore hincreasing)) h.logKeys htime hincreasing hlog hperm
      · have hlen : (RvecDao.upsert s.table entity).length ≤ Default.maxGlobalRvecEntries := by
          by_cases hold : entity.id ∈ s.table.map (·.id)
          · apply (RvecDao.length_upsert_of_mem hold).trans h.length
          · rw [RvecDao.length_upsert_of_not_mem hold]
            apply (hroom.mp hfits).resolve_right hold
        refine ⟨?_, hlogKeys, ?_, ?_⟩
        · rw [htable]
          apply hkeys
        · rw [htable]
          apply hlen
        · intro hincreasing
          apply latest_upsert (h.latest (hbefore hincreasing)) h.logKeys htime hincreasing hlog
          rw [htable]
          apply RvecDao.perm_all_of_length_le hlen

theorem roomy_run {ops : List (Operation S)}
    (hmeets : Run.Meets (Ledger.step lowercase crypto) (Operation.Fits lowercase crypto)
      Ledger.empty ops)
    (pre : List (Operation S)) (hpre : pre <+: ops) {s : Ledger}
    (hrun : Run.exec (Ledger.step lowercase crypto) Ledger.empty pre = some s) :
  Roomy pre s
  := Run.invariant_of_events (fun _ _ _ _ hs hfits hstep => roomy_step hs hfits hstep) roomy_empty
    hmeets hpre hrun

/-- A `saveFailure` that finds no room leaves too many rows. -/
theorem fits_of_length_le {s t : Ledger} {op : Operation S}
    (hstep : Ledger.step lowercase crypto s op = some t)
    (hlen : t.table.length ≤ Default.maxGlobalRvecEntries) :
  op.Fits lowercase crypto s
  := by
  cases op with
  | saveSuccess candidate nowMs contextId updatedAt iv => trivial
  | clear => trivial
  | saveFailure candidate nowMs contextId stage updatedAt iv =>
      by_contra hfull
      rw [Operation.Fits, not_or] at hfull
      obtain rfl := Option.some.inj hstep
      rw [Operation.apply, saveFailure, upsert, RvecDao.length_upsert_of_not_mem] at hlen
      · omega
      · rw [entityOf, recordEndpoint_onFailure]
        apply hfull.2

variable (lowercase crypto)

/-- The table keeps within its bound and has the latest rows, in every run from the empty table,
if and only if no `saveFailure` of it adds a row to a full table. -/
theorem keepsLatest_iff (ops : List (Operation S)) :
  KeepsLatest lowercase crypto ops ↔
    Run.Meets (Ledger.step lowercase crypto) (Operation.Fits lowercase crypto) Ledger.empty ops
  := by
  constructor
  · intro h
    rw [Run.meets_iff]
    rintro pre op post s rfl hrun
    have hstep : Ledger.step lowercase crypto s op = some _ := rfl
    apply fits_of_length_le hstep
    apply (h (pre ++ [op]) _ _ _).1
    · rw [List.append_cons pre op post]
      apply List.prefix_append
    · rw [Run.exec_append, hrun]
      rfl
  · intro hmeets pre hpre s hrun
    have hroomy := roomy_run hmeets pre hpre hrun
    use hroomy.length
    intro hincreasing
    apply (hroomy.latest hincreasing).perm

/-! ### The hosts -/

/-- The hostname an operation stores. -/
def Operation.hostname : Operation S → Option String
  | .saveSuccess candidate _ _ _ _ => some (fromCandidate candidate).hostname
  | .saveFailure candidate _ _ _ _ _ => some (fromCandidate candidate).hostname
  | .clear => none

/-- What is read back of a hostname: the field ends at a separator. -/
def readBack (name : String) : String := Text.substringBefore fieldSeparator name

/-- A hostname that is read back as `host`, up to the case of letters, if it or what is read back of
it has the hash of `host`. -/
def Apart (host name : String) : Prop :=
  Text.hashCode (lowercase name) = Text.hashCode (lowercase host) ∨
      Text.hashCode (lowercase (readBack name)) = Text.hashCode (lowercase host) →
    lowercase (readBack name) = lowercase host

instance (host name : String) : Decidable (Apart lowercase host name) :=
  inferInstanceAs (Decidable (_ → _))

/-- The candidates listed for a host after every operation are its own. -/
def HostIsolated (ops : List (Operation S)) (host : String) : Prop :=
  ∀ pre, pre <+: ops → ∀ s, Run.exec (Ledger.step lowercase crypto) Ledger.empty pre = some s →
    ∀ (limit : ℕ), ∀ c ∈ listForHost (S := S) lowercase crypto s.table host limit,
      lowercase c.hostname = lowercase host

/-- The rows that are found under the hash of `host` have its hostname, and no row has one that would
be found there and is not `host`. -/
def Sorted (host : String) (table : Table) : Prop :=
  ∀ row ∈ table, ∀ r, decryptRecord crypto row = some r →
    Apart lowercase host r.hostname ∧
      (row.hostnameHash = hostnameHash (lowercase host) → lowercase r.hostname = lowercase host)

variable {lowercase crypto}

/-- The row written for a record holds what is read back of its hostname. -/
theorem hostname_of_decryptRecord {record r : RvecRecord} {updatedAt : ℤ} {iv : ℕ}
    (hr : decryptRecord crypto (entityOf lowercase crypto record updatedAt iv) = some r) :
  r.hostname = readBack record.hostname
  := by
  rw [decryptRecord, entityOf, crypto.decrypt_encrypt, Option.bind_some] at hr
  obtain ⟨family, port, transport, alpn, tail, hfields, -⟩ := deserialize_eq_some hr
  have hhead := congrArg List.head? hfields
  rw [serialize, Text.head?_split_joinToString] at hhead
  apply (Option.some.inj hhead).symm

/-- What has been read back is read back as it is. -/
theorem Apart.readBack {host name : String} (h : Apart lowercase host name) :
  Apart lowercase host (readBack name)
  := by
  have hagain : Storage.readBack (Storage.readBack name) = Storage.readBack name :=
    Text.substringBefore_of_not_mem (Text.not_mem_substringBefore _ _)
  rw [Apart, hagain, or_self]
  exact fun hhash => h (.inr hhash)

theorem sorted_upsert {host : String} {table : Table} {record : RvecRecord}
    (h : Sorted lowercase crypto host table) (hapart : Apart lowercase host record.hostname)
    (updatedAt : ℤ) (iv : ℕ) :
  Sorted lowercase crypto host (upsert lowercase crypto table record updatedAt iv)
  := by
  intro row hrow r hr
  rw [upsert, RvecDao.upsert, List.mem_append, List.mem_singleton] at hrow
  obtain hrow | rfl := hrow
  · apply h row (List.mem_of_mem_filter hrow) r hr
  · rw [hostname_of_decryptRecord hr]
    refine ⟨hapart.readBack, ?_⟩
    intro hhash
    exact hapart (.inl (Text.toString_injective hhash))

/-- The candidates of the table are records of its rows. -/
theorem mem_listForHost {table : Table} {host : String} {limit : ℕ} {c : EndpointCandidate S}
    (hc : c ∈ listForHost lowercase crypto table host limit) :
  ∃ row ∈ table, row.hostnameHash = hostnameHash (lowercase host) ∧
    ∃ r, decryptRecord crypto row = some r ∧ r.toCandidate = c
  := by
  obtain ⟨row, hrow, hdecrypt⟩ := List.mem_filterMap.mp hc
  obtain ⟨hmem, hhash⟩ := RvecDao.mem_of_mem_forHost hrow
  rw [decryptEntity, Option.map_eq_some_iff] at hdecrypt
  exact ⟨row, hmem, hhash, hdecrypt⟩

/-- `saveFailure` counts on a record of the table or on the candidate. -/
theorem failureBase_cases (lowercase : String → String) (crypto : RvecCrypto) (table : Table)
    (candidate : EndpointCandidate S) :
  failureBase lowercase crypto table candidate = fromCandidate candidate ∨
    ∃ row ∈ table, ∃ r, decryptRecord crypto row = some r ∧
      r.ipAddress = candidate.ipAddress ∧ r.port = candidate.port ∧
      failureBase lowercase crypto table candidate = r
  := by
  unfold failureBase
  dsimp only
  split
  · next it hit =>
      right
      obtain ⟨row, hrow, -, r, hr, rfl⟩ := mem_listForHost (List.mem_of_find?_eq_some hit)
      have hmatch := List.find?_some hit
      rw [decide_eq_true_iff] at hmatch
      exact ⟨row, hrow, r, hr, hmatch.1, hmatch.2, fromCandidate_toCandidate r⟩
  · left
    rfl

theorem onFailure_hostname (r : RvecRecord) (nowMs : ℤ) (stage : FailureStage)
    (contextId : String) :
  (onFailure r nowMs stage contextId).hostname = r.hostname
  := by
  unfold onFailure
  split_ifs <;> rfl

/-- An operation with a hostname apart from `host` keeps the rows sorted. -/
theorem sorted_step {host : String} {s t : Ledger} {op : Operation S}
    (h : Sorted lowercase crypto host s.table)
    (hapart : ∀ name ∈ op.hostname, Apart lowercase host name)
    (hstep : Ledger.step lowercase crypto s op = some t) :
  Sorted lowercase crypto host t.table
  := by
  obtain rfl := Option.some.inj hstep
  cases op with
  | saveSuccess candidate nowMs contextId updatedAt iv =>
      intro row hrow
      apply sorted_upsert h _ updatedAt iv row (List.mem_of_mem_filter hrow)
      apply hapart _ rfl
  | saveFailure candidate nowMs contextId stage updatedAt iv =>
      apply sorted_upsert h
      rw [onFailure_hostname]
      obtain hbase | ⟨row, hrow, r, hr, -, -, hbase⟩ :=
        failureBase_cases lowercase crypto s.table candidate
      · rw [hbase]
        apply hapart _ rfl
      · rw [hbase]
        apply (h row hrow r hr).1
  | clear =>
      rintro row ⟨⟩

variable (lowercase crypto)

/-- In every run whose operations store no hostname with the hash of `host`, as it is or as it is read
back, unless it is read back as `host`, after every operation the candidates listed for `host` are its
own. -/
theorem hostIsolated_of_apart (ops : List (Operation S)) (host : String)
    (hapart : ∀ op ∈ ops, ∀ name ∈ op.hostname, Apart lowercase host name) :
  HostIsolated lowercase crypto ops host
  := by
  intro pre hpre s hrun limit c hc
  have hmeets : Run.Meets (Ledger.step lowercase crypto)
      (fun _ (op : Operation S) => ∀ name ∈ op.hostname, Apart lowercase host name)
      Ledger.empty ops := by
    rw [Run.meets_iff]
    rintro before op after t rfl -
    apply hapart op
    simp
  have hsorted : Sorted lowercase crypto host s.table := by
    refine Run.invariant_of_meets_prefix
      (fun s op t (h : Sorted lowercase crypto host s.table) hop hstep => sorted_step h hop hstep)
      ?_ hmeets hpre hrun
    rintro row ⟨⟩
  obtain ⟨row, hrow, hhash, r, hr, rfl⟩ := mem_listForHost hc
  exact (hsorted row hrow r hr).2 hhash

end Operations

/-! ### Two hosts with one hash -/

/-- A candidate for an address of a host. -/
def hostCandidate (hostname : String) : EndpointCandidate ℤ :=
  { (exampleCandidate "10.0.0.1").candidate with hostname := hostname }

/-- A success of the address. -/
def hostSuccess (hostname : String) (t : ℕ) : Operation ℤ :=
  .saveSuccess (hostCandidate hostname) t "wifi" t t

/-- The names `aw.com` and `c9.com` have one hash, so that a success of the one is listed for
the other. -/
theorem not_hostIsolated_collision :
  ¬ ∀ (lowercase : String → String) (crypto : RvecCrypto) (ops : List (Operation ℤ))
    (host : String), HostIsolated lowercase crypto ops host
  := by
  intro h
  have hlisted := h id plainText [hostSuccess "aw.com" 1] "c9.com" _ List.prefix_rfl _ rfl 4
  revert hlisted
  decide +kernel

/-- The candidate of one of two hosts with different hashes is listed for it alone. -/
theorem hostIsolated_twoHosts :
  ∃ s, Run.exec (Ledger.step id plainText) Ledger.empty
      [hostSuccess "c9.com" 1, hostSuccess "aw.org" 2] = some s ∧
    (listForHost (S := ℤ) id plainText s.table "c9.com").length = 1 ∧
    ∀ c ∈ listForHost (S := ℤ) id plainText s.table "c9.com", c.hostname = "c9.com"
  := by
  have hapart : ∀ op ∈ [hostSuccess "c9.com" 1, hostSuccess "aw.org" 2], ∀ name ∈ op.hostname,
      Apart id "c9.com" name := by
    decide +kernel
  refine ⟨_, rfl, by decide +kernel, ?_⟩
  apply hostIsolated_of_apart id plainText _ "c9.com" hapart _ List.prefix_rfl _ rfl

/-! ### A thousand and one failures -/

/-- A candidate for a port of `example.org`. -/
def portCandidate (port : ℕ) : EndpointCandidate ℤ :=
  { (exampleCandidate "10.0.0.1").candidate with port := port }

/-- A timeout of the port. -/
def portFailure (port : ℕ) : Operation ℤ :=
  .saveFailure (portCandidate port) 0 "wifi" .transportTimeout port port

/-- The endpoint of the port. -/
def portEndpoint (port : ℕ) : Endpoint :=
  ⟨"example.org", "10.0.0.1", port, .tcp⟩

/-- The table has a row for each of the first `n` ports. -/
def HoldsPorts (n : ℕ) (table : Table) : Prop :=
  table.length = n ∧ ∀ row ∈ table, ∃ k < n, row.id = (portEndpoint k).id ∧
    ∀ r, decryptRecord plainText row = some r → r.port = k

theorem clean_portEndpoint (n : ℕ) :
  (portEndpoint n).Clean
  := by
  change '|' ∉ "example.org".toList ∧ '|' ∉ "10.0.0.1".toList
  decide

/-- The record a failure of the port stores, if there is none. -/
def portRecord (n : ℕ) : RvecRecord :=
  onFailure (fromCandidate (portCandidate n)) 0 .transportTimeout "wifi"

theorem hostname_portCandidate (n : ℕ) :
  (fromCandidate (portCandidate n)).hostname = "example.org"
  := by
  apply fromCandidate_hostname
  · change '/' ∉ "example.org".toList
    decide
  · change '?' ∉ "example.org".toList
    decide

theorem recordEndpoint_portRecord (n : ℕ) :
  recordEndpoint id (portRecord n) = portEndpoint n
  := by
  rw [portRecord, recordEndpoint_onFailure, recordEndpoint, hostname_portCandidate]
  rfl

theorem separable_portRecord (n : ℕ) :
  Separable (portRecord n)
  := by
  apply separable_onFailure _ (by decide)
  refine ⟨?_, ?_, ?_, ?_⟩
  · rw [hostname_portCandidate]
    decide
  · change fieldSeparator ∉ "10.0.0.1".toList
    decide
  · rintro a ⟨⟩
  · change fieldSeparator ∉ "wifi".toList
    decide

theorem inRange_portRecord {n : ℕ} (hn : n ≤ Default.maxGlobalRvecEntries) :
  InRange (portRecord n)
  := by
  have hport : IsInt32 (n : ℤ) := by
    unfold Default.maxGlobalRvecEntries at hn
    exact ⟨by omega, by omega⟩
  refine ⟨hport, ?_, ?_, ?_, ?_, ?_⟩
  · change IsInt32 (int32 1)
    decide
  · change IsInt64 0
    decide
  · rintro k ⟨⟩
  · rintro k ⟨⟩
    decide
  · rintro k ⟨⟩

/-- A failure of the next port adds a row. -/
theorem holdsPorts_apply {n : ℕ} (hn : n ≤ Default.maxGlobalRvecEntries) {table : Table}
    (h : HoldsPorts n table) :
  HoldsPorts (n + 1) ((portFailure n).apply id plainText table)
  := by
  have hbase : failureBase id plainText table (portCandidate n)
      = fromCandidate (portCandidate n) := by
    obtain hbase | ⟨row, hrow, r, hr, -, hport, -⟩ :=
      failureBase_cases id plainText table (portCandidate n)
    · apply hbase
    · obtain ⟨k, hk, -, hstored⟩ := h.2 row hrow
      have hsame : (n : ℤ) = k := hport.symm.trans (hstored r hr)
      omega
  have hnew : (portEndpoint n).id ∉ table.map (·.id) := by
    intro hmem
    obtain ⟨row, hrow, hid⟩ := List.mem_map.mp hmem
    obtain ⟨k, hk, hrowid, -⟩ := h.2 row hrow
    have hsame := Endpoint.eq_of_id_eq (clean_portEndpoint n) (hrowid.symm.trans hid)
    have hport : (k : ℤ) = n := congrArg Endpoint.port hsame
    omega
  have happly : (portFailure n).apply id plainText table
      = upsert id plainText table (portRecord n) n n := by
    rw [portFailure, Operation.apply, saveFailure, hbase, portRecord]
  have hid : (entityOf id plainText (portRecord n) n n).id = (portEndpoint n).id := by
    rw [entityOf, recordEndpoint_portRecord]
  rw [happly, upsert]
  constructor
  · rw [RvecDao.length_upsert_of_not_mem, h.1]
    rw [hid]
    apply hnew
  · intro row hrow
    rw [RvecDao.upsert, List.mem_append, List.mem_singleton] at hrow
    obtain hrow | rfl := hrow
    · obtain ⟨k, hk, hstored⟩ := h.2 row (List.mem_of_mem_filter hrow)
      exact ⟨k, by omega, hstored⟩
    · refine ⟨n, by omega, hid, ?_⟩
      intro r hr
      rw [decryptRecord, entityOf, plainText.decrypt_encrypt, Option.bind_some,
        deserialize_serialize (inRange_portRecord hn) (separable_portRecord n)] at hr
      obtain rfl := Option.some.inj hr
      rfl

theorem holdsPorts_run {n : ℕ} (hn : n ≤ Default.maxGlobalRvecEntries + 1) :
  ∃ s, Run.exec (Ledger.step id plainText) Ledger.empty ((List.range n).map portFailure) = some s ∧
    HoldsPorts n s.table
  := by
  induction n with
  | zero =>
      use Ledger.empty, rfl, rfl
      rintro row ⟨⟩
  | succ n ih =>
      obtain ⟨s, hrun, hs⟩ := ih (by omega)
      rw [List.range_succ, List.map_append, Run.exec_append, hrun]
      refine ⟨_, rfl, ?_⟩
      apply holdsPorts_apply (by omega) hs

/-- A thousand and one failures of different ports leave a thousand and one rows. -/
theorem not_keepsLatest_manyFailures :
  ¬ ∀ (lowercase : String → String) (crypto : RvecCrypto) (ops : List (Operation ℤ)),
    KeepsLatest lowercase crypto ops
  := by
  intro h
  obtain ⟨s, hrun, hlen, -⟩ := holdsPorts_run (n := Default.maxGlobalRvecEntries + 1) le_rfl
  have hbound := (h id plainText _ _ List.prefix_rfl s hrun).1
  omega

end Storage
