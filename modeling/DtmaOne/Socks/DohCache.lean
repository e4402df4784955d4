import DtmaOne.Library.Base64
import DtmaOne.Library.Run
import DtmaOne.Socks.Address

/-!
# The cache of the DoH resolver

`DohResolver.resolveWire`: a query is answered from a cache under the encoding of all its bytes,
or by the first endpoint that returns a body of at least twelve bytes, which is then cached for a
minute.  The identifier of the answer is that of the query.  When there are more than 256 entries,
64 keys are removed, in whatever order the map gives them.

A call comes with what the platform and the endpoints answer meanwhile: the clock at the lookup
and at the insertion, the response to every request, and the order of the keys of the map.
-/

namespace Socks.DohResolver

/-! ### The resolver -/

/-- `CacheEntry` -/
structure CacheEntry where
  wire : Bytes
  storedAt : ℕ
  deriving DecidableEq

/-- `ConcurrentHashMap`, as the list of its entries. -/
abbrev Cache : Type := List (String × CacheEntry)

/-- `cache[key]` -/
def Cache.get (cache : Cache) (key : String) : Option CacheEntry :=
  (cache.find? fun e => e.1 = key).map Prod.snd

/-- `cache.remove(key)` -/
def Cache.remove (cache : Cache) (key : String) : Cache :=
  cache.filter fun e => e.1 ≠ key

/-- `cache[key] = entry` -/
def Cache.put (cache : Cache) (key : String) (entry : CacheEntry) : Cache :=
  cache.remove key ++ [(key, entry)]

/-- `CACHE_TTL_MS` -/
def cacheTtlMs : ℤ := 60000

/-- The number of entries above which the cache is trimmed. -/
def maxEntries : ℕ := 256

/-- The number of keys a trim removes. -/
def trimmedKeys : ℕ := 64

/-- `endpoints` -/
def endpoints : List String :=
  ["https://cloudflare-dns.com/dns-query", "https://dns.google/dns-query"]

/-- The outcome of a request: an exception, a status that is not successful, no body, or a
body. -/
inductive Response where
  | failed
  | unsuccessful
  | noBody
  | body (bytes : Bytes)
  deriving DecidableEq

/-- A call of `resolveWire`. -/
structure Call where
  query : Bytes
  /-- `System.currentTimeMillis()` at the lookup -/
  now : ℕ
  /-- The response to a request, by its address. -/
  respond : String → Response
  /-- `System.currentTimeMillis()` at the insertion -/
  storedAt : ℕ
  /-- The keys of the map in the order of their iteration after the insertion. -/
  keys : List String

/-- The key of a query. -/
def cacheKey (query : Bytes) : String :=
  String.ofList (Base64.encode Base64.standard true query)

/-- The address of a request. -/
def requestUrl (base : String) (query : Bytes) : String :=
  base ++ "?dns=" ++ String.ofList (Base64.encode Base64.urlSafe false query)

/-- `rewriteTxId` -/
def rewriteTxId (response query : Bytes) : Bytes :=
  match response, query with
  | _ :: _ :: rest, q0 :: q1 :: _ => q0 :: q1 :: rest
  | _, _ => response

/-- The first body of at least twelve bytes the endpoints return. -/
def ask (respond : String → Response) (query : Bytes) : List String → Option Bytes
  | [] => none
  | base :: rest =>
      match respond (requestUrl base query) with
      | .body body => if body.length < 12 then ask respond query rest else some body
      | _ => ask respond query rest

/-- Insert an entry, and remove the first keys if there are too many. -/
def store (cache : Cache) (key : String) (entry : CacheEntry) (keys : List String) : Cache :=
  let cache := cache.put key entry
  if cache.length > maxEntries then (keys.take trimmedKeys).foldl Cache.remove cache else cache

/-- `resolveWire`: the result and the cache after it. -/
def resolveWire (cache : Cache) (c : Call) : Option Bytes × Cache :=
  if c.query.length < 12 then (none, cache)
  else
    let key := cacheKey c.query
    match (cache.get key).filter fun hit => (c.now : ℤ) - hit.storedAt < cacheTtlMs with
    | some hit => (some (rewriteTxId hit.wire c.query), cache)
    | none =>
        match ask c.respond c.query endpoints with
        | none => (none, cache)
        | some body =>
            (some (rewriteTxId body c.query), store cache key ⟨body, c.storedAt⟩ c.keys)

/-! ### Runs -/

/-- The cache and the clock. -/
structure State where
  cache : Cache
  clock : ℕ
  deriving DecidableEq

/-- The resolver before the first call. -/
def init : State := ⟨[], 0⟩

/-- A call as a step: the clock does not go back, and the keys are iterated in some order. -/
def step (s : State) (c : Call) : Option State :=
  if s.clock ≤ c.now ∧ c.now ≤ c.storedAt ∧
      c.keys.Perm ((s.cache.remove (cacheKey c.query)).map Prod.fst ++ [cacheKey c.query]) then
    some ⟨(resolveWire s.cache c).2, c.storedAt⟩
  else none

/-- An endpoint returned the body for the query of the call. -/
def Call.Returned (c : Call) (wire : Bytes) : Prop :=
  12 ≤ wire.length ∧ ∃ base ∈ endpoints, c.respond (requestUrl base c.query) = .body wire

/-- The result has the identifier of the query, and is for the rest a body an endpoint returned
for the same query, in this call or less than a minute before. -/
def Call.Answered (c : Call) (earlier : List Call) (r : Bytes) : Prop :=
  r.take 2 = c.query.take 2 ∧
    ∃ wire, r.drop 2 = wire.drop 2 ∧
      (c.Returned wire ∨
        ∃ d ∈ earlier, d.query = c.query ∧ d.Returned wire ∧ d.storedAt ≤ c.now ∧
          (c.now : ℤ) - d.storedAt < cacheTtlMs)

/-- Where the entries of the cache come from. -/
structure Sound (calls : List Call) (s : State) : Prop where
  length : s.cache.length ≤ maxEntries
  entries : ∀ e ∈ s.cache, ∃ d ∈ calls, e.1 = cacheKey d.query ∧ d.Returned e.2.wire ∧
    e.2.storedAt = d.storedAt ∧ d.storedAt ≤ s.clock

/-! ### The parts of a call -/

theorem cacheKey_injective {q q' : Bytes} (h : cacheKey q = cacheKey q') :
  q = q'
  := by
  apply Base64.encode_injective Base64.standard
  apply String.ofList_injective h

/-- An answer with a header takes the identifier of the query. -/
theorem rewriteTxId_spec {response query : Bytes} (hresponse : 12 ≤ response.length)
    (hquery : 12 ≤ query.length) :
  (rewriteTxId response query).take 2 = query.take 2 ∧
    (rewriteTxId response query).drop 2 = response.drop 2
  := by
  rcases response with _ | ⟨r0, _ | ⟨r1, response⟩⟩
  · cases hresponse
  · exact absurd hresponse (by simp)
  · rcases query with _ | ⟨q0, _ | ⟨q1, query⟩⟩
    · cases hquery
    · exact absurd hquery (by simp)
    · exact ⟨rfl, rfl⟩

/-- What the endpoints are asked for is returned by one of them. -/
theorem ask_eq_some {respond : String → Response} {query body : Bytes} {bases : List String}
    (h : ask respond query bases = some body) :
  12 ≤ body.length ∧ ∃ base ∈ bases, respond (requestUrl base query) = .body body
  := by
  induction bases with
  | nil => cases h
  | cons base bases ih =>
      have hlater : ask respond query bases = some body → 12 ≤ body.length ∧
          ∃ base' ∈ base :: bases, respond (requestUrl base' query) = .body body := by
        intro hrest
        obtain ⟨hlen, base', hbase', hbody⟩ := ih hrest
        exact ⟨hlen, base', List.mem_cons_of_mem base hbase', hbody⟩
      rw [ask] at h
      split at h
      · next bytes hbytes =>
          split_ifs at h with hshort
          · apply hlater h
          · obtain rfl := Option.some.inj h
            exact ⟨Nat.le_of_not_lt hshort, base, List.mem_cons_self, hbytes⟩
      · apply hlater h

theorem mem_remove {cache : Cache} {key : String} {e : String × CacheEntry}
    (he : e ∈ cache.remove key) :
  e ∈ cache
  := List.mem_of_mem_filter he

theorem foldl_remove_sublist (keys : List String) (cache : Cache) :
  (keys.foldl Cache.remove cache).Sublist cache
  := by
  induction keys generalizing cache with
  | nil => apply List.Sublist.refl
  | cons key keys ih => apply (ih (cache.remove key)).trans List.filter_sublist

theorem length_remove_lt {cache : Cache} {key : String} (hkey : key ∈ cache.map Prod.fst) :
  (cache.remove key).length < cache.length
  := by
  obtain ⟨e, he, rfl⟩ := List.mem_map.mp hkey
  apply List.length_filter_lt_length_iff_exists.mpr
  use e, he
  simp

/-- The stored entries are old ones or the new one. -/
theorem mem_store {cache : Cache} {key : String} {entry : CacheEntry} {keys : List String}
    {e : String × CacheEntry} (he : e ∈ store cache key entry keys) :
  e ∈ cache ∨ e = (key, entry)
  := by
  have hput : e ∈ cache.put key entry := by
    rw [store] at he
    split_ifs at he
    · apply (foldl_remove_sublist _ _).subset he
    · apply he
  rw [Cache.put, List.mem_append, List.mem_singleton] at hput
  obtain hold | hnew := hput
  · left
    apply mem_remove hold
  · right
    apply hnew

/-- A cache within its bound stays within it, whatever keys are removed. -/
theorem length_store_le {cache : Cache} {key : String} {entry : CacheEntry} {keys : List String}
    (hcache : cache.length ≤ maxEntries)
    (hkeys : keys.Perm ((cache.remove key).map Prod.fst ++ [key])) :
  (store cache key entry keys).length ≤ maxEntries
  := by
  have hput : (cache.put key entry).length ≤ cache.length + 1 := by
    rw [Cache.put, List.length_append, List.length_singleton]
    apply Nat.succ_le_succ (List.length_filter_le _ _)
  rw [store]
  split_ifs with hfull
  · cases keys with
    | nil =>
        have hlen := hkeys.length_eq
        rw [List.length_append, List.length_singleton] at hlen
        cases hlen
    | cons first keys =>
        have hfirst : first ∈ (cache.put key entry).map Prod.fst := by
          have hmem := hkeys.subset List.mem_cons_self
          rw [Cache.put, List.map_append]
          apply hmem
        have hlt := length_remove_lt hfirst
        have hsub := (foldl_remove_sublist (keys.take 63)
          ((cache.put key entry).remove first)).length_le
        change ((keys.take 63).foldl Cache.remove ((cache.put key entry).remove first)).length ≤ _
        omega
  · omega

/-! ### Whole runs -/

theorem sound_init :
  Sound [] init
  := ⟨Nat.zero_le _, by rintro e ⟨⟩⟩

/-- A step is a call whose times follow the clock and whose keys are those of the cache. -/
theorem step_eq_some {s t : State} {c : Call} (hstep : step s c = some t) :
  s.clock ≤ c.now ∧ c.now ≤ c.storedAt ∧
    c.keys.Perm ((s.cache.remove (cacheKey c.query)).map Prod.fst ++ [cacheKey c.query]) ∧
    t = ⟨(resolveWire s.cache c).2, c.storedAt⟩
  := by
  rw [step] at hstep
  split_ifs at hstep with hguard
  obtain ⟨hnow, hstored, hkeys⟩ := hguard
  exact ⟨hnow, hstored, hkeys, (Option.some.inj hstep).symm⟩

/-- The entry a lookup finds is one of the cache. -/
theorem mem_of_get {cache : Cache} {key : String} {hit : CacheEntry}
    (h : cache.get key = some hit) :
  (key, hit) ∈ cache
  := by
  rw [Cache.get, Option.map_eq_some_iff] at h
  obtain ⟨⟨key', hit'⟩, hfind, rfl⟩ := h
  have hkey : key' = key := by simpa using List.find?_some hfind
  subst hkey
  apply List.mem_of_find?_eq_some hfind

/-- What a call does: it returns nothing, a live entry of the cache, or what an endpoint
returned, which it stores. -/
theorem resolveWire_cases (cache : Cache) (c : Call) :
  resolveWire cache c = (none, cache) ∨
    (∃ hit, 12 ≤ c.query.length ∧ (cacheKey c.query, hit) ∈ cache ∧
      (c.now : ℤ) - hit.storedAt < cacheTtlMs ∧
      resolveWire cache c = (some (rewriteTxId hit.wire c.query), cache)) ∨
    ∃ body, 12 ≤ c.query.length ∧ c.Returned body ∧
      resolveWire cache c = (some (rewriteTxId body c.query),
        store cache (cacheKey c.query) ⟨body, c.storedAt⟩ c.keys)
  := by
  by_cases hshort : c.query.length < 12
  · left
    rw [resolveWire, if_pos hshort]
  · have hlen := Nat.le_of_not_lt hshort
    rw [resolveWire, if_neg hshort]
    cases hfound : (cache.get (cacheKey c.query)).filter
        fun hit => (c.now : ℤ) - hit.storedAt < cacheTtlMs with
    | some hit =>
        obtain ⟨hget, hlive⟩ := Option.filter_eq_some_iff.mp hfound
        right; left
        exact ⟨hit, hlen, mem_of_get hget, of_decide_eq_true hlive, by simp only [hfound]⟩
    | none =>
        cases hask : ask c.respond c.query endpoints with
        | none =>
            left
            simp only [hfound]
        | some body =>
            right; right
            exact ⟨body, hlen, ask_eq_some hask, by simp only [hfound]⟩

theorem Sound.later {calls : List Call} {s : State} (h : Sound calls s) (c : Call) {clock : ℕ}
    (hclock : s.clock ≤ clock) :
  Sound (calls ++ [c]) ⟨s.cache, clock⟩
  := by
  use h.length
  intro e he
  obtain ⟨d, hd, hkey, hreturned, hstored, hle⟩ := h.entries e he
  exact ⟨d, List.mem_append_left [c] hd, hkey, hreturned, hstored, hle.trans hclock⟩

/-- A call keeps what is known of the entries. -/
theorem sound_step {calls : List Call} {s t : State} {c : Call} (h : Sound calls s)
    (hstep : step s c = some t) :
  Sound (calls ++ [c]) t
  := by
  obtain ⟨hnow, hstored, hkeys, rfl⟩ := step_eq_some hstep
  have hlater := h.later c (hnow.trans hstored)
  obtain hnone | ⟨hit, -, -, -, hhit⟩ | ⟨body, -, hbody, hnew⟩ := resolveWire_cases s.cache c
  · rw [hnone]
    apply hlater
  · rw [hhit]
    apply hlater
  · rw [hnew]
    constructor
    · apply length_store_le h.length hkeys
    · intro e he
      obtain hold | rfl := mem_store he
      · apply hlater.entries e hold
      · exact ⟨c, List.mem_append_right calls List.mem_cons_self, rfl, hbody, rfl, le_rfl⟩

/-- A result is answered as it should. -/
theorem answered_of_sound {calls : List Call} {s t : State} {c : Call} {r : Bytes}
    (h : Sound calls s) (hstep : step s c = some t) (hr : (resolveWire s.cache c).1 = some r) :
  c.Answered calls r
  := by
  obtain ⟨hnow, -, -, -⟩ := step_eq_some hstep
  obtain hnone | ⟨hit, hlen, hmem, hlive, hhit⟩ | ⟨body, hlen, hbody, hnew⟩ :=
    resolveWire_cases s.cache c
  · rw [hnone] at hr
    cases hr
  · rw [hhit] at hr
    obtain rfl := Option.some.inj hr
    obtain ⟨d, hd, hkey, hreturned, hstored, hle⟩ := h.entries _ hmem
    obtain ⟨hid, hrest⟩ := rewriteTxId_spec hreturned.1 hlen
    use hid, hit.wire, hrest
    right
    rw [hstored] at hlive
    exact ⟨d, hd, (cacheKey_injective hkey).symm, hreturned, hle.trans hnow, hlive⟩
  · rw [hnew] at hr
    obtain rfl := Option.some.inj hr
    obtain ⟨hid, hrest⟩ := rewriteTxId_spec hbody.1 hlen
    use hid, body, hrest
    left
    apply hbody

theorem sound_run {calls : List Call} {s : State} (hrun : Run.exec step init calls = some s) :
  Sound calls s
  := by
  have hany : Run.Meets step (fun _ _ => True) init calls :=
    Run.meets_of_forall (fun _ _ => trivial) init calls
  exact Run.invariant_of_events (fun _ _ _ _ hs _ hstep => sound_step hs hstep) sound_init hany
    List.prefix_rfl hrun

/-- In every run, with any responses, any clock that does not go back and any order of the keys,
the cache is within its bound after every call, and every result of a further call has the
identifier of its query and is for the rest a body of at least twelve bytes that an endpoint
returned for the same query, in this call or less than a minute before. -/
theorem resolveWire_run (calls : List Call) (s : State)
    (hrun : Run.exec step init calls = some s) :
  s.cache.length ≤ maxEntries ∧
    ∀ c t, step s c = some t → ∀ r, (resolveWire s.cache c).1 = some r → c.Answered calls r
  := by
  have hsound := sound_run hrun
  use hsound.length
  intro c t hstep r hr
  apply answered_of_sound hsound hstep hr

/-- A query that the first endpoint fails on and the second one answers. -/
def answeredQuery : Call where
  query := [0xab, 0xcd, 1, 0, 0, 1, 0, 0, 0, 0, 0, 0]
  now := 1000
  respond := fun url => if url.startsWith "https://dns.google" then
    .body [0, 0, 0x81, 0x80, 0, 1, 0, 0, 0, 0, 0, 0] else .failed
  storedAt := 1200
  keys := [cacheKey [0xab, 0xcd, 1, 0, 0, 1, 0, 0, 0, 0, 0, 0]]

/-- The same query when no endpoint answers, after almost a minute. -/
def repeatedQuery : Call where
  query := answeredQuery.query
  now := 61199
  respond := fun _ => .failed
  storedAt := 61199
  keys := answeredQuery.keys

/-- The resolver after the first of the two. -/
def afterAnswer : State :=
  ⟨[(cacheKey answeredQuery.query, ⟨[0, 0, 0x81, 0x80, 0, 1, 0, 0, 0, 0, 0, 0], 1200⟩)], 1200⟩

theorem resolveWire_run_repeatedQuery :
  repeatedQuery.Answered [answeredQuery] [0xab, 0xcd, 0x81, 0x80, 0, 1, 0, 0, 0, 0, 0, 0]
  := by
  have hrun : Run.exec step init [answeredQuery] = some afterAnswer := by decide +kernel
  have hstep : step afterAnswer repeatedQuery = some ⟨afterAnswer.cache, 61199⟩ := by
    decide +kernel
  apply (resolveWire_run [answeredQuery] afterAnswer hrun).2 repeatedQuery _ hstep
  decide +kernel

/-! ### Queries that differ in their identifier -/

/-- The requests of the loop over the endpoints, up to the one that is answered. -/
def requests (respond : String → Response) (query : Bytes) : List String → List String
  | [] => []
  | base :: rest =>
      requestUrl base query ::
        match respond (requestUrl base query) with
        | .body body => if body.length < 12 then requests respond query rest else []
        | _ => requests respond query rest

/-- The requests a call sends. -/
def upstream (cache : Cache) (c : Call) : List String :=
  if c.query.length < 12 then []
  else
    match (cache.get (cacheKey c.query)).filter
        fun hit => (c.now : ℤ) - hit.storedAt < cacheTtlMs with
    | some _ => []
    | none => requests c.respond c.query endpoints

/-- The queries are the same except in their first two bytes. -/
def SameButId (q q' : Bytes) : Prop :=
  q'.length = q.length ∧ q'.drop 2 = q.drop 2

/-- The call is answered by the entry, under the identifier of its own query, and without a
request. -/
def AnsweredBy (cache : Cache) (c : Call) (entry : CacheEntry) : Prop :=
  upstream cache c = [] ∧ (resolveWire cache c).1 = some (rewriteTxId entry.wire c.query)

/-- The query has the identifier of `q` as well, or it has a live entry of its own, with the answer
of the given entry up to the identifier. -/
def OwnEntry (cache : Cache) (c : Call) (q : Bytes) (entry : CacheEntry) : Prop :=
  c.query.take 2 = q.take 2 ∨
    ∃ own, cache.get (cacheKey c.query) = some own ∧ (c.now : ℤ) - own.storedAt < cacheTtlMs ∧
      own.wire.drop 2 = entry.wire.drop 2

/-- What is sent back under an identifier determines the rest of the answer. -/
theorem rewriteTxId_eq_iff {wire wire' query : Bytes} (hwire : 12 ≤ wire.length)
    (hwire' : 12 ≤ wire'.length) (hquery : 12 ≤ query.length) :
  rewriteTxId wire query = rewriteTxId wire' query ↔ wire.drop 2 = wire'.drop 2
  := by
  obtain ⟨hid, hrest⟩ := rewriteTxId_spec hwire hquery
  obtain ⟨hid', hrest'⟩ := rewriteTxId_spec hwire' hquery
  constructor
  · intro heq
    rw [← hrest, ← hrest', heq]
  · intro heq
    rw [← List.take_append_drop 2 (rewriteTxId wire query), hid, hrest, heq, ← hid', ← hrest',
      List.take_append_drop]

/-- A live entry under the key of the query is sent back without a request. -/
theorem call_of_live {cache : Cache} {c : Call} {own : CacheEntry} (hlen : 12 ≤ c.query.length)
    (hget : cache.get (cacheKey c.query) = some own)
    (hlive : (c.now : ℤ) - own.storedAt < cacheTtlMs) :
  upstream cache c = [] ∧ (resolveWire cache c).1 = some (rewriteTxId own.wire c.query)
  := by
  have hfound : (cache.get (cacheKey c.query)).filter
      (fun hit => (c.now : ℤ) - hit.storedAt < cacheTtlMs) = some own := by
    rw [hget, Option.filter_some, if_pos (decide_eq_true hlive)]
  constructor
  · simp only [upstream, if_neg (Nat.not_lt.mpr hlen), hfound]
  · simp only [resolveWire, if_neg (Nat.not_lt.mpr hlen), hfound]

/-- Without a live entry under the key of the query there is a request. -/
theorem upstream_ne_nil {cache : Cache} {c : Call} (hlen : 12 ≤ c.query.length)
    (hnone : ∀ own, cache.get (cacheKey c.query) = some own →
      ¬ (c.now : ℤ) - own.storedAt < cacheTtlMs) :
  upstream cache c ≠ []
  := by
  have hfound : (cache.get (cacheKey c.query)).filter
      (fun hit => (c.now : ℤ) - hit.storedAt < cacheTtlMs) = none := by
    rw [Option.filter_eq_none_iff]
    intro own hown hlive
    apply hnone own hown (of_decide_eq_true hlive)
  simp only [upstream, if_neg (Nat.not_lt.mpr hlen), hfound, endpoints, requests]
  apply List.cons_ne_nil

/-- In every run in which a query was answered by an endpoint and its entry is still there and
live, a query that differs at most in its identifier is answered by that entry exactly if it has
the same identifier, or a live entry of its own with the same answer. -/
theorem answeredBy_iff (calls : List Call) (s : State)
    (hrun : Run.exec step init calls = some s) (q : Bytes) (entry : CacheEntry)
    (hentry : s.cache.get (cacheKey q) = some entry) (hq : 12 ≤ q.length) (c : Call)
    (hsame : SameButId q c.query) (hlive : (c.now : ℤ) < entry.storedAt + cacheTtlMs) :
  AnsweredBy s.cache c entry ↔ OwnEntry s.cache c q entry
  := by
  have hwires : ∀ key e, s.cache.get key = some e → 12 ≤ e.wire.length := by
    intro key e he
    obtain ⟨d, -, -, hreturned, -⟩ := (sound_run hrun).entries _ (mem_of_get he)
    apply hreturned.1
  have hlen : 12 ≤ c.query.length := hsame.1 ▸ hq
  constructor
  · rintro ⟨hnone, hresult⟩
    by_contra hown
    by_cases hother : ∃ own, s.cache.get (cacheKey c.query) = some own ∧
        (c.now : ℤ) - own.storedAt < cacheTtlMs
    · obtain ⟨own, hget, hlive'⟩ := hother
      obtain ⟨-, hresult'⟩ := call_of_live hlen hget hlive'
      rw [hresult', Option.some.injEq,
        rewriteTxId_eq_iff (hwires _ _ hget) (hwires _ _ hentry) hlen] at hresult
      apply hown (Or.inr ⟨own, hget, hlive', hresult⟩)
    · apply upstream_ne_nil hlen _ hnone
      intro own hget hlive'
      apply hother ⟨own, hget, hlive'⟩
  · rintro (hid | ⟨own, hget, hlive', hdrop⟩)
    · have heq : c.query = q := by
        rw [← List.take_append_drop 2 c.query, hid, hsame.2, List.take_append_drop]
      apply call_of_live hlen (heq ▸ hentry)
      omega
    · obtain ⟨hnone, hresult⟩ := call_of_live hlen hget hlive'
      use hnone
      rw [hresult, Option.some.injEq,
        rewriteTxId_eq_iff (hwires _ _ hget) (hwires _ _ hentry) hlen]
      apply hdrop

/-- The entry of the answered query. -/
def storedAnswer : CacheEntry :=
  ⟨[0, 0, 0x81, 0x80, 0, 1, 0, 0, 0, 0, 0, 0], 1200⟩

/-- The answered query under another identifier, less than a second later, when no endpoint
answers. -/
def otherId : Call where
  query := [0x12, 0x34, 1, 0, 0, 1, 0, 0, 0, 0, 0, 0]
  now := 2000
  respond := fun _ => .failed
  storedAt := 2100
  keys := [cacheKey answeredQuery.query, cacheKey [0x12, 0x34, 1, 0, 0, 1, 0, 0, 0, 0, 0, 0]]

/-- The query under another identifier is not answered by the entry. -/
theorem not_answeredBy_otherId :
  Run.exec step init [answeredQuery, otherId] = some ⟨afterAnswer.cache, 2100⟩ ∧
    Run.exec step init [answeredQuery] = some afterAnswer ∧
    afterAnswer.cache.get (cacheKey answeredQuery.query) = some storedAnswer ∧
    SameButId answeredQuery.query otherId.query ∧
    (otherId.now : ℤ) < storedAnswer.storedAt + cacheTtlMs ∧
    ¬ AnsweredBy afterAnswer.cache otherId storedAnswer
  := by
  refine ⟨by decide +kernel, by decide +kernel, by decide +kernel, ⟨rfl, rfl⟩, by decide, ?_⟩
  rintro ⟨-, hresult⟩
  have hnone : (resolveWire afterAnswer.cache otherId).1 = none := by decide +kernel
  rw [hnone] at hresult
  contradiction

/-- The repeated query is answered by the entry. -/
theorem answeredBy_repeatedQuery :
  AnsweredBy afterAnswer.cache repeatedQuery storedAnswer
  := by
  have hrun : Run.exec step init [answeredQuery] = some afterAnswer := by decide +kernel
  have hentry : afterAnswer.cache.get (cacheKey answeredQuery.query) = some storedAnswer := by
    decide +kernel
  have hiff := answeredBy_iff [answeredQuery] afterAnswer hrun answeredQuery.query storedAnswer
    hentry (by decide) repeatedQuery ⟨rfl, rfl⟩ (by decide)
  apply hiff.mpr
  left
  rfl

end Socks.DohResolver
