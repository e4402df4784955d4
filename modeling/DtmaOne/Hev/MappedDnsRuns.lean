import DtmaOne.Hev.MappedDnsHandle
import Mathlib.Algebra.Order.BigOperators.Group.List

/-!
# Runs of the table of mapped addresses

A run is a list of queries and of connections.  Along every run the table does what a cache does that
forgets the least recently used name, and an address that was given for a name leads back to the name
as long as few other names are used.
-/

namespace Hev

namespace MappedDns

open DnsMessage

/-! ### The system -/

/-- What happens to the table: a query, with what the allocator and `strdup` do at each of its
questions, or a connection to an address. -/
inductive Event (α : Type) where
  | query (alloc : ℕ → Option (MappedDns α → α)) (strdup : ℕ → Bool) (req : List UInt8) (qlen : ℕ)
      (res : List UInt8)
  | lookup (ip : BitVec 32)

/-- What is seen of a run: a name the table is asked for, the response to a query, and the name for
the address of a connection. -/
inductive Entry where
  | asked (name : List UInt8)
  | response (r : Option (List UInt8))
  | name (r : Option (List UInt8))
deriving DecidableEq

/-- The nodes in the array. -/
def nodes {α : Type} (dns : MappedDns α) : List α := (List.range dns.max).filterMap dns.records

/-- The allocator returns a block that is not in use. -/
def Fresh {α : Type} (malloc : MappedDns α → α) : Prop := ∀ dns, malloc dns ∉ dns.nodes

/-- The allocator returns fresh blocks, names can be copied, and the packets of a query hold all that is
read of them. -/
def Event.Ready {α : Type} : Event α → Prop
  | .query alloc strdup req qlen res =>
      (∀ i malloc, alloc i = some malloc → Fresh malloc) ∧ (∀ i, strdup i = true)
        ∧ Covered req qlen res
  | .lookup _ => True

/-- A table that logs the names it is asked for. -/
def logged {σ : Type} (find : ℕ → σ → List UInt8 → Option (σ × Option ℕ)) (i : ℕ)
    (s : σ × List Entry) (name : List UInt8) : Option ((σ × List Entry) × Option ℕ) :=
  (find i s.1 name).map fun (self, r) => ((self, s.2 ++ [.asked name]), r)

/-- A table that logs the names it is asked for, and never fails. -/
def logging {τ : Type} (request : ℕ → τ → List UInt8 → τ × Option ℕ) (i : ℕ) (t : τ × List Entry)
    (name : List UInt8) : (τ × List Entry) × Option ℕ :=
  (((request i t.1 name).1, t.2 ++ [.asked name]), (request i t.1 name).2)

section

variable {α : Type} [DecidableEq α]

/-- `hev_mapped_dns_find` at the question `i` of a query. -/
def findAt (fuel : ℕ) (alloc : ℕ → Option (MappedDns α → α)) (strdup : ℕ → Bool) (i : ℕ)
    (self : MappedDns α) (name : List UInt8) : Option (MappedDns α × Option ℕ) :=
  self.find fuel name ((alloc i).map fun malloc => malloc self) (strdup i)

/-- An event on the table, with what has been seen so far. -/
def step (fuel : ℕ) (s : MappedDns α × List Entry) : Event α → Option (MappedDns α × List Entry)
  | .query alloc strdup req qlen res =>
      (handle (logged (findAt fuel alloc strdup)) s.1.net s req qlen res).map
        fun ((dns, log), r) => (dns, log ++ [.response r])
  | .lookup ip => (s.1.lookup ip).map fun (dns, r) => (dns, s.2 ++ [.name r])

end

namespace Cache

/-- `find`, on the cache: a new name gets no number when there is no memory for a node. -/
def find (max : ℕ) (fails : ℕ → Bool) (i : ℕ) (l : List (List UInt8 × ℕ)) (name : List UInt8) :
    List (List UInt8 × ℕ) × Option ℕ :=
  if fails i ∧ LruCache.entry l name = none then (l, none)
  else (LruCache.request max l name).swap

/-- An event on the cache. -/
def step {α : Type} (max : ℕ) (net mask : BitVec 32) (s : List (List UInt8 × ℕ) × List Entry) :
    Event α → Option (List (List UInt8 × ℕ) × List Entry)
  | .query alloc _ req qlen res =>
      (handle (always (logging (find max fun i => (alloc i).isNone))) net s req qlen res).map
        fun ((l, log), r) => (l, log ++ [.response r])
  | .lookup ip =>
      let (r, l) := LruCache.keyAt s.1 (ip &&& ~~~mask).toNat
      some (l, s.2 ++ [.name r])

end Cache

/-- The table stands for the cache `l`. -/
def StandsFor {α : Type} (max : ℕ) (net mask : BitVec 32) (dns : MappedDns α)
    (l : List (List UInt8 × ℕ)) : Prop :=
  ∃ nodes, dns.Represents nodes ∧ dns.entries nodes = l
    ∧ dns.max = max ∧ dns.net = net ∧ dns.mask = mask

section

variable {α : Type} [DecidableEq α] {max : ℕ} {net mask : BitVec 32}

omit [DecidableEq α] in
/-- The array has exactly the nodes of the table. -/
theorem Represents.mem_nodes {dns : MappedDns α} {l : List α} (h : dns.Represents l) {a : α} :
  a ∈ dns.nodes ↔ a ∈ l
  := by
  rw [nodes, List.mem_filterMap]
  constructor
  · rintro ⟨i, -, hi⟩
    exact ((h.records i a).mp hi).1
  · intro ha
    refine ⟨dns.idx a, ?_, (h.records _ a).mpr ⟨ha, rfl⟩⟩
    rw [List.mem_range]
    exact (h.idx_lt a ha).trans_le (h.use ▸ h.use_le)

theorem simulates_findAt {fuel : ℕ} {alloc : ℕ → Option (MappedDns α → α)}
    {strdup : ℕ → Bool} (halloc : ∀ i malloc, alloc i = some malloc → Fresh malloc)
    (hstrdup : ∀ i, strdup i = true) (hfuel : 2 * Nat.log 2 (max + 2) < fuel) :
  Simulates (StandsFor max net mask) (findAt fuel alloc strdup)
    (Cache.find max fun i => (alloc i).isNone)
  := by
  rintro i dns l name ⟨nodes, hrep, rfl, rfl, rfl, rfl⟩
  rw [findAt, hstrdup]
  have hfresh : ∀ a, ((alloc i).map fun malloc => malloc dns) = some a → a ∉ nodes := by
    intro a ha
    obtain ⟨malloc, hmalloc, rfl⟩ := Option.map_eq_some_iff.mp ha
    rw [← hrep.mem_nodes]
    exact halloc i malloc hmalloc dns
  obtain ⟨dns', nodes', r, hfind, hrep', hmax, hnet, hmask, hanswer⟩ :=
    find_spec name hrep hfresh hfuel
  have hcache : Cache.find dns.max (fun i => (alloc i).isNone) i (dns.entries nodes) name
      = (dns'.entries nodes', r) := by
    have hiff : (alloc i).isNone ↔ ((alloc i).map fun malloc => malloc dns) = none := by simp
    rw [Cache.find]
    by_cases hnone : (alloc i).isNone ∧ LruCache.entry (dns.entries nodes) name = none
    · rw [if_pos ⟨hiff.mp hnone.1, hnone.2⟩] at hanswer
      obtain ⟨rfl, hentries⟩ := Prod.mk.inj hanswer
      rw [if_pos hnone, hentries]
    · rw [if_neg fun h => hnone ⟨hiff.mpr h.1, h.2⟩] at hanswer
      rw [if_neg hnone, ← hanswer]
      rfl
  rw [hcache]
  exact ⟨dns', hfind, nodes', hrep', rfl, hmax, hnet, hmask⟩

/-- Tables that behave alike log alike. -/
theorem Simulates.logged {σ τ : Type} {R : σ → τ → Prop}
    {find : ℕ → σ → List UInt8 → Option (σ × Option ℕ)}
    {request : ℕ → τ → List UInt8 → τ × Option ℕ} (h : Simulates R find request) :
  Simulates (fun s t => R s.1 t.1 ∧ s.2 = t.2) (MappedDns.logged find) (logging request)
  := by
  rintro i ⟨s, log⟩ ⟨t, _⟩ name ⟨hst, rfl⟩
  obtain ⟨s', hs', hst'⟩ := h i s t name hst
  refine ⟨(s', log ++ [.asked name]), ?_, hst', rfl⟩
  rw [MappedDns.logged, hs']
  rfl

/-- An event on the table is the event on the cache it stands for. -/
theorem step_standsFor {fuel : ℕ} {dns : MappedDns α} {l : List (List UInt8 × ℕ)}
    (log : List Entry) {e : Event α} (he : e.Ready) (hfuel : 2 * Nat.log 2 (max + 2) < fuel)
    (h : StandsFor max net mask dns l) :
  ∃ dns' l' log', step fuel (dns, log) e = some (dns', log')
    ∧ Cache.step max net mask (l, log) e = some (l', log') ∧ StandsFor max net mask dns' l'
  := by
  cases e with
  | query alloc strdup req qlen res =>
      obtain ⟨halloc, hstrdup, hcovered⟩ := he
      obtain ⟨⟨⟨l', log'⟩, r⟩, hl'⟩ := Option.isSome_iff_exists.mp
        ((handle_isSome_iff (logging (Cache.find max fun i => (alloc i).isNone)) net (l, log) req qlen
          res).mpr hcovered)
      obtain ⟨⟨dns', log''⟩, hdns', h', hlog⟩ :=
        (simulates_findAt halloc hstrdup hfuel).logged.handle (s := (dns, log)) ⟨h, rfl⟩ hl'
      obtain rfl : log'' = log' := hlog
      refine ⟨dns', l', log'' ++ [.response r], ?_, ?_, h'⟩
      · obtain ⟨_, -, -, -, hnet, -⟩ := h
        rw [step, hnet, hdns']
        rfl
      · rw [Cache.step, hl']
        rfl
  | lookup ip =>
      obtain ⟨nodes, hrep, rfl, rfl, rfl, rfl⟩ := h
      obtain ⟨dns', nodes', hlookup, hrep', hmax, hnet, hmask, hentries⟩ := lookup_spec hrep ip
      refine ⟨dns', dns'.entries nodes',
        log ++ [.name (LruCache.keyAt (dns.entries nodes) (ip &&& ~~~dns.mask).toNat).1], ?_, ?_,
        nodes', hrep', rfl, hmax, hnet, hmask⟩
      · rw [step, hlookup]
        rfl
      · rw [Cache.step, hentries]

/-- A run on the table is the run on the cache it stands for. -/
theorem exec_standsFor {fuel : ℕ} {dns : MappedDns α} {l : List (List UInt8 × ℕ)}
    (log : List Entry) {es : List (Event α)} (hes : ∀ e ∈ es, e.Ready)
    (hfuel : 2 * Nat.log 2 (max + 2) < fuel) (h : StandsFor max net mask dns l) :
  ∃ dns' l' log', Run.exec (step fuel) (dns, log) es = some (dns', log')
    ∧ Run.exec (Cache.step max net mask) (l, log) es = some (l', log')
    ∧ StandsFor max net mask dns' l'
  := by
  induction es generalizing dns l log with
  | nil => exact ⟨dns, l, log, rfl, rfl, h⟩
  | cons e es ih =>
      obtain ⟨dns₁, l₁, log₁, hstep, hcache, h₁⟩ := step_standsFor log
        (hes e List.mem_cons_self) hfuel h
      obtain ⟨dns', l', log', hrun, hcaches, h'⟩ := ih log₁
        (fun e he => hes e (List.mem_cons_of_mem _ he)) h₁
      refine ⟨dns', l', log', ?_, ?_, h'⟩
      · rw [Run.exec, hstep]
        exact hrun
      · rw [Run.exec, hcache]
        exact hcaches

omit [DecidableEq α] in
/-- A new table is empty. -/
theorem standsFor_construct {node : α → RBTreeNode α} {listNode : α → HevListNode α}
    {name : α → Option (List UInt8)} {idx : α → ℕ} {dns : MappedDns α} (hmax : 0 < max)
    (hnew : construct node listNode name idx net mask max = some dns) :
  StandsFor max net mask dns []
  := by
  rw [construct] at hnew
  split at hnew
  · cases hnew
  · obtain rfl := Option.some.inj hnew
    refine ⟨[], ?_, rfl, rfl, rfl, rfl⟩
    exact {
      list := ⟨rfl, rfl, trivial, List.nodup_nil⟩
      named := by simp
      tree := ⟨0, .leaf, ⟨rfl, trivial, List.nodup_nil⟩, .leaf, .rfl, List.Pairwise.nil⟩
      records := by simp
      idx_lt := by simp
      use := rfl
      use_le := Nat.zero_le _
      max_pos := hmax
      max_le := by
        show (max : ℤ) ≤ (~~~mask).toInt
        omega }

end

/-! ### The names in use -/

/-- The name that an entry uses. -/
def Entry.used : Entry → Option (List UInt8)
  | .asked n => some n
  | .response _ => none
  | .name r => r

/-- The names used in a run. -/
def names (log : List Entry) : Finset (List UInt8) := (log.filterMap Entry.used).toFinset

/-- The name has its number, unless too many other names have been used. -/
structure Kept (max : ℕ) (name : List UInt8) (idx : ℕ) (l : List (List UInt8 × ℕ))
    (log : List Entry) : Prop where
  wellFormed : LruCache.WellFormed max l
  keeps : ((names log).erase name).card < max → LruCache.Keeps name idx ((names log).erase name) l

section

variable {max idx : ℕ} {name : List UInt8} {l : List (List UInt8 × ℕ)} {log : List Entry}

theorem names_append_some {e : Entry} {n : List UInt8} (he : e.used = some n) :
  names (log ++ [e]) = insert n (names log)
  := by
  ext n'
  simp [names, he]

theorem names_append_none {e : Entry} (he : e.used = none) :
  names (log ++ [e]) = names log
  := by
  simp [names, he]

theorem Kept.response (h : Kept max name idx l log) (r : Option (List UInt8)) :
  Kept max name idx l (log ++ [.response r])
  := by
  refine ⟨h.wellFormed, ?_⟩
  rw [names_append_none rfl]
  exact h.keeps

/-- The names used before are used afterwards. -/
theorem erase_names_subset (log : List Entry) (e : Entry) (name : List UInt8) :
  (names log).erase name ⊆ (names (log ++ [e])).erase name
  := by
  apply Finset.erase_subset_erase
  cases he : e.used with
  | none => rw [names_append_none he]
  | some n =>
      rw [names_append_some he]
      exact Finset.subset_insert n _

/-- If few names are used afterwards, the name has its number before. -/
theorem Kept.before (h : Kept max name idx l log) {e : Entry}
    (hcard : ((names (log ++ [e])).erase name).card < max) :
  LruCache.Keeps name idx ((names log).erase name) l
  := h.keeps ((Finset.card_le_card (erase_names_subset log e name)).trans_lt hcard)

/-- A request for a name leaves the names their numbers. -/
theorem Kept.find (h : Kept max name idx l log) (fails : ℕ → Bool) (i : ℕ) (other : List UInt8) :
  Kept max name idx (Cache.find max fails i l other).1 (log ++ [.asked other])
  := by
  rw [Cache.find]
  split
  · refine ⟨h.wellFormed, ?_⟩
    intro hcard
    exact (h.before hcard).mono (erase_names_subset log _ name)
  · refine ⟨h.wellFormed.request other, ?_⟩
    intro hcard
    have hkeeps := h.before hcard
    rw [names_append_some (n := other) rfl] at hcard ⊢
    by_cases hother : other = name
    · subst hother
      rw [Prod.fst_swap, LruCache.request_of_entry (h.wellFormed.entry_eq hkeeps.mem)]
      exact LruCache.Keeps.touch_self
    · rw [Finset.erase_insert_of_ne hother] at hcard ⊢
      exact hkeeps.request h.wellFormed hother hcard

/-- A connection leaves the names their numbers. -/
theorem Kept.keyAt (h : Kept max name idx l log) (i : ℕ) :
  Kept max name idx (LruCache.keyAt l i).2 (log ++ [.name (LruCache.keyAt l i).1])
  := by
  refine ⟨h.wellFormed.keyAt i, ?_⟩
  intro hcard
  have hkeeps := h.before hcard
  cases hentry : LruCache.entryAt l i with
  | none =>
      have hkey : LruCache.keyAt l i = (none, l) := by rw [LruCache.keyAt, hentry]
      rw [hkey]
      exact hkeeps.mono (erase_names_subset log _ name)
  | some e =>
      have hkey : LruCache.keyAt l i = (some e.1, LruCache.touch l e) := by
        rw [LruCache.keyAt, hentry]
      obtain ⟨hmem, -⟩ := LruCache.entryAt_mem hentry
      rw [hkey, names_append_some (n := e.1) rfl]
      by_cases hother : e.1 = name
      · obtain rfl : e = (name, idx) :=
          List.inj_on_of_nodup_map h.wellFormed.keys hmem hkeeps.mem hother
        exact LruCache.Keeps.touch_self
      · rw [Finset.erase_insert_of_ne hother]
        exact hkeeps.touch hmem fun heq => hother (by rw [heq])

end

section

variable {α : Type} [DecidableEq α] {max : ℕ} {net mask : BitVec 32}

omit [DecidableEq α] in
/-- An event leaves the names their numbers. -/
theorem Kept.step {idx : ℕ} {name : List UInt8} {s s' : List (List UInt8 × ℕ) × List Entry}
    {e : Event α} (h : Kept max name idx s.1 s.2)
    (hstep : Cache.step max net mask s e = some s') :
  Kept max name idx s'.1 s'.2
  := by
  cases e with
  | query alloc strdup req qlen res =>
      have hsim : Simulates (fun t t' => t = t' ∧ Kept max name idx t.1 t.2)
          (always (logging (Cache.find max fun i => (alloc i).isNone)))
          (logging (Cache.find max fun i => (alloc i).isNone)) := by
        rintro i t _ other ⟨rfl, ht⟩
        exact ⟨_, rfl, rfl, ht.find _ i other⟩
      obtain ⟨⟨⟨l', log'⟩, r⟩, hl', rfl⟩ := Option.map_eq_some_iff.mp hstep
      obtain ⟨t, -, rfl, ht⟩ := hsim.handle ⟨rfl, h⟩ hl'
      exact ht.response r
  | lookup ip =>
      cases hstep
      exact h.keyAt _

omit [DecidableEq α] in
/-- A run leaves the names their numbers. -/
theorem Kept.exec {idx : ℕ} {name : List UInt8} {l l' : List (List UInt8 × ℕ)}
    {log log' : List Entry} {es : List (Event α)} (h : Kept max name idx l log)
    (hrun : Run.exec (Cache.step max net mask) (l, log) es = some (l', log')) :
  Kept max name idx l' log'
  := by
  induction es generalizing l log with
  | nil =>
      cases hrun
      exact h
  | cons e es ih =>
      obtain ⟨⟨l₁, log₁⟩, hstep, hrun₁⟩ := (Run.exec_cons_eq_some _).mp hrun
      have h₁ : Kept max name idx l₁ log₁ := Kept.step (s := (l, log)) h hstep
      exact ih h₁ hrun₁

/-- A number of the table is read back from its address.  Neither the configuration nor
`hev_mapped_dns_new` checks it. -/
def Addressable (net mask : BitVec 32) (max : ℕ) : Prop :=
  ∀ idx < max, ((net ||| BitVec.ofNat 32 idx) &&& ~~~mask).toNat = idx

/-- The number of a mapped address is its part that is not of the network, if the mask is that of a
prefix and the network has no bits outside of it. -/
theorem addressable_of_prefix {k : ℕ} (hk : k < 32) (hmask : ~~~mask = BitVec.ofNat 32 (2 ^ k - 1))
    (hnet : net &&& ~~~mask = 0) (hmax : (max : ℤ) ≤ (~~~mask).toInt) :
  Addressable net mask max
  := by
  intro idx hidx
  have hpow : 2 ^ k ≤ 2 ^ 31 := Nat.pow_le_pow_right (by decide) (Nat.le_of_lt_succ hk)
  have hnat : (~~~mask).toNat = 2 ^ k - 1 := by
    rw [hmask, BitVec.toNat_ofNat]
    exact Nat.mod_eq_of_lt (by omega)
  have hlt : idx < 2 ^ k := by
    have hint : (~~~mask).toInt = (~~~mask).toNat :=
      BitVec.toInt_eq_toNat_of_lt (by omega)
    omega
  rw [BitVec.and_or_distrib_right, hnet, BitVec.ofNat_eq_ofNat, BitVec.zero_or, BitVec.toNat_and,
    hnat, BitVec.toNat_ofNat, Nat.mod_eq_of_lt (by omega)]
  exact Nat.and_two_pow_sub_one_of_lt_two_pow hlt

/-- The network 10.0.0.1 has such a bit: the first number leads to the second. -/
example : ¬ Addressable 0x0a000001 0xffffff00 100
  := fun h => absurd (h 0 (by decide)) (by decide)

/-- A query for a name is answered with the number the cache gives it. -/
theorem step_query {fuel : ℕ} {dns : MappedDns α} {l : List (List UInt8 × ℕ)}
    (h : StandsFor max net mask dns l) (hmax : 0 < max) (hfuel : 2 * Nat.log 2 (max + 2) < fuel)
    {m : Message} (hq : m.qtype = 1 ∧ m.qclass = 1) (hzero : ∀ l ∈ m.question, 0 ∉ l.text)
    {alloc : ℕ → Option (MappedDns α → α)} {strdup : ℕ → Bool} (halloc : (alloc 0).isSome)
    (hfresh : ∀ i malloc, alloc i = some malloc → Fresh malloc) (hstrdup : ∀ i, strdup i = true)
    (after : List UInt8) {res : List UInt8} (hroom : m.encode.length ≤ res.length)
    (hspace : m.preamble.length + 16 ≤ res.length) :
  ∃ dns' idx, step fuel (dns, []) (.query alloc strdup (m.encode ++ after) m.encode.length res)
      = some (dns', [.asked (dotted m.question),
          .response (some (respond m (net ||| BitVec.ofNat 32 idx)).encode)])
    ∧ (LruCache.request max l (dotted m.question)).1 = some idx
    ∧ StandsFor max net mask dns' (LruCache.request max l (dotted m.question)).2
  := by
  obtain ⟨idx, hidx⟩ := LruCache.exists_request (k := dotted m.question) (l := l) hmax
  have hfind : Cache.find max (fun i => (alloc i).isNone) 0 l (dotted m.question)
      = ((LruCache.request max l (dotted m.question)).2, some idx) := by
    have hsome : ¬ ((alloc 0).isNone ∧ LruCache.entry l (dotted m.question) = none) := by
      rintro ⟨hnone, -⟩
      rw [Option.isNone_iff_eq_none] at hnone
      rw [hnone] at halloc
      cases halloc
    rw [Cache.find, if_neg hsome]
    exact Prod.ext rfl hidx
  obtain ⟨dns', hdns', h'⟩ := simulates_findAt hfresh hstrdup hfuel 0 dns l (dotted m.question) h
  rw [hfind] at hdns' h'
  have hlogged : logged (findAt fuel alloc strdup) 0 (dns, []) (dotted m.question)
      = some ((dns', [.asked (dotted m.question)]), some idx) := by
    rw [logged, hdns']
    rfl
  refine ⟨dns', idx, ?_, hidx, h'⟩
  obtain ⟨_, -, -, -, hnet, -⟩ := h
  rw [step, hnet, handle_encode net hq hzero hlogged after hroom hspace]
  rfl

/-- A connection to the address of a name that has kept its number is one to the name. -/
theorem Kept.lookup {dns : MappedDns α} {l : List (List UInt8 × ℕ)} {log : List Entry} {idx : ℕ}
    {name : List UInt8} (hkept : Kept max name idx l log) (h : StandsFor max net mask dns l)
    (hcard : ((names log).erase name).card < max) (haddress : Addressable net mask max) :
  ∃ dns', dns.lookup (net ||| BitVec.ofNat 32 idx) = some (dns', some name)
  := by
  have hmem := (hkept.keeps hcard).mem
  obtain ⟨nodes, hrep, rfl, rfl, rfl, rfl⟩ := h
  have hidx : idx < dns.max :=
    (hkept.wellFormed.slot_lt _ hmem).trans_le hkept.wellFormed.length_le
  obtain ⟨dns', -, hlookup, -⟩ := lookup_spec hrep (dns.net ||| BitVec.ofNat 32 idx)
  rw [haddress idx hidx, LruCache.keyAt, hkept.wellFormed.entryAt_eq hmem] at hlookup
  exact ⟨dns', hlookup⟩

/-! ### The main results -/

variable {node : α → RBTreeNode α} {listNode : α → HevListNode α} {name₀ : α → Option (List UInt8)}
  {idx₀ : α → ℕ} {dns₀ : MappedDns α} {fuel : ℕ}

/-- Along every run from a new table in which names can be copied and the packets hold the beginnings of
their questions, no null pointer is followed, no memory is left and no loop takes more than
logarithmically many rounds; the answers are those of a cache that forgets the least recently used
name, and the pointers stay those of a red-black tree and of a list of its entries. -/
theorem run_is_cache_run
    (hmax : 0 < max) (hnew : construct node listNode name₀ idx₀ net mask max = some dns₀)
    {es : List (Event α)} (hes : ∀ e ∈ es, e.Ready) (hfuel : 2 * Nat.log 2 (max + 2) < fuel) :
  ∃ dns l log, Run.exec (step fuel) (dns₀, []) es = some (dns, log)
    ∧ Run.exec (Cache.step max net mask) ([], []) es = some (l, log)
    ∧ StandsFor max net mask dns l ∧ LruCache.WellFormed max l
  := by
  obtain ⟨dns, l, log, hrun, hcache, hdns⟩ :=
    exec_standsFor [] hes hfuel (standsFor_construct hmax hnew)
  refine ⟨dns, l, log, hrun, hcache, hdns, ?_⟩
  obtain ⟨nodes, hrep, rfl, rfl, -, -⟩ := hdns
  exact hrep.wellFormed

/-- In every such run of a table whose numbers are read back from their addresses, a query for a name
that finds memory for it and room for the answer is answered with an address that leads back to the
name, as long as fewer than `max` other names are used; the answer is one that a resolver reads. -/
theorem mapped_address_leads_back
    (hmax : 0 < max) (hnew : construct node listNode name₀ idx₀ net mask max = some dns₀)
    (haddress : Addressable net mask max) (hfuel : 2 * Nat.log 2 (max + 2) < fuel)
    {es : List (Event α)} (hes : ∀ e ∈ es, e.Ready) {dns : MappedDns α} {log : List Entry}
    (hrun : Run.exec (step fuel) (dns₀, []) es = some (dns, log))
    {m : Message} (hq : m.qtype = 1 ∧ m.qclass = 1) (hzero : ∀ l ∈ m.question, 0 ∉ l.text)
    {alloc : ℕ → Option (MappedDns α → α)} {strdup : ℕ → Bool} (halloc : (alloc 0).isSome)
    (hfresh : ∀ i malloc, alloc i = some malloc → Fresh malloc) (hstrdup : ∀ i, strdup i = true)
    (after : List UInt8) {res : List UInt8} (hroom : m.encode.length ≤ res.length)
    (hspace : m.preamble.length + 16 ≤ res.length) :
  ∃ dns₁ response ip,
    step fuel (dns, []) (.query alloc strdup (m.encode ++ after) m.encode.length res)
      = some (dns₁, [.asked (dotted m.question), .response (some response)])
    ∧ (Dns.DohResolver.parseA response).map (List.map Socks.InetAddress.address)
      = some [uint32Bytes (UInt32.ofBitVec ip)]
    ∧ ∀ es' : List (Event α), (∀ e ∈ es', e.Ready) → ∀ dns₂ log₂,
      Run.exec (step fuel) (dns₁, []) es' = some (dns₂, log₂) →
      ((names log₂).erase (dotted m.question)).card < max →
      ∃ dns₃, dns₂.lookup ip = some (dns₃, some (dotted m.question))
  := by
  obtain ⟨dns', l, log', hrun', -, hdns⟩ :=
    exec_standsFor [] hes hfuel (standsFor_construct hmax hnew)
  obtain ⟨rfl, rfl⟩ := Prod.mk.inj (Option.some.inj (hrun.symm.trans hrun'))
  obtain ⟨dns₁, idx, hquery, hidx, hdns₁⟩ :=
    step_query hdns hmax hfuel hq hzero halloc hfresh hstrdup after hroom hspace
  refine ⟨dns₁, (respond m (net ||| BitVec.ofNat 32 idx)).encode, net ||| BitVec.ofNat 32 idx,
    hquery, (Dns.parseA_exact (respond m (net ||| BitVec.ofNat 32 idx)) []).2, ?_⟩
  intro es' hes' dns₂ log₂ hrun₂ hcard
  have hkept : Kept max (dotted m.question) idx (LruCache.request max l (dotted m.question)).2 [] := by
    constructor
    · obtain ⟨nodes, hrep, hentries, rfl, -, -⟩ := hdns₁
      rw [← hentries]
      exact hrep.wellFormed
    · intro _
      exact LruCache.keeps_request hidx
  obtain ⟨dns₂', l₂, log₂', hrun₂', hcache₂, hdns₂⟩ := exec_standsFor [] hes' hfuel hdns₁
  obtain ⟨rfl, rfl⟩ := Prod.mk.inj (Option.some.inj (hrun₂.symm.trans hrun₂'))
  exact (hkept.exec hcache₂).lookup hdns₂ hcard haddress

end

/-! ### A small table -/

/-- An allocator that returns a block with a number greater than those in use. -/
def nextBlock (dns : MappedDns ℕ) : ℕ := dns.nodes.sum + 1

theorem fresh_nextBlock : Fresh nextBlock
  := by
  intro dns hmem
  have hle : dns.nextBlock ≤ dns.nodes.sum :=
    List.single_le_sum (fun _ _ => Nat.zero_le _) _ hmem
  rw [nextBlock] at hle
  omega

/-- A table for two names in the network 10.0.0.0/30. -/
def smallTable : MappedDns ℕ :=
  ⟨0, 2, 0x0a000000, 0xfffffffc, ⟨none, none, fun _ => ⟨none, none⟩⟩,
    ⟨none, fun _ => ⟨none, .black, none, none⟩⟩, fun _ => none, fun _ => none, fun _ => 0⟩

theorem construct_smallTable :
  construct (fun _ => ⟨none, .black, none, none⟩) (fun _ => ⟨none, none⟩) (fun _ => none) (fun _ => 0)
    0x0a000000 0xfffffffc 2 = some smallTable
  := rfl

/-- A request for the address of a name of one letter. -/
def smallRequest : Message :=
  ⟨7, 0x100, [⟨[104], by decide, by decide⟩], 1, 1, [], 0, 0, [], by decide⟩

/-- A query for the name, and a connection to the address it is given. -/
def smallRun : List (Event ℕ) :=
  [.query (fun _ => some nextBlock) (fun _ => true) smallRequest.encode 19 (List.replicate 64 0),
    .lookup 0x0a000000]

theorem ready_smallRun : ∀ e ∈ smallRun, e.Ready
  := by
  rw [smallRun, List.forall_mem_cons, List.forall_mem_singleton]
  refine ⟨⟨?_, fun _ => rfl, .inr ⟨by decide, by decide, 1, rfl, fun _ => ⟨by decide, ?_⟩⟩⟩, trivial⟩
  · rintro i _ ⟨⟩
    exact fresh_nextBlock
  · split <;> trivial

theorem run_is_cache_run_small :
  ∃ dns l log, Run.exec (step 5) (smallTable, []) smallRun = some (dns, log)
    ∧ Run.exec (Cache.step 2 0x0a000000 0xfffffffc) ([], []) smallRun = some (l, log)
    ∧ StandsFor 2 0x0a000000 0xfffffffc dns l ∧ LruCache.WellFormed 2 l
  := run_is_cache_run (by decide) construct_smallTable ready_smallRun (by decide)

theorem mapped_address_leads_back_small :
  ∃ dns₁ response ip,
    step 5 (smallTable, [])
        (.query (fun _ => some nextBlock) (fun _ => true) (smallRequest.encode ++ [])
          smallRequest.encode.length (List.replicate 64 0))
      = some (dns₁, [.asked (dotted smallRequest.question), .response (some response)])
    ∧ (Dns.DohResolver.parseA response).map (List.map Socks.InetAddress.address)
      = some [uint32Bytes (UInt32.ofBitVec ip)]
    ∧ ∀ es : List (Event ℕ), (∀ e ∈ es, e.Ready) → ∀ dns₂ log₂,
      Run.exec (step 5) (dns₁, []) es = some (dns₂, log₂) →
      ((names log₂).erase (dotted smallRequest.question)).card < 2 →
      ∃ dns₃, dns₂.lookup ip = some (dns₃, some (dotted smallRequest.question))
  := by
  have hfresh : ∀ (i : ℕ) malloc, some nextBlock = some malloc → Fresh malloc := by
    rintro i _ ⟨⟩
    exact fresh_nextBlock
  have hnone : ∀ e ∈ ([] : List (Event ℕ)), e.Ready := nofun
  have hnonzero : ∀ l ∈ smallRequest.question, 0 ∉ l.text := by
    intro l hl
    obtain rfl := List.mem_singleton.mp hl
    decide
  have haddress : Addressable 0x0a000000 0xfffffffc 2 :=
    addressable_of_prefix (k := 2) (by decide) (by decide) (by decide) (by decide)
  exact mapped_address_leads_back (by decide) construct_smallTable haddress (by decide) hnone rfl
    ⟨rfl, rfl⟩ hnonzero rfl hfresh (fun _ => rfl) [] (by decide) (by decide)

end MappedDns

end Hev
