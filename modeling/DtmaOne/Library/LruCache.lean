import Mathlib.Data.Finset.Card
import Mathlib.Data.List.Basic
import Mathlib.Data.List.Nodup

/-!
# Caches that forget the least recently used key

A cache with room for `max` keys gives each key a slot, a number less than `max`.  Its entries are
listed with the least recently used key first.  A request for a key without a slot takes the next
free slot, or when there is none the slot of the least recently used key.
-/

namespace LruCache

universe u

variable {κ : Type u}

section

variable [DecidableEq κ]

/-- The entry of a key. -/
def entry (l : List (κ × ℕ)) (k : κ) : Option (κ × ℕ) := l.find? fun e => e.1 = k

/-- The entry at a slot. -/
def entryAt (l : List (κ × ℕ)) (i : ℕ) : Option (κ × ℕ) := l.find? fun e => e.2 = i

/-- The entry becomes the most recently used one. -/
def touch (l : List (κ × ℕ)) (e : κ × ℕ) : List (κ × ℕ) := l.erase e ++ [e]

/-- A request for the slot of a key. -/
def request (max : ℕ) (l : List (κ × ℕ)) (k : κ) : Option ℕ × List (κ × ℕ) :=
  match entry l k with
  | some e => (some e.2, touch l e)
  | none =>
      if l.length < max then (some l.length, l ++ [(k, l.length)])
      else match l with
        | [] => (none, [])
        | e :: l => (some e.2, l ++ [(k, e.2)])

/-- The key at a slot, which counts as a use. -/
def keyAt (l : List (κ × ℕ)) (i : ℕ) : Option κ × List (κ × ℕ) :=
  match entryAt l i with
  | some e => (some e.1, touch l e)
  | none => (none, l)

end

/-- No key and no slot occurs twice, and the slots in use are the first ones. -/
structure WellFormed (max : ℕ) (l : List (κ × ℕ)) : Prop where
  keys : (l.map Prod.fst).Nodup
  slots : (l.map Prod.snd).Nodup
  slot_lt : ∀ e ∈ l, e.2 < l.length
  length_le : l.length ≤ max

/-- The key `k` has the slot `i`, and the keys used more recently are in `used`. -/
def Keeps (k : κ) (i : ℕ) (used : Finset κ) (l : List (κ × ℕ)) : Prop :=
  ∃ l₁ l₂, l = l₁ ++ (k, i) :: l₂ ∧ ∀ e ∈ l₂, e.1 ∈ used

theorem WellFormed.nodup {max : ℕ} {l : List (κ × ℕ)} (h : WellFormed max l) :
  l.Nodup
  := h.keys.of_map

section

variable [DecidableEq κ]

theorem perm_touch {l : List (κ × ℕ)} {e : κ × ℕ} (he : e ∈ l) :
  (touch l e).Perm l
  := (List.perm_append_singleton e _).trans (List.perm_cons_erase he).symm

theorem mem_touch {l : List (κ × ℕ)} {e : κ × ℕ} (he : e ∈ l) {e' : κ × ℕ} :
  e' ∈ touch l e ↔ e' ∈ l
  := (perm_touch he).mem_iff

omit [DecidableEq κ] in
theorem WellFormed.perm {max : ℕ} {l l' : List (κ × ℕ)} (h : WellFormed max l) (hp : l'.Perm l) :
  WellFormed max l'
  := by
  refine ⟨(hp.map _).nodup_iff.mpr h.keys, (hp.map _).nodup_iff.mpr h.slots, ?_, ?_⟩
  · intro e he
    rw [hp.length_eq]
    exact h.slot_lt e (hp.mem_iff.mp he)
  · exact hp.length_eq.trans_le h.length_le

theorem entry_mem {l : List (κ × ℕ)} {k : κ} {e : κ × ℕ} (h : entry l k = some e) :
  e ∈ l ∧ e.1 = k
  := ⟨List.mem_of_find?_eq_some h, by simpa using List.find?_some h⟩

omit [DecidableEq κ] in
theorem entryAt_mem {l : List (κ × ℕ)} {i : ℕ} {e : κ × ℕ} (h : entryAt l i = some e) :
  e ∈ l ∧ e.2 = i
  := ⟨List.mem_of_find?_eq_some h, by simpa using List.find?_some h⟩

theorem entry_eq_none {l : List (κ × ℕ)} {k : κ} :
  entry l k = none ↔ k ∉ l.map Prod.fst
  := by
  simp only [entry, List.find?_eq_none, List.mem_map, not_exists, not_and, decide_eq_true_eq]

theorem WellFormed.entry_eq {max : ℕ} {l : List (κ × ℕ)} (h : WellFormed max l) {e : κ × ℕ}
    (he : e ∈ l) :
  entry l e.1 = some e
  := by
  cases he' : entry l e.1 with
  | none => exact absurd (List.mem_map_of_mem he) (entry_eq_none.mp he')
  | some e' =>
      obtain ⟨hmem, hkey⟩ := entry_mem he'
      rw [List.inj_on_of_nodup_map h.keys hmem he hkey]

omit [DecidableEq κ] in
theorem WellFormed.entryAt_eq {max : ℕ} {l : List (κ × ℕ)} (h : WellFormed max l) {e : κ × ℕ}
    (he : e ∈ l) :
  entryAt l e.2 = some e
  := by
  cases he' : entryAt l e.2 with
  | none =>
      have := List.find?_eq_none.mp he' e he
      simp at this
  | some e' =>
      obtain ⟨hmem, hslot⟩ := entryAt_mem he'
      rw [List.inj_on_of_nodup_map h.slots hmem he hslot]

theorem request_of_entry
    {max : ℕ} {l : List (κ × ℕ)} {k : κ} {e : κ × ℕ} (h : entry l k = some e) :
  request max l k = (some e.2, touch l e)
  := by
  simp [request, h]

theorem request_of_lt
    {max : ℕ} {l : List (κ × ℕ)} {k : κ} (h : entry l k = none) (hlt : l.length < max) :
  request max l k = (some l.length, l ++ [(k, l.length)])
  := by
  simp [request, h, hlt]

theorem request_of_full
    {max : ℕ} {e : κ × ℕ} {l : List (κ × ℕ)} {k : κ} (h : entry (e :: l) k = none)
    (hfull : ¬(e :: l).length < max) :
  request max (e :: l) k = (some e.2, l ++ [(k, e.2)])
  := by
  unfold request
  rw [h]
  dsimp only
  rw [if_neg hfull]

/-- A request keeps a cache well formed. -/
theorem WellFormed.request {max : ℕ} {l : List (κ × ℕ)} (h : WellFormed max l) (k : κ) :
  WellFormed max (request max l k).2
  := by
  unfold LruCache.request
  cases he : entry l k with
  | some e => exact h.perm (perm_touch (entry_mem he).1)
  | none =>
      have hk := entry_eq_none.mp he
      dsimp only
      by_cases hlt : l.length < max
      · rw [if_pos hlt]
        refine ⟨?_, ?_, ?_, ?_⟩
        · rw [List.map_append]
          exact h.keys.append (List.nodup_singleton _) (by simpa using hk)
        · rw [List.map_append]
          apply h.slots.append (List.nodup_singleton _)
          simp only [List.disjoint_singleton, List.mem_map, not_exists, not_and]
          intro e he heq
          exact absurd (h.slot_lt e he) (by omega)
        · intro e he
          simp only [List.mem_append, List.mem_singleton] at he
          rw [List.length_append, List.length_singleton]
          obtain he | rfl := he
          · exact Nat.lt_succ_of_lt (h.slot_lt e he)
          · exact Nat.lt_succ_self _
        · rw [List.length_append]
          exact hlt
      · rw [if_neg hlt]
        cases l with
        | nil => exact h
        | cons e l =>
            have hp : (l ++ [(k, e.2)]).Perm ((k, e.2) :: l) := List.perm_append_singleton _ _
            have hcons : WellFormed max ((k, e.2) :: l) := by
              refine ⟨?_, h.slots, ?_, h.length_le⟩
              · have := h.keys
                simp only [List.map_cons, List.nodup_cons] at this hk ⊢
                exact ⟨fun hmem => hk (List.mem_cons_of_mem _ hmem), this.2⟩
              · intro e' he'
                obtain rfl | he' := List.mem_cons.mp he'
                · exact h.slot_lt e List.mem_cons_self
                · exact h.slot_lt e' (List.mem_cons_of_mem _ he')
            exact hcons.perm hp

/-- Reading a slot keeps a cache well formed. -/
theorem WellFormed.keyAt {max : ℕ} {l : List (κ × ℕ)} (h : WellFormed max l) (i : ℕ) :
  WellFormed max (keyAt l i).2
  := by
  unfold LruCache.keyAt
  cases he : entryAt l i with
  | some e => exact h.perm (perm_touch (entryAt_mem he).1)
  | none => exact h

omit [DecidableEq κ] in
/-- A key that is kept has its slot. -/
theorem Keeps.mem {k : κ} {i : ℕ} {used : Finset κ} {l : List (κ × ℕ)} (h : Keeps k i used l) :
  (k, i) ∈ l
  := by
  obtain ⟨l₁, l₂, rfl, -⟩ := h
  simp

omit [DecidableEq κ] in
theorem Keeps.mono {k : κ} {i : ℕ} {used used' : Finset κ} {l : List (κ × ℕ)}
    (h : Keeps k i used l) (hused : used ⊆ used') :
  Keeps k i used' l
  := by
  obtain ⟨l₁, l₂, hl, hl₂⟩ := h
  exact ⟨l₁, l₂, hl, fun e he => hused (hl₂ e he)⟩

theorem touch_append_left {l₁ l₂ : List (κ × ℕ)} {e : κ × ℕ} (he : e ∈ l₁) :
  touch (l₁ ++ l₂) e = l₁.erase e ++ (l₂ ++ [e])
  := by
  rw [touch, List.erase_append_left _ he, List.append_assoc]

theorem touch_append_right {l₁ l₂ : List (κ × ℕ)} {e : κ × ℕ} (he : e ∉ l₁) :
  touch (l₁ ++ l₂) e = l₁ ++ touch l₂ e
  := by
  rw [touch, List.erase_append_right _ he, List.append_assoc, touch]

theorem touch_cons_self (e : κ × ℕ) (l : List (κ × ℕ)) :
  touch (e :: l) e = l ++ [e]
  := by
  rw [touch, List.erase_cons_head]

/-- A use of the key itself makes it the most recently used one. -/
theorem Keeps.touch_self
    {k : κ} {i : ℕ} {used : Finset κ} {l : List (κ × ℕ)} :
  Keeps k i used (touch l (k, i))
  := ⟨l.erase (k, i), [], rfl, by simp⟩

/-- A use of some entry leaves a key its slot. -/
theorem Keeps.touch
    {k : κ} {i : ℕ} {used : Finset κ} {l : List (κ × ℕ)} (h : Keeps k i used l) {e : κ × ℕ}
    (he : e ∈ l) (hne : e ≠ (k, i)) :
  Keeps k i (insert e.1 used) (touch l e)
  := by
  obtain ⟨l₁, l₂, rfl, hl₂⟩ := h
  by_cases he₁ : e ∈ l₁
  · use l₁.erase e, l₂ ++ [e], touch_append_left he₁
    intro e' he'
    obtain he' | he' := List.mem_append.mp he'
    · exact Finset.mem_insert_of_mem (hl₂ e' he')
    · rw [List.mem_singleton.mp he']
      exact Finset.mem_insert_self _ _
  · have he₂ : e ∈ l₂ := by
      simpa [he₁, hne] using he
    use l₁, LruCache.touch l₂ e
    constructor
    · rw [touch_append_right he₁, LruCache.touch, List.erase_cons_tail (by simpa using hne.symm)]
      rfl
    · intro e' he'
      exact Finset.mem_insert_of_mem (hl₂ e' ((mem_touch he₂).mp he'))

/-- The entries after the first one, and one key more, are at most as many as the keys used. -/
theorem card_le_of_keys
    {l : List (κ × ℕ)} {k : κ} {used : Finset κ} (hkeys : (l.map Prod.fst).Nodup)
    (hk : k ∉ l.map Prod.fst) (hused : ∀ e ∈ l, e.1 ∈ used) :
  l.length + 1 ≤ (insert k used).card
  := by
  have hsub : (k :: l.map Prod.fst).toFinset ⊆ insert k used := by
    intro k' hk'
    simp only [List.toFinset_cons, Finset.mem_insert, List.mem_toFinset, List.mem_map] at hk'
    obtain rfl | ⟨e, he, rfl⟩ := hk'
    · exact Finset.mem_insert_self _ _
    · exact Finset.mem_insert_of_mem (hused e he)
  have hcard := Finset.card_le_card hsub
  rw [List.toFinset_card_of_nodup (List.nodup_cons.mpr ⟨hk, hkeys⟩)] at hcard
  simpa using hcard

/-- A request for another key leaves a key its slot, as long as fewer than `max` other keys have
been used since the key was. -/
theorem Keeps.request
    {max : ℕ} {k k' : κ} {i : ℕ} {used : Finset κ} {l : List (κ × ℕ)} (h : Keeps k i used l)
    (hl : WellFormed max l) (hne : k' ≠ k) (hused : (insert k' used).card < max) :
  Keeps k i (insert k' used) (LruCache.request max l k').2
  := by
  unfold LruCache.request
  cases he : entry l k' with
  | some e =>
      obtain ⟨hmem, rfl⟩ := entry_mem he
      exact h.touch hmem (fun heq => hne (by rw [heq]))
  | none =>
      have hk' := entry_eq_none.mp he
      obtain ⟨l₁, l₂, rfl, hl₂⟩ := h
      have hlast : ∀ e ∈ l₂ ++ [(k', (l₁ ++ (k, i) :: l₂).length)], e.1 ∈ insert k' used := by
        intro e he
        obtain he | he := List.mem_append.mp he
        · exact Finset.mem_insert_of_mem (hl₂ e he)
        · rw [List.mem_singleton.mp he]
          exact Finset.mem_insert_self _ _
      dsimp only
      by_cases hlt : (l₁ ++ (k, i) :: l₂).length < max
      · rw [if_pos hlt]
        exact ⟨l₁, _, by simp, hlast⟩
      · rw [if_neg hlt]
        cases l₁ with
        | nil =>
            have hkeys := hl.keys
            simp only [List.nil_append, List.map_cons, List.nodup_cons, List.mem_cons] at hkeys hk'
            have := card_le_of_keys hkeys.2 (fun h => hk' (.inr h)) hl₂
            simp only [List.nil_append, List.length_cons] at hlt
            omega
        | cons e l₁ =>
            refine ⟨l₁, l₂ ++ [(k', e.2)], by simp, ?_⟩
            intro e' he'
            obtain he' | he' := List.mem_append.mp he'
            · exact Finset.mem_insert_of_mem (hl₂ e' he')
            · rw [List.mem_singleton.mp he']
              exact Finset.mem_insert_self _ _

/-- A cache with room for a key gives every key a slot. -/
theorem exists_request {max : ℕ} {l : List (κ × ℕ)} {k : κ} (hmax : 0 < max) :
  ∃ i, (request max l k).1 = some i
  := by
  cases he : entry l k with
  | some e => exact ⟨e.2, by rw [request_of_entry he]⟩
  | none =>
      by_cases hlt : l.length < max
      · exact ⟨l.length, by rw [request_of_lt he hlt]⟩
      · cases l with
        | nil => exact absurd hmax hlt
        | cons e l => exact ⟨e.2, by rw [request_of_full he hlt]⟩

/-- After a request a key has the slot the request gave. -/
theorem keeps_request
    {max : ℕ} {k : κ} {i : ℕ} {l : List (κ × ℕ)} (h : (request max l k).1 = some i) :
  Keeps k i ∅ (request max l k).2
  := by
  unfold request at h ⊢
  cases he : entry l k with
  | some e =>
      rw [he] at h
      obtain ⟨-, rfl⟩ := entry_mem he
      obtain rfl := Option.some_inj.mp h
      exact ⟨l.erase e, [], rfl, by simp⟩
  | none =>
      rw [he] at h
      dsimp only at h ⊢
      by_cases hlt : l.length < max
      · rw [if_pos hlt] at h ⊢
        obtain rfl := Option.some_inj.mp h
        exact ⟨l, [], rfl, by simp⟩
      · rw [if_neg hlt] at h ⊢
        cases l with
        | nil => cases h
        | cons e l =>
            obtain rfl := Option.some_inj.mp h
            exact ⟨l, [], rfl, by simp⟩

end

end LruCache
