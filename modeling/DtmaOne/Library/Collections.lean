import Mathlib.Data.List.MinMax
import Mathlib.Data.List.Sort
import Mathlib.Order.Defs.LinearOrder

/-!
# Ordered collections

The collection operations of a standard library whose maps remember the order of insertion
and whose sorts are stable.

* `sortedByDescending f l` is the stable sort of `l` by non-increasing `f`.  Being stable, it
  commutes with `filter`.
* `groupBy f l` lists the groups of `l` under `f` in the order in which their keys occur
  first; each group keeps the order of `l`.
* `mostRecent n l` lists the first `n` different elements of `l`; it is kept up to date by moving
  each new element to the front.
* A linked set or map is the list of its elements or entries in the order of insertion.
-/

universe u v

namespace Collections

/-! ### Stable sorting -/

section Sorting

variable {α : Type u} {S : Type v} [LinearOrder S] (f : α → S)

/-- The stable sort of a list by non-increasing values of `f`. -/
def sortedByDescending (l : List α) : List α :=
  l.insertionSort fun a b => f b ≤ f a

@[simp]
theorem sortedByDescending_nil :
  sortedByDescending f [] = []
  := rfl

@[simp]
theorem sortedByDescending_singleton (a : α) :
  sortedByDescending f [a] = [a]
  := rfl

/-- The sorted list has the elements of the list. -/
theorem sortedByDescending_perm (l : List α) :
  (sortedByDescending f l).Perm l
  := List.perm_insertionSort _ l

@[simp]
theorem mem_sortedByDescending {l : List α} {a : α} :
  a ∈ sortedByDescending f l ↔ a ∈ l
  := (sortedByDescending_perm f l).mem_iff

/-- The values of `f` along the sorted list do not increase. -/
theorem sortedByDescending_pairwise (l : List α) :
  (sortedByDescending f l).Pairwise fun a b => f b ≤ f a
  := by
  have : Std.Total fun a b : α => f b ≤ f a := ⟨fun a b => le_total (f b) (f a)⟩
  have : IsTrans α fun a b : α => f b ≤ f a := ⟨fun _ _ _ h h' => le_trans h' h⟩
  apply List.pairwise_insertionSort

/-- Filtering after an ordered insertion into a sorted list inserts into the filtered list,
or drops the inserted element. -/
theorem filter_orderedInsert (p : α → Bool) (a : α) (l : List α)
    (hl : l.Pairwise fun a b => f b ≤ f a) :
  (l.orderedInsert (fun a b => f b ≤ f a) a).filter p
    = if p a then (l.filter p).orderedInsert (fun a b => f b ≤ f a) a else l.filter p
  := by
  induction l with
  | nil => cases hp : p a <;> simp [hp]
  | cons b l ih =>
      obtain ⟨hb, hl'⟩ := List.pairwise_cons.mp hl
      rw [List.orderedInsert_cons]
      by_cases hle : f b ≤ f a
      · -- everything after `b` is below `b`, so `a` stays in front of what is left of it
        have hfront : (List.filter p (b :: l)).orderedInsert (fun a b => f b ≤ f a) a
            = a :: List.filter p (b :: l) := by
          cases hfl : List.filter p (b :: l) with
          | nil => rfl
          | cons c l' =>
              have hc : c ∈ b :: l := by
                apply (List.mem_filter.mp _).1
                · exact p
                · rw [hfl]
                  apply List.mem_cons_self
              apply List.orderedInsert_cons_of_le
              rcases List.mem_cons.mp hc with rfl | hcl
              · apply hle
              · apply le_trans (hb c hcl) hle
        rw [if_pos hle, hfront]
        cases hp : p a <;> simp [hp]
      · rw [if_neg hle]
        cases hpb : p b with
        | false => simp only [List.filter_cons, hpb, ih hl', Bool.false_eq_true, if_false]
        | true =>
            simp only [List.filter_cons, hpb, ih hl', if_true, List.orderedInsert_cons, hle,
              if_false]
            split <;> rfl

/-- A stable sort commutes with filtering. -/
theorem filter_sortedByDescending (p : α → Bool) (l : List α) :
  (sortedByDescending f l).filter p = sortedByDescending f (l.filter p)
  := by
  induction l with
  | nil => rfl
  | cons a l ih =>
      have hcons : sortedByDescending f (a :: l)
          = (sortedByDescending f l).orderedInsert (fun a b => f b ≤ f a) a := rfl
      rw [hcons, filter_orderedInsert f p a _ (sortedByDescending_pairwise f l), ih]
      cases hp : p a with
      | false => simp [hp]
      | true =>
          simp only [List.filter_cons, hp, if_true]
          rfl

/-- An element above all others comes first. -/
theorem sortedByDescending_append_singleton {l : List α} {a : α} (ha : ∀ b ∈ l, f b < f a) :
  sortedByDescending f (l ++ [a]) = a :: sortedByDescending f l
  := by
  induction l with
  | nil => rfl
  | cons b l ih =>
      have hrest := ih fun c hc => ha c (List.mem_cons_of_mem b hc)
      have hlt : ¬ f a ≤ f b := not_le_of_gt (ha b List.mem_cons_self)
      have hcons : sortedByDescending f (b :: l ++ [a])
          = (sortedByDescending f (l ++ [a])).orderedInsert (fun a b => f b ≤ f a) b := rfl
      rw [hcons, hrest, List.orderedInsert_cons, if_neg hlt]
      rfl

/-- A first element that no other is above stays first. -/
theorem sortedByDescending_cons_of_le {l : List α} {a : α} (ha : ∀ b ∈ l, f b ≤ f a) :
  sortedByDescending f (a :: l) = a :: sortedByDescending f l
  := List.insertionSort_cons_of_forall_rel _ ha

/-- A list with the elements of a sorted one is sorted into it, if different elements have
different values. -/
theorem sortedByDescending_eq_of_perm {l l' : List α} (hperm : l.Perm l')
    (hsorted : l'.Pairwise fun a b => f b ≤ f a) (hinj : ∀ a ∈ l', ∀ b ∈ l', f a = f b → a = b) :
  sortedByDescending f l = l'
  := by
  apply List.Perm.eq_of_pairwise _ (sortedByDescending_pairwise f l) hsorted
  · apply (sortedByDescending_perm f l).trans hperm
  · intro a b ha hb hab hba
    rw [mem_sortedByDescending, hperm.mem_iff] at ha
    apply hinj a ha b hb (le_antisymm hba hab)

end Sorting

/-! ### Unique keys -/

section Keys

variable {α : Type u} {κ : Type v} [DecidableEq κ] (key : α → κ)

/-- In a list with unique keys a key is removed at the cost of at most one place. -/
theorem take_filter_take {l : List α} (hl : (l.map key).Nodup) (k : κ) (n : ℕ) :
  ((l.take (n + 1)).filter fun a => key a ≠ k).take n = (l.filter fun a => key a ≠ k).take n
  := by
  induction l generalizing n with
  | nil => rfl
  | cons a l ih =>
      rw [List.map_cons, List.nodup_cons] at hl
      rw [List.take_succ_cons]
      by_cases ha : key a = k
      · have hother : ∀ b ∈ l, decide (key b ≠ k) = true := by
          intro b hb
          rw [decide_eq_true_iff]
          intro heq
          apply hl.1
          rw [ha, ← heq]
          apply List.mem_map_of_mem hb
        rw [List.filter_cons_of_neg (by simpa using ha), List.filter_cons_of_neg (by simpa using ha),
          List.filter_eq_self.mpr hother, List.filter_eq_self.mpr, List.take_take, min_self]
        intro b hb
        apply hother b (List.mem_of_mem_take hb)
      · rw [List.filter_cons_of_pos (by simpa using ha), List.filter_cons_of_pos (by simpa using ha)]
        cases n with
        | zero => rfl
        | succ n => rw [List.take_succ_cons, List.take_succ_cons, ih hl.2]

/-- What is left without a key and what is added under it have unique keys. -/
theorem nodup_filter_append {l : List α} (hl : (l.map key).Nodup) (a : α) :
  ((l.filter (fun b => key b ≠ key a) ++ [a]).map key).Nodup
  := by
  rw [List.map_append, List.nodup_append]
  refine ⟨?_, List.nodup_singleton _, ?_⟩
  · apply List.Nodup.sublist _ hl
    apply List.Sublist.map
    apply List.filter_sublist
  · intro i hi j hj
    obtain ⟨b, hb, rfl⟩ := List.mem_map.mp hi
    obtain rfl := List.mem_singleton.mp hj
    have hne := (List.mem_filter.mp hb).2
    rwa [decide_eq_true_iff] at hne

end Keys

/-! ### Grouping -/

section Grouping

variable {α : Type u} {κ : Type v} [DecidableEq κ] (f : α → κ)

/-- The groups of a list under the key function `f`, in the order in which the keys occur
first, each in the order of the list. -/
def groupBy (l : List α) : List (κ × List α) :=
  (l.map f).eraseDups.map fun k => (k, l.filter fun a => f a = k)

@[simp]
theorem groupBy_nil :
  groupBy f [] = []
  := rfl

@[simp]
theorem groupBy_singleton (a : α) :
  groupBy f [a] = [(f a, [a])]
  := by
  simp [groupBy, List.eraseDups_cons]

/-- What is done to each group and gathered again is done for each key to the elements with
that key. -/
theorem flatMap_groupBy {β : Type*} (g : List α → List β) (l : List α) :
  (groupBy f l).flatMap (fun kg => g kg.2)
    = (l.map f).eraseDups.flatMap fun k => g (l.filter fun a => f a = k)
  := by
  rw [groupBy, List.flatMap_map]

/-- The keys of the groups are different. -/
theorem nodup_eraseDups (l : List κ) :
  l.eraseDups.Nodup
  := by
  induction hn : l.length using Nat.strong_induction_on generalizing l with
  | _ n ih =>
      cases l with
      | nil => apply List.nodup_nil
      | cons k l =>
          rw [List.eraseDups_cons, List.nodup_cons, List.mem_eraseDups]
          constructor
          · simp
          · apply ih _ _ _ rfl
            rw [← hn, List.length_cons]
            apply Nat.lt_succ_of_le (List.length_filter_le _ _)

/-- A list has one element up to repetition exactly if all its elements are the same. -/
theorem length_eraseDups_eq_one {l : List κ} :
  l.eraseDups.length = 1 ↔ ∃ a ∈ l, ∀ b ∈ l, b = a
  := by
  rw [List.length_eq_one_iff]
  constructor
  · rintro ⟨a, ha⟩
    have hmem : ∀ b, b ∈ l ↔ b = a := by
      intro b
      rw [← List.mem_eraseDups, ha, List.mem_singleton]
    exact ⟨a, (hmem a).mpr rfl, fun b => (hmem b).mp⟩
  · rintro ⟨a, ha, hall⟩
    use a
    have hmem := List.mem_eraseDups.mpr ha
    have hsame : ∀ b ∈ l.eraseDups, b = a := fun b hb => hall b (List.mem_eraseDups.mp hb)
    have hnodup := nodup_eraseDups l
    generalize l.eraseDups = d at hmem hsame hnodup
    obtain ⟨b, d, rfl⟩ := List.exists_cons_of_ne_nil (List.ne_nil_of_mem hmem)
    obtain rfl := hsame b List.mem_cons_self
    cases d with
    | nil => rfl
    | cons c d =>
        obtain rfl := hsame c (List.mem_cons_of_mem b List.mem_cons_self)
        exact absurd List.mem_cons_self (List.nodup_cons.mp hnodup).1

/-- A list has several elements up to repetition exactly if two of them differ. -/
theorem one_lt_length_eraseDups {l : List κ} :
  1 < l.eraseDups.length ↔ ∃ a ∈ l, ∃ b ∈ l, b ≠ a
  := by
  constructor
  · intro h
    obtain ⟨a, d, hd⟩ := List.exists_cons_of_length_pos (Nat.zero_lt_of_lt h)
    have ha : a ∈ l := by
      rw [← List.mem_eraseDups, hd]
      apply List.mem_cons_self
    by_contra hnot
    push Not at hnot
    rw [length_eraseDups_eq_one.mpr ⟨a, ha, hnot a ha⟩] at h
    exact absurd h (lt_irrefl 1)
  · rintro ⟨a, ha, b, hb, hne⟩
    by_contra hnot
    have hpos : 0 < l.eraseDups.length := List.length_pos_of_mem (List.mem_eraseDups.mpr ha)
    obtain ⟨c, -, hall⟩ := length_eraseDups_eq_one.mp (show l.eraseDups.length = 1 by omega)
    apply hne
    rw [hall a ha, hall b hb]

/-- A group has the elements of the list with its key. -/
theorem mem_groupBy {l : List α} {group : κ × List α} (hgroup : group ∈ groupBy f l) :
  group.2 = l.filter fun a => f a = group.1
  := by
  obtain ⟨k, -, rfl⟩ := List.mem_map.mp hgroup
  rfl

/-- The group of an element. -/
theorem mem_groupBy_of_mem {l : List α} {a : α} (ha : a ∈ l) :
  (f a, l.filter fun b => f b = f a) ∈ groupBy f l
  := by
  apply List.mem_map_of_mem
  rw [List.mem_eraseDups]
  apply List.mem_map_of_mem ha

/-- What is gathered from the groups is in the relation `R` throughout, if it is within each
group and between elements of different groups. -/
theorem pairwise_flatMap_groupBy {β : Type*} {R : β → β → Prop} {g : List α → List β} {l : List α}
    (hwithin : ∀ k, (g (l.filter fun a => f a = k)).Pairwise R)
    (hbetween : ∀ k k', k ≠ k' → ∀ x ∈ g (l.filter fun a => f a = k),
      ∀ y ∈ g (l.filter fun a => f a = k'), R x y) :
  ((groupBy f l).flatMap fun group => g group.2).Pairwise R
  := by
  rw [flatMap_groupBy, List.pairwise_flatMap]
  constructor
  · intro k _
    apply hwithin
  · apply (nodup_eraseDups _).imp
    intro k k' hne
    apply hbetween k k' hne

/-- Elements with keys of their own leave no trace in what is gathered from the groups by a
function that ignores them. -/
theorem flatMap_groupBy_append {β : Type*} (g g' : List α → List β) (l l' : List α)
    (hg : ∀ k, g ((l ++ l').filter fun a => f a = k) = g' (l.filter fun a => f a = k))
    (hnil : g' [] = []) :
  (groupBy f (l ++ l')).flatMap (fun kg => g kg.2)
    = (groupBy f l).flatMap fun kg => g' kg.2
  := by
  rw [flatMap_groupBy, flatMap_groupBy, List.map_append, List.eraseDups_append,
    List.flatMap_append]
  have hnew : ((l'.map f).removeAll (l.map f)).eraseDups.flatMap
      (fun k => g ((l ++ l').filter fun a => f a = k)) = [] := by
    apply List.flatMap_eq_nil_iff.mpr
    intro k hk
    have hk' : k ∉ l.map f := by
      have := List.mem_eraseDups.mp hk
      simp only [List.removeAll, List.mem_filter, List.elem_eq_mem,
        Bool.not_eq_eq_eq_not, Bool.not_true, decide_eq_false_iff_not] at this
      apply this.2
    have hempty : l.filter (fun a => f a = k) = [] := by
      apply List.filter_eq_nil_iff.mpr
      intro a ha hfa
      apply hk'
      rw [← of_decide_eq_true hfa]
      apply List.mem_map_of_mem ha
    rw [hg, hempty, hnil]
  rw [hnew, List.append_nil]
  simp only [hg]

end Grouping

/-! ### Partial maps -/

/-- A list is mapped as a whole exactly if each of its elements is. -/
theorem mapM_eq_some {α : Type u} {β : Type u} {f : α → Option β} {l : List α} {l' : List β} :
  l.mapM f = some l' ↔ l.map f = l'.map some
  := by
  induction l generalizing l' with
  | nil =>
      cases l' with
      | nil => simp
      | cons b l' => simp
  | cons a l ih =>
      rw [List.mapM_cons]
      cases hf : f a with
      | none =>
          cases l' with
          | nil => simp
          | cons b l' => simp [hf]
      | some c =>
          cases l' with
          | nil =>
              cases l.mapM f with
              | none => simp
              | some rest => simp
          | cons b l' =>
              rw [List.map_cons, List.map_cons, List.cons.injEq, ← ih, hf]
              cases l.mapM f with
              | none => simp
              | some rest => simp

/-! ### Recency -/

section Recency

variable {α : Type u} [DecidableEq α]

/-- The first occurrences of the elements that satisfy `p`. -/
theorem filter_eraseDups (p : α → Bool) (l : List α) :
  l.eraseDups.filter p = (l.filter p).eraseDups
  := by
  induction hn : l.length using Nat.strong_induction_on generalizing l with
  | _ n ih =>
      cases l with
      | nil => rfl
      | cons a l =>
          have hrest : (l.filter fun b => !b == a).eraseDups.filter p
              = ((l.filter fun b => !b == a).filter p).eraseDups := by
            apply ih _ _ _ rfl
            rw [← hn, List.length_cons]
            apply Nat.lt_succ_of_le (List.length_filter_le _ _)
          rw [List.eraseDups_cons]
          cases hp : p a with
          | true =>
              rw [List.filter_cons_of_pos hp, List.filter_cons_of_pos hp, List.eraseDups_cons,
                hrest, List.filter_comm]
          | false =>
              have hne : ∀ b ∈ l.filter p, (!b == a) = true := by
                intro b hb
                rw [Bool.not_eq_true', beq_eq_false_iff_ne]
                rintro rfl
                rw [(List.mem_filter.mp hb).2] at hp
                cases hp
              rw [List.filter_cons_of_neg (by simp [hp]), List.filter_cons_of_neg (by simp [hp]),
                hrest, List.filter_comm, List.filter_eq_self.mpr hne]

/-- A list without repetitions is not changed. -/
theorem eraseDups_of_nodup {l : List α} (hl : l.Nodup) :
  l.eraseDups = l
  := by
  induction l with
  | nil => rfl
  | cons a l ih =>
      rw [List.nodup_cons] at hl
      have hne : ∀ b ∈ l, (!b == a) = true := by
        intro b hb
        rw [Bool.not_eq_true', beq_eq_false_iff_ne]
        rintro rfl
        exact hl.1 hb
      rw [List.eraseDups_cons, List.filter_eq_self.mpr hne, ih hl.2]

/-- The first `n` different elements of a list; for a list of events with the last one first, the
`n` most recent ones. -/
def mostRecent (n : ℕ) (l : List α) : List α :=
  l.eraseDups.take n

theorem nodup_mostRecent (n : ℕ) (l : List α) :
  (mostRecent n l).Nodup
  := (nodup_eraseDups l).sublist (List.take_sublist n _)

/-- A new event is moved to the front. -/
theorem mostRecent_cons (n : ℕ) (a : α) (l : List α) :
  mostRecent n (a :: l) = (a :: (mostRecent n l).filter fun b => b ≠ a).take n
  := by
  have hall : (a :: l).eraseDups = a :: l.eraseDups.filter fun b => b ≠ a := by
    rw [List.eraseDups_cons, filter_eraseDups]
    simp only [ne_eq, decide_not]
    rfl
  rw [mostRecent, mostRecent, hall]
  cases n with
  | zero => rfl
  | succ n =>
      have hnodup : (l.eraseDups.map id).Nodup := by
        rw [List.map_id]
        apply nodup_eraseDups
      rw [List.take_succ_cons, List.take_succ_cons]
      congr 1
      exact (take_filter_take id hnodup a n).symm

/-- A new event is moved to the front, where `remove` takes out the first occurrence. -/
theorem mostRecent_cons_eq_erase (n : ℕ) (a : α) (l : List α) :
  mostRecent n (a :: l) = (a :: (mostRecent n l).erase a).take n
  := by
  rw [mostRecent_cons, (nodup_mostRecent n l).erase_eq_filter]
  congr 2
  apply List.filter_congr
  intro b _
  by_cases h : b = a
  · simp [h]
  · simp [h]

/-- `while (list.size > n) list.removeAt(list.lastIndex)` -/
def cutTo {α : Type u} (n : ℕ) (l : List α) : List α :=
  if n < l.length then cutTo n l.dropLast else l
termination_by l.length
decreasing_by
  rw [List.length_dropLast]
  omega

/-- The loop keeps the first elements. -/
theorem cutTo_eq_take {α : Type u} (n : ℕ) (l : List α) :
  cutTo n l = l.take n
  := by
  induction hk : l.length using Nat.strong_induction_on generalizing l with
  | _ k ih =>
      rw [cutTo]
      split_ifs with hlt
      · have hshort : l.dropLast.length < k := by
          rw [List.length_dropLast]
          omega
        rw [ih _ hshort _ rfl, List.dropLast_eq_take, List.take_take]
        congr 1
        omega
      · rw [List.take_of_length_le (by omega)]

end Recency

/-! ### Sorting groups -/

section Regrouping

variable {α : Type u} {κ : Type*} {S : Type v} [DecidableEq κ] [LinearOrder S] (key : α → κ)
  (f : α → S)

/-- The elements of a list, those with the same key together, in the order of `groupBy`. -/
def regrouped (l : List α) : List α :=
  (l.map key).eraseDups.flatMap fun k => l.filter fun a => key a = k

omit [DecidableEq κ] in
/-- What is gathered for each key, restricted to some of the keys. -/
theorem filter_flatMap_keys (q : κ → Bool) (ks : List κ) {g : κ → List α}
    (hg : ∀ k ∈ ks, ∀ a ∈ g k, key a = k) :
  (ks.flatMap g).filter (fun a => q (key a)) = (ks.filter q).flatMap g
  := by
  induction ks with
  | nil => rfl
  | cons k ks ih =>
      have hk : ∀ a ∈ g k, key a = k := hg k List.mem_cons_self
      have hks := ih fun k' hk' => hg k' (List.mem_cons_of_mem k hk')
      rw [List.flatMap_cons, List.filter_append, hks]
      cases hq : q k with
      | true =>
          have hall : (g k).filter (fun a => q (key a)) = g k := by
            apply List.filter_eq_self.mpr
            intro a ha
            rw [hk a ha, hq]
          rw [hall, List.filter_cons_of_pos hq, List.flatMap_cons]
      | false =>
          have hnone : (g k).filter (fun a => q (key a)) = [] := by
            apply List.filter_eq_nil_iff.mpr
            intro a ha
            rw [hk a ha, hq]
            decide
          rw [hnone, List.nil_append, List.filter_cons_of_neg (by simp [hq])]

/-- What is gathered for one key. -/
theorem filter_flatMap_key {ks : List κ} (hks : ks.Nodup) {g : κ → List α}
    (hg : ∀ k ∈ ks, ∀ a ∈ g k, key a = k) {k : κ} (hk : k ∉ ks → g k = []) :
  (ks.flatMap g).filter (fun a => key a = k) = g k
  := by
  rw [filter_flatMap_keys key (fun k' => k' = k) ks hg]
  by_cases hmem : k ∈ ks
  · have hone : ks.filter (fun k' => k' = k) = [k] := by
      rw [List.filter_eq, List.count_eq_one_of_mem hks hmem, List.replicate_one]
    rw [hone, List.flatMap_singleton]
  · rw [List.filter_eq_nil_iff.mpr, hk hmem]
    · rfl
    · intro k' hk' heq
      apply hmem
      rwa [← of_decide_eq_true heq]

theorem filter_regrouped (k : κ) (l : List α) :
  (regrouped key l).filter (fun a => key a = k) = l.filter fun a => key a = k
  := by
  apply filter_flatMap_key key (nodup_eraseDups _)
  · intro k' _ a ha
    exact of_decide_eq_true (List.mem_filter.mp ha).2
  · intro hk
    apply List.filter_eq_nil_iff.mpr
    intro a ha heq
    apply hk
    rw [List.mem_eraseDups, ← of_decide_eq_true heq]
    apply List.mem_map_of_mem ha

/-- The elements with one of several keys. -/
theorem filter_filter_key {q : κ → Bool} {k : κ} (hk : q k = true) (l : List α) :
  (l.filter fun a => q (key a)).filter (fun a => key a = k) = l.filter fun a => key a = k
  := by
  rw [List.filter_filter]
  apply List.filter_congr
  intro a _
  by_cases ha : key a = k
  · simp [ha, hk]
  · simp [ha]

/-- Regrouping the elements with some of the keys. -/
theorem regrouped_filter (q : κ → Bool) (l : List α) :
  (regrouped key l).filter (fun a => q (key a)) = regrouped key (l.filter fun a => q (key a))
  := by
  have hkeys : (l.map key).filter q = (l.filter fun a => q (key a)).map key := List.filter_map
  rw [regrouped, filter_flatMap_keys key q, filter_eraseDups, hkeys, regrouped]
  · apply List.flatMap_congr
    intro k hk
    obtain ⟨a, ha, rfl⟩ := List.mem_map.mp (List.mem_eraseDups.mp hk)
    exact (filter_filter_key key (List.mem_filter.mp ha).2 l).symm
  · intro k _ a ha
    exact of_decide_eq_true (List.mem_filter.mp ha).2

/-- A sorted list is not changed. -/
theorem sortedByDescending_eq_self {l : List α} (hl : l.Pairwise fun a b => f b ≤ f a) :
  sortedByDescending f l = l
  := hl.insertionSort_eq

variable {key f}

/-- Sorting the regrouped elements of a sorted list keeps the order of the elements with a key. -/
theorem filter_sorted_regrouped {l : List α} (hl : l.Pairwise fun a b => f b ≤ f a) (k : κ) :
  (sortedByDescending f (regrouped key l)).filter (fun a => key a = k)
    = l.filter fun a => key a = k
  := by
  rw [filter_sortedByDescending, filter_regrouped]
  apply sortedByDescending_eq_self f (hl.sublist List.filter_sublist)

/-- The keys that are left when the first one is removed. -/
theorem eraseDups_map_cons (a : α) (l : List α) :
  ((a :: l).map key).eraseDups
    = key a :: ((l.filter fun b => key b ≠ key a).map key).eraseDups
  := by
  have hfilter : (l.map key).filter (fun k => !k == key a)
      = (l.filter fun b => key b ≠ key a).map key := by
    rw [List.filter_map]
    congr 1
    apply List.filter_congr
    intro b _
    by_cases hb : key b = key a
    · simp [hb]
    · simp [hb]
  rw [List.map_cons, List.eraseDups_cons, hfilter]

/-- The elements with the key of the first element come first. -/
theorem regrouped_cons (a : α) (l : List α) :
  regrouped key (a :: l) = a :: (l.filter (fun b => key b = key a)
    ++ regrouped key (l.filter fun b => key b ≠ key a))
  := by
  have hrest : ∀ k ∈ ((l.filter fun b => key b ≠ key a).map key).eraseDups,
      (a :: l).filter (fun b => key b = k)
        = (l.filter fun b => key b ≠ key a).filter fun b => key b = k := by
    intro k hk
    obtain ⟨b, hb, rfl⟩ := List.mem_map.mp (List.mem_eraseDups.mp hk)
    have hne : key b ≠ key a := of_decide_eq_true (List.mem_filter.mp hb).2
    rw [List.filter_cons_of_neg (by simpa using hne.symm), List.filter_filter]
    apply List.filter_congr
    intro c _
    by_cases hc : key c = key b
    · simp [hc, hne]
    · simp [hc]
  rw [regrouped, eraseDups_map_cons, List.flatMap_cons, List.filter_cons_of_pos (by simp),
    List.cons_append, List.flatMap_congr hrest]
  rfl

theorem mem_regrouped {l : List α} {a : α} (ha : a ∈ regrouped key l) :
  a ∈ l
  := by
  obtain ⟨k, -, hk⟩ := List.mem_flatMap.mp ha
  exact List.mem_of_mem_filter hk

/-- Regrouping keeps the elements. -/
theorem regrouped_perm (l : List α) :
  (regrouped key l).Perm l
  := by
  induction hn : l.length using Nat.strong_induction_on generalizing l with
  | _ n ih =>
      cases l with
      | nil => rfl
      | cons a l =>
          have hshort : (l.filter fun b => key b ≠ key a).length < n := by
            rw [← hn, List.length_cons]
            apply Nat.lt_succ_of_le (List.length_filter_le _ _)
          rw [regrouped_cons]
          apply List.Perm.cons
          apply ((ih _ hshort _ rfl).append_left _).trans
          simpa using List.filter_append_perm (fun b => decide (key b = key a)) l

/-- Sorting the regrouped elements of a sorted list keeps the order in which the keys occur
first. -/
theorem keys_sorted_regrouped {l : List α} (hl : l.Pairwise fun a b => f b ≤ f a) :
  ((sortedByDescending f (regrouped key l)).map key).eraseDups = (l.map key).eraseDups
  := by
  induction hn : l.length using Nat.strong_induction_on generalizing l with
  | _ n ih =>
      cases l with
      | nil => rfl
      | cons a l =>
          obtain ⟨ha, hl'⟩ := List.pairwise_cons.mp hl
          let others := l.filter fun b => key b ≠ key a
          let rest := l.filter (fun b => key b = key a) ++ regrouped key others
          have hfirst : sortedByDescending f (a :: rest) = a :: sortedByDescending f rest := by
            apply sortedByDescending_cons_of_le
            intro b hb
            obtain hb | hb := List.mem_append.mp hb
            · apply ha b (List.mem_of_mem_filter hb)
            · apply ha b (List.mem_of_mem_filter (mem_regrouped hb))
          have hothers : rest.filter (fun b => key b ≠ key a) = regrouped key others := by
            have hsame : (l.filter fun b => key b = key a).filter (fun b => key b ≠ key a) = [] := by
              apply List.filter_eq_nil_iff.mpr
              intro b hb
              simpa using (List.mem_filter.mp hb).2
            rw [List.filter_append, hsame, List.nil_append]
            apply List.filter_eq_self.mpr
            intro b hb
            exact (List.mem_filter.mp (mem_regrouped hb)).2
          have hshort : others.length < n := by
            rw [← hn, List.length_cons]
            apply Nat.lt_succ_of_le (List.length_filter_le _ _)
          rw [regrouped_cons, hfirst, eraseDups_map_cons, eraseDups_map_cons,
            filter_sortedByDescending, hothers]
          congr 1
          apply ih _ hshort (hl'.sublist List.filter_sublist) rfl

end Regrouping

/-! ### Linked sets -/

section LinkedSet

variable {α : Type u} [DecidableEq α]

/-- Add an element at the end, unless it is there. -/
def LinkedSet.add (s : List α) (a : α) : List α :=
  if a ∈ s then s else s ++ [a]

/-- Add the elements of a list, one after the other. -/
def LinkedSet.addAll (s l : List α) : List α :=
  l.foldl LinkedSet.add s

/-- A linked set has the first occurrences of what has been added. -/
theorem LinkedSet.addAll_eraseDups (l l' : List α) :
  LinkedSet.addAll l.eraseDups l' = (l ++ l').eraseDups
  := by
  induction l' generalizing l with
  | nil => rw [List.append_nil, addAll, List.foldl_nil]
  | cons a l' ih =>
      have hadd : LinkedSet.add l.eraseDups a = (l ++ [a]).eraseDups := by
        rw [add, List.eraseDups_append]
        split_ifs with ha
        · rw [List.mem_eraseDups] at ha
          simp [List.cons_removeAll, ha]
        · rw [List.mem_eraseDups] at ha
          simp [List.cons_removeAll, ha, List.eraseDups_cons]
      rw [List.append_cons, ← ih, ← hadd]
      rfl

end LinkedSet

/-! ### Linked maps -/

section LinkedMap

variable {κ : Type u} {α : Type v} [DecidableEq κ]

/-- A map as the list of its entries in the order of insertion. -/
abbrev LinkedMap (κ : Type u) (α : Type v) : Type (max u v) := List (κ × α)

namespace LinkedMap

/-- Whether a key has an entry. -/
def containsKey (m : LinkedMap κ α) (k : κ) : Bool :=
  m.any fun entry => entry.1 = k

/-- The values in the order of insertion. -/
def values (m : LinkedMap κ α) : List α :=
  m.map Prod.snd

/-- Add an entry at the end, unless the key already has one. -/
def putIfAbsent (m : LinkedMap κ α) (k : κ) (a : α) : LinkedMap κ α :=
  if m.containsKey k then m else m ++ [(k, a)]

/-- The values that are there stay, in front. -/
theorem prefix_values_putIfAbsent (m : LinkedMap κ α) (k : κ) (a : α) :
  m.values <+: (m.putIfAbsent k a).values
  := by
  rw [putIfAbsent]
  split_ifs
  · apply List.prefix_rfl
  · rw [values, values, List.map_append]
    apply List.prefix_append

/-- A value of the extended map is an old value or the added one. -/
theorem mem_values_putIfAbsent {m : LinkedMap κ α} {k : κ} {a b : α}
    (hb : b ∈ (m.putIfAbsent k a).values) :
  b ∈ m.values ∨ b = a
  := by
  simp only [putIfAbsent] at hb
  split at hb
  · apply Or.inl hb
  · simpa [values] using hb

end LinkedMap

end LinkedMap

/-! ### Insertions -/

/-- The last list has the elements of the first two, each in its order. -/
inductive Interleaves {α : Type*} : List α → List α → List α → Prop where
  | nil : Interleaves [] [] []
  | left (a : α) {l l' merged : List α} (h : Interleaves l l' merged) :
      Interleaves (a :: l) l' (a :: merged)
  | right (a : α) {l l' merged : List α} (h : Interleaves l l' merged) :
      Interleaves l (a :: l') (a :: merged)

/-- The elements of two lists are those of any interleaving of them. -/
theorem Interleaves.mem_iff {α : Type*} {l l' merged : List α} (h : Interleaves l l' merged) {a : α} :
  a ∈ merged ↔ a ∈ l ∨ a ∈ l'
  := by
  induction h with
  | nil => simp
  | left b h ih => rw [List.mem_cons, List.mem_cons, ih, or_assoc]
  | right b h ih => rw [List.mem_cons, List.mem_cons, ih, or_left_comm]

/-! ### The first best element -/

section FirstBest

variable {α : Type u} {S : Type v} [LinearOrder S]

/-- At the place `i` of the list is the element `a`, no other is better, and none before it is as
good. -/
structure FirstBest (f : α → S) (l : List α) (i : ℕ) (a : α) : Prop where
  here : l[i]? = some a
  le : ∀ (j : ℕ) (b : α), l[j]? = some b → f b ≤ f a
  lt : ∀ (j : ℕ) (b : α), l[j]? = some b → j < i → f b < f a

theorem FirstBest.unique {f : α → S} {l : List α} {i j : ℕ} {a b : α} (ha : FirstBest f l i a)
    (hb : FirstBest f l j b) :
  a = b
  := by
  obtain hlt | rfl | hlt := lt_trichotomy i j
  · exact absurd (hb.lt i a ha.here hlt) (not_lt.mpr (ha.le j b hb.here))
  · exact Option.some.inj (ha.here.symm.trans hb.here)
  · exact absurd (ha.lt j b hb.here hlt) (not_lt.mpr (hb.le i a ha.here))

/-- The first best element of a list whose elements are changed place by place, and not their
values. -/
theorem firstBest_map {β : Type*} {f : α → S} {f' : β → S} {g : ℕ → α → β}
    (hf : ∀ i a, f' (g i a) = f a) {l : List α} {l' : List β}
    (hl : ∀ i : ℕ, l'[i]? = l[i]?.map (g i)) {i : ℕ} {b : β} :
  FirstBest f' l' i b ↔ ∃ a, FirstBest f l i a ∧ b = g i a
  := by
  constructor
  · intro hb
    have hhere := hb.here
    rw [hl, Option.map_eq_some_iff] at hhere
    obtain ⟨a, ha, rfl⟩ := hhere
    refine ⟨a, ⟨ha, ?_, ?_⟩, rfl⟩
    · intro j c hc
      have hle := hb.le j (g j c) (by rw [hl, hc, Option.map_some])
      rwa [hf, hf] at hle
    · intro j c hc hj
      have hlt := hb.lt j (g j c) (by rw [hl, hc, Option.map_some]) hj
      rwa [hf, hf] at hlt
  · rintro ⟨a, ha, rfl⟩
    constructor
    · rw [hl, ha.here, Option.map_some]
    · intro j c hc
      rw [hl, Option.map_eq_some_iff] at hc
      obtain ⟨d, hd, rfl⟩ := hc
      rw [hf, hf]
      exact ha.le j d hd
    · intro j c hc hj
      rw [hl, Option.map_eq_some_iff] at hc
      obtain ⟨d, hd, rfl⟩ := hc
      rw [hf, hf]
      exact ha.lt j d hd hj

/-- What `argmax` finds is the first best element. -/
theorem mem_argmax_iff [DecidableEq α] {f : α → S} {l : List α} {a : α} :
  a ∈ l.argmax f ↔ ∃ i, FirstBest f l i a
  := by
  have hfirst : ∀ b ∈ l.argmax f, FirstBest f l (l.idxOf b) b := by
    intro b hb
    constructor
    · exact List.getElem?_idxOf (List.argmax_mem hb)
    · intro j c hc
      exact List.le_of_mem_argmax (List.mem_of_getElem? hc) hb
    · intro j c hc hj
      have hmem := List.mem_of_getElem? hc
      have htake : c ∈ l.take (j + 1) := by
        apply List.mem_of_getElem?
        rw [List.getElem?_take_of_lt (Nat.lt_succ_self j), hc]
      have hindex := (List.mem_take_iff_idxOf_lt hmem).mp htake
      by_contra hle
      have hearlier := List.index_of_argmax hb hmem (not_lt.mp hle)
      omega
  constructor
  · intro ha
    exact ⟨l.idxOf a, hfirst a ha⟩
  · rintro ⟨i, hi⟩
    cases hargmax : l.argmax f with
    | none =>
        rw [List.argmax_eq_none] at hargmax
        have hmem := List.mem_of_getElem? hi.here
        rw [hargmax] at hmem
        cases hmem
    | some b => exact congrArg some ((hfirst b hargmax).unique hi)

end FirstBest

end Collections
