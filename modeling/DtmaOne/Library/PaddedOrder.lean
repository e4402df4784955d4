import Mathlib.Data.Nat.Find
import Mathlib.Order.PiLex

/-!
# Lists compared with padding

Two lists of different lengths are compared entry by entry, where the missing entries of the
shorter one count as a fixed value: as the sequences that the lists begin and the value goes on
with, in the lexicographic order.

* The comparison is decided at the first entry at which the sequences differ.
* Where the entries are replaced by their images under a function, the order is the same exactly
  if the images first differ in the same direction.
-/

namespace PaddedOrder

variable {α β : Type}

/-- The list, continued with `z`. -/
def padded (z : α) (xs : List α) : Lex (ℕ → α) :=
  toLex fun i => xs.getD i z

@[simp]
theorem padded_zero (z : α) (xs : List α) :
  padded z xs 0 = xs.headD z
  := by
  cases xs <;> rfl

@[simp]
theorem padded_succ (z : α) (xs : List α) (i : ℕ) :
  padded z xs (i + 1) = padded z xs.tail i
  := by
  cases xs <;> rfl

/-- The empty list is as long as any list of the padding. -/
theorem padded_nil (z : α) :
  padded z [] = padded z [z]
  := by
  funext i
  cases i with
  | zero => rfl
  | succ i => rfl

/-- The first position at which two sequences differ. -/
def FirstDifference (x y : Lex (ℕ → α)) (i : ℕ) : Prop :=
  (∀ j, j < i → x j = y j) ∧ x i ≠ y i

theorem FirstDifference.symm {x y : Lex (ℕ → α)} {i : ℕ} (h : FirstDifference x y i) :
  FirstDifference y x i
  := ⟨fun j hj => (h.1 j hj).symm, h.2.symm⟩

theorem exists_firstDifference {x y : Lex (ℕ → α)} (h : x ≠ y) :
  ∃ i, FirstDifference x y i
  := by
  classical
  have hne : ∃ i, x i ≠ y i := Function.ne_iff.mp h
  use Nat.find hne
  refine ⟨?_, Nat.find_spec hne⟩
  intro j hj
  exact not_not.mp (Nat.find_min hne hj)

variable [LinearOrder α] [LinearOrder β]

/-- Two sequences are compared at the first position at which they differ. -/
theorem lt_iff_of_firstDifference {x y : Lex (ℕ → α)} {i : ℕ} (h : FirstDifference x y i) :
  x < y ↔ x i < y i
  := by
  constructor
  · rintro ⟨k, hk, hlt⟩
    obtain hki | rfl | hik := lt_trichotomy k i
    · exact absurd (h.1 k hki) hlt.ne
    · apply hlt
    · exact absurd (hk i hik) h.2
  · intro hlt
    exact ⟨i, h.1, hlt⟩

/-- Lists are compared at their heads, and at their tails if the heads are equal. -/
theorem padded_lt_iff (z : α) (xs ys : List α) :
  padded z xs < padded z ys ↔ xs.headD z < ys.headD z ∨
    xs.headD z = ys.headD z ∧ padded z xs.tail < padded z ys.tail
  := by
  constructor
  · rintro ⟨i, hi, hlt⟩
    cases i with
    | zero =>
        left
        simpa using hlt
    | succ i =>
        right
        constructor
        · simpa using hi 0 (Nat.succ_pos i)
        · refine ⟨i, ?_, by simpa using hlt⟩
          intro j hj
          simpa using hi (j + 1) (Nat.succ_lt_succ hj)
  · rintro (hlt | ⟨heq, i, hi, hlt⟩)
    · refine ⟨0, ?_, by simpa using hlt⟩
      intro j hj
      exact absurd hj (Nat.not_lt_zero j)
    · refine ⟨i + 1, ?_, by simpa using hlt⟩
      intro j hj
      cases j with
      | zero => simpa using heq
      | succ j => simpa using hi j (Nat.lt_of_succ_lt_succ hj)

/-- Lists with different heads are compared at them. -/
theorem padded_cons_lt_cons_of_ne {z x y : α} {xs ys : List α} (h : x ≠ y) :
  padded z (x :: xs) < padded z (y :: ys) ↔ x < y
  := by
  rw [padded_lt_iff, List.headD_cons, List.headD_cons]
  simp only [h, false_and, or_false]

/-- Lists with equal heads are compared at their tails. -/
theorem padded_cons_lt_cons (z x : α) (xs ys : List α) :
  padded z (x :: xs) < padded z (x :: ys) ↔ padded z xs < padded z ys
  := by
  rw [padded_lt_iff]
  simp only [lt_irrefl, false_or, true_and, List.headD_cons, List.tail_cons]

/-- The order of `u` and `v` is the one of `x` and `y`. -/
def SameOrder (x y : Lex (ℕ → α)) (u v : Lex (ℕ → β)) : Prop :=
  (x < y ↔ u < v) ∧ (y < x ↔ v < u)

/-- Sequences whose entries are replaced keep their order exactly if the replacements first differ
in the same direction. -/
theorem sameOrder_iff {x y : Lex (ℕ → α)} {u v : Lex (ℕ → β)}
    (hreplace : ∀ i, x i = y i → u i = v i) :
  SameOrder x y u v ↔ ∀ i, FirstDifference x y i →
    ∃ k, i ≤ k ∧ FirstDifference u v k ∧ (u k < v k ↔ x i < y i)
  := by
  constructor
  · rintro ⟨hlt, hgt⟩ i hi
    have hne : u ≠ v := by
      rintro rfl
      have hself : ¬ u < u := lt_irrefl u
      apply hi.2
      apply le_antisymm
      · rw [← not_lt, ← lt_iff_of_firstDifference hi.symm, hgt]
        apply hself
      · rw [← not_lt, ← lt_iff_of_firstDifference hi, hlt]
        apply hself
    obtain ⟨k, hk⟩ := exists_firstDifference hne
    refine ⟨k, ?_, hk, ?_⟩
    · by_contra hki
      apply hk.2 (hreplace k (hi.1 k (not_le.mp hki)))
    · rw [← lt_iff_of_firstDifference hk, ← lt_iff_of_firstDifference hi, hlt]
  · intro h
    by_cases hxy : x = y
    · subst hxy
      obtain rfl : u = v := funext fun i => hreplace i rfl
      have hx : ¬ x < x := lt_irrefl x
      have hu : ¬ u < u := lt_irrefl u
      exact ⟨iff_of_false hx hu, iff_of_false hx hu⟩
    · obtain ⟨i, hi⟩ := exists_firstDifference hxy
      obtain ⟨k, -, hk, hdirection⟩ := h i hi
      have hswap : v k < u k ↔ y i < x i := by
        rw [lt_iff_le_and_ne, lt_iff_le_and_ne, ← not_lt, ← not_lt, hdirection]
        simp [hi.2.symm, hk.2.symm]
      rw [SameOrder, lt_iff_of_firstDifference hi, lt_iff_of_firstDifference hk,
        lt_iff_of_firstDifference hi.symm, lt_iff_of_firstDifference hk.symm, hdirection, hswap]
      exact ⟨Iff.rfl, Iff.rfl⟩

end PaddedOrder
