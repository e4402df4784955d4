import Mathlib.Algebra.Order.Ring.Int
import Mathlib.Data.List.Infix

/-!
# Numerals

The digits of a number in a base of at most sixteen determine it, and a numeral is the beginning of
another one exactly if the number is what is left of the other one without its last digits.
-/

namespace Numeral

variable {b : ℕ}

/-- The sixteen digits are different. -/
theorem digitChar_inj {m n : ℕ} (hm : m < 16) (hn : n < 16)
    (h : m.digitChar = n.digitChar) :
  m = n
  := by
  have hall : ∀ i j : Fin 16, i.val.digitChar = j.val.digitChar → i = j := by decide
  exact Fin.val_eq_of_eq (hall ⟨m, hm⟩ ⟨n, hn⟩ h)

/-- A numeral with at least two digits, and its last digit. -/
theorem toDigits_eq_append (hb : 1 < b) {n : ℕ} (hn : b ≤ n) :
  Nat.toDigits b n = Nat.toDigits b (n / b) ++ [(n % b).digitChar]
  := Nat.toDigits_of_base_le hb hn

/-- Every character of a numeral is a digit. -/
theorem exists_digitChar_of_mem (hb : 1 < b) {n : ℕ} {c : Char} (hc : c ∈ Nat.toDigits b n) :
  ∃ d < b, c = d.digitChar
  := by
  induction n using Nat.strong_induction_on with
  | _ n ih =>
      by_cases hn : n < b
      · rw [Nat.toDigits_of_lt_base hn, List.mem_singleton] at hc
        exact ⟨n, hn, hc⟩
      · rw [toDigits_eq_append hb (Nat.le_of_not_lt hn), List.mem_append, List.mem_singleton] at hc
        obtain hc | rfl := hc
        · exact ih (n / b) (Nat.div_lt_self (by omega) hb) hc
        · exact ⟨n % b, Nat.mod_lt _ (by omega), rfl⟩

/-- The digits of a number determine it. -/
theorem toDigits_inj (hb : 1 < b) (hb16 : b ≤ 16) {m n : ℕ}
    (h : Nat.toDigits b m = Nat.toDigits b n) :
  m = n
  := by
  induction m using Nat.strong_induction_on generalizing n with
  | _ m ih =>
      have hpos (k : ℕ) : 0 < (Nat.toDigits b k).length := Nat.length_toDigits_pos
      by_cases hm : m < b
      · by_cases hn : n < b
        · rw [Nat.toDigits_of_lt_base hm, Nat.toDigits_of_lt_base hn, List.singleton_inj] at h
          exact digitChar_inj (by omega) (by omega) h
        · rw [Nat.toDigits_of_lt_base hm, toDigits_eq_append hb (Nat.le_of_not_lt hn)] at h
          have hlen := congrArg List.length h
          have hfront := hpos (n / b)
          simp only [List.length_append, List.length_singleton] at hlen
          omega
      · by_cases hn : n < b
        · rw [Nat.toDigits_of_lt_base hn, toDigits_eq_append hb (Nat.le_of_not_lt hm)] at h
          have hlen := congrArg List.length h
          have hfront := hpos (m / b)
          simp only [List.length_append, List.length_singleton] at hlen
          omega
        · rw [toDigits_eq_append hb (Nat.le_of_not_lt hm),
            toDigits_eq_append hb (Nat.le_of_not_lt hn)] at h
          obtain ⟨hfront, hlast⟩ := List.append_inj' h rfl
          have hdiv := ih (m / b) (Nat.div_lt_self (by omega) hb) hfront
          have hmod := digitChar_inj (Nat.lt_of_lt_of_le (Nat.mod_lt m (by omega)) hb16)
            (Nat.lt_of_lt_of_le (Nat.mod_lt n (by omega)) hb16) (List.singleton_inj.mp hlast)
          rw [← Nat.div_add_mod m b, ← Nat.div_add_mod n b, hdiv, hmod]

/-- A numeral begins with another one if that is what is left without the last digits. -/
theorem toDigits_isPrefix_iff (hb : 1 < b) (hb16 : b ≤ 16) {m n : ℕ} (hm : 0 < m) :
  Nat.toDigits b m <+: Nat.toDigits b n ↔ ∃ k, n / b ^ k = m
  := by
  induction n using Nat.strong_induction_on with
  | _ n ih =>
      by_cases hn : n < b
      · constructor
        · intro h
          rw [Nat.toDigits_of_lt_base hn, ← List.nil_append [n.digitChar], List.prefix_concat_iff,
            List.nil_append, ← Nat.toDigits_of_lt_base hn, List.prefix_nil] at h
          obtain heq | hnil := h
          · use 0
            rw [pow_zero, Nat.div_one, toDigits_inj hb hb16 heq]
          · exact absurd hnil Nat.toDigits_ne_nil
        · rintro ⟨k, rfl⟩
          cases k with
          | zero => rw [pow_zero, Nat.div_one]
          | succ k =>
              rw [pow_succ', ← Nat.div_div_eq_div_mul, Nat.div_eq_of_lt hn, Nat.zero_div] at hm
              omega
      · have hlt : n / b < n := Nat.div_lt_self (by omega) hb
        rw [toDigits_eq_append hb (Nat.le_of_not_lt hn), List.prefix_concat_iff,
          ← toDigits_eq_append hb (Nat.le_of_not_lt hn), ih (n / b) hlt]
        constructor
        · rintro (heq | ⟨k, hk⟩)
          · use 0
            rw [pow_zero, Nat.div_one, toDigits_inj hb hb16 heq]
          · use k + 1
            rw [pow_succ', ← Nat.div_div_eq_div_mul, hk]
        · rintro ⟨k, hk⟩
          cases k with
          | zero =>
              left
              rw [← hk, pow_zero, Nat.div_one]
          | succ k =>
              right
              use k
              rw [← hk, pow_succ', Nat.div_div_eq_div_mul]

end Numeral
