import Mathlib.Algebra.Order.Field.Basic
import Mathlib.Data.Int.Cast.Lemmas
import Mathlib.Algebra.Order.Ring.Cast

/-!
# Rounded arithmetic

The laws of order of an arithmetic in which results are rounded to the nearest number that can
be represented.  Rounding is monotone and leaves what can be represented as it is, so that
adding is monotone, a number does not get smaller when something positive is added to it, a
product with a factor of at most one is not above the number, and small integers are added
without a loss.  Nothing is said about associativity or distributivity.

The finite floating-point numbers satisfy the laws, and so does every ordered field.
-/

universe u

/-- The laws of order of a rounded arithmetic. -/
class RoundedArithmetic (S : Type u) [LinearOrder S] [Zero S] [One S] [Add S] [Mul S]
    [IntCast S] : Prop where
  add_le_add_right : ∀ a b c : S, a ≤ b → a + c ≤ b + c
  le_add_of_nonneg : ∀ a c : S, 0 ≤ c → a ≤ a + c
  add_le_of_nonpos : ∀ a c : S, c ≤ 0 → a + c ≤ a
  mul_le_of_le_one : ∀ a f : S, 0 ≤ a → 0 ≤ f → f ≤ 1 → a * f ≤ a
  intCast_zero : ((0 : ℤ) : S) = 0
  intCast_le : ∀ m n : ℤ, m ≤ n → (m : S) ≤ (n : S)
  intCast_add : ∀ m n : ℤ, |m| ≤ 2 ^ 52 → |n| ≤ 2 ^ 52 → (m : S) + (n : S) = ((m + n : ℤ) : S)

namespace RoundedArithmetic

/-- An ordered field rounds nothing. -/
instance (S : Type u) [Field S] [LinearOrder S] [IsStrictOrderedRing S] : RoundedArithmetic S where
  add_le_add_right _ _ c h := add_le_add_left h c
  le_add_of_nonneg _ _ h := le_add_of_nonneg_right h
  add_le_of_nonpos _ _ h := add_le_of_nonpos_right h
  mul_le_of_le_one _ _ ha _ hf := mul_le_of_le_one_right ha hf
  intCast_zero := Int.cast_zero
  intCast_le _ _ h := Int.cast_le.mpr h
  intCast_add m n _ _ := (Int.cast_add m n).symm

variable {S : Type u} [LinearOrder S] [Zero S] [One S] [Add S] [Mul S] [IntCast S]
  [RoundedArithmetic S]

/-- Adding a small integer to a number that is at most a small integer. -/
theorem add_intCast_le {a : S} {m n k : ℤ} (ha : a ≤ (m : S)) (hm : |m| ≤ 2 ^ 52)
    (hn : |n| ≤ 2 ^ 52) (hk : m + n ≤ k) :
  a + (n : S) ≤ (k : S)
  := by
  apply (add_le_add_right a m n ha).trans
  rw [intCast_add m n hm hn]
  apply intCast_le _ _ hk

/-- Adding a positive integer does not make a number smaller. -/
theorem le_add_intCast {a : S} {n : ℤ} (hn : 0 ≤ n) :
  a ≤ a + (n : S)
  := by
  apply le_add_of_nonneg
  rw [← intCast_zero]
  apply intCast_le _ _ hn

/-- Adding a negative integer does not make a number larger. -/
theorem add_intCast_le_self {a : S} {n : ℤ} (hn : n ≤ 0) :
  a + (n : S) ≤ a
  := by
  apply add_le_of_nonpos
  rw [← intCast_zero]
  apply intCast_le _ _ hn

end RoundedArithmetic
