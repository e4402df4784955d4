import Mathlib.Algebra.Order.Ring.Int
import Mathlib.Tactic.Linarith

/-!
# The checksum of the internet protocols

A byte string is read as a sequence of words of sixteen bits, the last one padded with zeros, and
the words are added in one's complement: the carries out of a sum are added to it, until there are
none.  The checksum is the complement of the sum of the other words, and a byte string with its
checksum has the sum `0xFFFF`.

Adding the carries changes a sum by multiples of `0xFFFF` and never makes it zero, so the sum is
`0xFFFF` exactly if the plain sum of the words is a positive multiple of `0xFFFF`.
-/

namespace OnesComplement

/-- The plain sum of the words. -/
def wordSum : List UInt8 → ℕ
  | [] => 0
  | [hi] => hi.toNat * 256
  | hi :: lo :: bytes => hi.toNat * 256 + lo.toNat + wordSum bytes

/-- The sum with its carries added, until there are none. -/
def fold (n : ℕ) : ℕ :=
  if n >>> 16 = 0 then n else fold ((n &&& 0xFFFF) + n >>> 16)
termination_by n
decreasing_by
  have hand : n &&& 0xFFFF = n % 65536 := Nat.and_two_pow_sub_one_eq_mod n 16
  omega

/-- The complement of a sum with its carries added. -/
def checksum (n : ℕ) : ℕ := 0xFFFF - fold n

/-- The sum of the words in one's complement is `0xFFFF`. -/
def Checks (bytes : List UInt8) : Prop := fold (wordSum bytes) = 0xFFFF

/-! ### Carries -/

theorem fold_of_lt {n : ℕ} (hn : n < 65536) :
  fold n = n
  := by
  rw [fold, if_pos]
  rw [Nat.shiftRight_eq_div_pow]
  omega

theorem fold_of_le {n : ℕ} (hn : 65536 ≤ n) :
  fold n = fold (n % 65536 + n / 65536)
  := by
  have hand : n &&& 0xFFFF = n % 65536 := Nat.and_two_pow_sub_one_eq_mod n 16
  have hshift : n >>> 16 = n / 65536 := Nat.shiftRight_eq_div_pow n 16
  have hne : n / 65536 ≠ 0 := by omega
  rw [fold, hshift, if_neg hne, hand]

theorem fold_lt (n : ℕ) :
  fold n < 65536
  := by
  induction n using Nat.strong_induction_on with
  | _ n ih =>
      by_cases hn : n < 65536
      · rwa [fold_of_lt hn]
      · rw [fold_of_le (by omega)]
        apply ih
        omega

/-- The carries are multiples of `0xFFFF`. -/
theorem fold_mod (n : ℕ) :
  fold n % 65535 = n % 65535
  := by
  induction n using Nat.strong_induction_on with
  | _ n ih =>
      by_cases hn : n < 65536
      · rw [fold_of_lt hn]
      · rw [fold_of_le (by omega), ih _ (by omega)]
        omega

theorem fold_pos {n : ℕ} (hn : 0 < n) :
  0 < fold n
  := by
  induction n using Nat.strong_induction_on with
  | _ n ih =>
      by_cases hlt : n < 65536
      · rwa [fold_of_lt hlt]
      · rw [fold_of_le (by omega)]
        apply ih <;> omega

/-- A sum is `0xFFFF` exactly if it is a positive multiple of it. -/
theorem fold_eq_iff {n : ℕ} :
  fold n = 0xFFFF ↔ 0 < n ∧ n % 65535 = 0
  := by
  have hmod := fold_mod n
  have hlt := fold_lt n
  constructor
  · intro h
    constructor
    · by_contra hzero
      obtain rfl : n = 0 := by omega
      rw [fold_of_lt (by omega)] at h
      omega
    · omega
  · rintro ⟨hpos, hdvd⟩
    have hfold := fold_pos hpos
    omega

/-! ### Checksums -/

theorem checksum_lt (n : ℕ) :
  checksum n < 65536
  := by
  rw [checksum]
  omega

/-- A sum with its checksum is `0xFFFF`. -/
theorem fold_add_checksum (n : ℕ) :
  fold (n + checksum n) = 0xFFFF
  := by
  have hmod := fold_mod n
  have hlt := fold_lt n
  rw [fold_eq_iff, checksum]
  constructor
  · by_contra hzero
    obtain rfl : n = 0 := by omega
    rw [fold_of_lt (by omega)] at hzero
    omega
  · omega

/-- Where the checksum is zero, `0xFFFF` may stand for it. -/
theorem fold_add_of_checksum_eq_zero {n : ℕ} (h : checksum n = 0) :
  fold (n + 0xFFFF) = 0xFFFF
  := by
  have hmod := fold_mod n
  have hlt := fold_lt n
  rw [checksum] at h
  rw [fold_eq_iff]
  omega

/-! ### Words -/

theorem wordSum_append {l : List UInt8} (hl : l.length % 2 = 0) (bytes : List UInt8) :
  wordSum (l ++ bytes) = wordSum l + wordSum bytes
  := by
  induction l using wordSum.induct with
  | case1 => rw [List.nil_append, wordSum, Nat.zero_add]
  | case2 hi => cases hl
  | case3 hi lo l ih =>
      have heven : l.length % 2 = 0 := by
        simp only [List.length_cons] at hl
        omega
      rw [List.cons_append, List.cons_append, wordSum, wordSum, ih heven]
      omega

/-- The two bytes of a word. -/
def wordBytes (v : ℕ) : List UInt8 :=
  [UInt8.ofNat (v >>> 8), UInt8.ofNat (v &&& 0xFF)]

theorem wordSum_wordBytes {v : ℕ} (hv : v < 65536) :
  wordSum (wordBytes v) = v
  := by
  have hshift : v >>> 8 = v / 256 := Nat.shiftRight_eq_div_pow v 8
  have hand : v &&& 0xFF = v % 256 := Nat.and_two_pow_sub_one_eq_mod v 8
  have hhi : (UInt8.ofNat (v >>> 8)).toNat = v / 256 := by
    rw [hshift]
    apply UInt8.toNat_ofNat_of_lt
    rw [UInt8.size]
    omega
  have hlo : (UInt8.ofNat (v &&& 0xFF)).toNat = v % 256 := by
    rw [hand]
    apply UInt8.toNat_ofNat_of_lt
    rw [UInt8.size]
    omega
  rw [wordBytes, wordSum, hhi, hlo, wordSum]
  omega

@[simp]
theorem length_wordBytes (v : ℕ) :
  (wordBytes v).length = 2
  := rfl

theorem wordSum_wordBytes_append {v : ℕ} (hv : v < 65536) (bytes : List UInt8) :
  wordSum (wordBytes v ++ bytes) = v + wordSum bytes
  := by
  rw [wordSum_append (by rw [length_wordBytes]), wordSum_wordBytes hv]

end OnesComplement
