import Mathlib.Data.List.Nodup

/-!
# Base64

The encoding of byte strings by the characters of an alphabet of 64: three bytes become four
characters, and what is left at the end is padded on demand.  With padding the encoding can be
undone, so that different byte strings have different encodings.
-/

namespace Base64

/-- An alphabet of 64 characters, without the padding character. -/
structure Alphabet where
  chars : List Char
  length : chars.length = 64
  nodup : chars.Nodup
  noPadding : '=' ∉ chars

/-- The default alphabet. -/
def standard : Alphabet where
  chars := "ABCDEFGHIJKLMNOPQRSTUVWXYZabcdefghijklmnopqrstuvwxyz0123456789+/".toList
  length := by decide +kernel
  nodup := by decide +kernel
  noPadding := by decide +kernel

/-- The alphabet of `URL_SAFE`. -/
def urlSafe : Alphabet where
  chars := "ABCDEFGHIJKLMNOPQRSTUVWXYZabcdefghijklmnopqrstuvwxyz0123456789-_".toList
  length := by decide +kernel
  nodup := by decide +kernel
  noPadding := by decide +kernel

namespace Alphabet

variable (A : Alphabet)

/-- The character of a value below 64. -/
def digit (n : ℕ) : Char :=
  A.chars.get ⟨n % 64, by rw [A.length]; exact Nat.mod_lt n (by decide)⟩

/-- The value of a character. -/
def value (c : Char) : ℕ :=
  A.chars.idxOf c

theorem value_digit {n : ℕ} (hn : n < 64) :
  A.value (A.digit n) = n
  := by
  calc A.value (A.digit n) = n % 64 := A.nodup.idxOf_getElem _ _
    _ = n := Nat.mod_eq_of_lt hn

theorem digit_ne_padding (n : ℕ) :
  A.digit n ≠ '='
  := by
  intro heq
  apply A.noPadding
  rw [← heq]
  apply List.get_mem

end Alphabet

/-- The characters of a byte string; `padded` is off for `NO_PADDING`. -/
def encode (A : Alphabet) (padded : Bool) : List UInt8 → List Char
  | a :: b :: c :: rest =>
      A.digit (a.toNat / 4) :: A.digit (a.toNat % 4 * 16 + b.toNat / 16) ::
        A.digit (b.toNat % 16 * 4 + c.toNat / 64) :: A.digit (c.toNat % 64) ::
        encode A padded rest
  | [a, b] =>
      A.digit (a.toNat / 4) :: A.digit (a.toNat % 4 * 16 + b.toNat / 16) ::
        A.digit (b.toNat % 16 * 4) :: (if padded then ['='] else [])
  | [a] =>
      A.digit (a.toNat / 4) :: A.digit (a.toNat % 4 * 16) ::
        (if padded then ['=', '='] else [])
  | [] => []

/-- The byte string of padded characters. -/
def decode (A : Alphabet) : List Char → List UInt8
  | c0 :: c1 :: c2 :: c3 :: rest =>
      let a := UInt8.ofNat (A.value c0 * 4 + A.value c1 / 16)
      let b := UInt8.ofNat (A.value c1 % 16 * 16 + A.value c2 / 4)
      let c := UInt8.ofNat (A.value c2 % 4 * 64 + A.value c3)
      if c2 = '=' then [a] else if c3 = '=' then [a, b] else a :: b :: c :: decode A rest
  | _ => []

theorem ofNat_eq {a : UInt8} {n : ℕ} (hn : n = a.toNat) :
  UInt8.ofNat n = a
  := by
  rw [hn, UInt8.ofNat_toNat]

/-- A byte string is decoded from its padded encoding. -/
theorem decode_encode (A : Alphabet) (l : List UInt8) :
  decode A (encode A true l) = l
  := by
  induction l using encode.induct with
  | case1 a b c rest ih =>
      have ha := a.toNat_lt
      have hb := b.toNat_lt
      have hc := c.toNat_lt
      rw [encode, decode, if_neg (A.digit_ne_padding _), if_neg (A.digit_ne_padding _), ih,
        A.value_digit (by omega), A.value_digit (by omega), A.value_digit (by omega),
        A.value_digit (by omega), ofNat_eq (a := a) (by omega), ofNat_eq (a := b) (by omega),
        ofNat_eq (a := c) (by omega)]
  | case2 a b =>
      have ha := a.toNat_lt
      have hb := b.toNat_lt
      rw [encode, if_pos rfl, decode, if_neg (A.digit_ne_padding _), if_pos rfl,
        A.value_digit (by omega), A.value_digit (by omega), A.value_digit (by omega),
        ofNat_eq (a := a) (by omega), ofNat_eq (a := b) (by omega)]
  | case3 a =>
      have ha := a.toNat_lt
      rw [encode, if_pos rfl, decode, if_pos rfl, A.value_digit (by omega),
        A.value_digit (by omega), ofNat_eq (a := a) (by omega)]
  | case4 => rfl

/-- Different byte strings have different padded encodings. -/
theorem encode_injective (A : Alphabet) :
  Function.Injective (encode A true)
  := Function.LeftInverse.injective (decode_encode A)

end Base64
