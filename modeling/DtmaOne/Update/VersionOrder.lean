import DtmaOne.Library.PaddedOrder
import DtmaOne.Update.Notifier
import Mathlib.Data.Int.ConditionallyCompleteOrder
import Mathlib.Order.ConditionallyCompleteLattice.Basic

/-!
# The order of versions

`VersionCompare.compare` compares the lists of numbers that `parse` reads, with zeros for the
missing ones.

* On all strings it is a total preorder, and it does not see whether a string has been normalised:
  what normalising a second time removes is white space at the end, which `parse` does not read.
* For versions made of numerals it gives the order of the numbers they denote, as long as these are
  below 2 ^ 31.  From there on a numeral is read as zero, and the order is kept only if what
  follows happens to differ in the same direction.
-/

namespace Update

open PaddedOrder

namespace VersionCompare

/-- The sign of `VersionCompare.compare`. -/
def compare (a b : String) : Ordering :=
  compareParts (parse a) (parse b)

theorem isNewer_eq (remote localName : String) :
  isNewer remote localName = (compare remote localName == .gt)
  := by
  rw [isNewer, compare]
  cases compareParts (parse remote) (parse localName) <;> rfl

/-! ### The loop -/

/-- The loop compares the lists padded with zeros. -/
theorem compareParts_eq (xs ys : List ℤ) :
  (compareParts xs ys = .lt ↔ padded 0 xs < padded 0 ys) ∧
    (compareParts xs ys = .gt ↔ padded 0 ys < padded 0 xs)
  := by
  fun_induction compareParts xs ys with
  | case1 =>
      have hself : ¬ padded (0 : ℤ) [] < padded 0 [] := lt_irrefl _
      simp [hself]
  | case2 x xs hx =>
      rw [padded_nil, padded_cons_lt_cons_of_ne hx, padded_cons_lt_cons_of_ne hx.symm]
      exact ⟨compare_lt_iff_lt, compare_gt_iff_gt⟩
  | case3 x xs hx ih =>
      obtain rfl := not_not.mp hx
      rw [padded_nil, padded_cons_lt_cons, padded_cons_lt_cons]
      apply ih
  | case4 y ys hy =>
      rw [padded_nil, padded_cons_lt_cons_of_ne hy, padded_cons_lt_cons_of_ne hy.symm]
      exact ⟨compare_lt_iff_lt, compare_gt_iff_gt⟩
  | case5 y ys hy ih =>
      obtain rfl := not_not.mp hy
      rw [padded_nil, padded_cons_lt_cons, padded_cons_lt_cons]
      apply ih
  | case6 x xs y ys hxy =>
      rw [padded_cons_lt_cons_of_ne hxy, padded_cons_lt_cons_of_ne hxy.symm]
      exact ⟨compare_lt_iff_lt, compare_gt_iff_gt⟩
  | case7 x xs y ys hxy ih =>
      obtain rfl := not_not.mp hxy
      rw [padded_cons_lt_cons, padded_cons_lt_cons]
      apply ih

theorem compare_eq_lt (a b : String) :
  compare a b = .lt ↔ padded 0 (parse a) < padded 0 (parse b)
  := (compareParts_eq (parse a) (parse b)).1

theorem compare_eq_gt (a b : String) :
  compare a b = .gt ↔ padded 0 (parse b) < padded 0 (parse a)
  := (compareParts_eq (parse a) (parse b)).2

theorem compare_isLE (a b : String) :
  (compare a b).isLE = true ↔ padded 0 (parse a) ≤ padded 0 (parse b)
  := by
  have hle : ¬ compare a b = .gt ↔ padded 0 (parse a) ≤ padded 0 (parse b) := by
    rw [compare_eq_gt]
    exact not_lt
  rw [← hle]
  cases compare a b <;> decide

/-- Equal sequences are compared as equal. -/
theorem compare_of_eq {a b : String} (h : padded 0 (parse a) = padded 0 (parse b)) :
  compare a b = .eq
  := by
  have hself : ¬ padded 0 (parse b) < padded 0 (parse b) := lt_irrefl _
  cases hc : compare a b with
  | lt =>
      rw [compare_eq_lt, h] at hc
      exact absurd hc hself
  | eq => rfl
  | gt =>
      rw [compare_eq_gt, h] at hc
      exact absurd hc hself

theorem compare_swap (a b : String) :
  compare a b = (compare b a).swap
  := by
  obtain hlt | heq | hgt := lt_trichotomy (padded 0 (parse a)) (padded 0 (parse b))
  · rw [(compare_eq_lt a b).mpr hlt, (compare_eq_gt b a).mpr hlt]
    rfl
  · rw [compare_of_eq heq, compare_of_eq heq.symm]
    rfl
  · rw [(compare_eq_gt a b).mpr hgt, (compare_eq_lt b a).mpr hgt]
    rfl

theorem compare_trans {a b c : String} (hab : (compare a b).isLE = true)
    (hbc : (compare b c).isLE = true) :
  (compare a c).isLE = true
  := by
  rw [compare_isLE] at *
  apply le_trans hab hbc

/-! ### Normalisation -/

/-- The characters before a suffix. -/
def beforeSuffix (cs : List Char) : List Char :=
  (cs.takeWhile (· ≠ '-')).takeWhile (· ≠ '+')

/-- The number read of a part. -/
def readPart (part : List Char) : ℤ :=
  (Text.toIntOrNull (String.ofList (part.takeWhile isDigit))).getD 0

theorem toList_normalize (raw : String) :
  (normalize raw).toList = beforeSuffix (withoutV (Text.trim raw).toList)
  := by
  simp only [normalize, Text.substringBefore, String.toList_ofList, beforeSuffix]

theorem parse_eq (raw : String) :
  parse raw = ((normalize raw).toList.splitOn '.').map readPart
  := by
  rw [parse, Text.split, List.map_map]
  apply List.map_congr_left
  intro part _
  rw [Function.comp_apply, String.toList_ofList, readPart]

/-- The start of what is left after a leading `v` has no leading `v` to drop. -/
theorem withoutV_of_isPrefix {cs start : List Char} (h : start <+: withoutV cs) :
  withoutV start = start
  := by
  obtain ⟨rest, hrest⟩ := h
  unfold withoutV
  split
  case h_1 v d ds =>
    apply if_neg
    rintro ⟨hv, hd⟩
    have hdigit : isDigit v = false := by
      obtain rfl | rfl := hv <;> decide
    rw [List.cons_append, List.cons_append] at hrest
    unfold withoutV at hrest
    split at hrest
    case h_1 v' d' ds' =>
      split_ifs at hrest with hboth
      · rw [List.cons.injEq] at hrest
        rw [← hrest.1, hdigit] at hboth
        cases hboth.2
      · rw [List.cons.injEq, List.cons.injEq] at hrest
        rw [← hrest.1, ← hrest.2.1] at hboth
        exact hboth ⟨hv, hd⟩
    case h_2 hnot => exact absurd hrest.symm (hnot v d (ds ++ rest))
  case h_2 => rfl

theorem not_isWhitespace_of_isDigit {c : Char} (hc : isDigit c = true) :
  Text.isWhitespace c = false
  := by
  rw [Bool.eq_false_iff]
  intro hblank
  rw [isDigit, Text.digit_of_isWhitespace hblank] at hc
  cases hc

/-- What is left after a leading `v` does not start with white space. -/
theorem not_isWhitespace_head_withoutV {cs : List Char}
    (h : ∀ c, cs.head? = some c → Text.isWhitespace c = false) {c : Char}
    (hc : (withoutV cs).head? = some c) :
  Text.isWhitespace c = false
  := by
  unfold withoutV at hc
  split at hc
  case h_1 v d ds =>
    split_ifs at hc with hv
    · obtain rfl := Option.some.inj hc
      apply not_isWhitespace_of_isDigit hv.2
    · apply h c hc
  case h_2 => apply h c hc

theorem beforeSuffix_isPrefix (cs : List Char) :
  beforeSuffix cs <+: cs
  := (List.takeWhile_prefix _).trans (List.takeWhile_prefix _)

/-- The start of what stands before a suffix has no suffix. -/
theorem beforeSuffix_of_isPrefix {cs start : List Char} (h : start <+: beforeSuffix cs) :
  beforeSuffix start = start
  := by
  have hplus : start.takeWhile (· ≠ '+') = start := by
    apply List.takeWhile_eq_self_iff.mpr
    intro c hc
    apply List.mem_takeWhile_imp (h.subset hc)
  have hminus : start.takeWhile (· ≠ '-') = start := by
    apply List.takeWhile_eq_self_iff.mpr
    intro c hc
    apply List.mem_takeWhile_imp ((List.takeWhile_prefix _).subset (h.subset hc))
  rw [beforeSuffix, hminus, hplus]

/-- White space at the end of a part is not read. -/
theorem readPart_append_space (part : List Char) {space : List Char}
    (hspace : ∀ c ∈ space, Text.isWhitespace c = true) :
  readPart (part ++ space) = readPart part
  := by
  have hnil : space.takeWhile isDigit = [] := by
    cases space with
    | nil => rfl
    | cons c space =>
        have hc : isDigit c = false := by
          rw [isDigit, Text.digit_of_isWhitespace (hspace c List.mem_cons_self)]
          rfl
        rw [List.takeWhile_cons, if_neg (by simp [hc])]
  have hread : (part ++ space).takeWhile isDigit = part.takeWhile isDigit := by
    rw [List.takeWhile_append]
    split
    case isTrue hall =>
      have hself : part.takeWhile isDigit = part := (List.takeWhile_prefix _).eq_of_length hall
      rw [hnil, List.append_nil, hself]
    case isFalse => rfl
  rw [readPart, hread, readPart]

/-- White space at the end is no suffix. -/
theorem beforeSuffix_append_space (cs : List Char) {space : List Char}
    (hspace : ∀ c ∈ space, Text.isWhitespace c = true) :
  ∃ space', beforeSuffix (cs ++ space) = beforeSuffix cs ++ space' ∧
    ∀ c ∈ space', Text.isWhitespace c = true
  := by
  have hcut : ∀ d, Text.isWhitespace d = false → ∀ cs : List Char,
      (cs ++ space).takeWhile (· ≠ d) = cs.takeWhile (· ≠ d) ++ space ∨
        (cs ++ space).takeWhile (· ≠ d) = cs.takeWhile (· ≠ d) := by
    intro d hd cs
    have hall : space.takeWhile (· ≠ d) = space := by
      apply List.takeWhile_eq_self_iff.mpr
      intro c hc
      rw [decide_eq_true_iff]
      rintro rfl
      rw [hspace c hc] at hd
      cases hd
    rw [List.takeWhile_append]
    split
    case isTrue hlen =>
      left
      rw [(List.takeWhile_prefix _).eq_of_length hlen, hall]
    case isFalse =>
      right
      rfl
  obtain hminus | hminus := hcut '-' rfl cs
  · obtain hplus | hplus := hcut '+' rfl (cs.takeWhile (· ≠ '-'))
    · use space
      rw [beforeSuffix, hminus, hplus]
      exact ⟨rfl, hspace⟩
    · use []
      rw [beforeSuffix, hminus, hplus, List.append_nil]
      exact ⟨rfl, List.forall_mem_nil _⟩
  · use []
    rw [beforeSuffix, hminus, List.append_nil]
    exact ⟨rfl, List.forall_mem_nil _⟩

/-- White space at the end has no influence on a leading `v`. -/
theorem withoutV_append_space (cs : List Char) {space : List Char}
    (hspace : ∀ c ∈ space, Text.isWhitespace c = true) :
  withoutV (cs ++ space) = withoutV cs ++ space
  := by
  have hdigit : ∀ c ∈ space, isDigit c = false := by
    intro c hc
    rw [isDigit, Text.digit_of_isWhitespace (hspace c hc)]
    rfl
  rcases cs with _ | ⟨v, _ | ⟨d, cs⟩⟩
  · rcases space with _ | ⟨c, _ | ⟨c', space⟩⟩
    · rfl
    · rfl
    · apply if_neg
      rw [hdigit c' (List.mem_cons_of_mem c List.mem_cons_self)]
      rintro ⟨-, hfalse⟩
      cases hfalse
  · rcases space with _ | ⟨c, space⟩
    · rfl
    · apply if_neg
      rw [hdigit c List.mem_cons_self]
      rintro ⟨-, hfalse⟩
      cases hfalse
  · rw [List.cons_append, List.cons_append, withoutV, withoutV]
    split_ifs <;> rfl

/-- The numbers of a version that does not start with white space are read without trimming it. -/
theorem parse_of_head {s : String}
    (hs : ∀ c, s.toList.head? = some c → Text.isWhitespace c = false) :
  parse s = ((beforeSuffix (withoutV s.toList)).splitOn '.').map readPart
  := by
  obtain ⟨space, hspace, hblank⟩ := Text.exists_eq_trim_append hs
  obtain ⟨space', hspace', hblank'⟩ :=
    beforeSuffix_append_space (withoutV (Text.trim s).toList) hblank
  have hdot : '.' ∉ space' := by
    intro hmem
    cases hblank' '.' hmem
  obtain ⟨parts, part, hwithout, hwith⟩ :=
    Text.splitOn_append_of_not_mem hdot (beforeSuffix (withoutV (Text.trim s).toList))
  rw [parse_eq, toList_normalize, hspace, withoutV_append_space _ hblank, hspace', hwithout, hwith,
    List.map_append, List.map_append, List.map_singleton, List.map_singleton,
    readPart_append_space part hblank']

/-- A normalised version does not start with white space. -/
theorem not_isWhitespace_head_normalize {raw : String} {c : Char}
    (hc : (normalize raw).toList.head? = some c) :
  Text.isWhitespace c = false
  := by
  apply not_isWhitespace_head_withoutV (fun _ => Text.not_isWhitespace_head_trim)
  rw [toList_normalize] at hc
  obtain ⟨t, ht⟩ := List.head?_eq_some_iff.mp hc
  obtain ⟨rest, hrest⟩ := beforeSuffix_isPrefix (withoutV (Text.trim raw).toList)
  rw [← hrest, ht]
  rfl

/-- The numbers of a version do not depend on its normalisation. -/
theorem parse_normalize (raw : String) :
  parse (normalize raw) = parse raw
  := by
  rw [parse_of_head (fun _ => not_isWhitespace_head_normalize), parse_eq, toList_normalize,
    withoutV_of_isPrefix (beforeSuffix_isPrefix _), beforeSuffix_of_isPrefix (List.prefix_refl _)]

/-- The comparison of versions is a total preorder on all strings, and does not depend on their
normalisation; so it does not matter whether an update check compares a tag or the normalised
tag. -/
theorem compare_total_preorder :
  (∀ a b : String, compare a b = (compare b a).swap) ∧
    (∀ a b c : String, (compare a b).isLE → (compare b c).isLE → (compare a c).isLE) ∧
    (∀ a : String, compare a a = .eq) ∧
    (∀ a b : String, compare (normalize a) b = compare a b) ∧
    ∀ tag localName : String, isNewer (normalize tag) localName = isNewer tag localName
  := by
  have hnormalize : ∀ a b : String, compare (normalize a) b = compare a b := by
    intro a b
    rw [compare, compare, parse_normalize]
  refine ⟨compare_swap, ?_, ?_, hnormalize, ?_⟩
  · intro a b c hab hbc
    apply compare_trans hab hbc
  · intro a
    apply compare_of_eq rfl
  · intro tag localName
    rw [isNewer_eq, isNewer_eq, hnormalize]

/-- A later version is at least as late as an earlier one by way of one between them. -/
theorem isLE_releases :
  (compare "0.2.3-debug" "0.3.0").isLE
  := by
  have hfirst : parse "0.2.3-debug" = [0, 2, 3] := by decide +kernel
  have hbetween : parse "v0.2.9" = [0, 2, 9] := by decide +kernel
  have hlast : parse "0.3.0" = [0, 3, 0] := by decide +kernel
  apply compare_total_preorder.2.1 "0.2.3-debug" "v0.2.9" "0.3.0"
  · simp [compare, hfirst, hbetween, compareParts, Ord.compare, compareOfLessAndEq]
  · simp [compare, hbetween, hlast, compareParts, Ord.compare, compareOfLessAndEq]

/-! ### Versions made of numerals -/

/-- A version as it is written: an optional `v`, decimal numerals separated by dots, and an optional
suffix after a `-` or a `+`. -/
structure Version where
  v : List Char
  numerals : List (List Char)
  suffix : List Char
  optionalV : v = [] ∨ v = ['v'] ∨ v = ['V']
  atLeastOne : numerals ≠ []
  nonempty : ∀ n ∈ numerals, n ≠ []
  decimal : ∀ n ∈ numerals, ∀ c ∈ n, c.isDigit = true
  optionalSuffix : suffix = [] ∨ ∃ c rest, suffix = c :: rest ∧ (c = '-' ∨ c = '+')

namespace Version

/-- The numerals with the dots between them. -/
def dotted (w : Version) : List Char :=
  ['.'].intercalate w.numerals

/-- The version as a string. -/
def text (w : Version) : String :=
  String.ofList (w.v ++ w.dotted ++ w.suffix)

/-- The numbers the numerals denote. -/
def numbers (w : Version) : List ℕ :=
  w.numerals.map fun n => Nat.ofDigitChars 10 n 0

/-- The numerals and the dots are digits and dots. -/
theorem mem_dotted {w : Version} {c : Char} (hc : c ∈ w.dotted) :
  c = '.' ∨ c.isDigit = true
  := by
  obtain rfl | ⟨n, hn, hcn⟩ := Text.mem_of_mem_intercalate hc
  · left
    rfl
  · right
    apply w.decimal n hn c hcn

/-- The first numeral starts with a digit. -/
theorem exists_dotted_eq (w : Version) :
  ∃ d ds, w.dotted = d :: ds ∧ d.isDigit = true
  := by
  obtain ⟨n, ns, hnumerals⟩ := List.exists_cons_of_ne_nil w.atLeastOne
  have hn : n ∈ w.numerals := by
    rw [hnumerals]
    apply List.mem_cons_self
  obtain ⟨d, ds, rfl⟩ := List.exists_cons_of_ne_nil (w.nonempty n hn)
  have hd := w.decimal _ hn d List.mem_cons_self
  rw [dotted, hnumerals]
  cases ns with
  | nil =>
      rw [List.intercalate_singleton]
      exact ⟨d, ds, rfl, hd⟩
  | cons m ns =>
      rw [List.intercalate_cons_cons]
      exact ⟨d, _, rfl, hd⟩

/-- The text of a version does not start with white space. -/
theorem not_isWhitespace_head_text {w : Version} {c : Char} (hc : w.text.toList.head? = some c) :
  Text.isWhitespace c = false
  := by
  obtain ⟨d, ds, hdotted, hd⟩ := w.exists_dotted_eq
  rw [text, String.toList_ofList, hdotted] at hc
  obtain hv | hv | hv := w.optionalV
  · rw [hv] at hc
    obtain rfl := Option.some.inj hc
    apply not_isWhitespace_of_isDigit
    rw [isDigit, Text.digit_of_isDigit hd]
    rfl
  · rw [hv] at hc
    obtain rfl := Option.some.inj hc
    rfl
  · rw [hv] at hc
    obtain rfl := Option.some.inj hc
    rfl

/-- The `v` of a version is dropped. -/
theorem withoutV_text (w : Version) :
  withoutV w.text.toList = w.dotted ++ w.suffix
  := by
  obtain ⟨d, ds, hdotted, hd⟩ := w.exists_dotted_eq
  have hdigit : isDigit d = true := by
    rw [isDigit, Text.digit_of_isDigit hd]
    rfl
  have hdrop : ∀ v, v = 'v' ∨ v = 'V' →
      withoutV (v :: (w.dotted ++ w.suffix)) = w.dotted ++ w.suffix := by
    intro v hv
    rw [hdotted]
    apply if_pos
    exact ⟨hv, hdigit⟩
  rw [text, String.toList_ofList]
  obtain hv | hv | hv := w.optionalV
  · rw [hv, List.nil_append]
    apply withoutV_of_isPrefix
    rw [hdrop 'v' (Or.inl rfl)]
  · rw [hv]
    apply hdrop 'v' (Or.inl rfl)
  · rw [hv]
    apply hdrop 'V' (Or.inr rfl)

/-- The suffix of a version is dropped. -/
theorem beforeSuffix_dotted_append (w : Version) :
  beforeSuffix (w.dotted ++ w.suffix) = w.dotted
  := by
  have hne : ∀ d, d ≠ '.' → d.isDigit = false → ∀ c ∈ w.dotted, decide (c ≠ d) = true := by
    intro d hdot hd c hc
    rw [decide_eq_true_iff]
    rintro rfl
    obtain rfl | hdigit := mem_dotted hc
    · apply hdot rfl
    · rw [hd] at hdigit
      cases hdigit
  have hminus := hne '-' (by decide) rfl
  have hplus := hne '+' (by decide) rfl
  have hself : w.dotted.takeWhile (· ≠ '+') = w.dotted := List.takeWhile_eq_self_iff.mpr hplus
  rw [beforeSuffix, List.takeWhile_append_of_pos hminus]
  obtain hsuffix | ⟨c, rest, hsuffix, rfl | rfl⟩ := w.optionalSuffix
  · rw [hsuffix, List.takeWhile_nil, List.append_nil, hself]
  · rw [hsuffix, List.takeWhile_cons, if_neg (by decide), List.append_nil, hself]
  · rw [hsuffix, List.takeWhile_cons, if_pos (by decide), List.takeWhile_append_of_pos hplus,
      List.takeWhile_cons, if_neg (by decide), List.append_nil]

/-- The number the code reads of a numeral that denotes `n`. -/
def readAs (n : ℕ) : ℕ :=
  if n < 2 ^ 31 then n else 0

/-- A numeral is read as the number it denotes below 2 ^ 31, and as zero from there on. -/
theorem readPart_of_decimal {n : List Char} (hne : n ≠ []) (hn : ∀ c ∈ n, c.isDigit = true) :
  readPart n = (readAs (Nat.ofDigitChars 10 n 0) : ℤ)
  := by
  have hall : n.takeWhile isDigit = n := by
    apply List.takeWhile_eq_self_iff.mpr
    intro c hc
    rw [isDigit, Text.digit_of_isDigit (hn c hc)]
    rfl
  have hsigned : Text.signed n = some (Nat.ofDigitChars 10 n 0 : ℤ) := by
    have hmagnitude : Text.magnitude n = some (Nat.ofDigitChars 10 n 0 : ℤ) := by
      rw [Text.magnitude, if_neg hne, Text.digits_of_isDigit 0 n hn]
      rfl
    unfold Text.signed
    split
    · cases hn '-' List.mem_cons_self
    · cases hn '+' List.mem_cons_self
    · apply hmagnitude
  rw [readPart, hall, Text.toIntOrNull, Text.number, String.toList_ofList, hsigned, readAs]
  split_ifs with hlt
  · rw [Option.filter_some_pos]
    · rfl
    · rw [decide_eq_true_iff]
      omega
  · rw [Option.filter_some_neg]
    · rfl
    · rw [decide_eq_false_iff_not]
      omega

/-- The numbers that are read of a version. -/
theorem parse_text (w : Version) :
  parse w.text = w.numbers.map fun n => (readAs n : ℤ)
  := by
  rw [parse_of_head (fun _ => not_isWhitespace_head_text), withoutV_text,
    beforeSuffix_dotted_append, dotted, List.splitOn_intercalate, numbers, List.map_map]
  · apply List.map_congr_left
    intro n hn
    apply readPart_of_decimal (w.nonempty n hn) (w.decimal n hn)
  · intro n hn hdot
    cases w.decimal n hn '.' hdot
  · apply w.atLeastOne

/-- The numbers of a version, with zeros after them. -/
def sequence (w : Version) : Lex (ℕ → ℕ) :=
  padded 0 w.numbers

theorem parse_text_apply (w : Version) (i : ℕ) :
  padded 0 (parse w.text) i = (readAs (w.sequence i) : ℤ)
  := by
  rw [parse_text]
  change ((w.numbers.map fun n => (readAs n : ℤ)).getD i 0) = (readAs (w.numbers.getD i 0) : ℤ)
  rw [List.getD_eq_getElem?_getD, List.getD_eq_getElem?_getD, List.getElem?_map]
  cases w.numbers[i]? <;> rfl

end Version

open Version

/-- Versions are compared as the sequences of their numbers are. -/
def ComparesNumbers (a b : Version) : Prop :=
  (compare a.text b.text = .lt ↔ a.sequence < b.sequence) ∧
    (compare a.text b.text = .gt ↔ b.sequence < a.sequence)

/-- Where the numbers first differ, either both are below 2 ^ 31, or both are read as zero and what
is read of the numbers after them first differs in the same direction. -/
def ReadInOrder (x y : Lex (ℕ → ℕ)) : Prop :=
  ∀ i, FirstDifference x y i →
    (x i < 2 ^ 31 ∧ y i < 2 ^ 31) ∨
      (readAs (x i) = 0 ∧ readAs (y i) = 0 ∧ ∃ k, i < k ∧
        (∀ j, i < j → j < k → readAs (x j) = readAs (y j)) ∧ readAs (x k) ≠ readAs (y k) ∧
        (readAs (x k) < readAs (y k) ↔ x i < y i))

/-- The numbers that are read first differ in the direction of the numbers themselves. -/
theorem readInOrder_iff {x y : Lex (ℕ → ℕ)} {u v : Lex (ℕ → ℤ)} (hu : ∀ i, u i = readAs (x i))
    (hv : ∀ i, v i = readAs (y i)) :
  ReadInOrder x y ↔ ∀ i, FirstDifference x y i →
    ∃ k, i ≤ k ∧ FirstDifference u v k ∧ (u k < v k ↔ x i < y i)
  := by
  apply forall_congr'
  intro i
  apply imp_congr_right
  intro hi
  have hbefore : ∀ j, j < i → u j = v j := by
    intro j hj
    rw [hu, hv, hi.1 j hj]
  have hne := hi.2
  constructor
  · rintro (⟨hx, hy⟩ | ⟨hx, hy, k, hik, hbetween, hk, hdirection⟩)
    · use i, le_rfl
      rw [FirstDifference, hu, hv, readAs, readAs, if_pos hx, if_pos hy, Nat.cast_lt, Ne,
        Nat.cast_inj]
      exact ⟨⟨hbefore, hne⟩, Iff.rfl⟩
    · use k, hik.le
      rw [FirstDifference, hu, hv, Nat.cast_lt, Ne, Nat.cast_inj]
      refine ⟨⟨?_, hk⟩, hdirection⟩
      intro j hj
      obtain hji | rfl | hij := lt_trichotomy j i
      · apply hbefore j hji
      · rw [hu, hv, hx, hy]
      · rw [hu, hv, hbetween j hij hj]
  · rintro ⟨k, hik, hk, hdirection⟩
    have hdiffer := hk.2
    rw [hu, hv, Nat.cast_lt] at hdirection
    rw [hu, hv, Ne, Nat.cast_inj] at hdiffer
    obtain rfl | hlt := hik.eq_or_lt
    · left
      unfold readAs at hdirection hdiffer
      split_ifs at hdirection hdiffer <;> omega
    · right
      have hequal := hk.1 i hlt
      rw [hu, hv, Nat.cast_inj] at hequal
      refine ⟨?_, ?_, k, hlt, ?_, hdiffer, hdirection⟩
      · unfold readAs at *
        split_ifs at * <;> omega
      · unfold readAs at *
        split_ifs at * <;> omega
      · intro j _ hjk
        have hj := hk.1 j hjk
        rw [hu, hv, Nat.cast_inj] at hj
        apply hj

/-- Versions made of numerals are compared as numbers exactly if, where the numbers first differ, both
are below 2 ^ 31, or both are read as zero and what is read after them happens to differ in the same
direction. -/
theorem comparesNumbers_iff (a b : Version) :
  ComparesNumbers a b ↔ ReadInOrder a.sequence b.sequence
  := by
  have hsame : ComparesNumbers a b ↔
      SameOrder a.sequence b.sequence (padded 0 (parse a.text)) (padded 0 (parse b.text)) := by
    rw [ComparesNumbers, compare_eq_lt, compare_eq_gt, SameOrder]
    apply and_congr iff_comm iff_comm
  rw [hsame, readInOrder_iff a.parse_text_apply b.parse_text_apply]
  apply sameOrder_iff
  intro i hi
  rw [parse_text_apply, parse_text_apply, hi]

theorem numerals_of_all {ns : List (List Char)}
    (h : (ns.all fun n => !n.isEmpty && n.all Char.isDigit) = true) :
  (∀ n ∈ ns, n ≠ []) ∧ ∀ n ∈ ns, ∀ c ∈ n, c.isDigit = true
  := by
  rw [List.all_eq_true] at h
  constructor
  · rintro n hn rfl
    cases h [] hn
  · intro n hn
    have hboth := h n hn
    rw [Bool.and_eq_true, List.all_eq_true] at hboth
    exact hboth.2

/-- A release with the time of its build as the last number. -/
def datedRelease : Version where
  v := ['v']
  numerals := ["0".toList, "3".toList, "20240101120000".toList]
  suffix := []
  optionalV := by decide
  atLeastOne := by decide
  nonempty := (numerals_of_all (by decide +kernel)).1
  decimal := (numerals_of_all (by decide +kernel)).2
  optionalSuffix := Or.inl rfl

/-- A release with a small last number. -/
def plainRelease : Version where
  v := ['v']
  numerals := ["0".toList, "3".toList, "7".toList]
  suffix := []
  optionalV := by decide
  atLeastOne := by decide
  nonempty := (numerals_of_all (by decide +kernel)).1
  decimal := (numerals_of_all (by decide +kernel)).2
  optionalSuffix := Or.inl rfl

/-- A number from 2 ^ 31 on counts for less than a seven. -/
theorem not_comparesNumbers_datedRelease :
  ¬ ∀ a b : Version, ComparesNumbers a b
  := by
  intro h
  have hdated : parse datedRelease.text = [0, 3, 0] := by decide +kernel
  have hplain : parse plainRelease.text = [0, 3, 7] := by decide +kernel
  have hlt : compare datedRelease.text plainRelease.text = .lt := by
    simp [compare, hdated, hplain, compareParts, Ord.compare, compareOfLessAndEq]
  have hfirst : FirstDifference datedRelease.sequence plainRelease.sequence 2 := by
    constructor
    · intro j hj
      obtain rfl | rfl : j = 0 ∨ j = 1 := by omega
      · rfl
      · rfl
    · decide +kernel
  have hsequence := (h datedRelease plainRelease).1.mp hlt
  rw [lt_iff_of_firstDifference hfirst] at hsequence
  revert hsequence
  decide +kernel

end VersionCompare

end Update
