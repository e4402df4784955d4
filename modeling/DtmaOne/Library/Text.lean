import Mathlib.Algebra.Order.Ring.Int
import Mathlib.Data.List.DropRight
import Mathlib.Data.List.Infix
import Mathlib.Data.List.TakeWhile

/-!
# Text functions of the Kotlin and Java libraries

The functions on strings the repository calls, by their documented behaviour: `split` and
`joinToString` with a separator of one character, `substringBefore`, `trim`, the parsers
`toIntOrNull` and `toLongOrNull`, `hashCode`, and `replace` for two characters.

They are defined on the characters of a string.  A Java string is a sequence of UTF-16 units;
where that matters, as for `hashCode`, a string is turned into its units.
-/

namespace Text

/-! ### Separators -/

/-- `parts.joinToString(separator)` -/
def joinToString (separator : Char) (parts : List String) : String :=
  String.ofList ([separator].intercalate (parts.map String.toList))

/-- `s.split(separator)` -/
def split (separator : Char) (s : String) : List String :=
  (s.toList.splitOn separator).map String.ofList

@[simp]
theorem toList_joinToString (separator : Char) (parts : List String) :
  (joinToString separator parts).toList = [separator].intercalate (parts.map String.toList)
  := by
  simp [joinToString]

/-- `split` takes apart what `joinToString` put together, if no part has the separator. -/
theorem split_joinToString
    (separator : Char) (parts : List String) (hne : parts ≠ [])
    (hparts : ∀ p ∈ parts, separator ∉ p.toList) :
  split separator (joinToString separator parts) = parts
  := by
  rw [split, toList_joinToString, List.splitOn_intercalate]
  · simp [Function.comp_def]
  · intro l hl
    obtain ⟨p, hp, rfl⟩ := List.mem_map.mp hl
    apply hparts p hp
  · simpa using hne

/-- A first part without the separator is the first part of the joined string. -/
theorem head_split_joinToString {separator : Char} {p : String} (hp : separator ∉ p.toList)
    (parts : List String) :
  ∃ rest, split separator (joinToString separator (p :: parts)) = p :: rest
  := by
  cases parts with
  | nil =>
      use []
      rw [split, toList_joinToString, List.map_singleton, List.intercalate_singleton,
        List.splitOn_eq_singleton hp, List.map_singleton, String.ofList_toList]
  | cons q parts =>
      use ((joinToString separator (q :: parts)).toList.splitOn separator).map String.ofList
      rw [split, toList_joinToString, List.map_cons, List.map_cons, List.intercalate_cons_cons,
        List.append_assoc, List.singleton_append, List.splitOn_append_cons_self_of_not_mem hp,
        List.map_cons, String.ofList_toList, toList_joinToString, List.map_cons]

/-- Every part is a piece of the joined list. -/
theorem isInfix_intercalate {α : Type} {x : α} {p : List α} {ls : List (List α)} (hp : p ∈ ls) :
  p <:+: [x].intercalate ls
  := by
  induction ls with
  | nil => cases hp
  | cons m ls ih =>
      cases ls with
      | nil =>
          obtain rfl := List.mem_singleton.mp hp
          rw [List.intercalate_singleton]
      | cons m' ls =>
          rw [List.intercalate_cons_cons]
          rw [List.mem_cons] at hp
          obtain rfl | hp := hp
          · rw [List.append_assoc]
            exact (List.prefix_append p _).isInfix
          · exact (ih hp).trans (List.suffix_append _ _).isInfix

theorem mem_intercalate_of_mem {α : Type} {x a : α} {l : List α} {ls : List (List α)} (hl : l ∈ ls)
    (ha : a ∈ l) :
  a ∈ [x].intercalate ls
  := (isInfix_intercalate hl).subset ha

theorem mem_of_mem_intercalate {α : Type} {x a : α} {ls : List (List α)}
    (ha : a ∈ [x].intercalate ls) :
  a = x ∨ ∃ l ∈ ls, a ∈ l
  := by
  induction ls with
  | nil => cases ha
  | cons m ls ih =>
      cases ls with
      | nil =>
          rw [List.intercalate_singleton] at ha
          right
          exact ⟨m, List.mem_cons_self, ha⟩
      | cons m' ls =>
          rw [List.intercalate_cons_cons, List.mem_append, List.mem_append] at ha
          obtain (hm | hx) | hrest := ha
          · right
            exact ⟨m, List.mem_cons_self, hm⟩
          · left
            exact List.mem_singleton.mp hx
          · obtain hx | ⟨l, hl, hal⟩ := ih hrest
            · left
              apply hx
            · right
              exact ⟨l, List.mem_cons_of_mem m hl, hal⟩

/-- A joined string has only characters of its parts and the separator. -/
theorem not_mem_joinToString {separator c : Char} {parts : List String} (hc : c ≠ separator)
    (hparts : ∀ p ∈ parts, c ∉ p.toList) :
  c ∉ (joinToString separator parts).toList
  := by
  rw [toList_joinToString]
  intro hmem
  obtain heq | ⟨l, hl, hcl⟩ := mem_of_mem_intercalate hmem
  · apply hc heq
  · obtain ⟨p, hp, rfl⟩ := List.mem_map.mp hl
    apply hparts p hp hcl

/-- The parts of a string have only characters of the string. -/
theorem mem_of_mem_split {separator c : Char} {s p : String} (hp : p ∈ split separator s)
    (hc : c ∈ p.toList) :
  c ∈ s.toList
  := by
  obtain ⟨l, hl, rfl⟩ := List.mem_map.mp hp
  rw [String.toList_ofList] at hc
  have hjoin : [separator].intercalate (s.toList.splitOn separator) = s.toList :=
    List.intercalate_splitOn separator
  rw [← hjoin]
  apply mem_intercalate_of_mem hl hc

/-- The parts of a split list do not have the separator. -/
theorem not_mem_of_mem_splitOn {α : Type} [DecidableEq α] {x : α} {l m : List α}
    (hm : m ∈ l.splitOn x) :
  x ∉ m
  := by
  induction l generalizing m with
  | nil =>
      obtain rfl := List.mem_singleton.mp hm
      apply List.not_mem_nil
  | cons a l ih =>
      rw [List.splitOn, List.splitOnP_cons_eq_if_modifyHead] at hm
      by_cases ha : a = x
      · rw [if_pos (beq_iff_eq.mpr ha), List.mem_cons] at hm
        obtain rfl | hm := hm
        · apply List.not_mem_nil
        · apply ih hm
      · rw [if_neg (mt beq_iff_eq.mp ha)] at hm
        cases hparts : l.splitOnP (· == x) with
        | nil => exact absurd hparts (List.splitOnP_ne_nil _ _)
        | cons first rest =>
            rw [hparts, List.modifyHead_cons, List.mem_cons] at hm
            have hmem : ∀ n ∈ first :: rest, n ∈ l.splitOn x := by
              intro n hn
              rw [List.splitOn, hparts]
              apply hn
            obtain rfl | hm := hm
            · rw [List.mem_cons, not_or]
              exact ⟨Ne.symm ha, ih (hmem first List.mem_cons_self)⟩
            · apply ih (hmem m (List.mem_cons_of_mem first hm))

/-- The parts of a string do not have the separator. -/
theorem not_mem_of_mem_split {separator : Char} {s p : String} (hp : p ∈ split separator s) :
  separator ∉ p.toList
  := by
  obtain ⟨l, hl, rfl⟩ := List.mem_map.mp hp
  rw [String.toList_ofList]
  apply not_mem_of_mem_splitOn hl

/-- An ending without the separator belongs to the last part. -/
theorem splitOn_append_of_not_mem {α : Type} [DecidableEq α] {x : α} {ending : List α}
    (hx : x ∉ ending) (l : List α) :
  ∃ parts part, l.splitOn x = parts ++ [part] ∧ (l ++ ending).splitOn x = parts ++ [part ++ ending]
  := by
  induction l with
  | nil =>
      use [], []
      exact ⟨List.splitOn_nil x, List.splitOn_eq_singleton hx⟩
  | cons a l ih =>
      obtain ⟨parts, part, hl, hending⟩ := ih
      rw [List.splitOn] at hl hending
      rw [List.cons_append, List.splitOn, List.splitOnP_cons_eq_if_modifyHead, hl, List.splitOn,
        List.splitOnP_cons_eq_if_modifyHead, hending]
      split
      · use [] :: parts, part
        exact ⟨rfl, rfl⟩
      · cases parts with
        | nil =>
            use [], a :: part
            exact ⟨rfl, rfl⟩
        | cons first parts =>
            use (a :: first) :: parts, part
            exact ⟨rfl, rfl⟩

/-- The parts of a list are pieces of it. -/
theorem isInfix_of_mem_splitOn {α : Type} [DecidableEq α] {x : α} {l p : List α}
    (hp : p ∈ l.splitOn x) :
  p <:+: l
  := by
  have hpiece := isInfix_intercalate (x := x) hp
  rwa [List.intercalate_splitOn] at hpiece

/-- A piece without the separator is a piece of one of the parts. -/
theorem exists_isInfix_splitOn {α : Type} [DecidableEq α] {x : α} {m l : List α} (hm : x ∉ m)
    (hl : m <:+: l) :
  ∃ p ∈ l.splitOn x, m <:+: p
  := by
  obtain ⟨u, v, rfl⟩ := hl
  have hlast : ∃ parts part, (u ++ m).splitOn x = parts ++ [part] ∧ m <:+: part := by
    obtain ⟨parts, part, -, hparts⟩ := splitOn_append_of_not_mem hm u
    exact ⟨parts, part ++ m, hparts, (List.suffix_append part m).isInfix⟩
  generalize u ++ m = w at hlast
  induction v generalizing w with
  | nil =>
      obtain ⟨parts, part, hparts, hpiece⟩ := hlast
      refine ⟨part, ?_, hpiece⟩
      rw [List.append_nil, hparts]
      simp
  | cons c v ih =>
      obtain ⟨parts, part, hparts, hpiece⟩ := hlast
      by_cases hc : c = x
      · refine ⟨part, ?_, hpiece⟩
        rw [hc, List.splitOn_append_cons_self, hparts]
        simp
      · have hend : x ∉ [c] := by
          rw [List.mem_singleton]
          exact Ne.symm hc
        obtain ⟨parts', part', hw, hnext⟩ := splitOn_append_of_not_mem hend w
        obtain ⟨-, hpart⟩ := List.append_inj' (hparts.symm.trans hw) rfl
        obtain rfl := List.singleton_inj.mp hpart
        have hlonger := hpiece.trans (List.prefix_append part [c]).isInfix
        obtain ⟨p, hp, hwithin⟩ := ih (w ++ [c]) ⟨parts', part ++ [c], hnext, hlonger⟩
        rw [List.append_assoc, List.singleton_append] at hp
        exact ⟨p, hp, hwithin⟩

/-- A function that keeps the separator apart from the other elements is applied to the parts. -/
theorem splitOn_map {α : Type} [DecidableEq α] {x : α} {f : α → α} {l : List α}
    (hf : ∀ a ∈ l, f a = x ↔ a = x) :
  (l.map f).splitOn x = (l.splitOn x).map (List.map f)
  := by
  induction l with
  | nil => rfl
  | cons a l ih =>
      obtain ⟨ha, hl⟩ := List.forall_mem_cons.mp hf
      rw [List.map_cons, List.splitOn_cons_eq_if_modifyHead, List.splitOn_cons_eq_if_modifyHead,
        ih hl]
      by_cases hx : a = x
      · rw [if_pos (beq_iff_eq.mpr (ha.mpr hx)), if_pos (beq_iff_eq.mpr hx)]
        rfl
      · rw [if_neg (mt beq_iff_eq.mp (mt ha.mp hx)), if_neg (mt beq_iff_eq.mp hx)]
        cases l.splitOn x with
        | nil => rfl
        | cons first rest => rfl

/-- Separators at the end give empty parts. -/
theorem filter_splitOn_trimEnd {α : Type} [DecidableEq α] (x : α) (l : List α) :
  ((l.reverse.dropWhile (· = x)).reverse.splitOn x).filter (· ≠ [])
    = (l.splitOn x).filter (· ≠ [])
  := by
  induction l using List.reverseRecOn with
  | nil => rfl
  | append_singleton l a ih =>
      rw [List.reverse_append, List.reverse_singleton, List.singleton_append, List.dropWhile_cons]
      by_cases ha : a = x
      · rw [if_pos (decide_eq_true ha), ih, ha, List.splitOn_append_cons_self, List.filter_append]
        simp
      · rw [if_neg (by simp [ha])]
        simp

/-- A beginning up to a separator is compared by its parts. -/
theorem append_cons_isPrefix_iff {α : Type} {x : α} {p q s t : List α} (hp : x ∉ p) (hq : x ∉ q) :
  p ++ x :: s <+: q ++ x :: t ↔ p = q ∧ s <+: t
  := by
  induction p generalizing q with
  | nil =>
      cases q with
      | nil =>
          rw [List.nil_append, List.nil_append, List.cons_prefix_cons]
          simp
      | cons b q =>
          rw [List.nil_append, List.cons_append, List.cons_prefix_cons]
          apply iff_of_false
          · rintro ⟨rfl, -⟩
            exact hq List.mem_cons_self
          · rintro ⟨h, -⟩
            cases h
  | cons a p ih =>
      cases q with
      | nil =>
          rw [List.nil_append, List.cons_append, List.cons_prefix_cons]
          apply iff_of_false
          · rintro ⟨rfl, -⟩
            exact hp List.mem_cons_self
          · rintro ⟨h, -⟩
            cases h
      | cons b q =>
          rw [List.mem_cons, not_or] at hp hq
          rw [List.cons_append, List.cons_append, List.cons_prefix_cons, ih hp.2 hq.2,
            List.cons.injEq, and_assoc]

/-- A beginning does not reach behind a character it does not have. -/
theorem isPrefix_append_iff {α : Type} {p q rest : List α}
    (hrest : ∀ c t, rest = c :: t → c ∉ p) :
  p <+: q ++ rest ↔ p <+: q
  := by
  constructor
  · intro h
    obtain hpq | ⟨s, rfl⟩ := List.prefix_or_prefix_of_prefix h (List.prefix_append q rest)
    · exact hpq
    · rw [List.prefix_append_right_inj] at h
      cases s with
      | nil => rw [List.append_nil]
      | cons c s =>
          obtain ⟨r, hr⟩ := h
          have hc := hrest c (s ++ r) hr.symm
          exact absurd (List.mem_append_right q List.mem_cons_self) hc
  · intro h
    exact h.trans (List.prefix_append q rest)

/-- `s.substringBefore(delimiter)` -/
def substringBefore (delimiter : Char) (s : String) : String :=
  String.ofList (s.toList.takeWhile (· ≠ delimiter))

theorem not_mem_substringBefore (delimiter : Char) (s : String) :
  delimiter ∉ (substringBefore delimiter s).toList
  := by
  rw [substringBefore, String.toList_ofList]
  intro hmem
  have hne := List.mem_takeWhile_imp hmem
  simp at hne

theorem mem_of_mem_substringBefore {delimiter c : Char} {s : String}
    (hc : c ∈ (substringBefore delimiter s).toList) :
  c ∈ s.toList
  := by
  rw [substringBefore, String.toList_ofList] at hc
  apply (List.takeWhile_prefix _).subset hc

/-- `substringBefore` leaves a string without the delimiter as it is. -/
theorem substringBefore_of_not_mem {delimiter : Char} {s : String} (hs : delimiter ∉ s.toList) :
  substringBefore delimiter s = s
  := by
  rw [substringBefore, List.takeWhile_eq_self_iff.mpr]
  · apply String.ofList_toList
  · intro c hc
    rw [decide_eq_true_iff]
    rintro rfl
    apply hs hc

/-- The first part of a joined string is its first part up to a separator in it. -/
theorem head?_split_joinToString (separator : Char) (p : String) (parts : List String) :
  (split separator (joinToString separator (p :: parts))).head?
    = some (substringBefore separator p)
  := by
  by_cases hp : separator ∈ p.toList
  · obtain ⟨before, after, hbefore, hnot⟩ := List.eq_append_cons_of_mem hp
    have hjoin : ∃ rest, [separator].intercalate ((p :: parts).map String.toList)
        = p.toList ++ rest := by
      cases parts with
      | nil => exact ⟨[], by simp⟩
      | cons q parts =>
          refine ⟨[separator] ++ [separator].intercalate ((q :: parts).map String.toList), ?_⟩
          rw [List.map_cons, List.map_cons, List.intercalate_cons_cons, List.append_assoc,
            ← List.map_cons]
    obtain ⟨rest, hrest⟩ := hjoin
    have htake : p.toList.takeWhile (· ≠ separator) = before := by
      rw [hbefore, List.takeWhile_append_of_pos (by
        intro c hc
        rw [decide_eq_true_eq]
        rintro rfl
        exact hnot hc)]
      simp
    rw [split, toList_joinToString, hrest, substringBefore, htake, hbefore, List.append_assoc,
      List.cons_append, List.splitOn_append_cons_self_of_not_mem hnot]
    rfl
  · obtain ⟨rest, hsplit⟩ := head_split_joinToString hp parts
    rw [hsplit, substringBefore_of_not_mem hp]
    rfl

/-! ### Numbers -/

/-- The digits zero of the decimal digits in the basic multilingual plane; the other nine
digits follow them. -/
def digitZeros : List ℕ :=
  [0x0030, 0x0660, 0x06f0, 0x07c0, 0x0966, 0x09e6, 0x0a66, 0x0ae6, 0x0b66, 0x0be6, 0x0c66, 0x0ce6,
    0x0d66, 0x0de6, 0x0e50, 0x0ed0, 0x0f20, 0x1040, 0x1090, 0x17e0, 0x1810, 0x1946, 0x19d0, 0x1a80,
    0x1a90, 0x1b50, 0x1bb0, 0x1c40, 0x1c50, 0xa620, 0xa8d0, 0xa900, 0xa9d0, 0xa9f0, 0xaa50, 0xabf0,
    0xff10]

/-- `Character.digit(c, 10)` -/
def digit (c : Char) : Option ℕ :=
  (digitZeros.find? fun z => z ≤ c.toNat ∧ c.toNat < z + 10).map fun z => c.toNat - z

/-- The number the digits stand for, after `n`. -/
def digits (n : ℕ) : List Char → Option ℕ
  | [] => some n
  | c :: cs => (digit c).bind fun d => digits (10 * n + d) cs

/-- The number at least one digit stands for. -/
def magnitude (cs : List Char) : Option ℤ :=
  if cs = [] then none else (digits 0 cs).map Int.ofNat

/-- The number an optional sign and at least one digit stand for. -/
def signed : List Char → Option ℤ
  | '-' :: cs => (magnitude cs).map fun n => -n
  | '+' :: cs => magnitude cs
  | cs => magnitude cs

/-- A number between `lo` and `hi`. -/
def number (lo hi : ℤ) (s : String) : Option ℤ :=
  (signed s.toList).filter fun n => lo ≤ n ∧ n ≤ hi

/-- `s.toIntOrNull()` -/
def toIntOrNull : String → Option ℤ := number (-2 ^ 31) (2 ^ 31 - 1)

/-- `s.toLongOrNull()` -/
def toLongOrNull : String → Option ℤ := number (-2 ^ 63) (2 ^ 63 - 1)

theorem digit_of_isDigit {c : Char} (hc : c.isDigit) :
  digit c = some (c.toNat - '0'.toNat)
  := by
  have hrange : 48 ≤ c.toNat ∧ c.toNat < 48 + 10 := by
    simp only [Char.isDigit, Bool.and_eq_true, decide_eq_true_eq] at hc
    obtain ⟨hlo, hhi⟩ := hc
    have hlo' : 48 ≤ c.toNat := hlo
    have hhi' : c.toNat ≤ 57 := hhi
    omega
  rw [digit, digitZeros, List.find?_cons_of_pos]
  · rfl
  · simpa using hrange

theorem digits_of_isDigit (n : ℕ) (cs : List Char) (hcs : ∀ c ∈ cs, c.isDigit) :
  digits n cs = some (Nat.ofDigitChars 10 cs n)
  := by
  induction cs generalizing n with
  | nil => simp [digits]
  | cons c cs ih =>
      rw [digits, digit_of_isDigit (hcs c List.mem_cons_self), Option.bind_some,
        ih _ fun d hd => hcs d (List.mem_cons_of_mem c hd), Nat.ofDigitChars_cons]

theorem digits_toDigits (n : ℕ) :
  digits 0 (Nat.toDigits 10 n) = some n
  := by
  rw [digits_of_isDigit, Nat.ofDigitChars_ten_toDigits]
  intro c hc
  apply Nat.isDigit_of_mem_toDigits (by omega) (by omega) hc

theorem magnitude_toDigits (n : ℕ) :
  magnitude (Nat.toDigits 10 n) = some (n : ℤ)
  := by
  rw [magnitude, if_neg Nat.toDigits_ne_nil, digits_toDigits]
  rfl

theorem signed_toDigits (n : ℕ) :
  signed (Nat.toDigits 10 n) = some (n : ℤ)
  := by
  have hdigit : ∀ c ∈ Nat.toDigits 10 n, c.isDigit := by
    intro c hc
    apply Nat.isDigit_of_mem_toDigits (by omega) (by omega) hc
  have hnumber := magnitude_toDigits n
  generalize Nat.toDigits 10 n = cs at hdigit hnumber
  unfold signed
  split
  · cases hdigit '-' List.mem_cons_self
  · cases hdigit '+' List.mem_cons_self
  · apply hnumber

/-- A number in the range is read back from its decimal notation. -/
theorem number_toString {lo hi n : ℤ} (hlo : lo ≤ n) (hhi : n ≤ hi) :
  number lo hi (toString n) = some n
  := by
  have hsigned : signed (toString n).toList = some n := by
    rw [Int.toString_eq_repr, Int.repr_eq_if]
    by_cases hn : 0 ≤ n
    · rw [if_pos hn, Nat.toList_repr, signed_toDigits, Int.toNat_of_nonneg hn]
    · rw [if_neg hn, String.toList_append, Nat.toList_repr]
      change (magnitude (Nat.toDigits 10 (-n).toNat)).map (fun n => -n) = some n
      rw [magnitude_toDigits, Option.map_some, Int.toNat_of_nonneg (by omega), Int.neg_neg]
  rw [number, hsigned]
  simp [hlo, hhi]

/-- Different numbers have different decimal notations. -/
theorem toString_injective {m n : ℤ} (h : (toString m : String) = toString n) :
  m = n
  := by
  have hm : number (min m n) (max m n) (toString m) = some m :=
    number_toString (by omega) (by omega)
  have hn : number (min m n) (max m n) (toString n) = some n :=
    number_toString (by omega) (by omega)
  rw [h, hn] at hm
  exact (Option.some.inj hm).symm

/-- The decimal notation of a number has only digits and a sign. -/
theorem not_mem_toString {c : Char} (hdigit : c.isDigit = false) (hminus : c ≠ '-') (n : ℤ) :
  c ∉ (toString n).toList
  := by
  have hnat : ∀ k : ℕ, c ∉ Nat.toDigits 10 k := by
    intro k hc
    have htrue := Nat.isDigit_of_mem_toDigits (by omega) (by omega) hc
    rw [hdigit] at htrue
    cases htrue
  rw [Int.toString_eq_repr, Int.repr_eq_if]
  by_cases hn : 0 ≤ n
  · rw [if_pos hn, Nat.toList_repr]
    apply hnat
  · rw [if_neg hn, String.toList_append, Nat.toList_repr, List.mem_append, not_or]
    constructor
    · intro hmem
      apply hminus
      simpa using hmem
    · apply hnat

/-! ### Hash codes -/

/-- The UTF-16 units of a character. -/
def utf16Units (c : Char) : List ℕ :=
  if c.toNat < 0x10000 then [c.toNat]
  else [0xd800 + (c.toNat - 0x10000) / 0x400, 0xdc00 + (c.toNat - 0x10000) % 0x400]

/-- `s.hashCode()` -/
def hashCode (s : String) : ℤ :=
  (s.toList.flatMap utf16Units).foldl (fun h u => (31 * h + u).bmod (2 ^ 32)) 0

/-! ### Blanks, positions and case -/

/-- `c.isWhitespace()` -/
def isWhitespace (c : Char) : Bool :=
  let n := c.toNat
  (0x09 ≤ n && n ≤ 0x0d) || (0x1c ≤ n && n ≤ 0x20) || n = 0xa0 || n = 0x1680 ||
    (0x2000 ≤ n && n ≤ 0x200a) || n = 0x2028 || n = 0x2029 || n = 0x202f || n = 0x205f ||
    n = 0x3000

/-- White space is no digit. -/
theorem digit_of_isWhitespace {c : Char} (hc : isWhitespace c = true) :
  digit c = none
  := by
  have hblank : ∀ z ∈ digitZeros, ¬ (z ≤ c.toNat ∧ c.toNat < z + 10) := by
    simp only [isWhitespace, Bool.or_eq_true, Bool.and_eq_true, decide_eq_true_eq] at hc
    simp only [digitZeros, List.forall_mem_cons, List.not_mem_nil, false_imp_iff, implies_true,
      and_true, not_and_or, not_le, not_lt]
    and_intros
    all_goals omega
  rw [digit, Option.map_eq_none_iff, List.find?_eq_none]
  intro z hz
  rw [decide_eq_true_eq]
  apply hblank z hz

/-- `s.trim()` -/
def trim (s : String) : String :=
  String.ofList ((s.toList.dropWhile isWhitespace).reverse.dropWhile isWhitespace).reverse

theorem toList_trim (s : String) :
  (trim s).toList = (s.toList.dropWhile isWhitespace).rdropWhile isWhitespace
  := String.toList_ofList

/-- What is left by `trim` is a piece. -/
theorem isInfix_trim (s : String) :
  (trim s).toList <:+: s.toList
  := by
  rw [toList_trim]
  exact (List.rdropWhile_prefix _ _).isInfix.trans (List.dropWhile_suffix _).isInfix

theorem mem_of_mem_trim {c : Char} {s : String} (hc : c ∈ (trim s).toList) :
  c ∈ s.toList
  := (isInfix_trim s).subset hc

/-- A trimmed string does not start with white space. -/
theorem not_isWhitespace_head_trim {s : String} {c : Char} (hc : (trim s).toList.head? = some c) :
  isWhitespace c = false
  := by
  rw [toList_trim] at hc
  obtain ⟨t, ht⟩ := List.head?_eq_some_iff.mp hc
  obtain ⟨rest, hrest⟩ := List.rdropWhile_prefix isWhitespace (s.toList.dropWhile isWhitespace)
  rw [ht] at hrest
  have hhead := List.head?_dropWhile_not isWhitespace s.toList
  rw [← hrest] at hhead
  simpa using hhead

/-- Nothing is dropped from the front, if the first element is kept. -/
theorem dropWhile_of_head {α : Type} {p : α → Bool} {l : List α}
    (h : ∀ a ∈ l.head?, p a = false) :
  l.dropWhile p = l
  := by
  cases l with
  | nil => rfl
  | cons a l => rw [List.dropWhile_cons, if_neg (by simp [h a rfl])]

/-- What is trimmed of a string that does not start with white space is at its end. -/
theorem exists_eq_trim_append {s : String}
    (hs : ∀ c, s.toList.head? = some c → isWhitespace c = false) :
  ∃ space, s.toList = (trim s).toList ++ space ∧ ∀ c ∈ space, isWhitespace c = true
  := by
  have hfront : s.toList.dropWhile isWhitespace = s.toList := dropWhile_of_head hs
  use (s.toList.reverse.takeWhile isWhitespace).reverse
  constructor
  · rw [trim, String.toList_ofList, hfront, ← List.reverse_append,
      List.takeWhile_append_dropWhile, List.reverse_reverse]
  · intro c hc
    apply List.mem_takeWhile_imp (List.mem_reverse.mp hc)

/-- White space at the end is trimmed up to the last other character. -/
theorem trim_ofList_append {core space : List Char}
    (hfirst : ∃ c t, core = c :: t ∧ isWhitespace c = false)
    (hlast : ∃ t c, core = t ++ [c] ∧ isWhitespace c = false)
    (hspace : ∀ c ∈ space, isWhitespace c = true) :
  trim (String.ofList (core ++ space)) = String.ofList core
  := by
  obtain ⟨c, t, hcons, hc⟩ := hfirst
  obtain ⟨u, d, hconcat, hd⟩ := hlast
  have hfront : (core ++ space).dropWhile isWhitespace = core ++ space := by
    apply dropWhile_of_head
    rw [hcons]
    rintro a ⟨⟩
    exact hc
  have hback : (core ++ space).reverse.dropWhile isWhitespace = core.reverse := by
    rw [List.reverse_append, List.dropWhile_append_of_pos]
    · apply dropWhile_of_head
      rw [hconcat, List.reverse_append]
      rintro a ⟨⟩
      exact hd
    · intro x hx
      apply hspace x (List.mem_reverse.mp hx)
  rw [trim, String.toList_ofList, hfront, hback, List.reverse_reverse]

/-- A string without white space is not trimmed. -/
theorem trim_of_not_isWhitespace {s : String} (h : ∀ c ∈ s.toList, isWhitespace c = false) :
  trim s = s
  := by
  have hfront : s.toList.dropWhile isWhitespace = s.toList := by
    apply dropWhile_of_head
    intro c hc
    exact h c (List.mem_of_mem_head? hc)
  have hback : s.toList.reverse.dropWhile isWhitespace = s.toList.reverse := by
    apply dropWhile_of_head
    intro c hc
    exact h c (List.mem_reverse.mp (List.mem_of_mem_head? hc))
  rw [trim, hfront, hback, List.reverse_reverse, String.ofList_toList]

/-- `s.isBlank()` -/
def isBlank (s : String) : Bool :=
  s.toList.all isWhitespace

/-- What stands before and after the last `c`, if there is one. -/
def splitLast (c : Char) (s : String) : Option (String × String) :=
  let back := s.toList.reverse
  if c ∈ back then
    some (String.ofList ((back.dropWhile (· ≠ c)).drop 1).reverse,
      String.ofList (back.takeWhile (· ≠ c)).reverse)
  else none

theorem splitLast_eq_none {c : Char} {s : String} :
  splitLast c s = none ↔ c ∉ s.toList
  := by
  simp [splitLast]

/-- The last `c` is the one after which there is no other. -/
theorem splitLast_eq_some {c : Char} {s a b : String} :
  splitLast c s = some (a, b) ↔ s.toList = a.toList ++ c :: b.toList ∧ c ∉ b.toList
  := by
  constructor
  · intro h
    simp only [splitLast, List.mem_reverse, Option.ite_none_right_eq_some, Option.some.injEq,
      Prod.mk.injEq] at h
    obtain ⟨hmem, rfl, rfl⟩ := h
    have hback : s.toList.reverse.dropWhile (· ≠ c)
        = c :: (s.toList.reverse.dropWhile (· ≠ c)).drop 1 := by
      have hne : s.toList.reverse.dropWhile (· ≠ c) ≠ [] := by
        rw [Ne, List.dropWhile_eq_nil_iff]
        intro hall
        simpa using hall c (List.mem_reverse.mpr hmem)
      have hhead := List.head_dropWhile_not (fun x : Char => decide (x ≠ c)) hne
      rw [decide_eq_false_iff_not, not_not] at hhead
      rw [List.drop_one]
      nth_rewrite 1 [← List.cons_head_tail hne]
      rw [hhead]
    constructor
    · have hsplit := List.takeWhile_append_dropWhile (p := fun x : Char => decide (x ≠ c))
        (l := s.toList.reverse)
      rw [hback] at hsplit
      rw [String.toList_ofList, String.toList_ofList, ← List.reverse_reverse s.toList]
      nth_rewrite 1 [← hsplit]
      simp
    · rw [String.toList_ofList, List.mem_reverse]
      intro hc
      simpa using List.mem_takeWhile_imp hc
  · rintro ⟨hs, hb⟩
    have hall : ∀ x ∈ b.toList.reverse, decide (x ≠ c) = true := by
      intro x hx
      rw [decide_eq_true_iff]
      rintro rfl
      exact hb (List.mem_reverse.mp hx)
    have hrev : s.toList.reverse = b.toList.reverse ++ c :: a.toList.reverse := by
      rw [hs]
      simp
    rw [splitLast, hrev, List.dropWhile_append_of_pos hall, List.takeWhile_append_of_pos hall]
    simp

/-- `s.contains(part, ignoreCase = true)`, where `same` compares two characters as
`equals(ignoreCase = true)` does. -/
def contains (same : Char → Char → Bool) (part s : String) : Bool :=
  s.toList.tails.any fun t =>
    part.toList.length ≤ t.length && (part.toList.zip t).all fun (a, b) => same a b

/-- A string contains its parts, if every character is the same as itself. -/
theorem contains_of_eq_append {same : Char → Char → Bool} (hsame : ∀ c, same c c = true)
    {part s : String} {before after : List Char}
    (hs : s.toList = before ++ (part.toList ++ after)) :
  contains same part s = true
  := by
  rw [contains, List.any_eq_true]
  refine ⟨part.toList ++ after, ?_, ?_⟩
  · rw [List.mem_tails, hs]
    apply List.suffix_append
  · have hzip : ∀ l : List Char, (l.zip (l ++ after)).all (fun x => same x.1 x.2) = true := by
      intro l
      induction l with
      | nil => rfl
      | cons c l ih => simpa [hsame] using ih
    simp only [List.length_append, Nat.le_add_right, decide_true, Bool.true_and]
    apply hzip

/-- The longest part of `cs` from the start that has at most `n` UTF-16 units. -/
def takeUnits : ℕ → List Char → List Char
  | _, [] => []
  | n, c :: cs =>
      if (utf16Units c).length ≤ n then c :: takeUnits (n - (utf16Units c).length) cs else []

/-- `s.take(n)` -/
def take (n : ℕ) (s : String) : String :=
  String.ofList (takeUnits n s.toList)

/-! ### Replacements -/

/-- `s.replace(old, new)`, for the two characters `a` and `b` of `old` and the one `c` of `new`. -/
def replacePair (a b c : Char) : List Char → List Char
  | x :: y :: cs =>
      if x = a ∧ y = b then c :: replacePair a b c cs else x :: replacePair a b c (y :: cs)
  | cs => cs

section Replace

variable {a b c : Char}

theorem replacePair_cons_of_ne {x : Char} (hx : x ≠ a) (cs : List Char) :
  replacePair a b c (x :: cs) = x :: replacePair a b c cs
  := by
  cases cs with
  | nil => rfl
  | cons y cs => rw [replacePair, if_neg (fun h => hx h.1)]

/-- What follows a text that does not end with the first character is replaced on its own. -/
theorem replacePair_append {u : List Char} (hu : u.getLast? ≠ some a) (v : List Char) :
  replacePair a b c (u ++ v) = replacePair a b c u ++ replacePair a b c v
  := by
  induction u using replacePair.induct a b with
  | case1 x y cs hpair ih =>
      have hcs : cs.getLast? ≠ some a := by
        cases cs with
        | nil => simp
        | cons z cs => simpa [List.getLast?_cons_cons] using hu
      rw [List.cons_append, List.cons_append, replacePair, if_pos hpair, replacePair, if_pos hpair,
        ih hcs, List.cons_append]
  | case2 x y cs hpair ih =>
      rw [List.getLast?_cons_cons] at hu
      rw [List.cons_append, List.cons_append, replacePair, if_neg hpair, replacePair, if_neg hpair,
        ← List.cons_append, ih hu, List.cons_append]
  | case3 cs hshort =>
      cases cs with
      | nil => rfl
      | cons x cs =>
          cases cs with
          | nil =>
              have hx : x ≠ a := by
                rintro rfl
                exact hu rfl
              rw [List.singleton_append, replacePair_cons_of_ne hx]
              rfl
          | cons y cs => exact absurd rfl (hshort x y cs)

theorem replacePair_cons_ne_nil (x : Char) (cs : List Char) :
  replacePair a b c (x :: cs) ≠ []
  := by
  cases cs with
  | nil => exact List.cons_ne_nil x []
  | cons y cs =>
      rw [replacePair]
      split_ifs <;> exact List.cons_ne_nil _ _

/-- A replaced text ends with the first character only if the text does. -/
theorem getLast?_replacePair (hc : c ≠ a) {u : List Char} (hu : u.getLast? ≠ some a) :
  (replacePair a b c u).getLast? ≠ some a
  := by
  induction u using replacePair.induct a b with
  | case1 x y cs hpair ih =>
      rw [replacePair, if_pos hpair, List.getLast?_cons]
      cases cs with
      | nil => simpa [replacePair] using hc
      | cons z cs =>
          have hz : (replacePair a b c (z :: cs)).getLast? ≠ some a := by
            apply ih
            simpa [List.getLast?_cons_cons] using hu
          rw [List.getLast?_eq_some_getLast (replacePair_cons_ne_nil z cs)] at hz ⊢
          exact hz
  | case2 x y cs hpair ih =>
      rw [List.getLast?_cons_cons] at hu
      have hy := ih hu
      rw [replacePair, if_neg hpair, List.getLast?_cons]
      rw [List.getLast?_eq_some_getLast (replacePair_cons_ne_nil y cs)] at hy ⊢
      exact hy
  | case3 cs hshort =>
      cases cs with
      | nil => simp [replacePair]
      | cons x cs =>
          cases cs with
          | nil => exact hu
          | cons y cs => exact absurd rfl (hshort x y cs)

/-- A run of the first character does not change, if the two characters are different. -/
theorem replacePair_replicate (hab : a ≠ b) (m : ℕ) :
  replacePair a b c (List.replicate m a) = List.replicate m a
  := by
  induction m with
  | zero => rfl
  | succ m ih =>
      cases m with
      | zero => rfl
      | succ m =>
          rw [List.replicate_succ] at ih
          rw [List.replicate_succ, List.replicate_succ, replacePair, if_neg (fun h => hab h.2), ih]

/-- A run of the first character before another one than the second does not change. -/
theorem replacePair_run_of_ne {y : Char} (hab : a ≠ b) (hy : y ≠ b) (m : ℕ) :
  replacePair a b c (List.replicate m a ++ [y]) = List.replicate m a ++ [y]
  := by
  induction m with
  | zero => rfl
  | succ m ih =>
      cases m with
      | zero =>
          rw [List.replicate_succ, List.replicate_zero, List.cons_append, List.nil_append,
            replacePair, if_neg (fun h => hy h.2)]
          rfl
      | succ m =>
          rw [List.replicate_succ, List.cons_append] at ih
          rw [List.replicate_succ, List.replicate_succ, List.cons_append, List.cons_append,
            replacePair, if_neg (fun h => hab h.2), ih]

/-- The last of a run of the first character is replaced, with the second character after it. -/
theorem replacePair_run (hab : a ≠ b) (m : ℕ) :
  replacePair a b c (List.replicate (m + 1) a ++ [b]) = List.replicate m a ++ [c]
  := by
  induction m with
  | zero =>
      rw [List.replicate_succ, List.replicate_zero, List.cons_append, List.nil_append, replacePair,
        if_pos ⟨rfl, rfl⟩]
      rfl
  | succ m ih =>
      rw [List.replicate_succ, List.cons_append] at ih
      rw [List.replicate_succ, List.replicate_succ, List.cons_append, List.cons_append,
        replacePair, if_neg (fun h => hab h.2), ih]
      rfl

/-- Every two of a run of one character are replaced by one. -/
theorem replacePair_self (m : ℕ) {cs : List Char} (hcs : cs.head? ≠ some a) :
  replacePair a a a (List.replicate m a ++ cs)
    = List.replicate ((m + 1) / 2) a ++ replacePair a a a cs
  := by
  induction m using Nat.strong_induction_on with
  | _ m ih =>
      obtain _ | _ | m := m
      · rfl
      · cases cs with
        | nil => rfl
        | cons d cs =>
            have hd : ¬ (a = a ∧ d = a) := by
              rintro ⟨-, rfl⟩
              exact hcs rfl
            rw [List.replicate_succ, List.replicate_zero, List.cons_append, List.nil_append,
              replacePair, if_neg hd]
            rfl
      · have hhalf : (m + 1 + 1 + 1) / 2 = (m + 1) / 2 + 1 := by omega
        rw [List.replicate_succ, List.replicate_succ, List.cons_append, List.cons_append,
          replacePair, if_pos ⟨rfl, rfl⟩, ih m (by omega), hhalf, List.replicate_succ,
          List.cons_append]

end Replace

end Text
