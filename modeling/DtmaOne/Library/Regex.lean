import DtmaOne.Library.Text

/-!
# Backtracking regular expressions

Matchers for the patterns of a backtracking engine, in continuation style: a matcher looks at the
character before the position and at the characters from the position on, and tries its
alternatives in the order in which the engine does.

* `bol k` and `eol k` are `^` and `$` in multi-line mode, followed by `k`.
* `char p k` and `word same w k` match one character, or the characters of a word.
* `star p k` is a greedy repetition of a class, `capture p k` a reluctant one of at least one
  character, in a group.
* `many p k` is a greedy repetition of at least one character of a class, in a group.
* `escapes p q r k` is a greedy repetition `(?:pq|r)*` of two characters or one, in a group.
* `find m` is the first position from the left where `m` matches, and `findAll m` goes on from the
  end of each match.
* `dottedNumber` says whether all of a text matches the pattern of four numbers with dots.

What a class contains is up to the engine; `Engine` lists what any engine is known to do.
-/

universe u

namespace Regex

/-- A white-space character or a line separator. -/
def isSeparator (c : Char) : Bool :=
  Text.isWhitespace c || c.toNat = 0x85

/-- The classes of an engine. -/
structure Engine where
  /-- The class `\s`. -/
  space : Char → Bool
  /-- The line terminators. -/
  lineEnd : Char → Bool
  /-- Equality of characters under `(?i)`. -/
  same : Char → Char → Bool
  space_blank : space ' ' = true
  lineEnd_newline : lineEnd '\n' = true
  lineEnd_blank : lineEnd ' ' = false
  isSeparator_of_space : ∀ c, space c = true → isSeparator c = true
  isSeparator_of_lineEnd : ∀ c, lineEnd c = true → isSeparator c = true
  same_ascii : ∀ a b : Char, a.toNat < 128 → b.toNat < 128 → same a b = (a.toLower == b.toLower)

/-- What is matched at a position: the character before it and the characters from it on. -/
abbrev Matcher (α : Type u) : Type u := Option Char → List Char → Option α

variable {α : Type u}

/-- The end of a pattern. -/
def done : Matcher Unit := fun _ _ => some ()

/-- The position is at the beginning of a line: not at the end of the text, and at the beginning of
the text or after a line terminator, and not within `\r\n`. -/
def Engine.atLineStart (E : Engine) : Option Char → List Char → Bool
  | _, [] => false
  | none, _ :: _ => true
  | some p, c :: _ => E.lineEnd p && !(p = '\r' && c = '\n')

/-- The position is at the end of a line: at the end of the text, or before a line terminator, and
not within `\r\n`. -/
def Engine.atLineEnd (E : Engine) : Option Char → List Char → Bool
  | _, [] => true
  | prev, c :: _ => E.lineEnd c && !(prev = some '\r' && c = '\n')

/-- `^` in multi-line mode. -/
def bol (E : Engine) (k : Matcher α) : Matcher α := fun prev cs =>
  if E.atLineStart prev cs then k prev cs else none

/-- `$` in multi-line mode. -/
def eol (E : Engine) (k : Matcher α) : Matcher α := fun prev cs =>
  if E.atLineEnd prev cs then k prev cs else none

/-- One character of a class. -/
def char (p : Char → Bool) (k : Matcher α) : Matcher α
  | _, [] => none
  | _, c :: cs => if p c then k (some c) cs else none

/-- The characters of a word, one after the other. -/
def word (same : Char → Char → Bool) : List Char → Matcher α → Matcher α
  | [], k => k
  | w :: ws, k => char (same w) (word same ws k)

/-- A greedy repetition of a class. -/
def star (p : Char → Bool) (k : Matcher α) : Matcher α
  | prev, [] => k prev []
  | prev, c :: cs =>
      if p c then (star p k (some c) cs).or (k prev (c :: cs)) else k prev (c :: cs)

/-- A group of at least one character of a class, as few as possible. -/
def capture (p : Char → Bool) (k : Matcher Unit) : Matcher (List Char)
  | _, [] => none
  | _, c :: cs =>
      if p c then
        match k (some c) cs with
        | some _ => some [c]
        | none => (capture p k (some c) cs).map (c :: ·)
      else none

/-- A greedy repetition of a class, at least once and in a group, with what follows it. -/
def many (p : Char → Bool) (k : Matcher α) : Matcher (List Char × α)
  | _, [] => none
  | _, c :: cs =>
      if p c then
        ((many p k (some c) cs).map fun (g, a) => (c :: g, a)).or
          ((k (some c) cs).map fun a => ([c], a))
      else none

/-- A greedy repetition of a character of `p` with one of `q` after it, or of one of `r`, in a group,
with what follows it. -/
def escapes (p q r : Char → Bool) (k : Matcher α) : Matcher (List Char × α)
  | prev, [] => (k prev []).map fun a => ([], a)
  | prev, [c] =>
      (if r c then (escapes p q r k (some c) []).map fun (g, a) => (c :: g, a) else none).or
        ((k prev [c]).map fun a => ([], a))
  | prev, c :: d :: cs =>
      ((if p c && q d then (escapes p q r k (some d) cs).map fun (g, a) => (c :: d :: g, a)
        else none).or
        (if r c then (escapes p q r k (some c) (d :: cs)).map fun (g, a) => (c :: g, a)
        else none)).or
        ((k prev (c :: d :: cs)).map fun a => ([], a))

/-- The end of a pattern, with what follows the match. -/
def rest : Matcher (List Char) := fun _ cs => some cs

/-- The first match from the left. -/
def find (m : Matcher α) : Matcher α
  | prev, [] => m prev []
  | prev, c :: cs => (m prev (c :: cs)).or (find m (some c) cs)

/-- The matches one after the other, in at most `rounds` rounds; a match says where it ends. -/
def findAll {β : Type u} (m : Matcher (β × List Char)) : ℕ → List Char → List β
  | 0, _ => []
  | rounds + 1, cs =>
      match find m none cs with
      | none => []
      | some (b, next) => b :: findAll m rounds next

/-- The search does not look at the character before, if the pattern begins with a character. -/
theorem find_char {p : Char → Bool} {k : Matcher α} (prev prev' : Option Char) (cs : List Char) :
  find (char p k) prev cs = find (char p k) prev' cs
  := by
  cases cs <;> rfl

/-- The search passes over a text at none of whose positions the pattern matches. -/
theorem find_append_of_none {p : Char → Bool} {k : Matcher α} {l cs : List Char}
    (h : ∀ x y, l = x ++ y → y ≠ [] → ∀ prev, char p k prev (y ++ cs) = none)
    (prev : Option Char) :
  find (char p k) prev (l ++ cs) = find (char p k) none cs
  := by
  induction l generalizing prev with
  | nil => apply find_char
  | cons c l ih =>
      have hhere := h [] (c :: l) rfl (List.cons_ne_nil c l) prev
      rw [List.cons_append] at hhere
      rw [List.cons_append, find, hhere, Option.none_or]
      apply ih
      intro x y hl hy
      apply h (c :: x) y (congrArg (c :: ·) hl) hy

/-- The rounds depend on the first match only. -/
theorem findAll_congr {β : Type u} {m : Matcher (β × List Char)} {cs cs' : List Char}
    (h : find m none cs = find m none cs') (n : ℕ) :
  findAll m n cs = findAll m n cs'
  := by
  cases n with
  | zero => rfl
  | succ n => rw [findAll, findAll, h]

theorem findAll_of_none {β : Type u} {m : Matcher (β × List Char)} {cs : List Char}
    (h : find m none cs = none) (n : ℕ) :
  findAll m n cs = []
  := by
  cases n with
  | zero => rfl
  | succ n => rw [findAll, h]

/-! ### Classes -/

theorem space_eq_false {E : Engine} {c : Char} (hc : isSeparator c = false) :
  E.space c = false
  := by
  cases hspace : E.space c with
  | false => rfl
  | true => rw [E.isSeparator_of_space c hspace] at hc; cases hc

theorem lineEnd_eq_false {E : Engine} {c : Char} (hc : isSeparator c = false) :
  E.lineEnd c = false
  := by
  cases hend : E.lineEnd c with
  | false => rfl
  | true => rw [E.isSeparator_of_lineEnd c hend] at hc; cases hc

/-! ### Repetitions -/

theorem star_of_not {p : Char → Bool} {k : Matcher α} {prev : Option Char} {c : Char}
    {cs : List Char} (hc : p c = false) :
  star p k prev (c :: cs) = k prev (c :: cs)
  := by
  rw [star, if_neg (by simp [hc])]

/-- A number of blanks. -/
def blanks (n : ℕ) : List Char := List.replicate n ' '

@[simp]
theorem blanks_zero :
  blanks 0 = []
  := rfl

theorem blanks_succ (n : ℕ) :
  blanks (n + 1) = ' ' :: blanks n
  := List.replicate_succ

/-- A repetition of blanks, if what follows matches after them. -/
theorem star_blanks_of_match {E : Engine} {k : Matcher α} {prev : Option Char} {c : Char}
    {cs : List Char} {a : α} (n : ℕ) (hc : E.space c = false)
    (hk : ∀ prev, k prev (c :: cs) = some a) :
  star E.space k prev (blanks n ++ c :: cs) = some a
  := by
  induction n generalizing prev with
  | zero => rw [blanks_zero, List.nil_append, star_of_not hc, hk]
  | succ n ih =>
      rw [blanks_succ, List.cons_append, star, if_pos E.space_blank, ih, Option.some_or]

/-- A repetition passes over blanks that what follows does not begin with. -/
theorem star_blanks {E : Engine} {k : Matcher α} {prev : Option Char} {cs : List Char} (n : ℕ)
    (hk : ∀ prev cs, k prev (' ' :: cs) = none) :
  star E.space k prev (blanks n ++ cs) = star E.space k (if n = 0 then prev else some ' ') cs
  := by
  induction n generalizing prev with
  | zero => rfl
  | succ n ih =>
      rw [blanks_succ, List.cons_append, star, if_pos E.space_blank, hk, Option.or_none, ih,
        if_neg n.succ_ne_zero, ite_self]

/-- A repetition can be empty. -/
theorem isSome_star {p : Char → Bool} {k : Matcher α} {prev : Option Char} {cs : List Char}
    (hk : (k prev cs).isSome) :
  (star p k prev cs).isSome
  := by
  cases cs with
  | nil => apply hk
  | cons c cs =>
      rw [star]
      split_ifs
      · rw [Option.isSome_or, hk, Bool.or_true]
      · apply hk

/-- A text that can be a captured value: blanks are its only separators, and it neither begins nor
ends with one. -/
structure Plain (v : List Char) : Prop where
  first : ∃ c t, v = c :: t ∧ isSeparator c = false
  last : ∃ t c, v = t ++ [c] ∧ isSeparator c = false
  inner : ∀ c ∈ v, c = ' ' ∨ isSeparator c = false

theorem plain_of_not_isSeparator {v : List Char} (hne : v ≠ [])
    (h : ∀ c ∈ v, isSeparator c = false) :
  Plain v
  := by
  constructor
  · obtain ⟨c, t, rfl⟩ := List.exists_cons_of_ne_nil hne
    exact ⟨c, t, rfl, h c List.mem_cons_self⟩
  · refine ⟨v.dropLast, v.getLast hne, (List.dropLast_concat_getLast hne).symm, ?_⟩
    apply h _ (List.getLast_mem hne)
  · intro c hc
    right
    apply h c hc

theorem lineEnd_of_inner {E : Engine} {c : Char} (hc : c = ' ' ∨ isSeparator c = false) :
  E.lineEnd c = false
  := by
  obtain rfl | hc := hc
  · apply E.lineEnd_blank
  · apply lineEnd_eq_false hc

/-- There is no end of a line before the last character of a text. -/
theorem star_eol_eq_none {E : Engine} {u rest : List Char} {prev : Option Char}
    (hinner : ∀ c ∈ u, c = ' ' ∨ isSeparator c = false)
    (hlast : ∃ t c, u = t ++ [c] ∧ isSeparator c = false) :
  star E.space (eol E done) prev (u ++ rest) = none
  := by
  have heol : ∀ (prev : Option Char) (c : Char) (cs : List Char), E.lineEnd c = false →
      eol E done prev (c :: cs) = none := by
    intro prev c cs hc
    simp [eol, Engine.atLineEnd, hc]
  induction u generalizing prev with
  | nil =>
      obtain ⟨t, c, heq, -⟩ := hlast
      cases t <;> cases heq
  | cons c u ih =>
      have hc := lineEnd_of_inner (E := E) (hinner c List.mem_cons_self)
      rw [List.cons_append, star, heol prev c _ hc, Option.or_none]
      split_ifs with hspace
      · apply ih
        · intro d hd
          apply hinner d (List.mem_cons_of_mem c hd)
        · obtain ⟨t, d, heq, hd⟩ := hlast
          cases t with
          | nil =>
              obtain ⟨rfl, rfl⟩ := List.cons.inj heq
              rw [space_eq_false hd] at hspace
              cases hspace
          | cons a t =>
              obtain ⟨rfl, rfl⟩ := List.cons.inj heq
              exact ⟨t, d, rfl, hd⟩
      · rfl

/-- After blanks there is the end of a line. -/
theorem isSome_star_eol {E : Engine} {rest : List Char} {prev : Option Char} (n : ℕ)
    (hprev : prev ≠ some '\r') (hrest : rest = [] ∨ ∃ r, rest = '\n' :: r) :
  (star E.space (eol E done) prev (blanks n ++ rest)).isSome
  := by
  induction n generalizing prev with
  | zero =>
      apply isSome_star
      obtain rfl | ⟨r, rfl⟩ := hrest
      · rfl
      · simp [eol, Engine.atLineEnd, E.lineEnd_newline, hprev, done]
  | succ n ih =>
      rw [blanks_succ, List.cons_append, star, if_pos E.space_blank, Option.isSome_or,
        ih (by simp), Bool.true_or]

/-- The group up to the end of the line is the whole of a plain text before the blanks at the end of
the line. -/
theorem capture_plain {E : Engine} {v rest : List Char} {prev : Option Char} (n : ℕ)
    (hinner : ∀ c ∈ v, c = ' ' ∨ isSeparator c = false)
    (hlast : ∃ t c, v = t ++ [c] ∧ isSeparator c = false)
    (hrest : rest = [] ∨ ∃ r, rest = '\n' :: r) :
  capture (fun c => !E.lineEnd c) (star E.space (eol E done)) prev (v ++ (blanks n ++ rest))
    = some v
  := by
  induction v generalizing prev with
  | nil =>
      obtain ⟨t, c, heq, -⟩ := hlast
      cases t <;> cases heq
  | cons c v ih =>
      have hc := lineEnd_of_inner (E := E) (hinner c List.mem_cons_self)
      rw [List.cons_append, capture, hc, Bool.not_false, if_pos rfl]
      obtain ⟨t, d, heq, hd⟩ := hlast
      cases t with
      | nil =>
          obtain ⟨rfl, rfl⟩ := List.cons.inj heq
          have hreturn : some c ≠ some '\r' := by
            rintro ⟨⟩
            exact absurd hd (by decide)
          have hend := isSome_star_eol (E := E) n hreturn hrest
          obtain ⟨u, hu⟩ := Option.isSome_iff_exists.mp hend
          rw [List.nil_append, hu]
      | cons a t =>
          obtain ⟨-, hv⟩ := List.cons.inj heq
          have hinner' : ∀ x ∈ v, x = ' ' ∨ isSeparator x = false := by
            intro x hx
            apply hinner x (List.mem_cons_of_mem c hx)
          rw [star_eol_eq_none hinner' ⟨t, d, hv, hd⟩, ih hinner' ⟨t, d, hv, hd⟩]
          rfl

/-- A repetition passes over characters that what follows does not begin with. -/
theorem star_append_of_not {p : Char → Bool} {k : Matcher α} {b cs : List Char} {r : Option α}
    (hb : ∀ c ∈ b, p c = true ∧ ∀ prev cs, k prev (c :: cs) = none)
    (hcs : ∀ c ∈ cs.head?, p c = false) (hk : ∀ prev, k prev cs = r) (prev : Option Char) :
  star p k prev (b ++ cs) = r
  := by
  induction b generalizing prev with
  | nil =>
      cases cs with
      | nil => apply hk
      | cons c cs =>
          rw [List.nil_append, star_of_not (hcs c rfl)]
          apply hk
  | cons c b ih =>
      obtain ⟨hc, hnone⟩ := hb c List.mem_cons_self
      rw [List.cons_append, star, if_pos hc, hnone, Option.or_none]
      apply ih
      intro d hd
      apply hb d (List.mem_cons_of_mem c hd)

/-- A repetition takes all characters of a class, if nothing is asked after it. -/
theorem many_rest {p : Char → Bool} {ds cs : List Char} (hne : ds ≠ [])
    (hds : ∀ c ∈ ds, p c = true) (hcs : ∀ c ∈ cs.head?, p c = false) (prev : Option Char) :
  many p rest prev (ds ++ cs) = some (ds, cs)
  := by
  induction ds generalizing prev with
  | nil => exact absurd rfl hne
  | cons c ds ih =>
      rw [List.cons_append, many, if_pos (hds c List.mem_cons_self)]
      cases ds with
      | nil =>
          cases cs with
          | nil => rfl
          | cons d cs =>
              rw [List.nil_append, many, if_neg (by simp [hcs d rfl])]
              rfl
      | cons d ds =>
          have hall : ∀ x ∈ d :: ds, p x = true := by
            intro x hx
            apply hds x (List.mem_cons_of_mem c hx)
          rw [ih (List.cons_ne_nil d ds) hall]
          rfl

section Escapes

variable {p q r : Char → Bool} {k : Matcher α} {c d : Char} {cs g : List Char} {a : α}

/-- Two characters are taken, if the repetition goes on after them. -/
theorem escapes_pair (hc : p c = true) (hd : q d = true)
    (h : escapes p q r k (some d) cs = some (g, a)) (prev : Option Char) :
  escapes p q r k prev (c :: d :: cs) = some (c :: d :: g, a)
  := by
  rw [escapes, hc, hd, Bool.and_self, if_pos rfl, h, Option.map_some, Option.some_or,
    Option.some_or]

/-- One character is taken, if it cannot be the first of two and the repetition goes on after it. -/
theorem escapes_single (hp : p c = false) (hc : r c = true)
    (h : escapes p q r k (some c) cs = some (g, a)) (prev : Option Char) :
  escapes p q r k prev (c :: cs) = some (c :: g, a)
  := by
  cases cs with
  | nil => rw [escapes, if_pos hc, h, Option.map_some, Option.some_or]
  | cons d cs =>
      rw [escapes, hp, Bool.false_and, if_neg Bool.false_ne_true, Option.none_or, if_pos hc, h,
        Option.map_some, Option.some_or]

/-- The repetition ends at a character it cannot take. -/
theorem escapes_end (hp : p c = false) (hr : r c = false) {prev : Option Char}
    (h : k prev (c :: cs) = some a) :
  escapes p q r k prev (c :: cs) = some ([], a)
  := by
  cases cs with
  | nil => rw [escapes, hr, if_neg Bool.false_ne_true, Option.none_or, h, Option.map_some]
  | cons d cs =>
      rw [escapes, hp, hr, Bool.false_and, if_neg Bool.false_ne_true, if_neg Bool.false_ne_true,
        Option.none_or, Option.none_or, h, Option.map_some]

end Escapes

/-! ### Words -/

/-- A literal matches itself. -/
theorem word_append {l cs : List Char} {k : Matcher α} {r : Option α} (hk : ∀ prev, k prev cs = r)
    (prev : Option Char) :
  word (· == ·) l k prev (l ++ cs) = r
  := by
  induction l generalizing prev with
  | nil => apply hk
  | cons c l ih =>
      rw [word, List.cons_append, char, if_pos (beq_self_eq_true c)]
      apply ih

/-- A literal matches no text that does not begin with it. -/
theorem word_of_not_isPrefix {l cs : List Char} {k : Matcher α} (h : ¬ l <+: cs)
    (prev : Option Char) :
  word (· == ·) l k prev cs = none
  := by
  induction l generalizing cs prev with
  | nil => exact absurd List.nil_prefix h
  | cons c l ih =>
      cases cs with
      | nil => rfl
      | cons d cs =>
          rw [word, char]
          split_ifs with hc
          · apply ih
            intro hl
            apply h
            rw [beq_iff_eq.mp hc]
            exact (List.prefix_cons_inj d).mpr hl
          · rfl

theorem lt_of_isAlphanum {c : Char} (hc : c.isAlphanum) :
  c.toNat < 128
  := by
  delta Char.isAlphanum Char.isAlpha Char.isUpper Char.isLower Char.isDigit at hc
  simp only [Bool.or_eq_true, Bool.and_eq_true, decide_eq_true_eq, UInt32.le_iff_toNat_le] at hc
  change c.val.toNat < 128
  obtain ((⟨-, h⟩ | ⟨-, h⟩) | ⟨-, h⟩) := hc
  · exact Nat.lt_of_le_of_lt h (by decide)
  · exact Nat.lt_of_le_of_lt h (by decide)
  · exact Nat.lt_of_le_of_lt h (by decide)

theorem not_isSeparator_of_isAlphanum {c : Char} (hc : c.isAlphanum) :
  isSeparator c = false
  := by
  have hall : ∀ n < 128, (Char.ofNat n).isAlphanum → isSeparator (Char.ofNat n) = false := by
    decide +kernel
  rw [← Char.ofNat_toNat c] at hc ⊢
  apply hall c.toNat (lt_of_isAlphanum (by rwa [Char.ofNat_toNat] at hc)) hc

theorem isAlphanum_toLower {c : Char} (hc : c.isAlphanum) :
  c.toLower.isAlphanum
  := by
  have hall : ∀ n < 128, (Char.ofNat n).isAlphanum → (Char.ofNat n).toLower.isAlphanum := by
    decide +kernel
  rw [← Char.ofNat_toNat c] at hc ⊢
  apply hall c.toNat (lt_of_isAlphanum (by rwa [Char.ofNat_toNat] at hc)) hc

theorem toLower_ne_of_isAlphanum {a b : Char} (ha : a.isAlphanum)
    (hb : b.toLower.isAlphanum = false) :
  a.toLower ≠ b.toLower
  := by
  intro heq
  rw [← heq, isAlphanum_toLower ha] at hb
  cases hb

/-- The lists differ, up to case, at a place where both are in ASCII. -/
def differ : List Char → List Char → Bool
  | a :: as, b :: bs =>
      (a.toNat < 128 && b.toNat < 128 && a.toLower ≠ b.toLower) || differ as bs
  | _, _ => false

theorem differ_append {w line : List Char} (h : differ w line = true) (rest : List Char) :
  differ w (line ++ rest) = true
  := by
  induction w generalizing line with
  | nil => cases line <;> cases h
  | cons a as ih =>
      cases line with
      | nil => cases h
      | cons b bs =>
          rw [differ, Bool.or_eq_true] at h
          rw [List.cons_append, differ, Bool.or_eq_true]
          obtain hhere | hlater := h
          · left
            apply hhere
          · right
            apply ih hlater

/-- A word is matched by a text with the same letters up to case. -/
theorem word_of_sameLetters {E : Engine} {w l : List Char} {k : Matcher α} {rest : List Char}
    {r : Option α} (hw : ∀ c ∈ w, c.toNat < 128) (hl : ∀ c ∈ l, c.toNat < 128)
    (hsame : w.map Char.toLower = l.map Char.toLower) (hk : ∀ prev, k prev rest = r)
    (prev : Option Char) :
  word E.same w k prev (l ++ rest) = r
  := by
  induction w generalizing l prev with
  | nil =>
      obtain rfl := List.map_eq_nil_iff.mp hsame.symm
      apply hk
  | cons a as ih =>
      cases l with
      | nil => cases hsame
      | cons b bs =>
          obtain ⟨hab, htail⟩ := List.cons.inj hsame
          rw [word, List.cons_append, char, E.same_ascii a b (hw a List.mem_cons_self)
            (hl b List.mem_cons_self), if_pos (beq_iff_eq.mpr hab)]
          apply ih
          · intro c hc
            apply hw c (List.mem_cons_of_mem a hc)
          · intro c hc
            apply hl c (List.mem_cons_of_mem b hc)
          · apply htail

/-- A word is not matched by a text with other letters and digits, if what follows does not begin
with one. -/
theorem word_of_otherLetters {E : Engine} {w l : List Char} {k : Matcher α} {prev : Option Char}
    {d : Char} {rest : List Char} (hw : ∀ c ∈ w, c.isAlphanum) (hl : ∀ c ∈ l, c.isAlphanum)
    (hother : w.map Char.toLower ≠ l.map Char.toLower) (hd : d.toNat < 128)
    (hdelimiter : d.toLower.isAlphanum = false)
    (hk : ∀ prev c cs, c.isAlphanum → k prev (c :: cs) = none) :
  word E.same w k prev (l ++ d :: rest) = none
  := by
  induction w generalizing l prev with
  | nil =>
      cases l with
      | nil => exact absurd rfl hother
      | cons b bs => apply hk prev b _ (hl b List.mem_cons_self)
  | cons a as ih =>
      have ha := hw a List.mem_cons_self
      cases l with
      | nil =>
          rw [word, List.nil_append, char, E.same_ascii a d (lt_of_isAlphanum ha) hd]
          split_ifs with hsame
          · exact absurd (beq_iff_eq.mp hsame) (toLower_ne_of_isAlphanum ha hdelimiter)
          · rfl
      | cons b bs =>
          have hb := hl b List.mem_cons_self
          rw [word, List.cons_append, char, E.same_ascii a b (lt_of_isAlphanum ha)
            (lt_of_isAlphanum hb)]
          split_ifs with hsame
          · apply ih
            · intro c hc
              apply hw c (List.mem_cons_of_mem a hc)
            · intro c hc
              apply hl c (List.mem_cons_of_mem b hc)
            · intro htail
              apply hother
              rw [List.map_cons, List.map_cons, beq_iff_eq.mp hsame, htail]
          · rfl

theorem word_of_differ {E : Engine} {w line : List Char} {k : Matcher α} {prev : Option Char}
    {rest : List Char} (hw : differ w line = true) :
  word E.same w k prev (line ++ rest) = none
  := by
  induction w generalizing line prev with
  | nil => cases line <;> cases hw
  | cons a as ih =>
      cases line with
      | nil => cases hw
      | cons b bs =>
          rw [differ, Bool.or_eq_true] at hw
          rw [word, List.cons_append, char]
          split_ifs with hsame
          · obtain hhere | hlater := hw
            · simp only [Bool.and_eq_true, decide_eq_true_eq, ne_eq] at hhere
              rw [E.same_ascii a b hhere.1.1 hhere.1.2, beq_iff_eq] at hsame
              exact absurd hsame hhere.2
            · apply ih hlater
          · rfl

/-! ### Lines -/

section Lines

variable {E : Engine} {k : Matcher α}

/-- Within a line the search goes on to the next line. -/
theorem find_bol_inside {line rest : List Char} {p : Char} (hp : E.lineEnd p = false)
    (hline : ∀ c ∈ line, E.lineEnd c = false) :
  find (bol E k) (some p) (line ++ '\n' :: rest) = find (bol E k) (some '\n') rest
  := by
  have hstart : ∀ (q : Char) (cs : List Char), E.lineEnd q = false →
      bol E k (some q) cs = none := by
    intro q cs hq
    cases cs with
    | nil => rfl
    | cons c cs => simp [bol, Engine.atLineStart, hq]
  induction line generalizing p with
  | nil => rw [List.nil_append, find, hstart p _ hp, Option.none_or]
  | cons c line ih =>
      rw [List.cons_append, find, hstart p _ hp, Option.none_or]
      apply ih (hline c List.mem_cons_self)
      intro d hd
      apply hline d (List.mem_cons_of_mem c hd)

/-- A line at whose beginning there is no match is passed over. -/
theorem find_bol_line {line rest : List Char} {prev : Option Char}
    (hline : ∀ c ∈ line, E.lineEnd c = false)
    (hno : bol E k prev (line ++ '\n' :: rest) = none) :
  find (bol E k) prev (line ++ '\n' :: rest) = find (bol E k) (some '\n') rest
  := by
  cases line with
  | nil =>
      rw [List.nil_append] at hno
      rw [List.nil_append, find, hno, Option.none_or]
  | cons c line =>
      rw [List.cons_append] at hno
      rw [List.cons_append, find, hno, Option.none_or]
      apply find_bol_inside (hline c List.mem_cons_self)
      intro d hd
      apply hline d (List.mem_cons_of_mem c hd)

/-- The last line of a text is passed over if there is no match at its beginning. -/
theorem find_bol_lastLine {line : List Char} {prev : Option Char}
    (hline : ∀ c ∈ line, E.lineEnd c = false) (hno : bol E k prev line = none) :
  find (bol E k) prev line = none
  := by
  induction line generalizing prev with
  | nil => apply hno
  | cons c line ih =>
      rw [find, hno, Option.none_or]
      apply ih
      · intro d hd
        apply hline d (List.mem_cons_of_mem c hd)
      · cases line with
        | nil => rfl
        | cons d line => simp [bol, Engine.atLineStart, hline c List.mem_cons_self]

theorem find_of_match {m : Matcher α} {prev : Option Char} {cs : List Char} {a : α}
    (h : m prev cs = some a) :
  find m prev cs = some a
  := by
  cases cs with
  | nil => apply h
  | cons c cs => rw [find, h, Option.some_or]

/-- A blank line before a pattern that begins with a repetition of `\s` does not matter. -/
theorem find_bol_blank {prev : Option Char} {rest : List Char} (n : ℕ)
    (hnil : ∀ prev, k prev [] = none) (hblank : ∀ prev cs, k prev (' ' :: cs) = none)
    (hnewline : ∀ prev cs, k prev ('\n' :: cs) = none) :
  find (bol E (star E.space k)) prev (blanks n ++ '\n' :: rest)
    = find (bol E (star E.space k)) (some '\n') rest
  := by
  have hline : ∀ c ∈ blanks n, E.lineEnd c = false := by
    intro c hc
    rw [List.eq_of_mem_replicate hc]
    apply E.lineEnd_blank
  have hrest : ∀ a, star E.space k (some '\n') rest = some a →
      find (bol E (star E.space k)) (some '\n') rest = some a := by
    intro a ha
    cases rest with
    | nil =>
        rw [star, hnil] at ha
        cases ha
    | cons c rest =>
        apply find_of_match
        rw [bol, Engine.atLineStart, E.lineEnd_newline, if_pos (by simp), ha]
  cases hstart : bol E (star E.space k) prev (blanks n ++ '\n' :: rest) with
  | none => apply find_bol_line hline hstart
  | some a =>
      rw [find_of_match hstart]
      rw [bol] at hstart
      split_ifs at hstart
      rw [star_blanks n hblank, star, hnewline, Option.or_none] at hstart
      split_ifs at hstart
      rw [hrest a hstart]

end Lines

/-! ### Dotted numbers -/

/-- The text matches `\d+\.\d+\.\d+\.\d+`, where `digit` is the class `\d`. -/
def dottedNumber (digit : Char → Bool) (s : String) : Bool :=
  let parts := Text.split '.' s
  parts.length = 4 && parts.all fun p => !p.isEmpty && p.toList.all digit

theorem dottedNumber_empty (digit : Char → Bool) : dottedNumber digit "" = false
  := by
  have hparts : Text.split '.' "" = [""] := by decide +kernel
  rw [dottedNumber, hparts]
  rfl

/-- A text with a character that is neither a digit nor a dot does not match. -/
theorem dottedNumber_eq_false {digit : Char → Bool} {s : String} {c : Char} (hc : c ∈ s.toList)
    (hdot : c ≠ '.') (hdigit : digit c = false) :
  dottedNumber digit s = false
  := by
  have hparts : ['.'].intercalate (s.toList.splitOn '.') = s.toList := List.intercalate_splitOn '.'
  obtain heq | ⟨l, hl, hcl⟩ := Text.mem_of_mem_intercalate (hparts.symm ▸ hc)
  · exact absurd heq hdot
  · rw [dottedNumber, Bool.and_eq_false_iff, List.all_eq_false]
    right
    refine ⟨String.ofList l, List.mem_map_of_mem hl, ?_⟩
    rw [Bool.and_eq_true, List.all_eq_true, String.toList_ofList]
    rintro ⟨-, hall⟩
    rw [hall c hcl] at hdigit
    cases hdigit

end Regex
