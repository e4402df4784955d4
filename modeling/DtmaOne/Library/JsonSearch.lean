import DtmaOne.Library.Regex
import Mathlib.Data.List.Chain

/-!
# Searching a JSON text for a key

A program that looks for the values of a key with a regular expression `"key"\s*:\s*…` sees the text
of the JSON document, not its structure.  Here a text is a list of tokens with blanks between them,
and the matches of such an expression are those tokens that follow the key and a colon, if they have
the form the expression asks for.

Every other place where a match could begin is a quote as well: one that is escaped within a string,
or the one that ends a string.  After the first comes a string that ends with a backslash, or a key,
and after the second blanks or punctuation.
-/

namespace JsonSearch

open Regex

/-- The blanks of JSON. -/
def isBlank (c : Char) : Bool :=
  c = ' ' || c = '\t' || c = '\n' || c = '\r'

/-- The punctuation of JSON. -/
def isPunctuation (c : Char) : Bool :=
  c = '{' || c = '}' || c = '[' || c = ']' || c = ':' || c = ','

/-- The classes `\s` and `\d` of an engine. -/
structure Classes where
  space : Char → Bool
  digit : Char → Bool
  space_of_isBlank : ∀ c, isBlank c = true → space c = true
  space_of_printable : ∀ c : Char, 33 ≤ c.toNat → c.toNat < 127 → space c = false
  digit_of_ascii : ∀ c : Char, c.toNat < 127 → digit c = c.isDigit

/-- A token: a string with the text between its quotes, or a number or literal. -/
inductive Token where
  | punctuation (c : Char)
  | string (raw : List Char)
  | word (cs : List Char)
  deriving DecidableEq

/-- The text of a token. -/
def Token.chars : Token → List Char
  | .punctuation c => [c]
  | .string raw => '"' :: (raw ++ ['"'])
  | .word cs => cs

/-- The blanks before the tokens of a text, and after the last one. -/
structure Blanks where
  before : ℕ → List Char
  isBlank_of_mem : ∀ i, ∀ c ∈ before i, isBlank c = true

/-- The blanks after the first token. -/
def Blanks.tail (b : Blanks) : Blanks where
  before i := b.before (i + 1)
  isBlank_of_mem i := b.isBlank_of_mem (i + 1)

/-- The text of a list of tokens. -/
def render : Blanks → List Token → List Char
  | b, [] => b.before 0
  | b, t :: ts => b.before 0 ++ (t.chars ++ render b.tail ts)

/-- A token of a JSON text: a quote within a string is escaped. -/
def Token.Ok : Token → Prop
  | .punctuation c => isPunctuation c = true
  | .string raw => ∀ p q, raw = p ++ '"' :: q → p.getLast? = some '\\'
  | .word cs => cs ≠ [] ∧ ∀ c ∈ cs, 33 ≤ c.toNat ∧ c.toNat < 127 ∧ c ≠ '"'

/-- The second token may follow the first: punctuation follows a value, and no quotes are escaped
in a key. -/
def Token.Before : Token → Token → Prop
  | .string raw, .punctuation c => c = ':' → '"' ∉ raw
  | .word _, .punctuation _ => True
  | .punctuation _, _ => True
  | _, _ => False

/-- The tokens of a JSON text. -/
structure WellFormed (ts : List Token) : Prop where
  ok : ∀ t ∈ ts, t.Ok
  chain : ts.IsChain Token.Before

/-- The second token may follow the first: punctuation follows a value. -/
def Token.Follows : Token → Token → Prop
  | .punctuation _, _ => True
  | _, .punctuation _ => True
  | _, _ => False

/-- The tokens of a JSON text with any keys. -/
structure Document (ts : List Token) : Prop where
  ok : ∀ t ∈ ts, t.Ok
  chain : ts.IsChain Token.Follows

/-- A key, made of letters and underscores. -/
structure Key where
  chars : List Char
  ne_nil : chars ≠ []
  letters : ∀ c ∈ chars, (c.isAlpha || c == '_') = true

/-- The value of a key that is found at the token `t`, before `ts`. -/
def hitAt {β : Type} (key : Key) (value : Token → Option β) : Token → List Token → Option β
  | .string raw, .punctuation c :: t :: _ => if raw = key.chars ∧ c = ':' then value t else none
  | _, _ => none

/-- The values of a key, one after the other, after `skip` tokens. -/
def hits {β : Type} (key : Key) (value : Token → Option β) : ℕ → List Token → List β
  | _, [] => []
  | skip + 1, _ :: ts => hits key value skip ts
  | 0, t :: ts =>
      match hitAt key value t ts with
      | some b => b :: hits key value 2 ts
      | none => hits key value 0 ts

/-! ### The expressions -/

/-- `"key"\s*:\s*`, followed by `v`. -/
def keyed {α : Type} (E : Classes) (key : Key) (v : Matcher α) : Matcher α :=
  char (· == '"') (word (· == ·) key.chars (char (· == '"')
    (star E.space (char (· == ':') (star E.space v)))))

/-- `"(front[^"]+back)"` -/
def quoted (front back : List Char) : Matcher (List Char × List Char) := fun prev cs =>
  (char (· == '"') (word (· == ·) front
    (many (· != '"') (word (· == ·) back (char (· == '"') rest)))) prev cs).map
      fun (g, next) => (front ++ g ++ back, next)

/-- `(\d+)` -/
def number (E : Classes) : Matcher (List Char × List Char) := many E.digit rest

/-- The string has the form `front[^"]+back`. -/
def Fits (front back raw : List Char) : Prop :=
  ∃ g, g ≠ [] ∧ raw = front ++ g ++ back

/-! ### Quotes -/

variable {α : Type} {E : Classes} {key : Key}

/-- A literal and a quote match the text up to the first quote, if it is the literal. -/
theorem word_quote {l a cs : List Char} {k : Matcher α} (hl : '"' ∉ l) (ha : '"' ∉ a)
    (prev : Option Char) :
  word (· == ·) l (char (· == '"') k) prev (a ++ '"' :: cs)
    = if l = a then k (some '"') cs else none
  := by
  induction l generalizing a prev with
  | nil =>
      cases a with
      | nil => rfl
      | cons c a =>
          have hc : ¬ (c == '"') = true := by
            rw [beq_iff_eq]
            rintro rfl
            exact ha List.mem_cons_self
          rw [word, List.cons_append, char, if_neg hc, if_neg (List.cons_ne_nil c a).symm]
  | cons d l ih =>
      rw [List.mem_cons, not_or] at hl
      cases a with
      | nil =>
          have hd : ¬ (d == '"') = true := by
            rw [beq_iff_eq]
            exact Ne.symm hl.1
          rw [word, List.nil_append, char, if_neg hd, if_neg (List.cons_ne_nil d l)]
      | cons c a =>
          rw [List.mem_cons, not_or] at ha
          rw [word, List.cons_append, char]
          by_cases hd : d = c
          · subst hd
            rw [if_pos (beq_self_eq_true d), ih hl.2 ha.2]
            simp only [List.cons.injEq, true_and]
          · rw [if_neg (by simpa using hd), if_neg]
            intro heq
            exact hd (List.cons.inj heq).1

/-- The rest of a quoted expression, from its group on. -/
def groupAndBack (back : List Char) : Matcher (List Char × List Char) :=
  many (· != '"') (word (· == ·) back (char (· == '"') rest))

theorem groupAndBack_cons {back a cs : List Char} {c : Char} (hc : c ≠ '"') (hback : '"' ∉ back)
    (ha : '"' ∉ a) (prev : Option Char) :
  groupAndBack back prev (c :: (a ++ '"' :: cs))
    = ((groupAndBack back (some c) (a ++ '"' :: cs)).map fun (g, next) => (c :: g, next)).or
        (if back = a then some ([c], cs) else none)
  := by
  rw [groupAndBack, many, if_pos (bne_iff_ne.mpr hc), word_quote hback ha]
  split_ifs <;> rfl

/-- There is no match, if what stands before the quote does not end with `back`. -/
theorem groupAndBack_of_not {back a cs : List Char} (hback : '"' ∉ back) (ha : '"' ∉ a)
    (h : ∀ g, g ≠ [] → a ≠ g ++ back) (prev : Option Char) :
  groupAndBack back prev (a ++ '"' :: cs) = none
  := by
  induction a generalizing prev with
  | nil => rfl
  | cons c a ih =>
      rw [List.mem_cons, not_or] at ha
      have hne : ¬ back = a := by
        rintro rfl
        exact h [c] (List.cons_ne_nil c []) rfl
      have hnot : ∀ g, g ≠ [] → a ≠ g ++ back := by
        rintro g - rfl
        exact h (c :: g) (List.cons_ne_nil c g) rfl
      rw [List.cons_append, groupAndBack_cons (Ne.symm ha.1) hback ha.2, ih ha.2 hnot, if_neg hne]
      rfl

/-- The group is all that stands before `back` and the quote. -/
theorem groupAndBack_of_append {g back cs : List Char} (hne : g ≠ []) (hg : '"' ∉ g)
    (hback : '"' ∉ back) (prev : Option Char) :
  groupAndBack back prev (g ++ back ++ '"' :: cs) = some (g, cs)
  := by
  induction g generalizing prev with
  | nil => exact absurd rfl hne
  | cons c g ih =>
      rw [List.mem_cons, not_or] at hg
      have hrest : '"' ∉ g ++ back := by
        rw [List.mem_append, not_or]
        exact ⟨hg.2, hback⟩
      rw [List.cons_append, List.cons_append, groupAndBack_cons (Ne.symm hg.1) hback hrest]
      cases g with
      | nil =>
          have hnot : ∀ g, g ≠ [] → back ≠ g ++ back := by
            intro g hne heq
            exact hne (List.self_eq_append_left.mp heq)
          rw [List.nil_append, groupAndBack_of_not hback hback hnot, if_pos rfl]
          rfl
      | cons d g =>
          rw [ih (List.cons_ne_nil d g) hg.2]
          rfl

/-- A string that has the form is matched, and what is captured is the whole of it. -/
theorem quoted_of_fits {front back raw cs : List Char} (hraw : '"' ∉ raw)
    (h : Fits front back raw) (prev : Option Char) :
  quoted front back prev ('"' :: (raw ++ '"' :: cs)) = some (raw, cs)
  := by
  obtain ⟨g, hne, rfl⟩ := h
  simp only [List.mem_append, not_or] at hraw
  obtain ⟨⟨-, hg⟩, hback⟩ := hraw
  have hmatch : ∀ prev, groupAndBack back prev (g ++ back ++ '"' :: cs) = some (g, cs) :=
    groupAndBack_of_append hne hg hback
  have hword := word_append hmatch (l := front) (some '"')
  rw [List.append_assoc, List.append_assoc, quoted, char, if_pos (beq_self_eq_true '"')]
  rw [List.append_assoc] at hword
  change (word (· == ·) front (groupAndBack back) (some '"') _).map _ = _
  rw [hword]
  simp

/-- A string that has another form is not matched. -/
theorem quoted_of_not_fits {front back raw cs : List Char} (hfront : '"' ∉ front)
    (hback : '"' ∉ back) (hraw : '"' ∉ raw) (h : ¬ Fits front back raw) (prev : Option Char) :
  quoted front back prev ('"' :: (raw ++ '"' :: cs)) = none
  := by
  rw [quoted, char, if_pos (beq_self_eq_true '"')]
  change (word (· == ·) front (groupAndBack back) (some '"') _).map _ = none
  rw [Option.map_eq_none_iff]
  by_cases hprefix : front <+: raw
  · obtain ⟨a, rfl⟩ := hprefix
    rw [List.mem_append, not_or] at hraw
    have hnot : ∀ g, g ≠ [] → a ≠ g ++ back := by
      rintro g hne rfl
      exact h ⟨g, hne, (List.append_assoc front g back).symm⟩
    have hnone : ∀ prev, groupAndBack back prev (a ++ '"' :: cs) = none :=
      groupAndBack_of_not hback hraw.2 hnot
    rw [List.append_assoc]
    apply word_append hnone
  · apply word_of_not_isPrefix
    intro hlong
    have hquote : raw ++ ['"'] <+: raw ++ '"' :: cs := by
      rw [List.prefix_append_right_inj]
      exact (List.prefix_cons_inj '"').mpr List.nil_prefix
    obtain hshort | hover := List.prefix_or_prefix_of_prefix hlong hquote
    · obtain heq | hprefix' := List.prefix_concat_iff.mp hshort
      · apply hfront
        rw [heq]
        exact List.mem_append_right raw (List.mem_singleton.mpr rfl)
      · exact hprefix hprefix'
    · apply hfront
      apply hover.subset
      exact List.mem_append_right raw (List.mem_singleton.mpr rfl)

/-! ### Texts -/

/-- A text with escaped quotes goes on with another one. -/
theorem Token.ok_append {u v : List Char} (hu : (Token.string u).Ok) (hv : (Token.string v).Ok) :
  (Token.string (u ++ v)).Ok
  := by
  intro p q heq
  obtain ⟨z, rfl, hz⟩ | ⟨z, rfl, hz⟩ := List.append_eq_append_iff.mp heq
  · have hlast := hv z q hz
    obtain ⟨t, rfl⟩ := List.getLast?_eq_some_iff.mp hlast
    rw [← List.append_assoc, List.getLast?_concat]
  · cases z with
    | nil => cases hv [] q hz.symm
    | cons d z =>
        obtain ⟨rfl, -⟩ := List.cons.inj hz
        exact hu p z rfl

theorem ne_of_isBlank {c d : Char} (hc : isBlank c = true) (hd : isBlank d = false) :
  c ≠ d
  := by
  rintro rfl
  rw [hc] at hd
  cases hd

theorem char_of_ne {p : Char → Bool} {k : Matcher α} {c : Char} (hc : p c = false)
    (prev : Option Char) (cs : List Char) :
  char p k prev (c :: cs) = none
  := by
  rw [char, if_neg (by simp [hc])]

/-- The tokens after a value begin with punctuation. -/
def AfterValue (ts : List Token) : Prop :=
  ∀ t ∈ ts.head?, ∃ c, t = .punctuation c ∧ isPunctuation c = true

theorem wellFormed_tail {t : Token} {ts : List Token} (h : WellFormed (t :: ts)) :
  WellFormed ts
  := by
  constructor
  · intro u hu
    apply h.ok u (List.mem_cons_of_mem t hu)
  · apply h.chain.tail

theorem Token.follows_of_before {t u : Token} (h : t.Before u) :
  t.Follows u
  := by
  cases t with
  | punctuation c => exact trivial
  | string raw =>
      cases u with
      | punctuation c => exact trivial
      | string raw => cases h
      | word cs => cases h
  | word cs =>
      cases u with
      | punctuation c => exact trivial
      | string raw => cases h
      | word cs => cases h

theorem WellFormed.document {ts : List Token} (h : WellFormed ts) :
  Document ts
  := by
  constructor
  · exact h.ok
  · exact h.chain.imp fun _ _ => Token.follows_of_before

theorem Document.tail {t : Token} {ts : List Token} (h : Document (t :: ts)) :
  Document ts
  := by
  constructor
  · intro u hu
    apply h.ok u (List.mem_cons_of_mem t hu)
  · apply h.chain.tail

theorem Document.afterValue {t : Token} {ts : List Token} (h : Document (t :: ts))
    (ht : ∀ c, t ≠ .punctuation c) :
  AfterValue ts
  := by
  intro u hu
  obtain ⟨ts, rfl⟩ := List.head?_eq_some_iff.mp hu
  have hfollows : t.Follows u := (List.isChain_cons_cons.mp h.chain).1
  have hok : u.Ok := h.ok u (List.mem_cons_of_mem t List.mem_cons_self)
  cases u with
  | punctuation c => exact ⟨c, rfl, hok⟩
  | string raw =>
      cases t with
      | punctuation c => exact absurd rfl (ht c)
      | string raw => cases hfollows
      | word cs => cases hfollows
  | word cs =>
      cases t with
      | punctuation c => exact absurd rfl (ht c)
      | string raw => cases hfollows
      | word cs => cases hfollows

theorem afterValue_of_wellFormed {t : Token} {ts : List Token} (h : WellFormed (t :: ts))
    (ht : ∀ c, t ≠ .punctuation c) :
  AfterValue ts
  := h.document.afterValue ht

theorem space_of_isPunctuation (E : Classes) {c : Char} (hc : isPunctuation c = true) :
  E.space c = false
  := by
  simp only [isPunctuation, Bool.or_eq_true, decide_eq_true_eq] at hc
  apply E.space_of_printable
  · obtain ((((rfl | rfl) | rfl) | rfl) | rfl) | rfl := hc <;> decide
  · obtain ((((rfl | rfl) | rfl) | rfl) | rfl) | rfl := hc <;> decide

/-- Blanks before a character that is none are passed over. -/
theorem star_render {b : Blanks} {k : Matcher α} {cs : List Char} {r : Option α}
    (hblank : ∀ c, isBlank c = true → ∀ prev cs, k prev (c :: cs) = none)
    (hcs : ∀ c ∈ cs.head?, E.space c = false) (hk : ∀ prev, k prev cs = r) (prev : Option Char) :
  star E.space k prev (b.before 0 ++ cs) = r
  := by
  apply star_append_of_not _ hcs hk
  intro c hc
  have hisBlank := b.isBlank_of_mem 0 c hc
  exact ⟨E.space_of_isBlank c hisBlank, hblank c hisBlank⟩

theorem space_of_word (E : Classes) {cs : List Char} (hcs : (Token.word cs).Ok) {c : Char}
    (hc : c ∈ cs) :
  E.space c = false
  := by
  obtain ⟨hlo, hhi, -⟩ := hcs.2 c hc
  apply E.space_of_printable c hlo hhi

/-- A token does not begin with white space. -/
theorem space_of_token (E : Classes) {t : Token} (ht : t.Ok) (cs : List Char) :
  ∀ c ∈ (t.chars ++ cs).head?, E.space c = false
  := by
  cases t with
  | punctuation c =>
      rintro d ⟨⟩
      exact space_of_isPunctuation E ht
  | string raw =>
      rintro d ⟨⟩
      exact E.space_of_printable '"' (by decide) (by decide)
  | word cs =>
      obtain ⟨c, cs, rfl⟩ := List.exists_cons_of_ne_nil ht.1
      rintro d ⟨⟩
      exact space_of_word E ht List.mem_cons_self

/-- The blanks before a token are passed over. -/
theorem star_token {b : Blanks} {k : Matcher α} {t : Token} {ts : List Token} {r : Option α}
    (hblank : ∀ c, isBlank c = true → ∀ prev cs, k prev (c :: cs) = none) (ht : t.Ok)
    (hk : ∀ prev, k prev (t.chars ++ render b.tail ts) = r) (prev : Option Char) :
  star E.space k prev (render b (t :: ts)) = r
  := by
  rw [render]
  exact star_render hblank (space_of_token E ht _) hk prev

/-- The blanks at the end of a text are passed over. -/
theorem star_end {b : Blanks} {k : Matcher α} {r : Option α}
    (hblank : ∀ c, isBlank c = true → ∀ prev cs, k prev (c :: cs) = none)
    (hk : ∀ prev, k prev [] = r) (prev : Option Char) :
  star E.space k prev (render b []) = r
  := by
  rw [render, ← List.append_nil (b.before 0)]
  apply star_render hblank _ hk
  rintro c ⟨⟩

theorem char_of_isBlank {d : Char} (hd : isBlank d = false) {k : Matcher α} (c : Char)
    (hc : isBlank c = true) (prev : Option Char) (cs : List Char) :
  char (· == d) k prev (c :: cs) = none
  := char_of_ne (by simpa using ne_of_isBlank hc hd) prev cs

/-- A colon is found after a key, if there is one. -/
theorem star_colon (b : Blanks) (k : Matcher α) {r : Option α} {ts : List Token}
    (hk : ∀ prev, k prev (render b.tail ts) = r) (prev : Option Char) :
  star E.space (char (· == ':') k) prev (render b (.punctuation ':' :: ts)) = r
  := by
  have hok : (Token.punctuation ':').Ok := rfl
  apply star_token (char_of_isBlank (by decide)) hok
  intro prev
  apply hk

/-- No colon is found after a value. -/
theorem star_colon_of_ne {b : Blanks} {k : Matcher α} {ts : List Token} (hts : AfterValue ts)
    (hne : ts.head? ≠ some (.punctuation ':')) (prev : Option Char) :
  star E.space (char (· == ':') k) prev (render b ts) = none
  := by
  cases ts with
  | nil =>
      apply star_end (char_of_isBlank (by decide))
      intro prev
      rfl
  | cons t ts =>
      obtain ⟨c, rfl, hc⟩ := hts t rfl
      have hok : (Token.punctuation c).Ok := hc
      apply star_token (char_of_isBlank (by decide)) hok
      intro prev
      apply char_of_ne
      rw [beq_eq_false_iff_ne]
      rintro rfl
      exact hne rfl

/-! ### A key in a text -/

/-- The expression `v` reads the value of a token, and may leave some of the token unread. -/
structure Reads {β : Type} (E : Classes) (v : Matcher (β × List Char)) (value : Token → Option β) :
    Prop where
  token : ∀ t ts b, WellFormed (t :: ts) →
    (value t = none ∧ ∀ prev, star E.space v prev (render b (t :: ts)) = none) ∨
      ∃ a w, value t = some a ∧ '"' ∉ w ∧
        ∀ prev, star E.space v prev (render b (t :: ts)) = some (a, w ++ render b.tail ts)
  nothing : ∀ b prev, star E.space v prev (render b []) = none

theorem Key.not_mem (key : Key) {c : Char} (hc : (c.isAlpha || c == '_') = false) :
  c ∉ key.chars
  := by
  intro hmem
  rw [key.letters c hmem] at hc
  cases hc

/-- The expression matches at a quote only if the text up to the next one is the key. -/
theorem keyed_quote {v : Matcher α} {a cs : List Char} (ha : '"' ∉ a) (prev : Option Char) :
  keyed E key v prev ('"' :: (a ++ '"' :: cs))
    = if key.chars = a then star E.space (char (· == ':') (star E.space v)) (some '"') cs
      else none
  := by
  rw [keyed, char, if_pos (beq_self_eq_true '"'), word_quote (key.not_mem (by decide)) ha]

/-- A quote that is escaped within a string follows a backslash, so it does not end a key. -/
theorem keyed_escaped {v : Matcher α} {p q cs : List Char}
    (hok : (Token.string (p ++ q)).Ok) (hq : '"' ∈ q)
    (prev : Option Char) :
  keyed E key v prev ('"' :: (q ++ cs)) = none
  := by
  obtain ⟨a, q, rfl, ha⟩ := List.eq_append_cons_of_mem hq
  have hlast : (p ++ a).getLast? = some '\\' := by
    apply hok (p ++ a) q
    rw [List.append_assoc]
  have hne : ¬ key.chars = a := by
    rintro rfl
    rw [List.getLast?_append_of_ne_nil p key.ne_nil] at hlast
    exact key.not_mem (by decide) (List.mem_of_getLast? hlast)
  rw [List.append_assoc, List.cons_append, keyed_quote ha, if_neg hne]

variable {β : Type} {v : Matcher (β × List Char)} {value : Token → Option β} {t : Token}
  {ts : List Token} {raw : List Char}

/-- After a value comes a blank, or punctuation. -/
theorem head_render (hts : AfterValue ts) (b : Blanks) {c : Char} {cs : List Char}
    (h : render b ts = c :: cs) :
  isBlank c = true ∨ isPunctuation c = true
  := by
  have hblank : ∀ blanks, b.before 0 = c :: blanks → isBlank c = true := by
    intro blanks hblanks
    apply b.isBlank_of_mem 0
    rw [hblanks]
    apply List.mem_cons_self
  cases ts with
  | nil => exact Or.inl (hblank cs h)
  | cons t ts =>
      obtain ⟨d, rfl, hd⟩ := hts t rfl
      rw [render] at h
      cases hblanks : b.before 0 with
      | nil =>
          rw [hblanks] at h
          obtain ⟨rfl, -⟩ := List.cons.inj h
          exact Or.inr hd
      | cons x blanks =>
          rw [hblanks] at h hblank
          obtain ⟨rfl, -⟩ := List.cons.inj h
          exact Or.inl (hblank blanks rfl)

/-- Blanks and punctuation are no letters. -/
theorem Key.not_mem_of_head (key : Key) {c : Char}
    (hc : isBlank c = true ∨ isPunctuation c = true) :
  c ∉ key.chars
  := by
  simp only [isBlank, isPunctuation, Bool.or_eq_true, decide_eq_true_eq] at hc
  obtain (((rfl | rfl) | rfl) | rfl) | ((((rfl | rfl) | rfl) | rfl) | rfl) | rfl := hc <;>
    exact key.not_mem (by decide)

/-- At the quote that ends a string there is no match. -/
theorem keyed_end (hts : AfterValue ts) (b : Blanks) (prev : Option Char) :
  keyed E key v prev ('"' :: render b ts) = none
  := by
  rw [keyed, char, if_pos (beq_self_eq_true '"')]
  apply word_of_not_isPrefix
  rintro ⟨rest, hrest⟩
  obtain ⟨c, cs, hkey⟩ := List.exists_cons_of_ne_nil key.ne_nil
  rw [hkey] at hrest
  apply key.not_mem_of_head (head_render hts b hrest.symm)
  rw [hkey]
  apply List.mem_cons_self

/-- After a key without a value there is no match. -/
theorem star_colon_eq_none (hreads : Reads E v value) (hts : WellFormed ts) (hafter : AfterValue ts)
    (hvalue : ∀ t us, ts = .punctuation ':' :: t :: us → value t = none) (b : Blanks)
    (prev : Option Char) :
  star E.space (char (· == ':') (star E.space v)) prev (render b ts) = none
  := by
  by_cases hcolon : ts.head? = some (.punctuation ':')
  · obtain ⟨us, rfl⟩ := List.head?_eq_some_iff.mp hcolon
    apply star_colon
    intro prev
    cases us with
    | nil => apply hreads.nothing
    | cons t us =>
        have hnone := hvalue t us rfl
        obtain ⟨-, hread⟩ | ⟨a, w, hsome, -⟩ :=
          hreads.token t us b.tail (wellFormed_tail hts)
        · apply hread
        · rw [hnone] at hsome
          cases hsome
  · apply star_colon_of_ne hafter hcolon

/-- There is no match at any position of a string, if nothing is found after it or it neither is the
key nor ends with a quote and the key. -/
theorem keyed_string_eq_none (hwf : Document (.string raw :: ts)) (b : Blanks)
    (hcolon : '"' :: key.chars <:+ '"' :: raw → ∀ prev,
      star E.space (char (· == ':') (star E.space v)) prev (render b ts) = none)
    {x y : List Char} (hxy : '"' :: (raw ++ ['"']) = x ++ y) (hy : y ≠ []) (prev : Option Char) :
  keyed E key v prev (y ++ render b ts) = none
  := by
  have hafter : AfterValue ts := hwf.afterValue (by simp)
  have hok : (Token.string raw).Ok := hwf.ok _ List.mem_cons_self
  cases x with
  | nil =>
      obtain rfl : '"' :: (raw ++ ['"']) = y := hxy
      rw [List.cons_append, List.append_assoc, List.singleton_append]
      by_cases hraw : '"' ∈ raw
      · have hself : (Token.string ([] ++ raw)).Ok := hok
        apply keyed_escaped hself hraw
      · rw [keyed_quote hraw]
        split_ifs with hkey
        · apply hcolon
          rw [hkey]
        · rfl
  | cons c x =>
      obtain ⟨-, hrest⟩ := List.cons.inj hxy
      obtain ⟨z, rfl, hz⟩ | ⟨z, rfl, rfl⟩ := List.append_eq_append_iff.mp hrest
      · cases z with
        | nil =>
            obtain rfl : ['"'] = y := hz
            apply keyed_end hafter
        | cons d z =>
            obtain ⟨-, hempty⟩ := List.cons.inj hz
            exact absurd (List.append_eq_nil_iff.mp hempty.symm).2 hy
      · rw [List.append_assoc, List.singleton_append]
        cases z with
        | nil => apply keyed_end hafter
        | cons d z =>
            by_cases hd : d = '"'
            · subst hd
              rw [List.cons_append]
              by_cases hz : '"' ∈ z
              · have hself : (Token.string ((x ++ ['"']) ++ z)).Ok := by
                  rw [List.append_assoc]
                  apply hok
                apply keyed_escaped hself hz
              · rw [keyed_quote hz]
                split_ifs with hkey
                · apply hcolon
                  rw [hkey]
                  exact ⟨'"' :: x, rfl⟩
                · rfl
            · apply char_of_ne
              simpa using hd

/-- A text without quotes is passed over. -/
theorem find_keyed_append {l cs : List Char} (hl : '"' ∉ l) (prev : Option Char) :
  find (keyed E key v) prev (l ++ cs) = find (keyed E key v) none cs
  := by
  apply find_append_of_none
  intro x y hxy hy prev
  obtain ⟨c, y, rfl⟩ := List.exists_cons_of_ne_nil hy
  apply char_of_ne
  rw [beq_eq_false_iff_ne]
  rintro rfl
  apply hl
  rw [hxy]
  exact List.mem_append_right x List.mem_cons_self

theorem quote_not_mem_before (b : Blanks) (i : ℕ) :
  '"' ∉ b.before i
  := by
  intro hmem
  cases b.isBlank_of_mem i '"' hmem

/-- A token is passed over, if nothing is found after it or it neither is the key nor ends with a
quote and the key. -/
theorem find_keyed_pass (hwf : Document (t :: ts)) (b : Blanks)
    (hcolon : ∀ raw, t = .string raw → '"' :: key.chars <:+ '"' :: raw → ∀ prev,
      star E.space (char (· == ':') (star E.space v)) prev (render b.tail ts) = none) :
  find (keyed E key v) none (render b (t :: ts)) = find (keyed E key v) none (render b.tail ts)
  := by
  rw [render, find_keyed_append (quote_not_mem_before b 0)]
  cases t with
  | punctuation c =>
      apply find_keyed_append
      have hc : isPunctuation c = true := hwf.ok _ List.mem_cons_self
      intro hquote
      rw [← List.mem_singleton.mp hquote] at hc
      cases hc
  | string raw =>
      apply find_append_of_none
      intro x y hxy hy prev
      exact keyed_string_eq_none hwf b.tail (hcolon raw rfl) hxy hy prev
  | word cs =>
      apply find_keyed_append
      have hcs : (Token.word cs).Ok := hwf.ok _ List.mem_cons_self
      intro hquote
      exact (hcs.2 '"' hquote).2.2 rfl

/-- A token without a value is passed over. -/
theorem find_keyed_skip (hreads : Reads E v value) (hwf : WellFormed (t :: ts))
    (hnone : hitAt key value t ts = none) (b : Blanks) :
  find (keyed E key v) none (render b (t :: ts)) = find (keyed E key v) none (render b.tail ts)
  := by
  apply find_keyed_pass hwf.document b
  rintro raw rfl hsuffix
  have hafter : AfterValue ts := afterValue_of_wellFormed hwf (by simp)
  obtain hself | hquote := List.suffix_cons_iff.mp hsuffix
  · obtain ⟨-, rfl⟩ := List.cons.inj hself
    apply star_colon_eq_none hreads (wellFormed_tail hwf) hafter
    rintro t us rfl
    rw [hitAt, if_pos ⟨rfl, rfl⟩] at hnone
    exact hnone
  · apply star_colon_of_ne hafter
    intro hhead
    obtain ⟨us, rfl⟩ := List.head?_eq_some_iff.mp hhead
    have hbefore := (List.isChain_cons_cons.mp hwf.chain).1
    exact hbefore rfl (hquote.subset List.mem_cons_self)

theorem hitAt_eq_some {a : β} (h : hitAt key value t ts = some a) :
  ∃ u us, t = .string key.chars ∧ ts = .punctuation ':' :: u :: us ∧ value u = some a
  := by
  unfold hitAt at h
  split at h
  case h_1 raw c u us =>
    split_ifs at h with hkey
    obtain ⟨rfl, rfl⟩ := hkey
    exact ⟨u, us, rfl, rfl, h⟩
  case h_2 => cases h

/-- A key is found, with what is read after it. -/
theorem find_keyed_value (b : Blanks) {us : List Token} {r : β × List Char}
    (hread : ∀ prev, star E.space v prev (render b.tail.tail us) = some r) :
  find (keyed E key v) none (render b (.string key.chars :: .punctuation ':' :: us)) = some r
  := by
  have hquote : '"' ∉ key.chars := key.not_mem (by decide)
  rw [render, find_keyed_append (quote_not_mem_before b 0)]
  apply find_of_match
  rw [Token.chars, List.cons_append, List.append_assoc, List.singleton_append,
    keyed_quote hquote, if_pos rfl]
  apply star_colon b.tail _ hread

/-- A key with a value is found, with the value. -/
theorem find_keyed_hit (hreads : Reads E v value) {u : Token} {us : List Token}
    (hwf : WellFormed (.string key.chars :: .punctuation ':' :: u :: us)) {a : β}
    (ha : value u = some a) (b : Blanks) :
  ∃ w, '"' ∉ w ∧
    find (keyed E key v) none (render b (.string key.chars :: .punctuation ':' :: u :: us))
      = some (a, w ++ render b.tail.tail.tail us)
  := by
  have hvalue := wellFormed_tail (wellFormed_tail hwf)
  obtain ⟨hnone, -⟩ | ⟨a', w, ha', hw, hread⟩ := hreads.token u us b.tail.tail hvalue
  · rw [hnone] at ha
    cases ha
  · obtain rfl := Option.some.inj (ha.symm.trans ha')
    use w, hw
    exact find_keyed_value b hread

/-- The matches in a text are the values of the key among its tokens. -/
theorem findAll_render (hreads : Reads E v value) (hwf : WellFormed ts) (b : Blanks) {n : ℕ}
    (hn : ts.length ≤ n) :
  findAll (keyed E key v) n (render b ts) = hits key value 0 ts
  := by
  induction hk : ts.length using Nat.strong_induction_on generalizing ts b n with
  | _ k ih =>
      cases ts with
      | nil =>
          apply findAll_of_none
          rw [render, ← List.append_nil (b.before 0),
            find_keyed_append (quote_not_mem_before b 0)]
          rfl
      | cons t ts =>
          rw [List.length_cons] at hn hk
          cases hhit : hitAt key value t ts with
          | none =>
              rw [hits, hhit, findAll_congr (find_keyed_skip hreads hwf hhit b)]
              exact ih ts.length (by omega) (wellFormed_tail hwf) b.tail (by omega) rfl
          | some a =>
              obtain ⟨u, us, rfl, rfl, ha⟩ := hitAt_eq_some hhit
              obtain ⟨w, hw, hfind⟩ := find_keyed_hit hreads hwf ha b
              obtain ⟨n, rfl⟩ : ∃ m, n = m + 1 := ⟨n - 1, by omega⟩
              have hus := wellFormed_tail (wellFormed_tail (wellFormed_tail hwf))
              simp only [List.length_cons] at hk hn
              rw [hits, hhit, findAll, hfind]
              dsimp only
              rw [findAll_congr (find_keyed_append hw none), ih us.length (by omega) hus _ _ rfl]
              · rfl
              · omega

/-- A text has at least as many characters as tokens. -/
theorem length_le_length_render (hwf : ∀ t ∈ ts, t.Ok) (b : Blanks) :
  ts.length ≤ (render b ts).length
  := by
  induction ts generalizing b with
  | nil => apply Nat.zero_le
  | cons t ts ih =>
      have hts := ih (fun u hu => hwf u (List.mem_cons_of_mem t hu)) b.tail
      have ht : 0 < t.chars.length := by
        cases t with
        | punctuation c => apply Nat.zero_lt_one
        | string raw => apply Nat.zero_lt_succ
        | word cs => exact List.length_pos_of_ne_nil (hwf _ List.mem_cons_self).1
      rw [render, List.length_append, List.length_append, List.length_cons]
      omega

/-! ### Fields -/

/-- After these tokens comes a new field, or the end: the last one is punctuation, but no colon. -/
def Closed (ts : List Token) : Prop :=
  ∀ t ∈ ts.getLast?, ∃ c, t = .punctuation c ∧ c ≠ ':'

/-- No field of these tokens has the key. -/
def Silent (key : Key) (ts : List Token) : Prop :=
  ¬ [.string key.chars, .punctuation ':'] <:+: ts

/-- The tokens of a field, with the punctuation after it. -/
def field (key : Key) (t : Token) (c : Char) : List Token :=
  [.string key.chars, .punctuation ':', t, .punctuation c]

theorem closed_of_cons {t : Token} (hne : ts ≠ []) (h : Closed (t :: ts)) :
  Closed ts
  := by
  intro u hu
  apply h
  rw [← List.singleton_append, List.getLast?_append_of_ne_nil _ hne]
  exact hu

/-- Whether a value is found at a token does not depend on what comes after the closed tokens. -/
theorem hitAt_append {t : Token} (h : Closed (t :: ts)) (us : List Token) :
  hitAt key value t (ts ++ us) = hitAt key value t ts
  := by
  cases t with
  | punctuation c => rfl
  | word cs => rfl
  | string raw =>
      match ts with
      | [] =>
          obtain ⟨c, hc, -⟩ := h _ rfl
          cases hc
      | [u] =>
          obtain ⟨c, rfl, hc⟩ := h u rfl
          cases us with
          | nil => rfl
          | cons w us => exact if_neg (fun hkey => hc hkey.2)
      | u :: w :: ts => cases u <;> rfl

/-- The values of a key in closed tokens and in what comes after them. -/
theorem hits_append (h : Closed ts) (us : List Token) :
  hits key value 0 (ts ++ us) = hits key value 0 ts ++ hits key value 0 us
  := by
  induction hk : ts.length using Nat.strong_induction_on generalizing ts with
  | _ k ih =>
      cases ts with
      | nil => rfl
      | cons t ts =>
          rw [List.length_cons] at hk
          rw [List.cons_append, hits, hits, hitAt_append h]
          cases hhit : hitAt key value t ts with
          | none =>
              by_cases hne : ts = []
              · rw [hne]
                rfl
              · exact ih ts.length (by omega) (closed_of_cons hne h) rfl
          | some a =>
              obtain ⟨u, ws, rfl, rfl, -⟩ := hitAt_eq_some hhit
              simp only [List.length_cons] at hk
              have hws : Closed ws := by
                by_cases hne : ws = []
                · rw [hne]
                  rintro t ⟨⟩
                · apply closed_of_cons hne
                  apply closed_of_cons (List.cons_ne_nil u ws)
                  exact closed_of_cons (List.cons_ne_nil _ _) h
              change a :: hits key value 0 (ws ++ us) = a :: (hits key value 0 ws ++ _)
              rw [ih ws.length (by omega) hws rfl]

theorem hits_of_silent (h : Silent key ts) :
  hits key value 0 ts = []
  := by
  induction ts with
  | nil => rfl
  | cons t ts ih =>
      cases hhit : hitAt key value t ts with
      | none =>
          rw [hits, hhit]
          apply ih
          intro hinfix
          exact h (List.infix_cons hinfix)
      | some a =>
          obtain ⟨u, us, rfl, rfl, -⟩ := hitAt_eq_some hhit
          exact absurd ⟨[], u :: us, rfl⟩ h

/-- No field of these tokens has a name that is the key, or that ends with a quote and the key. -/
def Unmatched (key : Key) (ts : List Token) : Prop :=
  ∀ raw, '"' :: key.chars <:+ '"' :: raw → ¬ [.string raw, .punctuation ':'] <:+: ts

/-- Tokens without a field that matches the key are passed over. -/
theorem find_keyed_unmatched {us : List Token} (hwf : Document (ts ++ us)) (hts : Unmatched key ts)
    (hus : us.head? ≠ some (.punctuation ':')) (b : Blanks) :
  ∃ b', find (keyed E key v) none (render b (ts ++ us))
    = find (keyed E key v) none (render b' us)
  := by
  induction ts generalizing b with
  | nil => exact ⟨b, rfl⟩
  | cons t ts ih =>
      have hrest : Unmatched key ts :=
        fun raw hsuffix hinfix => hts raw hsuffix (List.infix_cons hinfix)
      obtain ⟨b', hfind⟩ := ih hwf.tail hrest b.tail
      use b'
      rw [← hfind]
      apply find_keyed_pass hwf b
      rintro raw rfl hsuffix
      apply star_colon_of_ne (hwf.afterValue (by simp))
      intro hhead
      cases ts with
      | nil => exact hus hhead
      | cons u ts =>
          obtain rfl : u = .punctuation ':' := Option.some.inj hhead
          exact hts raw hsuffix ⟨[], ts, rfl⟩

/-- A field holds one value of its key, and none of another. -/
theorem hits_field (k : Key) (t : Token) (c : Char) :
  hits key value 0 (field k t c) = if k.chars = key.chars then (value t).toList else []
  := by
  have hlast : hits key value 0 [t, .punctuation c] = [] := by
    rw [hits]
    cases t <;> rfl
  rw [field, hits, hitAt]
  by_cases hkey : k.chars = key.chars
  · rw [if_pos ⟨hkey, rfl⟩, if_pos hkey]
    cases hvalue : value t with
    | none => exact hlast
    | some a => rfl
  · rw [if_neg (fun h => hkey h.1), if_neg hkey]
    exact hlast

/-- Some of the tokens of a text, up to the end of a field. -/
structure Fields (ts : List Token) : Prop where
  wellFormed : WellFormed ts
  closed : Closed ts

theorem fields_nil :
  Fields []
  where
    wellFormed := ⟨by rintro t ⟨⟩, List.isChain_nil⟩
    closed := by rintro t ⟨⟩

theorem fields_punctuation {c : Char} (hc : isPunctuation c = true) (hne : c ≠ ':') :
  Fields [.punctuation c]
  where
    wellFormed := by
      constructor
      · intro t ht
        obtain rfl := List.mem_singleton.mp ht
        exact hc
      · apply List.isChain_singleton
    closed := by
      rintro t ⟨⟩
      exact ⟨c, rfl, hne⟩

theorem fields_field (key : Key) {t : Token} (ht : t.Ok) {c : Char} (hc : isPunctuation c = true)
    (hne : c ≠ ':') :
  Fields (field key t c)
  where
    wellFormed := by
      have hquote : '"' ∉ key.chars := key.not_mem (by decide)
      constructor
      · intro u hu
        simp only [field, List.mem_cons, List.not_mem_nil, or_false] at hu
        obtain rfl | rfl | rfl | rfl := hu
        · rintro p q heq
          exact absurd (heq ▸ List.mem_append_right p List.mem_cons_self) hquote
        · trivial
        · exact ht
        · exact hc
      · have hbefore : t.Before (.punctuation c) := by
          cases t with
          | punctuation d => trivial
          | string raw => exact fun heq => absurd heq hne
          | word cs => trivial
        simp only [field, List.isChain_cons_cons, List.isChain_singleton, and_true]
        exact ⟨fun _ => hquote, trivial, hbefore⟩
    closed := by
      rintro u ⟨⟩
      exact ⟨c, rfl, hne⟩

theorem fields_append {us : List Token} (hts : Fields ts) (hus : Fields us) :
  Fields (ts ++ us)
  where
    wellFormed := by
      constructor
      · intro t ht
        obtain h | h := List.mem_append.mp ht
        · exact hts.wellFormed.ok t h
        · exact hus.wellFormed.ok t h
      · apply List.isChain_append.mpr
        refine ⟨hts.wellFormed.chain, hus.wellFormed.chain, ?_⟩
        intro t ht u hu
        obtain ⟨c, rfl, -⟩ := hts.closed t ht
        trivial
    closed := by
      by_cases hne : us = []
      · rw [hne, List.append_nil]
        apply hts.closed
      · intro t ht
        rw [List.getLast?_append_of_ne_nil _ hne] at ht
        apply hus.closed t ht

theorem fields_flatten {tss : List (List Token)} (h : ∀ ts ∈ tss, Fields ts) :
  Fields tss.flatten
  := by
  induction tss with
  | nil => exact fields_nil
  | cons ts tss ih =>
      apply fields_append (h ts List.mem_cons_self)
      apply ih
      intro us hus
      exact h us (List.mem_cons_of_mem ts hus)

/-- The values of a key in some fields are those in each of them. -/
theorem hits_flatten {tss : List (List Token)} (h : ∀ ts ∈ tss, Fields ts) :
  hits key value 0 tss.flatten = tss.flatMap (hits key value 0)
  := by
  induction tss with
  | nil => rfl
  | cons ts tss ih =>
      rw [List.flatten_cons, List.flatMap_cons, hits_append (h ts List.mem_cons_self).closed, ih]
      intro us hus
      exact h us (List.mem_cons_of_mem ts hus)

/-! ### Values -/

theorem fits_iff {front back raw : List Char} :
  front <+: raw ∧ back <:+ raw ∧ front.length + back.length < raw.length ↔ Fits front back raw
  := by
  constructor
  · rintro ⟨⟨x, rfl⟩, ⟨y, hy⟩, hlen⟩
    obtain ⟨g, rfl, rfl⟩ | ⟨g, rfl, rfl⟩ := List.append_eq_append_iff.mp hy
    · simp only [List.length_append] at hlen
      omega
    · refine ⟨g, ?_, (List.append_assoc front g back).symm⟩
      rintro rfl
      simp only [List.nil_append, List.length_append] at hlen
      omega
  · rintro ⟨g, hne, rfl⟩
    have hpos := List.length_pos_of_ne_nil hne
    refine ⟨⟨g ++ back, (List.append_assoc front g back).symm⟩, List.suffix_append _ back, ?_⟩
    simp only [List.length_append]
    omega

instance (front back raw : List Char) : Decidable (Fits front back raw) :=
  decidable_of_iff _ fits_iff

/-- The value of a string of the form `front[^"]+back`. -/
def quotedValue (front back : List Char) : Token → Option (List Char)
  | .string raw => if '"' ∉ raw ∧ Fits front back raw then some raw else none
  | _ => none

/-- The value of a token that begins with digits. -/
def numberValue (E : Classes) : Token → Option (List Char)
  | .word cs => if cs.takeWhile E.digit = [] then none else some (cs.takeWhile E.digit)
  | _ => none

theorem quoted_of_ne {front back : List Char} {c : Char} (hc : c ≠ '"') (prev : Option Char)
    (cs : List Char) :
  quoted front back prev (c :: cs) = none
  := by
  rw [quoted, char_of_ne (by simpa using hc)]
  rfl

/-- A quoted expression reads the strings of its form, if `back` does not end with a backslash. -/
theorem reads_quoted (E : Classes) {front back : List Char} (hfront : '"' ∉ front)
    (hback : '"' ∉ back) (hne : back ≠ []) (hlast : '\\' ∉ back) :
  Reads E (quoted front back) (quotedValue front back)
  := by
  have hblank : ∀ c, isBlank c = true → ∀ prev cs, quoted front back prev (c :: cs) = none := by
    intro c hc
    apply quoted_of_ne
    apply ne_of_isBlank hc (by decide)
  constructor
  · intro t ts b hwf
    have hok : t.Ok := hwf.ok _ List.mem_cons_self
    cases t with
    | punctuation c =>
        left
        use rfl
        apply star_token hblank hok
        intro prev
        apply quoted_of_ne
        rintro rfl
        cases hok
    | word cs =>
        left
        use rfl
        apply star_token hblank hok
        intro prev
        obtain ⟨c, cs, rfl⟩ := List.exists_cons_of_ne_nil hok.1
        apply quoted_of_ne
        apply (hok.2 c List.mem_cons_self).2.2
    | string raw =>
        have htext : (Token.string raw).chars ++ render b.tail ts
            = '"' :: (raw ++ '"' :: render b.tail ts) := by
          rw [Token.chars, List.cons_append, List.append_assoc, List.singleton_append]
        by_cases hraw : '"' ∈ raw
        · left
          constructor
          · rw [quotedValue, if_neg (fun h => h.1 hraw)]
          · apply star_token hblank hok
            intro prev
            obtain ⟨a, q, rfl, ha⟩ := List.eq_append_cons_of_mem hraw
            have hescaped : a.getLast? = some '\\' := hok a q rfl
            have hnot : ¬ Fits front back a := by
              rintro ⟨g, -, rfl⟩
              rw [List.getLast?_append_of_ne_nil _ hne] at hescaped
              exact hlast (List.mem_of_getLast? hescaped)
            rw [htext, List.append_assoc, List.cons_append]
            apply quoted_of_not_fits hfront hback ha hnot
        · by_cases hfits : Fits front back raw
          · right
            refine ⟨raw, [], ?_, List.not_mem_nil, ?_⟩
            · rw [quotedValue, if_pos ⟨hraw, hfits⟩]
            · apply star_token hblank hok
              rw [htext]
              apply quoted_of_fits hraw hfits
          · left
            constructor
            · rw [quotedValue, if_neg (fun h => hfits h.2)]
            · apply star_token hblank hok
              rw [htext]
              apply quoted_of_not_fits hfront hback hraw hfits
  · intro b prev
    apply star_end hblank
    intro prev
    rfl

theorem digit_of_head (E : Classes) {c : Char} (hc : isBlank c = true ∨ isPunctuation c = true) :
  E.digit c = false
  := by
  simp only [isBlank, isPunctuation, Bool.or_eq_true, decide_eq_true_eq] at hc
  obtain (((rfl | rfl) | rfl) | rfl) | ((((rfl | rfl) | rfl) | rfl) | rfl) | rfl := hc <;>
    exact E.digit_of_ascii _ (by decide)

theorem many_of_not {p : Char → Bool} {k : Matcher α} {c : Char} (hc : p c = false)
    (prev : Option Char) (cs : List Char) :
  many p k prev (c :: cs) = none
  := by
  rw [many, if_neg (by simp [hc])]

theorem reads_number (E : Classes) :
  Reads E (number E) (numberValue E)
  := by
  have hblank : ∀ c, isBlank c = true → ∀ prev cs, number E prev (c :: cs) = none := by
    intro c hc
    exact many_of_not (digit_of_head E (Or.inl hc))
  constructor
  · intro t ts b hwf
    have hok : t.Ok := hwf.ok _ List.mem_cons_self
    cases t with
    | punctuation c =>
        left
        use rfl
        apply star_token hblank hok
        intro prev
        exact many_of_not (digit_of_head E (Or.inr hok)) prev _
    | string raw =>
        left
        use rfl
        apply star_token hblank hok
        intro prev
        exact many_of_not (E.digit_of_ascii '"' (by decide)) prev _
    | word cs =>
        have hafter : AfterValue ts := afterValue_of_wellFormed hwf (by simp)
        by_cases hds : cs.takeWhile E.digit = []
        · left
          constructor
          · rw [numberValue, if_pos hds]
          · apply star_token hblank hok
            intro prev
            obtain ⟨c, cs, rfl⟩ := List.exists_cons_of_ne_nil hok.1
            have hc : E.digit c = false := by
              apply Bool.eq_false_iff.mpr
              intro hdigit
              rw [List.takeWhile_cons_of_pos hdigit] at hds
              cases hds
            exact many_of_not hc prev _
        · right
          refine ⟨cs.takeWhile E.digit, cs.dropWhile E.digit, ?_, ?_, ?_⟩
          · rw [numberValue, if_neg hds]
          · intro hquote
            exact (hok.2 '"' ((List.dropWhile_suffix _).subset hquote)).2.2 rfl
          · apply star_token hblank hok
            intro prev
            have hdigits : ∀ c ∈ cs.takeWhile E.digit, E.digit c = true := by
              intro c hc
              apply List.mem_takeWhile_imp hc
            have hend : ∀ c ∈ (cs.dropWhile E.digit ++ render b.tail ts).head?,
                E.digit c = false := by
              intro c hc
              cases hdrop : cs.dropWhile E.digit with
              | nil =>
                  rw [hdrop, List.nil_append] at hc
                  obtain ⟨rest, hrest⟩ := List.head?_eq_some_iff.mp hc
                  apply digit_of_head E (head_render hafter b.tail hrest)
              | cons d ds =>
                  have hnot := List.head?_dropWhile_not E.digit cs
                  rw [hdrop] at hc hnot
                  obtain rfl : d = c := Option.some.inj hc
                  simpa using hnot
            have hmany := many_rest hds hdigits hend prev
            rw [← List.append_assoc, List.takeWhile_append_dropWhile] at hmany
            apply hmany
  · intro b prev
    apply star_end hblank
    intro prev
    rfl

/-! ### Numbers -/

theorem ok_of_isDigit {ds : List Char} (hne : ds ≠ []) (h : ∀ c ∈ ds, c.isDigit = true) :
  (Token.word ds).Ok
  := by
  use hne
  intro c hc
  have hdigit := h c hc
  simp only [Char.isDigit, Bool.and_eq_true, decide_eq_true_eq] at hdigit
  have hlo : 48 ≤ c.toNat := hdigit.1
  have hhi : c.toNat ≤ 57 := hdigit.2
  refine ⟨by omega, by omega, ?_⟩
  rintro rfl
  cases h '"' hc

/-- The value of digits is all of them. -/
theorem numberValue_of_isDigit (E : Classes) {ds : List Char} (hne : ds ≠ [])
    (h : ∀ c ∈ ds, c.isDigit = true) :
  numberValue E (.word ds) = some ds
  := by
  have hall : ds.takeWhile E.digit = ds := by
    rw [List.takeWhile_eq_self_iff]
    intro c hc
    rw [E.digit_of_ascii c ((ok_of_isDigit hne h).2 c hc).2.1, h c hc]
  rw [numberValue, hall, if_neg hne]

end JsonSearch
