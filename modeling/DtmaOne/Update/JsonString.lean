import DtmaOne.Update.ApkAsset

/-!
# The strings of a release

`UpdateChecker.jsonString` searches a JSON text for a key and undoes the escapes of the string after
it, by one replacement after the other.  The first three of them take the second backslash of an
escaped backslash for the beginning of an escape, if the letter of one comes next: what is read is
the string that was written exactly if no backslash in it has the letter `n`, `r` or `t` after it.
-/

namespace Update

namespace UpdateChecker

open Regex JsonSearch Text

/-! ### Reading -/

/-- The classes of an engine, with `.`. -/
structure DotClasses extends Classes where
  dot : Char → Bool
  dot_of_printable : ∀ c : Char, 33 ≤ c.toNat → c.toNat < 127 → dot c = true

/-- `"((?:\\.|[^"\\])*)"` -/
def quotedString (E : DotClasses) : Matcher (List Char × List Char) :=
  char (· == '"') (escapes (· == '\\') E.dot (fun c => c != '"' && c != '\\')
    (char (· == '"') rest))

/-- The replacements of `jsonString`. -/
def unescape (s : List Char) : List Char :=
  replacePair '\\' '\\' '\\' (replacePair '\\' '"' '"' (replacePair '\\' 't' '\t'
    (replacePair '\\' 'r' '\r' (replacePair '\\' 'n' '\n' s))))

/-- `UpdateChecker.jsonString` -/
def jsonString (E : DotClasses) (json : List Char) (key : Key) : Option (List Char) :=
  (find (keyed E.toClasses key (quotedString E)) none json).map fun (g, _) => unescape g

/-! ### Writing -/

/-- A character in a JSON string. -/
def encodeChar (c : Char) : List Char :=
  if c = '"' then ['\\', '"']
  else if c = '\\' then ['\\', '\\']
  else if c = '\n' then ['\\', 'n']
  else if c = '\r' then ['\\', 'r']
  else if c = '\t' then ['\\', 't']
  else [c]

/-- The text of a JSON string, between its quotes. -/
def encode (s : List Char) : List Char := s.flatMap encodeChar

/-- The letters that are taken for escapes after a backslash, and what they are taken for. -/
def misread (c : Char) : Char :=
  if c = 'n' then '\n' else if c = 'r' then '\r' else if c = 't' then '\t' else c

/-- A text with the letters after a backslash misread, also its first one after `backslash`. -/
def misreadAll : Bool → List Char → List Char
  | _, [] => []
  | backslash, c :: cs => (if backslash then misread c else c) :: misreadAll (c == '\\') cs

/-- A backslash has one of the letters after it. -/
def Confused (s : List Char) : Prop := ∃ c, misread c ≠ c ∧ ['\\', c] <:+: s

/-! ### Runs of backslashes -/

/-- The replacements of a text that does not end with a backslash, and of what follows it. -/
theorem unescape_append {u : List Char} (hu : u.getLast? ≠ some '\\') (v : List Char) :
  unescape (u ++ v) = unescape u ++ unescape v
  := by
  have hn := getLast?_replacePair (b := 'n') (c := '\n') (by decide) hu
  have hr := getLast?_replacePair (b := 'r') (c := '\r') (by decide) hn
  have ht := getLast?_replacePair (b := 't') (c := '\t') (by decide) hr
  have hq := getLast?_replacePair (b := '"') (c := '"') (by decide) ht
  rw [unescape, replacePair_append hu, replacePair_append hn, replacePair_append hr,
    replacePair_append ht, replacePair_append hq]
  rfl

/-- The replacements of a run of backslashes. -/
theorem unescape_replicate (m : ℕ) :
  unescape (List.replicate m '\\') = List.replicate ((m + 1) / 2) '\\'
  := by
  have hnil : ([] : List Char).head? ≠ some '\\' := by decide
  have hself := replacePair_self m hnil
  rw [List.append_nil] at hself
  rw [unescape, replacePair_replicate (by decide), replacePair_replicate (by decide),
    replacePair_replicate (by decide), replacePair_replicate (by decide), hself]
  exact List.append_nil _

/-- The last replacement of a run of backslashes before another character. -/
theorem replacePair_backslashes {y : Char} (hy : y ≠ '\\') (m : ℕ) :
  replacePair '\\' '\\' '\\' (List.replicate m '\\' ++ [y])
    = List.replicate ((m + 1) / 2) '\\' ++ [y]
  := by
  have hhead : [y].head? ≠ some '\\' := by
    rw [List.head?_singleton, ne_eq, Option.some_inj]
    exact hy
  exact replacePair_self m hhead

/-- Only the backslashes of a run are replaced, if no escape comes after it. -/
theorem unescape_run_of_ne {y : Char} (hy : y ≠ '\\') (hquote : y ≠ '"') (hletter : misread y = y)
    (m : ℕ) :
  unescape (List.replicate m '\\' ++ [y]) = List.replicate ((m + 1) / 2) '\\' ++ [y]
  := by
  have hn : y ≠ 'n' := by
    rintro rfl
    exact absurd hletter (by decide)
  have hr : y ≠ 'r' := by
    rintro rfl
    exact absurd hletter (by decide)
  have ht : y ≠ 't' := by
    rintro rfl
    exact absurd hletter (by decide)
  rw [unescape, replacePair_run_of_ne (by decide) hn, replacePair_run_of_ne (by decide) hr,
    replacePair_run_of_ne (by decide) ht, replacePair_run_of_ne (by decide) hquote,
    replacePair_backslashes hy]

/-- The letters of escapes, and the quote. -/
def letters : List (Char × Char) := [('n', '\n'), ('r', '\r'), ('t', '\t'), ('"', '"')]

/-- The last backslash of a run and the letter of an escape after it are replaced. -/
theorem unescape_run {c w : Char} (h : (c, w) ∈ letters) (m : ℕ) :
  unescape (List.replicate (m + 1) '\\' ++ [c]) = List.replicate ((m + 1) / 2) '\\' ++ [w]
  := by
  simp only [letters, List.mem_cons, Prod.mk.injEq, List.not_mem_nil, or_false] at h
  obtain ⟨rfl, rfl⟩ | ⟨rfl, rfl⟩ | ⟨rfl, rfl⟩ | ⟨rfl, rfl⟩ := h
  · rw [unescape, replacePair_run (by decide), replacePair_run_of_ne (by decide) (by decide),
      replacePair_run_of_ne (by decide) (by decide), replacePair_run_of_ne (by decide) (by decide),
      replacePair_backslashes (by decide)]
  · rw [unescape, replacePair_run_of_ne (by decide) (by decide), replacePair_run (by decide),
      replacePair_run_of_ne (by decide) (by decide), replacePair_run_of_ne (by decide) (by decide),
      replacePair_backslashes (by decide)]
  · rw [unescape, replacePair_run_of_ne (by decide) (by decide),
      replacePair_run_of_ne (by decide) (by decide), replacePair_run (by decide),
      replacePair_run_of_ne (by decide) (by decide), replacePair_backslashes (by decide)]
  · rw [unescape, replacePair_run_of_ne (by decide) (by decide),
      replacePair_run_of_ne (by decide) (by decide), replacePair_run_of_ne (by decide) (by decide),
      replacePair_run (by decide), replacePair_backslashes (by decide)]

/-- A character other than the backslash is written with the letter of its escape, or as it is. -/
theorem encodeChar_cases {c : Char} (hc : c ≠ '\\') :
  (∃ l, (l, c) ∈ letters ∧ encodeChar c = ['\\', l] ∧ misread c = c)
    ∨ c ≠ '"' ∧ encodeChar c = [c]
  := by
  by_cases hquote : c = '"'
  · left
    subst hquote
    exact ⟨'"', by decide, by decide, by decide⟩
  · by_cases hn : c = '\n'
    · left
      subst hn
      exact ⟨'n', by decide, by decide, by decide⟩
    · by_cases hr : c = '\r'
      · left
        subst hr
        exact ⟨'r', by decide, by decide, by decide⟩
      · by_cases ht : c = '\t'
        · left
          subst ht
          exact ⟨'t', by decide, by decide, by decide⟩
        · right
          use hquote
          rw [encodeChar, if_neg hquote, if_neg hc, if_neg hn, if_neg hr, if_neg ht]

/-- The letters that are misread are those of escapes. -/
theorem mem_letters {c : Char} (hc : misread c ≠ c) :
  (c, misread c) ∈ letters
  := by
  by_cases hn : c = 'n'
  · subst hn
    decide
  · by_cases hr : c = 'r'
    · subst hr
      decide
    · by_cases ht : c = 't'
      · subst ht
        decide
      · rw [misread, if_neg hn, if_neg hr, if_neg ht] at hc
        exact absurd rfl hc

/-- A character other than the backslash, with its escape, after escaped backslashes. -/
theorem unescape_encodeChar {c : Char} (hc : c ≠ '\\') (k : ℕ) :
  unescape (List.replicate (2 * k) '\\' ++ encodeChar c)
    = List.replicate k '\\' ++ [if 0 < k then misread c else c]
  := by
  have hhalf : (2 * k + 1) / 2 = k := by omega
  obtain ⟨l, hl, hencode, hmisread⟩ | ⟨hquote, hencode⟩ := encodeChar_cases hc
  · have hrun : List.replicate (2 * k) '\\' ++ ['\\', l]
        = List.replicate (2 * k + 1) '\\' ++ [l] := by
      rw [List.replicate_succ', List.append_assoc]
      rfl
    rw [hencode, hrun, unescape_run hl, hhalf, hmisread, ite_self]
  · rw [hencode]
    by_cases hmisread : misread c = c
    · rw [unescape_run_of_ne hc hquote hmisread, hhalf, hmisread, ite_self]
    · cases k with
      | zero => rfl
      | succ k =>
          have hdouble : 2 * (k + 1) = (2 * k + 1) + 1 := by omega
          have hhalf' : (2 * k + 1 + 1) / 2 = k + 1 := by omega
          rw [hdouble, unescape_run (mem_letters hmisread), hhalf', if_pos (Nat.succ_pos k)]

/-- A text is read with the letters after a backslash misread. -/
theorem unescape_encode (k : ℕ) (s : List Char) :
  unescape (List.replicate (2 * k) '\\' ++ encode s)
    = List.replicate k '\\' ++ misreadAll (decide (0 < k)) s
  := by
  induction s generalizing k with
  | nil =>
      have hhalf : (2 * k + 1) / 2 = k := by omega
      have hnil : encode [] = [] := rfl
      rw [hnil, List.append_nil, unescape_replicate, hhalf, misreadAll, List.append_nil]
  | cons c cs ih =>
      have hcons : encode (c :: cs) = encodeChar c ++ encode cs := List.flatMap_cons
      rw [hcons, ← List.append_assoc, misreadAll]
      by_cases hc : c = '\\'
      · have hpair : encodeChar c = List.replicate 2 '\\' := by
          rw [hc]
          decide
        have hkeep : misread c = c := by
          rw [hc]
          decide
        have hpos : decide (0 < k + 1) = (c == '\\') := by
          rw [hc]
          exact decide_eq_true (Nat.succ_pos k)
        rw [hpair, List.replicate_append_replicate, ← Nat.mul_succ, ih (k + 1), hpos, hkeep,
          ite_self, List.replicate_succ', List.append_assoc, hc]
        rfl
      · have hlast : (List.replicate (2 * k) '\\' ++ encodeChar c).getLast? ≠ some '\\' := by
          obtain ⟨l, hl, hencode, -⟩ | ⟨-, hencode⟩ := encodeChar_cases hc
          · have hletter : l ≠ '\\' := by
              rintro rfl
              exact absurd hl (by simp [letters])
            simpa [hencode] using hletter
          · simpa [hencode] using hc
        have hrest := ih 0
        have hother : (c == '\\') = decide (0 < 0) := beq_eq_false_iff_ne.mpr hc
        rw [Nat.mul_zero, List.replicate_zero, List.nil_append, List.nil_append] at hrest
        rw [unescape_append hlast, unescape_encodeChar hc, hrest, hother, List.append_assoc]
        simp

theorem confused_cons {c : Char} {cs : List Char} :
  Confused (c :: cs) ↔ (c = '\\' ∧ ∃ d ∈ cs.head?, misread d ≠ d) ∨ Confused cs
  := by
  have hfirst (d : Char) : ['\\', d] <+: c :: cs ↔ c = '\\' ∧ cs.head? = some d := by
    rw [List.cons_prefix_cons, eq_comm, List.head?_eq_some_iff]
    constructor
    · rintro ⟨hc, t, rfl⟩
      exact ⟨hc, t, rfl⟩
    · rintro ⟨hc, t, rfl⟩
      exact ⟨hc, t, rfl⟩
  constructor
  · rintro ⟨d, hd, hinfix⟩
    obtain hprefix | hlater := List.infix_cons_iff.mp hinfix
    · obtain ⟨hc, hhead⟩ := (hfirst d).mp hprefix
      exact Or.inl ⟨hc, d, hhead, hd⟩
    · exact Or.inr ⟨d, hd, hlater⟩
  · rintro (⟨hc, d, hhead, hd⟩ | ⟨d, hd, hlater⟩)
    · exact ⟨d, hd, ((hfirst d).mpr ⟨hc, hhead⟩).isInfix⟩
    · exact ⟨d, hd, List.infix_cons hlater⟩

/-- A text is read as it was written exactly if no letter in it is misread. -/
theorem misreadAll_eq_self_iff (backslash : Bool) (s : List Char) :
  misreadAll backslash s = s
    ↔ (∀ c ∈ s.head?, backslash = true → misread c = c) ∧ ¬ Confused s
  := by
  induction s generalizing backslash with
  | nil =>
      apply iff_of_true rfl
      constructor
      · rintro c ⟨⟩
      · rintro ⟨c, -, hinfix⟩
        rw [List.infix_nil] at hinfix
        cases hinfix
  | cons c cs ih =>
      rw [misreadAll, List.cons.injEq, ih, confused_cons]
      constructor
      · rintro ⟨hhere, hnext, hlater⟩
        constructor
        · rintro d ⟨⟩ rfl
          exact hhere
        · rintro (⟨hc, d, hhead, hd⟩ | hconfused)
          · exact hd (hnext d hhead (beq_iff_eq.mpr hc))
          · exact hlater hconfused
      · rintro ⟨hhere, hnot⟩
        rw [not_or] at hnot
        refine ⟨?_, ?_, hnot.2⟩
        · split_ifs with hbackslash
          · exact hhere c rfl hbackslash
          · rfl
        · intro d hhead hc
          by_contra hd
          exact hnot.1 ⟨beq_iff_eq.mp hc, d, hhead, hd⟩

/-! ### The search -/

/-- A string that is written with escapes is matched, with all of it as the group. -/
theorem quotedString_encode (E : DotClasses) (s cs : List Char) (prev : Option Char) :
  quotedString E prev ('"' :: (encode s ++ '"' :: cs)) = some (encode s, cs)
  := by
  have hdot : ∀ l ∈ ['\\', 'n', 'r', 't', '"'], E.dot l = true := by
    intro l hl
    simp only [List.mem_cons, List.not_mem_nil, or_false] at hl
    obtain rfl | rfl | rfl | rfl | rfl := hl <;> exact E.dot_of_printable _ (by decide) (by decide)
  have hgroup (prev : Option Char) : escapes (· == '\\') E.dot (fun c => c != '"' && c != '\\')
      (char (· == '"') rest) prev (encode s ++ '"' :: cs) = some (encode s, cs) := by
    induction s generalizing prev with
    | nil => exact escapes_end rfl rfl rfl
    | cons c s ih =>
        have hcons : encode (c :: s) = encodeChar c ++ encode s := List.flatMap_cons
        rw [hcons]
        by_cases hc : c = '\\'
        · have hpair : encodeChar c = ['\\', '\\'] := by
            rw [hc]
            decide
          rw [hpair]
          exact escapes_pair rfl (hdot _ (by decide)) (ih _) prev
        · obtain ⟨l, hl, hencode, -⟩ | ⟨hquote, hencode⟩ := encodeChar_cases hc
          · rw [hencode]
            have hmem : l ∈ ['\\', 'n', 'r', 't', '"'] := by
              have hfirst := List.mem_map_of_mem (f := Prod.fst) hl
              exact List.mem_cons_of_mem '\\' hfirst
            exact escapes_pair rfl (hdot l hmem) (ih _) prev
          · rw [hencode]
            exact escapes_single (by simpa using hc) (by simp [hc, hquote]) (ih _) prev
  rw [quotedString, char, if_pos (beq_self_eq_true '"'), hgroup]

theorem ok_pair (l : Char) :
  (Token.string ['\\', l]).Ok
  := by
  intro p q heq
  obtain _ | ⟨x, _ | ⟨y, p⟩⟩ := p
  · cases heq
  · obtain ⟨rfl, -⟩ := List.cons.inj heq
    rfl
  · simp at heq

/-- The quotes of a string that is written with escapes are escaped. -/
theorem ok_encode (s : List Char) :
  (Token.string (encode s)).Ok
  := by
  induction s with
  | nil =>
      intro p q heq
      cases p <;> cases heq
  | cons c s ih =>
      have hcons : encode (c :: s) = encodeChar c ++ encode s := List.flatMap_cons
      rw [hcons]
      apply Token.ok_append _ ih
      by_cases hc : c = '\\'
      · have hpair : encodeChar c = ['\\', '\\'] := by
          rw [hc]
          decide
        rw [hpair]
        exact ok_pair '\\'
      · obtain ⟨l, -, hencode, -⟩ | ⟨hquote, hencode⟩ := encodeChar_cases hc
        · rw [hencode]
          exact ok_pair l
        · rw [hencode]
          intro p q heq
          cases p with
          | nil => exact absurd (List.cons.inj heq).1 hquote
          | cons x p => simp at heq

/-- The string after the first key is read with the letters after a backslash misread. -/
theorem jsonString_eq (E : DotClasses) {key : Key} {before after : List Token} {s : List Char}
    (hwf : Document (before
      ++ (.string key.chars :: .punctuation ':' :: .string (encode s) :: after)))
    (hbefore : Unmatched key before) (b : Blanks) :
  jsonString E (render b (before
      ++ (.string key.chars :: .punctuation ':' :: .string (encode s) :: after))) key
    = some (misreadAll false s)
  := by
  have hhead : (Token.string key.chars :: .punctuation ':' :: .string (encode s) :: after).head?
      ≠ some (.punctuation ':') := by
    rintro ⟨⟩
  obtain ⟨b', hskip⟩ : ∃ b', find (keyed E.toClasses key (quotedString E)) none (render b _) = _ :=
    find_keyed_unmatched hwf hbefore hhead b
  have hblank : ∀ c, JsonSearch.isBlank c = true →
      ∀ prev cs, quotedString E prev (c :: cs) = none := by
    intro c hc
    exact char_of_isBlank (by decide) c hc
  have hread (prev : Option Char) :
      star E.space (quotedString E) prev (render b'.tail.tail (.string (encode s) :: after))
        = some (encode s, render b'.tail.tail.tail after) := by
    apply star_token hblank (ok_encode s)
    rw [Token.chars, List.cons_append, List.append_assoc, List.singleton_append]
    exact quotedString_encode E s _
  have hunescape := unescape_encode 0 s
  rw [Nat.mul_zero, List.replicate_zero, List.nil_append, List.nil_append] at hunescape
  rw [jsonString, hskip, find_keyed_value b' hread, Option.map_some]
  exact congrArg some hunescape

/-- The string that was written is read exactly if no backslash in it has the letter `n`, `r` or
`t` after it. -/
theorem jsonString_eq_iff (E : DotClasses) {key : Key} {before after : List Token} {s : List Char}
    (hwf : Document (before
      ++ (.string key.chars :: .punctuation ':' :: .string (encode s) :: after)))
    (hbefore : Unmatched key before) (b : Blanks) :
  jsonString E (render b (before
      ++ (.string key.chars :: .punctuation ':' :: .string (encode s) :: after))) key
    = some s ↔ ¬ Confused s
  := by
  rw [jsonString_eq E hwf hbefore b, Option.some_inj, misreadAll_eq_self_iff]
  simp

/-! ### A path in the notes of a release -/

/-- No blanks between the tokens. -/
def noBlanks : Blanks where
  before _ := []
  isBlank_of_mem := by rintro _ _ ⟨⟩

/-- The key `body`. -/
def bodyKey : Key where
  chars := ['b', 'o', 'd', 'y']
  ne_nil := by decide
  letters := List.all_eq_true.mp (by decide)

/-- The characters `.` matches. -/
def asciiDot (c : Char) : Bool :=
  !(c.toNat = 0x0a || c.toNat = 0x0d || c.toNat = 0x85 || c.toNat = 0x2028 || c.toNat = 0x2029)

theorem asciiDot_of_printable (c : Char) (hlo : 33 ≤ c.toNat) (hhi : c.toNat < 127) :
  asciiDot c = true
  := by
  simp only [asciiDot, Bool.not_eq_true', Bool.or_eq_false_iff, decide_eq_false_iff_not]
  omega

/-- The classes of ASCII characters, with `.`. -/
def asciiDotClasses : DotClasses where
  toClasses := asciiClasses
  dot := asciiDot
  dot_of_printable := asciiDot_of_printable

theorem document_body (s : List Char) :
  Document ([.punctuation '{']
    ++ [.string bodyKey.chars, .punctuation ':', .string (encode s), .punctuation '}'])
  := by
  have hopen : Fields [.punctuation '{'] := fields_punctuation (by decide) (by decide)
  have hfield := fields_field bodyKey (ok_encode s) (c := '}') (by decide) (by decide)
  exact (fields_append hopen hfield).wellFormed.document

theorem unmatched_open :
  Unmatched bodyKey [.punctuation '{']
  := by
  intro raw _ hinfix
  have hlen := hinfix.length_le
  contradiction

/-- Notes with a quotation, two lines and a path. -/
theorem jsonString_eq_iff_notes :
  let s := ['"', 'n', 'e', 'w', '"', '\n', 'C', ':', '\\', 'd', '\\']
  jsonString asciiDotClasses (render noBlanks ([.punctuation '{']
      ++ [.string bodyKey.chars, .punctuation ':', .string (encode s), .punctuation '}'])) bodyKey
    = some s ↔ ¬ Confused s
  := jsonString_eq_iff asciiDotClasses (document_body _) unmatched_open noBlanks

/-- A path with the letter `n` after a backslash is read with a line break. -/
theorem jsonString_path :
  ¬ ∀ (E : DotClasses) (key : Key) (before after : List Token) (s : List Char) (b : Blanks),
    Document (before
      ++ (.string key.chars :: .punctuation ':' :: .string (encode s) :: after)) →
      Unmatched key before →
        jsonString E (render b (before
          ++ (.string key.chars :: .punctuation ':' :: .string (encode s) :: after))) key = some s
  := by
  intro h
  have hread := h asciiDotClasses bodyKey _ _ ['C', ':', '\\', 'n', 'e', 'w'] noBlanks
    (document_body _) unmatched_open
  rw [jsonString_eq asciiDotClasses (document_body _) unmatched_open, Option.some_inj] at hread
  exact absurd hread (by decide)

end UpdateChecker

end Update
