import DtmaOne.Warp.ConfText

/-!
# The sections of an imported configuration

A WireGuard configuration has an `[Interface]` section and at least one `[Peer]` section.
`WarpConfigGenerator.fromConfText` looks for each of the four fields in the whole text and takes the
first line with its name, wherever it stands.  So the fields fit together exactly if these four
lines do: the values of the first two stand in the `[Interface]` section, and the values of the
other two in one `[Peer]` section.
-/

namespace Warp.WarpConfigGenerator

/-! ### Configuration files -/

/-- A key: letters and digits. -/
structure ConfKey where
  text : String
  nonempty : text.toList ≠ []
  letters : ∀ c ∈ text.toList, c.isAlphanum

/-- A value: blanks are its only separators, and it neither begins nor ends with one. -/
structure ConfValue where
  text : String
  plain : Regex.Plain text.toList

/-- A line of a section, with the blanks around its parts. -/
inductive Row where
  | blank (width : ℕ)
  | comment (indent gap : ℕ) (text : ConfValue) (trailing : ℕ)
  | entry (indent : ℕ) (key : ConfKey) (before after : ℕ) (value : ConfValue) (trailing : ℕ)

/-- The kinds of sections. -/
inductive SectionKind where
  | interface
  | peer
  deriving DecidableEq, Repr

/-- A line of a file. -/
inductive Line where
  | header (kind : SectionKind)
  | row (r : Row)

/-- The key is the name of a field; case does not matter. -/
def ConfKey.Is (key : ConfKey) (name : String) : Prop :=
  name.toList.map Char.toLower = key.text.toList.map Char.toLower

instance (key : ConfKey) (name : String) : Decidable (key.Is name) :=
  inferInstanceAs (Decidable (_ = _))

/-- The value that a line gives a field. -/
def Row.value (name : String) : Row → Option String
  | .entry _ key _ _ value _ => if key.Is name then some value.text else none
  | .blank _ | .comment _ _ _ _ => none

/-- The value that a line gives a field. -/
def Line.value (name : String) : Line → Option String
  | .header _ => none
  | .row r => r.value name

/-- A header. -/
def SectionKind.header : SectionKind → String
  | .interface => "[Interface]"
  | .peer => "[Peer]"

/-- The text of a line up to its last blanks. -/
def Line.body : Line → List Char
  | .header kind => kind.header.toList
  | .row (.blank _) => []
  | .row (.comment indent gap text _) =>
      Regex.blanks indent ++ '#' :: (Regex.blanks gap ++ text.text.toList)
  | .row (.entry indent key before after value _) =>
      entryLine indent before after key.text value.text

/-- The number of the last blanks of a line. -/
def Line.trailing : Line → ℕ
  | .header _ => 0
  | .row (.blank width) => width
  | .row (.comment _ _ _ trailing) => trailing
  | .row (.entry _ _ _ _ _ trailing) => trailing

/-- The text of a line. -/
def Line.chars (l : Line) : List Char :=
  l.body ++ Regex.blanks l.trailing

/-- A section. -/
structure ConfSection where
  kind : SectionKind
  rows : List Row

namespace ConfSection

def lines (s : ConfSection) : List Line :=
  .header s.kind :: s.rows.map .row

/-- All values that a section gives a field. -/
def values (s : ConfSection) (name : String) : List String :=
  s.rows.filterMap (Row.value name)

end ConfSection

/-- A file with one `[Interface]` section and at least one `[Peer]` section, in any order. -/
structure ConfFile where
  sections : List ConfSection
  interface : (sections.filter (·.kind = .interface)).length = 1
  peer : ∃ s ∈ sections, s.kind = .peer

namespace ConfFile

def lines (f : ConfFile) : List Line :=
  f.sections.flatMap ConfSection.lines

def text (f : ConfFile) : String :=
  String.ofList (WarpConfigGenerator.lines (f.lines.map Line.chars))

/-- The value in the first line of the file with the name of a field. -/
def first (f : ConfFile) (name : String) : Option String :=
  (f.lines.filterMap (Line.value name)).head?

end ConfFile

/-- The address in the value of the field `Address`. -/
def addressOf (value : String) : String :=
  cidr (Text.trim (Text.substringBefore ',' value))

/-- The private key and the address are values of the `[Interface]` section, and the public key and
the endpoint are values of one `[Peer]` section. -/
def Respects (f : ConfFile) (r : WarpConfig) : Prop :=
  (∃ s ∈ f.sections, s.kind = .interface ∧ r.privateKey ∈ s.values "PrivateKey"
    ∧ r.addressV4 ∈ (s.values "Address").map addressOf) ∧
  (∃ s ∈ f.sections, s.kind = .peer ∧ r.peerPublicKey ∈ s.values "PublicKey"
    ∧ r.endpoint ∈ s.values "Endpoint")

/-- The first lines of the file with the names of the fields fit together: a value of the
`[Interface]` section is in the first line for the private key and an address of it in the first
line for the address, and values of one `[Peer]` section are in the first lines for the public key
and for the endpoint. -/
def ConfFile.Fits (f : ConfFile) : Prop :=
  (∃ s ∈ f.sections, s.kind = .interface ∧ (∃ key ∈ f.first "PrivateKey", key ∈ s.values "PrivateKey")
    ∧ ∃ address ∈ f.first "Address", addressOf address ∈ (s.values "Address").map addressOf) ∧
  (∃ s ∈ f.sections, s.kind = .peer ∧ (∃ key ∈ f.first "PublicKey", key ∈ s.values "PublicKey")
    ∧ ∃ endpoint ∈ f.first "Endpoint", endpoint ∈ s.values "Endpoint")

/-! ### Searching the lines of a file -/

section Search

variable {E : Regex.Engine} {name : String}

/-- The name of a field: letters and digits. -/
structure IsName (name : String) : Prop where
  nonempty : name.toList ≠ []
  letters : ∀ c ∈ name.toList, c.isAlphanum

theorem IsName.differ (hname : IsName name) {c : Char} (hc : c.toNat < 128)
    (hother : c.toLower.isAlphanum = false) (t : List Char) :
  Regex.differ name.toList (c :: t) = true
  := by
  obtain ⟨a, as, heq⟩ := List.exists_cons_of_ne_nil hname.nonempty
  have ha := hname.letters a (by simp [heq])
  rw [heq, Regex.differ]
  simp [Regex.lt_of_isAlphanum ha, hc, Regex.toLower_ne_of_isAlphanum ha hother]

theorem SectionKind.exists_header (kind : SectionKind) :
  ∃ t, kind.header.toList = '[' :: t
  := by
  cases kind with
  | interface => exact ⟨"Interface]".toList, by decide +kernel⟩
  | peer => exact ⟨"Peer]".toList, by decide +kernel⟩

/-- Nothing but blanks and characters that are no separators stands before the last blanks of a
line. -/
theorem Line.inner_body (l : Line) :
  ∀ c ∈ l.body, c = ' ' ∨ Regex.isSeparator c = false
  := by
  have hblanks : ∀ n, ∀ c ∈ Regex.blanks n, c = ' ' ∨ Regex.isSeparator c = false := by
    intro n c hc
    left
    exact List.eq_of_mem_replicate hc
  intro c hc
  cases l with
  | header kind =>
      have hall : (kind.header.toList.all fun c => c = ' ' || !Regex.isSeparator c) = true := by
        cases kind <;> decide +kernel
      simpa using List.all_eq_true.mp hall c hc
  | row r =>
      cases r with
      | blank width => cases hc
      | comment indent gap text trailing =>
          simp only [body, List.mem_append, List.mem_cons] at hc
          obtain hc | rfl | hc | hc := hc
          · apply hblanks indent c hc
          · right
            decide
          · apply hblanks gap c hc
          · apply text.plain.inner c hc
      | entry indent key before after value trailing =>
          simp only [body, entryLine, List.mem_append, List.mem_cons] at hc
          obtain hc | hc | hc | rfl | hc | hc := hc
          · apply hblanks indent c hc
          · right
            apply Regex.not_isSeparator_of_isAlphanum (key.letters c hc)
          · apply hblanks before c hc
          · right
            decide
          · apply hblanks after c hc
          · apply value.plain.inner c hc

theorem Line.last_body {l : Line} (hl : l.body ≠ []) :
  ∃ t c, l.body = t ++ [c] ∧ Regex.isSeparator c = false
  := by
  cases l with
  | header kind =>
      cases kind with
      | interface => exact ⟨"[Interface".toList, ']', by decide +kernel, by decide⟩
      | peer => exact ⟨"[Peer".toList, ']', by decide +kernel, by decide⟩
  | row r =>
      cases r with
      | blank width => exact absurd rfl hl
      | comment indent gap text trailing =>
          obtain ⟨t, c, heq, hc⟩ := text.plain.last
          refine ⟨Regex.blanks indent ++ '#' :: (Regex.blanks gap ++ t), c, ?_, hc⟩
          simp [body, heq]
      | entry indent key before after value trailing =>
          obtain ⟨t, c, heq, hc⟩ := value.plain.last
          refine ⟨Regex.blanks indent ++ (key.text.toList ++ (Regex.blanks before
            ++ '=' :: (Regex.blanks after ++ t))), c, ?_, hc⟩
          simp [body, entryLine, heq]

/-- A line that begins with another character than a letter or a digit. -/
theorem star_word_of_delimiter (hname : IsName name) {k : Regex.Matcher (List Char)} {c : Char}
    (hc : c.toNat < 128) (hother : c.toLower.isAlphanum = false)
    (hsep : Regex.isSeparator c = false) (prev : Option Char) (n : ℕ) (rest : List Char) :
  Regex.star E.space (Regex.word E.same name.toList k) prev (Regex.blanks n ++ c :: rest) = none
  := by
  rw [Regex.star_blanks n, Regex.star_of_not (Regex.space_eq_false hsep), ← List.singleton_append]
  · apply Regex.word_of_differ (hname.differ hc hother [])
  · intro prev cs
    rw [← List.singleton_append]
    apply Regex.word_of_differ (hname.differ (by decide) (by decide) [])

/-- A line with another key. -/
theorem star_word_of_otherKey (hname : IsName name) {key : ConfKey} (hkey : ¬ key.Is name)
    (before : ℕ) (rest : List Char) (k : Regex.Matcher (List Char)) (prev : Option Char) (n : ℕ) :
  Regex.star E.space (Regex.word E.same name.toList
      (Regex.star E.space (Regex.char (E.same '=') k))) prev
      (Regex.blanks n ++ (key.text.toList ++ (Regex.blanks before ++ '=' :: rest))) = none
  := by
  obtain ⟨c, t, hcons⟩ := List.exists_cons_of_ne_nil key.nonempty
  have hc := key.letters c (by simp [hcons])
  have hletter : ∀ prev c cs, c.isAlphanum →
      Regex.star E.space (Regex.char (E.same '=') k) prev (c :: cs) = none := by
    intro prev c cs hc
    have hdiffer := Regex.toLower_ne_of_isAlphanum hc (b := '=') (by decide)
    rw [Regex.star_of_not (Regex.space_eq_false (Regex.not_isSeparator_of_isAlphanum hc)),
      Regex.char, E.same_ascii '=' c (by decide) (Regex.lt_of_isAlphanum hc), if_neg]
    simpa using hdiffer.symm
  have hword : ∀ prev, Regex.word E.same name.toList
      (Regex.star E.space (Regex.char (E.same '=') k)) prev
      (key.text.toList ++ (Regex.blanks before ++ '=' :: rest)) = none := by
    intro prev
    cases before with
    | zero =>
        apply Regex.word_of_otherLetters hname.letters key.letters hkey (by decide) (by decide)
          hletter
    | succ m =>
        apply Regex.word_of_otherLetters hname.letters key.letters hkey (by decide) (by decide)
          hletter
  rw [Regex.star_blanks n]
  · rw [hcons] at hword ⊢
    rw [List.cons_append, Regex.star_of_not
      (Regex.space_eq_false (Regex.not_isSeparator_of_isAlphanum hc))]
    apply hword
  · intro prev cs
    rw [← List.singleton_append]
    apply Regex.word_of_differ (hname.differ (by decide) (by decide) [])

/-- The pattern of a field does not match at a line without a value for it. -/
theorem fieldPattern_body_eq_none (hname : IsName name) {l : Line} (hl : l.body ≠ [])
    (hvalue : l.value name = none) (prev : Option Char) (rest : List Char) :
  fieldPattern E name prev (l.body ++ rest) = none
  := by
  rw [fieldPattern, Regex.bol]
  split_ifs
  · cases l with
    | header kind =>
        obtain ⟨t, ht⟩ := kind.exists_header
        rw [Line.body, ht]
        exact star_word_of_delimiter hname (c := '[') (by decide) (by decide) (by decide) prev 0
          (t ++ rest)
    | row r =>
        cases r with
        | blank width => exact absurd rfl hl
        | comment indent gap text trailing =>
            rw [Line.body, List.append_assoc]
            apply star_word_of_delimiter hname (by decide) (by decide) (by decide)
        | entry indent key before after value trailing =>
            have hkey : ¬ key.Is name := by
              intro hkey
              simp [Line.value, Row.value, hkey] at hvalue
            simp only [Line.body, entryLine, List.append_assoc, List.cons_append]
            apply star_word_of_otherKey hname hkey
  · rfl

/-- The pattern of a field takes the value from a line with one. -/
theorem fieldPattern_body (hname : IsName name) {l : Line} {value : String}
    (hvalue : l.value name = some value) {prev : Option Char}
    (hprev : prev = none ∨ prev = some '\n') (trailing : ℕ) {rest : List Char}
    (hrest : rest = [] ∨ ∃ r, rest = '\n' :: r) :
  fieldPattern E name prev (l.body ++ (Regex.blanks trailing ++ rest)) = some value.toList
  := by
  cases l with
  | header kind => cases hvalue
  | row r =>
      cases r with
      | blank width => cases hvalue
      | comment indent gap text trailing => cases hvalue
      | entry indent key before after v _ =>
          obtain ⟨c, t, hcons⟩ := List.exists_cons_of_ne_nil key.nonempty
          have hc := key.letters c (by simp [hcons])
          by_cases hkey : key.Is name
          · have hv : v.text = value := by
              simpa [Line.value, Row.value, hkey] using hvalue
            rw [← hv]
            apply fieldPattern_entryLine indent before after trailing hprev _ _ hkey _ v.plain hrest
            · intro c hc
              apply Regex.lt_of_isAlphanum (hname.letters c hc)
            · intro c hc
              apply Regex.lt_of_isAlphanum (key.letters c hc)
            · exact ⟨c, t, hcons, Regex.not_isSeparator_of_isAlphanum hc⟩
          · simp [Line.value, Row.value, hkey] at hvalue

theorem Line.lineEnd_chars (l : Line) :
  ∀ c ∈ l.chars, E.lineEnd c = false
  := by
  intro c hc
  obtain hc | hc := List.mem_append.mp hc
  · apply Regex.lineEnd_of_inner (l.inner_body c hc)
  · rw [List.eq_of_mem_replicate hc]
    apply E.lineEnd_blank

/-- The search finds the value in a line, or goes on after it. -/
theorem find_line (hname : IsName name) (l : Line) {prev : Option Char}
    (hprev : prev = none ∨ prev = some '\n') (rest : List Char) :
  Regex.find (fieldPattern E name) prev (l.chars ++ '\n' :: rest)
    = ((l.value name).map String.toList).or (Regex.find (fieldPattern E name) (some '\n') rest)
  := by
  cases hvalue : l.value name with
  | some value =>
      rw [Line.chars, List.append_assoc]
      apply Regex.find_of_match
      apply fieldPattern_body hname hvalue hprev _ (.inr ⟨rest, rfl⟩)
  | none =>
      rw [Option.map_none, Option.none_or]
      by_cases hl : l.body = []
      · rw [Line.chars, hl, List.nil_append]
        apply find_blank (hname.differ (by decide) (by decide) [])
          (hname.differ (by decide) (by decide) [])
      · apply Regex.find_bol_line l.lineEnd_chars
        rw [Line.chars, List.append_assoc]
        apply fieldPattern_body_eq_none hname hl hvalue

/-- The search finds the value in the last line. -/
theorem find_lastLine (hname : IsName name) {l : Line} (hl : l.body ≠ []) {prev : Option Char}
    (hprev : prev = none ∨ prev = some '\n') :
  Regex.find (fieldPattern E name) prev l.body = (l.value name).map String.toList
  := by
  cases hvalue : l.value name with
  | some value =>
      apply Regex.find_of_match
      have hmatch := fieldPattern_body (E := E) hname hvalue hprev 0 (.inl rfl)
      rw [Regex.blanks_zero, List.nil_append, List.append_nil] at hmatch
      apply hmatch
  | none =>
      apply Regex.find_bol_lastLine
      · intro c hc
        apply Regex.lineEnd_of_inner (l.inner_body c hc)
      · have hno := fieldPattern_body_eq_none (E := E) hname hl hvalue prev []
        rw [List.append_nil] at hno
        apply hno

/-- The search finds the value in the first line that has one. -/
theorem find_lines (hname : IsName name) (ls : List Line) {last : Line} (hlast : last.body ≠ [])
    {prev : Option Char} (hprev : prev = none ∨ prev = some '\n') :
  Regex.find (fieldPattern E name) prev (lines (ls.map Line.chars) ++ last.body)
    = ((ls ++ [last]).filterMap (Line.value name)).head?.map String.toList
  := by
  induction ls generalizing prev with
  | nil =>
      rw [List.map_nil, lines, List.flatMap_nil, List.nil_append, List.nil_append,
        find_lastLine hname hlast hprev, List.filterMap_cons]
      cases last.value name <;> rfl
  | cons l ls ih =>
      have htext : lines ((l :: ls).map Line.chars) ++ last.body
          = l.chars ++ '\n' :: (lines (ls.map Line.chars) ++ last.body) := by
        simp [lines]
      rw [htext, find_line hname l hprev, ih (.inr rfl), List.cons_append, List.filterMap_cons]
      cases l.value name <;> rfl

theorem Line.value_of_blank {l : Line} (hl : l.body = []) :
  l.value name = none
  := by
  cases l with
  | header kind => rfl
  | row r =>
      cases r with
      | blank width => rfl
      | comment indent gap text trailing => rfl
      | entry indent key before after value trailing => simp [body, entryLine] at hl

/-- The lines of a file end with one that is not blank, and blank ones. -/
theorem exists_lastLine {ls : List Line} (h : ∃ l ∈ ls, l.body ≠ []) :
  ∃ init last blank, ls = init ++ last :: blank ∧ last.body ≠ [] ∧ ∀ l ∈ blank, l.body = []
  := by
  induction ls using List.reverseRecOn with
  | nil =>
      obtain ⟨l, hl, -⟩ := h
      cases hl
  | append_singleton ls x ih =>
      by_cases hx : x.body = []
      · obtain ⟨l, hl, hbody⟩ := h
        obtain hl | hl := List.mem_append.mp hl
        · obtain ⟨init, last, blank, rfl, hlast, hblank⟩ := ih ⟨l, hl, hbody⟩
          refine ⟨init, last, blank ++ [x], by simp, hlast, ?_⟩
          intro m hm
          obtain hm | hm := List.mem_append.mp hm
          · exact hblank m hm
          · rw [List.mem_singleton.mp hm, hx]
        · rw [List.mem_singleton.mp hl] at hbody
          exact absurd hx hbody
      · exact ⟨ls, x, [], rfl, hx, by simp⟩

theorem isWhitespace_of_blank {l : Line} (hl : l.body = []) :
  ∀ c ∈ l.chars ++ ['\n'], Text.isWhitespace c = true
  := by
  intro c hc
  rw [Line.chars, hl, List.nil_append] at hc
  obtain hc | hc := List.mem_append.mp hc
  · rw [List.eq_of_mem_replicate hc]
    decide
  · rw [List.mem_singleton.mp hc]
    decide

theorem isWhitespace_eq_false {c : Char} (hc : Regex.isSeparator c = false) :
  Text.isWhitespace c = false
  := (Bool.or_eq_false_iff.mp hc).1

/-- The first line of a file is a header. -/
theorem ConfFile.exists_header (f : ConfFile) :
  ∃ kind ls, f.lines = .header kind :: ls
  := by
  obtain ⟨s, hs, -⟩ := f.peer
  obtain ⟨s', ss, heq⟩ := List.exists_cons_of_ne_nil (List.ne_nil_of_mem hs)
  exact ⟨s'.kind, s'.rows.map .row ++ ss.flatMap ConfSection.lines, by
    rw [lines, heq, List.flatMap_cons, ConfSection.lines, List.cons_append]⟩

/-- The text of a file without the white space at its end. -/
theorem ConfFile.trim_text (f : ConfFile) :
  ∃ init last blank, f.lines = init ++ last :: blank ∧ last.body ≠ [] ∧ (∀ l ∈ blank, l.body = [])
    ∧ (Text.trim f.text).toList
      = WarpConfigGenerator.lines (init.map Line.chars) ++ last.body
  := by
  obtain ⟨kind, ls, hheader⟩ := f.exists_header
  obtain ⟨t, ht⟩ := kind.exists_header
  have hbody : (Line.header kind).body ≠ [] := by
    rw [Line.body, ht]
    apply List.cons_ne_nil
  have hmem : .header kind ∈ f.lines := by
    rw [hheader]
    exact List.mem_cons_self
  obtain ⟨init, last, blank, hlines, hlast, hblank⟩ := exists_lastLine ⟨.header kind, hmem, hbody⟩
  refine ⟨init, last, blank, hlines, hlast, hblank, ?_⟩
  have htext : f.text = String.ofList ((WarpConfigGenerator.lines (init.map Line.chars) ++ last.body)
      ++ (Regex.blanks last.trailing ++ '\n' :: WarpConfigGenerator.lines (blank.map Line.chars))) := by
    rw [text, hlines]
    simp [WarpConfigGenerator.lines, Line.chars]
  rw [htext, Text.trim_ofList_append, String.toList_ofList]
  · rw [hheader] at hlines
    cases init with
    | nil =>
        obtain ⟨rfl, -⟩ := List.cons.inj hlines
        exact ⟨'[', t, ht, by decide⟩
    | cons l init =>
        obtain ⟨rfl, -⟩ := List.cons.inj hlines
        refine ⟨'[', t ++ (Regex.blanks 0 ++ ['\n'] ++ (WarpConfigGenerator.lines
          (init.map Line.chars) ++ last.body)), ?_, by decide⟩
        simp [WarpConfigGenerator.lines, Line.chars, Line.body, Line.trailing, ht]
  · obtain ⟨u, c, heq, hc⟩ := Line.last_body hlast
    refine ⟨WarpConfigGenerator.lines (init.map Line.chars) ++ u, c, ?_, isWhitespace_eq_false hc⟩
    rw [heq, List.append_assoc]
  · intro c hc
    obtain hc | hc := List.mem_append.mp hc
    · rw [List.eq_of_mem_replicate hc]
      decide
    · obtain rfl | hc := List.mem_cons.mp hc
      · decide
      · obtain ⟨l, hl, hc⟩ := List.mem_flatMap.mp hc
        obtain ⟨m, hm, rfl⟩ := List.mem_map.mp hl
        apply isWhitespace_of_blank (hblank m hm) c hc

theorem Line.exists_value {l : Line} {value : String} (h : l.value name = some value) :
  ∃ v : ConfValue, v.text = value
  := by
  cases l with
  | header kind => cases h
  | row r =>
      cases r with
      | blank width => cases h
      | comment indent gap text trailing => cases h
      | entry indent key before after v trailing =>
          rw [Line.value, Row.value] at h
          split_ifs at h
          exact ⟨v, Option.some.inj h⟩

/-- A field is read from the first line of the file with its name. -/
theorem ConfFile.field_text (f : ConfFile) (hname : IsName name) :
  field E (Text.trim f.text) name = (f.first name).getD ""
  := by
  obtain ⟨init, last, blank, hlines, hlast, hblank, htext⟩ := f.trim_text
  have hfirst : f.first name = ((init ++ [last]).filterMap (Line.value name)).head? := by
    have hnone : blank.filterMap (Line.value name) = [] := by
      rw [List.filterMap_eq_nil_iff]
      intro l hl
      apply Line.value_of_blank (hblank l hl)
    rw [first, hlines, List.append_cons, List.filterMap_append, hnone, List.append_nil]
  rw [field, htext, find_lines hname init hlast (.inl rfl), ← hfirst]
  cases hvalue : f.first name with
  | none => rfl
  | some value =>
      obtain ⟨l, -, hl⟩ := List.mem_filterMap.mp (List.mem_of_head? hvalue)
      obtain ⟨v, rfl⟩ := Line.exists_value hl
      obtain ⟨c, t, hcons, hc⟩ := v.plain.first
      obtain ⟨u, d, hconcat, hd⟩ := v.plain.last
      have htrim := Text.trim_ofList_append ⟨c, t, hcons, isWhitespace_eq_false hc⟩
        ⟨u, d, hconcat, isWhitespace_eq_false hd⟩ (List.forall_mem_nil _)
      rw [List.append_nil, String.ofList_toList] at htrim
      simp only [Option.map_some, String.ofList_toList, Option.getD_some, htrim]

/-- A field that is not empty is the value in the first line with its name. -/
theorem ConfFile.first_eq_some (f : ConfFile) (hname : IsName name)
    (hne : field E (Text.trim f.text) name ≠ "") :
  f.first name = some (field E (Text.trim f.text) name)
  := by
  rw [f.field_text hname] at hne ⊢
  cases hfirst : f.first name with
  | none =>
      rw [hfirst] at hne
      exact absurd rfl hne
  | some value => rfl

theorem isName_of_all (h : (!name.toList.isEmpty && name.toList.all Char.isAlphanum) = true) :
  IsName name
  := by
  rw [Bool.and_eq_true, List.all_eq_true] at h
  refine ⟨?_, h.2⟩
  intro hnil
  rw [hnil] at h
  cases h.1

end Search

/-! ### Importing a file -/

/-- The fields of an imported configuration. -/
theorem fields_of_fromConfText {platform : TextPlatform} {b : Bootstrap} {text : String}
    {r : WarpConfig} (h : fromConfText platform b text = .ok r) :
  (r.privateKey = field platform.regex (Text.trim text) "PrivateKey"
      ∧ 40 ≤ utf16Length r.privateKey)
    ∧ (r.addressV4 = addressOf (field platform.regex (Text.trim text) "Address")
      ∧ Text.isBlank (Text.trim (Text.substringBefore ','
        (field platform.regex (Text.trim text) "Address"))) = false)
    ∧ (r.peerPublicKey = field platform.regex (Text.trim text) "PublicKey"
      ∧ 40 ≤ utf16Length r.peerPublicKey)
    ∧ (r.endpoint = field platform.regex (Text.trim text) "Endpoint"
      ∧ ':' ∈ r.endpoint.toList)
  := by
  delta fromConfText at h
  simp only [require_bind] at h
  split_ifs at h with hinterface hpeer hprivate haddress hpublic hendpoint
  split at h
  · next conf hconf =>
      rw [Except.ok.inj h] at hconf
      obtain ⟨candidates, rfl⟩ := expandWith_eq_some hconf
      dsimp only [confResult]
      exact ⟨⟨rfl, by simpa using hprivate⟩, ⟨rfl, by simpa using haddress⟩,
        ⟨rfl, by simpa using hpublic⟩, ⟨rfl, by simpa using hendpoint⟩⟩
  · cases h

/-- The four fields are those in the first lines of the file with their names. -/
theorem ConfFile.first_of_fromConfText {platform : TextPlatform} {b : Bootstrap} {f : ConfFile}
    {r : WarpConfig} (h : fromConfText platform b f.text = .ok r) :
  f.first "PrivateKey" = some r.privateKey
    ∧ (∃ address, f.first "Address" = some address ∧ r.addressV4 = addressOf address)
    ∧ f.first "PublicKey" = some r.peerPublicKey ∧ f.first "Endpoint" = some r.endpoint
  := by
  obtain ⟨⟨hprivate, hprivateLength⟩, ⟨haddress, hblank⟩, ⟨hpublic, hpublicLength⟩,
    hendpoint, hcolon⟩ := fields_of_fromConfText h
  have hkey : ∀ key : String, 40 ≤ utf16Length key → key ≠ "" := by
    rintro key hlength rfl
    exact absurd hlength (by decide)
  refine ⟨?_, ⟨_, ?_, haddress⟩, ?_, ?_⟩
  · rw [hprivate] at hprivateLength ⊢
    apply f.first_eq_some (isName_of_all (by decide +kernel)) (hkey _ hprivateLength)
  · apply f.first_eq_some (isName_of_all (by decide +kernel))
    intro hempty
    rw [hempty] at hblank
    exact absurd hblank (by decide +kernel)
  · rw [hpublic] at hpublicLength ⊢
    apply f.first_eq_some (isName_of_all (by decide +kernel)) (hkey _ hpublicLength)
  · rw [hendpoint] at hcolon ⊢
    apply f.first_eq_some (isName_of_all (by decide +kernel))
    intro hempty
    rw [hempty] at hcolon
    cases hcolon

/-- An imported configuration respects the sections of the file exactly if the first lines with the
names of the fields fit together. -/
theorem respects_iff (platform : TextPlatform) (b : Bootstrap) (f : ConfFile) {r : WarpConfig}
    (h : fromConfText platform b f.text = .ok r) :
  Respects f r ↔ f.Fits
  := by
  obtain ⟨hprivate, ⟨address, hfirst, haddress⟩, hpublic, hendpoint⟩ := f.first_of_fromConfText h
  rw [Respects, ConfFile.Fits, hprivate, hfirst, hpublic, hendpoint, haddress]
  simp only [Option.mem_def, Option.some.injEq, exists_eq_left']

/-- The headers of the sections are found in the text. -/
theorem ConfFile.contains_header (platform : TextPlatform) (f : ConfFile) {s : ConfSection}
    (hs : s ∈ f.sections) :
  Text.contains platform.sameIgnoringCase s.kind.header (Text.trim f.text) = true
  := by
  obtain ⟨init, last, blank, hlines, -, hblank, htext⟩ := f.trim_text
  have hmem : .header s.kind ∈ f.lines :=
    List.mem_flatMap.mpr ⟨s, hs, List.mem_cons_self⟩
  rw [hlines] at hmem
  obtain hmem | hmem := List.mem_append.mp hmem
  · obtain ⟨before, after, rfl⟩ := List.append_of_mem hmem
    have happend : (Text.trim f.text).toList
        = WarpConfigGenerator.lines (before.map Line.chars) ++ (s.kind.header.toList
          ++ '\n' :: (WarpConfigGenerator.lines (after.map Line.chars) ++ last.body)) := by
      rw [htext]
      simp [WarpConfigGenerator.lines, Line.chars, Line.body, Line.trailing]
    apply Text.contains_of_eq_append platform.sameIgnoringCase_self happend
  · obtain rfl | hmem := List.mem_cons.mp hmem
    · rw [← List.append_nil (Line.body _)] at htext
      apply Text.contains_of_eq_append platform.sameIgnoringCase_self htext
    · obtain ⟨t, ht⟩ := s.kind.exists_header
      have hbody := hblank _ hmem
      rw [Line.body, ht] at hbody
      cases hbody

/-- A file is imported if the values in the first lines with the names of the fields pass the
checks. -/
theorem ConfFile.exists_fromConfText {platform : TextPlatform} {b : Bootstrap} {f : ConfFile}
    {privateKey address peerPublicKey endpoint : String}
    (hfirst : f.first "PrivateKey" = some privateKey ∧ f.first "Address" = some address
      ∧ f.first "PublicKey" = some peerPublicKey ∧ f.first "Endpoint" = some endpoint)
    (hprivate : 40 ≤ utf16Length privateKey)
    (haddress : Text.isBlank (Text.trim (Text.substringBefore ',' address)) = false)
    (hpublic : 40 ≤ utf16Length peerPublicKey) (hendpoint : ':' ∈ endpoint.toList)
    (hrefused : ¬ Refused platform.toPlatform b endpoint) :
  ∃ r, fromConfText platform b f.text = .ok r
  := by
  have hinterface : Text.contains platform.sameIgnoringCase "[Interface]" (Text.trim f.text)
      = true := by
    obtain ⟨s, hs⟩ := List.length_pos_iff_exists_mem.mp (f.interface ▸ Nat.one_pos)
    obtain ⟨hs, hkind⟩ := List.mem_filter.mp hs
    have hcontains := f.contains_header platform hs
    rwa [of_decide_eq_true hkind] at hcontains
  have hpeer : Text.contains platform.sameIgnoringCase "[Peer]" (Text.trim f.text) = true := by
    obtain ⟨s, hs, hkind⟩ := f.peer
    have hcontains := f.contains_header platform hs
    rwa [hkind] at hcontains
  obtain ⟨hfirst1, hfirst2, hfirst3, hfirst4⟩ := hfirst
  have hfield : ∀ name value, IsName name → f.first name = some value →
      field platform.regex (Text.trim f.text) name = value := by
    intro name value hname hvalue
    rw [f.field_text hname, hvalue, Option.getD_some]
  have hexpand := (isSome_expandWith_iff platform.toPlatform b (confResult privateKey
    (addressOf address) peerPublicKey endpoint)).mpr hrefused
  obtain ⟨r, hr⟩ := Option.isSome_iff_exists.mp hexpand
  refine ⟨r, ?_⟩
  delta fromConfText
  simp only [require_bind, hinterface, hpeer,
    hfield _ _ (isName_of_all (by decide +kernel)) hfirst1,
    hfield _ _ (isName_of_all (by decide +kernel)) hfirst2,
    hfield _ _ (isName_of_all (by decide +kernel)) hfirst3,
    hfield _ _ (isName_of_all (by decide +kernel)) hfirst4, hprivate, haddress, hpublic, hendpoint,
    decide_true, Bool.not_false, if_true]
  rw [addressOf] at hr
  rw [hr]

/-- A key, by inspection. -/
def confKey (text : String)
    (h : (!text.toList.isEmpty && text.toList.all Char.isAlphanum) = true) : ConfKey where
  text := text
  nonempty := (isName_of_all h).nonempty
  letters := (isName_of_all h).letters

/-- A value without separators, by inspection. -/
def confValue (text : String)
    (h : (!text.toList.isEmpty && text.toList.all fun c => !Regex.isSeparator c) = true) :
    ConfValue where
  text := text
  plain := by
    rw [Bool.and_eq_true, Bool.not_eq_true', List.isEmpty_eq_false_iff] at h
    apply Regex.plain_of_not_isSeparator h.1 (plain_of_all h.2)

/-- The `[Interface]` section of the samples. -/
def sampleInterface : ConfSection where
  kind := .interface
  rows :=
    [.entry 0 (confKey "PrivateKey" (by decide +kernel)) 1 1
        (confValue sampleKey (by decide +kernel)) 0,
      .entry 0 (confKey "Address" (by decide +kernel)) 1 1
        (confValue "172.16.0.2/32" (by decide +kernel)) 0,
      .blank 0]

/-- A line with a public key. -/
def publicKeyRow (key : ConfValue) : Row :=
  .entry 0 (confKey "PublicKey" (by decide +kernel)) 1 1 key 0

/-- The line with the endpoint of the samples. -/
def endpointRow : Row :=
  .entry 0 (confKey "Endpoint" (by decide +kernel)) 1 1
    (confValue sampleEndpoint (by decide +kernel)) 0

/-- Another key in base 64. -/
def otherKey : ConfValue :=
  confValue "xTIBA5rboUvnH4htodjb6e697QjLERt1NAB4mZqp8Dg=" (by decide +kernel)

/-- A file with one peer. -/
def onePeer : ConfFile where
  sections := [sampleInterface, ⟨.peer, [publicKeyRow otherKey, endpointRow]⟩]
  interface := by decide
  peer := ⟨_, List.mem_cons_of_mem _ List.mem_cons_self, rfl⟩

/-- A file with two peers, of which only the second one has an endpoint. -/
def twoPeers : ConfFile where
  sections :=
    [sampleInterface,
      ⟨.peer, [publicKeyRow (confValue sampleKey (by decide +kernel)), .blank 0]⟩,
      ⟨.peer, [publicKeyRow otherKey, endpointRow]⟩]
  interface := by decide
  peer := ⟨_, List.mem_cons_of_mem _ List.mem_cons_self, rfl⟩

/-- The values in the first lines of the samples. -/
def FirstValues (f : ConfFile) (peerPublicKey : String) : Prop :=
  f.first "PrivateKey" = some sampleKey ∧ f.first "Address" = some "172.16.0.2/32"
    ∧ f.first "PublicKey" = some peerPublicKey ∧ f.first "Endpoint" = some sampleEndpoint

theorem firstValues_onePeer :
  FirstValues onePeer otherKey.text
  := by
  rw [FirstValues]
  decide +kernel

theorem firstValues_twoPeers :
  FirstValues twoPeers sampleKey
  := by
  rw [FirstValues]
  decide +kernel

theorem exists_fromConfText_onePeer :
  ∃ r, fromConfText asciiPlatform silentBootstrap onePeer.text = .ok r
  := by
  apply ConfFile.exists_fromConfText firstValues_onePeer
    (by decide +kernel) (by decide +kernel) (by decide +kernel) (by decide +kernel)
    not_refused_sample

theorem exists_fromConfText_twoPeers :
  ∃ r, fromConfText asciiPlatform silentBootstrap twoPeers.text = .ok r
  := by
  apply ConfFile.exists_fromConfText firstValues_twoPeers
    (by decide +kernel) (by decide +kernel) (by decide +kernel) (by decide +kernel)
    not_refused_sample

theorem fits_onePeer :
  onePeer.Fits
  := by
  obtain ⟨hprivate, haddress, hpublic, hendpoint⟩ := firstValues_onePeer
  constructor
  · refine ⟨sampleInterface, List.mem_cons_self, rfl, ⟨_, hprivate, ?_⟩, ⟨_, haddress, ?_⟩⟩
    · decide +kernel
    · apply List.mem_map_of_mem
      decide +kernel
  · refine ⟨⟨.peer, [publicKeyRow otherKey, endpointRow]⟩,
      List.mem_cons_of_mem _ List.mem_cons_self, rfl, ⟨_, hpublic, ?_⟩, ⟨_, hendpoint, ?_⟩⟩
    · decide +kernel
    · decide +kernel

/-- A file with one peer is imported with its sections. -/
theorem respects_onePeer :
  ∃ r, fromConfText asciiPlatform silentBootstrap onePeer.text = .ok r ∧ Respects onePeer r
  := by
  obtain ⟨r, hr⟩ := exists_fromConfText_onePeer
  exact ⟨r, hr, (respects_iff asciiPlatform silentBootstrap onePeer hr).mpr fits_onePeer⟩

/-- The key of the first peer is imported with the endpoint of the second one. -/
theorem not_respects_twoPeers :
  ∃ r, fromConfText asciiPlatform silentBootstrap twoPeers.text = .ok r ∧ ¬ Respects twoPeers r
  := by
  obtain ⟨r, hr⟩ := exists_fromConfText_twoPeers
  refine ⟨r, hr, ?_⟩
  obtain ⟨-, -, hpublic, hendpoint⟩ := twoPeers.first_of_fromConfText hr
  obtain ⟨-, -, hkey, hep⟩ := firstValues_twoPeers
  rw [hkey] at hpublic
  rw [hep] at hendpoint
  have hnone : ∀ s ∈ twoPeers.sections,
      ¬ (sampleKey ∈ s.values "PublicKey" ∧ sampleEndpoint ∈ s.values "Endpoint") := by
    decide +kernel
  rintro ⟨-, s, hs, -, hpeer⟩
  rw [← Option.some.inj hpublic, ← Option.some.inj hendpoint] at hpeer
  exact hnone s hs hpeer

end Warp.WarpConfigGenerator
