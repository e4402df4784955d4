import DtmaOne.Library.Numeral
import DtmaOne.Library.Text
import DtmaOne.Socks.ConnectVerdict

/-!
# The address ranges of Telegram

`TelegramRanges.isTelegramHost` compares the bytes of an IPv4 address, and the beginning of the text
of an IPv6 address.  The text of three of its prefixes ends in a group of four digits, the one of
`2001:67c:4e8` in a group of three, which is the beginning of a group of four as well: beside its
own block of 48 bits, it is the text of the block `2001:67c:4e80::/44`.
-/

namespace Telegram.Ranges

open Socks (Bytes InetAddress)

/-! ### The test -/

/-- `TelegramRanges.isTelegramV4` -/
def isTelegramV4 (b : Bytes) : Bool :=
  if b.length ≠ 4 then false
  else
    let a := (b.getD 0 0).toNat
    let c := (b.getD 1 0).toNat
    let d := (b.getD 2 0).toNat
    if a = 149 ∧ c = 154 ∧ 160 ≤ d ∧ d ≤ 175 then true
    else if a = 91 ∧ c = 108 then true
    else false

/-- `TelegramRanges.isTelegramV6`, for an address with the given text. -/
def isTelegramV6 (lowercase : String → String) (hostAddress : Option String) : Bool :=
  match hostAddress.map lowercase with
  | none => false
  | some h =>
      h.startsWith "2001:67c:4e8" || h.startsWith "2001:b28:f23d" || h.startsWith "2001:b28:f23f"
        || h.startsWith "2001:b28:f23c"

/-- `TelegramRanges.isTelegramHost` -/
def isTelegramHost (lowercase : String → String) (hostAddress : InetAddress → Option String)
    (addr : InetAddress) : Bool :=
  if addr.address.length = 4 then isTelegramV4 addr.address
  else isTelegramV6 lowercase (hostAddress addr)

/-! ### The text of an address -/

/-- Groups in hexadecimal digits, with colons between them. -/
def groupsText (gs : List ℕ) : List Char := [':'].intercalate (gs.map (Nat.toDigits 16))

/-- A text of groups: all of them, or with a run of zeros left out between two colons. -/
inductive Prints (gs : List ℕ) : List Char → Prop where
  | full : Prints gs (groupsText gs)
  | compressed {before zeros after : List ℕ} (hgs : gs = before ++ (zeros ++ after))
      (hne : zeros ≠ []) (hzeros : ∀ z ∈ zeros, z = 0) :
      Prints gs (groupsText before ++ (':' :: ':' :: groupsText after))

/-- The suffix for the scope of an address, if it has one. -/
def IsScope (scope : List Char) : Prop := scope = [] ∨ ∃ name, scope = '%' :: name

/-- The eight groups of an IPv6 address. -/
def groups : Bytes → List ℕ
  | hi :: lo :: rest => (hi.toNat * 256 + lo.toNat) :: groups rest
  | _ => []

/-- `s.lowercase()`: ASCII characters at the beginning of a string are replaced by their lower
case, whatever follows. -/
def Lowercases (lowercase : String → String) : Prop :=
  ∀ front rest : List Char, (∀ c ∈ front, c.toNat < 128) →
    ∃ rest', lowercase (String.ofList (front ++ rest))
        = String.ofList (front.map Char.toLower ++ rest')
      ∧ (rest = [] → rest' = [])

/-! ### The beginning of a text -/

/-- A group is written without colons and percent signs. -/
theorem not_mem_toDigits {c : Char} (hc : c = ':' ∨ c = '%') (n : ℕ) :
  c ∉ Nat.toDigits 16 n
  := by
  rintro h
  obtain ⟨d, hd, rfl⟩ := Numeral.exists_digitChar_of_mem (by omega) h
  have hall : ∀ i : Fin 16, ¬ (i.val.digitChar = ':' ∨ i.val.digitChar = '%') := by decide
  exact hall ⟨d, hd⟩ hc

theorem groupsText_cons (g g' : ℕ) (gs : List ℕ) :
  groupsText (g :: g' :: gs) = Nat.toDigits 16 g ++ ':' :: groupsText (g' :: gs)
  := by
  rw [groupsText, groupsText, List.map_cons, List.map_cons, List.intercalate_cons_cons,
    List.append_assoc]
  rfl

theorem groupsText_singleton (g : ℕ) :
  groupsText [g] = Nat.toDigits 16 g
  := List.intercalate_singleton

/-- What may follow a group. -/
def Separated (rest : List Char) : Prop := ∀ c t, rest = c :: t → c = ':' ∨ c = '%'

theorem IsScope.separated {scope : List Char} (h : IsScope scope) :
  Separated scope
  := by
  rintro c t rfl
  obtain hnil | ⟨name, hname⟩ := h
  · cases hnil
  · right
    exact (List.cons.inj hname).1

theorem separated_colon (t : List Char) :
  Separated (':' :: t)
  := by
  rintro c t ⟨⟩
  exact Or.inl rfl

/-- The first group of a text is separated from what follows it. -/
theorem exists_groupsText_append (g : ℕ) (gs : List ℕ) {t : List Char} (ht : Separated t) :
  ∃ rest, Separated rest ∧ groupsText (g :: gs) ++ t = Nat.toDigits 16 g ++ rest
  := by
  cases gs with
  | nil =>
      use t, ht
      rw [groupsText_singleton]
  | cons g' gs =>
      use ':' :: (groupsText (g' :: gs) ++ t), separated_colon _
      rw [groupsText_cons, List.append_assoc, List.cons_append]

/-- The text begins with the first three groups, or a group that is left out is among them. -/
inductive Front (g₀ g₁ g₂ : ℕ) : List Char → Prop where
  | three {rest : List Char} (hrest : Separated rest) :
      Front g₀ g₁ g₂ (Nat.toDigits 16 g₀ ++ ':' :: (Nat.toDigits 16 g₁
        ++ ':' :: (Nat.toDigits 16 g₂ ++ rest)))
  | two (hg : g₂ = 0) (rest : List Char) :
      Front g₀ g₁ g₂ (Nat.toDigits 16 g₀ ++ ':' :: (Nat.toDigits 16 g₁ ++ ':' :: ':' :: rest))
  | one (hg : g₁ = 0) (rest : List Char) :
      Front g₀ g₁ g₂ (Nat.toDigits 16 g₀ ++ ':' :: ':' :: rest)
  | none (hg : g₀ = 0) (rest : List Char) : Front g₀ g₁ g₂ (':' :: rest)

theorem front_of_prints {g₀ g₁ g₂ : ℕ} {gs : List ℕ} {text scope : List Char}
    (h : Prints (g₀ :: g₁ :: g₂ :: gs) text) (hscope : IsScope scope) :
  Front g₀ g₁ g₂ (text ++ scope)
  := by
  cases h with
  | full =>
      obtain ⟨rest, hrest, htext⟩ := exists_groupsText_append g₂ gs hscope.separated
      rw [groupsText_cons, groupsText_cons, List.append_assoc, List.cons_append, List.append_assoc,
        List.cons_append, htext]
      exact Front.three hrest
  | @compressed before zeros after hgs hne hzeros =>
      have hzero {g : ℕ} {gs : List ℕ} (h : g :: gs = zeros ++ after) : g = 0 := by
        cases zeros with
        | nil => exact absurd rfl hne
        | cons z zs =>
            rw [(List.cons.inj h).1]
            exact hzeros z List.mem_cons_self
      rw [List.append_assoc, List.cons_append, List.cons_append]
      generalize groupsText after ++ scope = behind
      cases before with
      | nil => exact Front.none (hzero hgs) _
      | cons x before =>
          rw [List.cons_append, List.cons.injEq] at hgs
          obtain ⟨rfl, hgs⟩ := hgs
          cases before with
          | nil =>
              rw [groupsText_singleton]
              exact Front.one (hzero hgs) _
          | cons y before =>
              rw [List.cons_append, List.cons.injEq] at hgs
              obtain ⟨rfl, hgs⟩ := hgs
              rw [groupsText_cons, List.append_assoc, List.cons_append]
              cases before with
              | nil =>
                  rw [groupsText_singleton]
                  exact Front.two (hzero hgs) _
              | cons z before =>
                  rw [List.cons_append, List.cons.injEq] at hgs
                  obtain ⟨rfl, hgs⟩ := hgs
                  obtain ⟨rest, hrest, htext⟩ :=
                    exists_groupsText_append g₂ before (separated_colon (':' :: behind))
                  rw [groupsText_cons, List.append_assoc, List.cons_append, htext]
                  exact Front.three hrest

/-- The text begins with three given groups exactly if the first two are those groups, and the third
is that group or has it as its first digits. -/
theorem isPrefix_iff {a b c g₀ g₁ g₂ : ℕ} (ha : 0 < a) (hb : 0 < b) (hc : 0 < c) {text : List Char}
    (h : Front g₀ g₁ g₂ text) :
  groupsText [a, b, c] <+: text ↔ g₀ = a ∧ g₁ = b ∧ ∃ k, g₂ / 16 ^ k = c
  := by
  have hcolon (n : ℕ) : ':' ∉ Nat.toDigits 16 n := not_mem_toDigits (Or.inl rfl) n
  have hinj (m n : ℕ) : Nat.toDigits 16 m = Nat.toDigits 16 n ↔ n = m := by
    constructor
    · intro h
      exact (Numeral.toDigits_inj (by omega) (by omega) h).symm
    · rintro rfl
      rfl
  have hgap (n : ℕ) (s rest : List Char) : ¬ Nat.toDigits 16 n ++ s <+: ':' :: rest := by
    intro h
    cases hn : Nat.toDigits 16 n with
    | nil => exact Nat.toDigits_ne_nil hn
    | cons d ds =>
        rw [hn, List.cons_append, List.cons_prefix_cons] at h
        apply hcolon n
        rw [hn, h.1]
        exact List.mem_cons_self
  rw [groupsText_cons, groupsText_cons, groupsText_singleton]
  cases h with
  | three hrest =>
      have hlast : Nat.toDigits 16 c <+: Nat.toDigits 16 g₂ ++ _
          ↔ Nat.toDigits 16 c <+: Nat.toDigits 16 g₂ := Text.isPrefix_append_iff
        (fun d t hd => not_mem_toDigits (hrest d t hd) c)
      rw [Text.append_cons_isPrefix_iff (hcolon a) (hcolon g₀),
        Text.append_cons_isPrefix_iff (hcolon b) (hcolon g₁), hlast, hinj, hinj,
        Numeral.toDigits_isPrefix_iff (by omega) (by omega) hc]
  | two hg rest =>
      have hnone := hgap c [] rest
      rw [List.append_nil] at hnone
      rw [Text.append_cons_isPrefix_iff (hcolon a) (hcolon g₀),
        Text.append_cons_isPrefix_iff (hcolon b) (hcolon g₁)]
      apply iff_of_false
      · rintro ⟨-, -, h⟩
        exact hnone h
      · rintro ⟨-, -, k, hk⟩
        rw [hg, Nat.zero_div] at hk
        omega
  | one hg rest =>
      rw [Text.append_cons_isPrefix_iff (hcolon a) (hcolon g₀)]
      apply iff_of_false
      · rintro ⟨-, h⟩
        exact hgap b _ rest h
      · rintro ⟨-, h, -⟩
        omega
  | none hg rest =>
      apply iff_of_false
      · exact hgap a _ rest
      · rintro ⟨h, -⟩
        omega

/-- The text of groups is in lower case. -/
theorem lower_of_prints {gs : List ℕ} {text : List Char} (h : Prints gs text) :
  ∀ c ∈ text, c.toNat < 128 ∧ c.toLower = c
  := by
  have hdigit : ∀ i : Fin 16, i.val.digitChar.toNat < 128
      ∧ i.val.digitChar.toLower = i.val.digitChar := by decide
  have hgroups (gs : List ℕ) : ∀ c ∈ groupsText gs, c.toNat < 128 ∧ c.toLower = c := by
    intro c hc
    obtain rfl | ⟨l, hl, hcl⟩ := Text.mem_of_mem_intercalate hc
    · decide
    · obtain ⟨g, -, rfl⟩ := List.mem_map.mp hl
      obtain ⟨d, hd, rfl⟩ := Numeral.exists_digitChar_of_mem (by omega) hcl
      exact hdigit ⟨d, hd⟩
  intro c hc
  cases h with
  | full => exact hgroups _ c hc
  | compressed hgs hne hzeros =>
      simp only [List.mem_append, List.mem_cons] at hc
      obtain hc | rfl | rfl | hc := hc
      · exact hgroups _ c hc
      · decide
      · decide
      · exact hgroups _ c hc

/-- The lower case of the text of an address is a text of the address. -/
theorem exists_lowercase_eq {lowercase : String → String} (hlower : Lowercases lowercase)
    {gs : List ℕ} {text scope : List Char} (h : Prints gs text) (hscope : IsScope scope) :
  ∃ scope', IsScope scope'
    ∧ lowercase (String.ofList (text ++ scope)) = String.ofList (text ++ scope')
  := by
  have hchars := lower_of_prints h
  have hmap : text.map Char.toLower = text := by
    rw [List.map_congr_left (g := id) fun c hc => (hchars c hc).2, List.map_id]
  obtain rfl | ⟨name, rfl⟩ := hscope
  · obtain ⟨rest, heq, hrest⟩ := hlower text [] fun c hc => (hchars c hc).1
    use rest, Or.inl (hrest rfl)
    rw [heq, hmap]
  · have hfront : ∀ c ∈ text ++ ['%'], c.toNat < 128 := by
      intro c hc
      rw [List.mem_append, List.mem_singleton] at hc
      obtain hc | rfl := hc
      · exact (hchars c hc).1
      · decide
    obtain ⟨rest, heq, -⟩ := hlower (text ++ ['%']) name hfront
    use '%' :: rest, Or.inr ⟨rest, rfl⟩
    rw [List.append_assoc, List.singleton_append] at heq
    rw [heq, List.map_append, hmap, List.append_assoc]
    rfl

/-! ### The prefixes -/

/-- The first three groups of the blocks of 48 bits. -/
def prefixes : List (List ℕ) :=
  [[0x2001, 0x67c, 0x4e8], [0x2001, 0xb28, 0xf23c], [0x2001, 0xb28, 0xf23d],
    [0x2001, 0xb28, 0xf23f]]

/-- The address lies in one of the four blocks. -/
def InPrefixes (b : Bytes) : Prop := (groups b).take 3 ∈ prefixes

/-- The address lies in `2001:67c:4e80::/44`. -/
def Lookalike (b : Bytes) : Prop :=
  ∃ low < 16, (groups b).take 3 = [0x2001, 0x67c, 0x4e80 + low]

/-- The groups of an IPv6 address. -/
theorem exists_groups_eq {b : Bytes} (hb : b.length = 16) :
  ∃ g₀ g₁ g₂ gs, groups b = g₀ :: g₁ :: g₂ :: gs ∧ g₂ < 65536
  := by
  obtain _ | ⟨b₀, _ | ⟨b₁, _ | ⟨b₂, _ | ⟨b₃, _ | ⟨b₄, _ | ⟨b₅, b⟩⟩⟩⟩⟩⟩ := b
  case cons.cons.cons.cons.cons.cons =>
    refine ⟨_, _, _, _, rfl, ?_⟩
    have h₄ := b₄.toNat_lt
    have h₅ := b₅.toNat_lt
    omega
  all_goals cases hb

/-- A group has the digits of `0x4e8` as its first digits. -/
theorem exists_div_eq_iff {g : ℕ} (hg : g < 65536) :
  (∃ k, g / 16 ^ k = 0x4e8) ↔ g = 0x4e8 ∨ ∃ low < 16, g = 0x4e80 + low
  := by
  constructor
  · rintro ⟨k, hk⟩
    obtain _ | _ | k := k
    · left
      rwa [pow_zero, Nat.div_one] at hk
    · right
      use g % 16, Nat.mod_lt _ (by omega)
      rw [Nat.zero_add, pow_one] at hk
      omega
    · rw [Nat.add_assoc, Nat.add_comm, pow_add, ← Nat.div_div_eq_div_mul] at hk
      have hle := Nat.div_le_self (g / 16 ^ (1 + 1)) (16 ^ k)
      omega
  · rintro (rfl | ⟨low, hlow, rfl⟩)
    · use 0
      rw [pow_zero, Nat.div_one]
    · use 1
      rw [pow_one]
      omega

/-- A group of four digits is the beginning of no other group. -/
theorem exists_div_eq_iff_of_le {g c : ℕ} (hg : g < 65536) (hc : 4096 ≤ c) :
  (∃ k, g / 16 ^ k = c) ↔ g = c
  := by
  constructor
  · rintro ⟨k, rfl⟩
    cases k with
    | zero => rw [pow_zero, Nat.div_one]
    | succ k =>
        rw [pow_succ', ← Nat.div_div_eq_div_mul] at hc
        have hle := Nat.div_le_self (g / 16) (16 ^ k)
        omega
  · rintro rfl
    use 0
    rw [pow_zero, Nat.div_one]

section Exact

variable {lowercase : String → String} {hostAddress : InetAddress → Option String}
  {addr : InetAddress} {text scope : List Char}

/-- The test of an IPv6 address by its text: it is in one of the blocks, or it looks like it. -/
theorem isTelegramHost_iff (hlower : Lowercases lowercase) (hsix : addr.address.length = 16)
    (htext : hostAddress addr = some (String.ofList (text ++ scope)))
    (hprints : Prints (groups addr.address) text) (hscope : IsScope scope) :
  isTelegramHost lowercase hostAddress addr = true
    ↔ InPrefixes addr.address ∨ Lookalike addr.address
  := by
  obtain ⟨g₀, g₁, g₂, gs, hgroups, hbound⟩ := exists_groups_eq hsix
  rw [hgroups] at hprints
  obtain ⟨scope', hscope', hlowered⟩ := exists_lowercase_eq hlower hprints hscope
  have hfront := front_of_prints hprints hscope'
  have hstarts (pattern : String) (a b c : ℕ) (hpattern : pattern.toList = groupsText [a, b, c])
      (ha : 0 < a) (hb : 0 < b) (hc : 0 < c) :
      (String.ofList (text ++ scope')).startsWith pattern = true
        ↔ g₀ = a ∧ g₁ = b ∧ ∃ k, g₂ / 16 ^ k = c := by
    rw [String.startsWith_string_iff, hpattern, String.toList_ofList]
    exact isPrefix_iff ha hb hc hfront
  have hfour : ¬ addr.address.length = 4 := by omega
  rw [isTelegramHost, if_neg hfour, isTelegramV6, htext, Option.map_some, hlowered]
  dsimp only
  rw [Bool.or_eq_true, Bool.or_eq_true, Bool.or_eq_true,
    hstarts "2001:67c:4e8" 0x2001 0x67c 0x4e8 (by decide) (by omega) (by omega) (by omega),
    hstarts "2001:b28:f23d" 0x2001 0xb28 0xf23d (by decide) (by omega) (by omega) (by omega),
    hstarts "2001:b28:f23f" 0x2001 0xb28 0xf23f (by decide) (by omega) (by omega) (by omega),
    hstarts "2001:b28:f23c" 0x2001 0xb28 0xf23c (by decide) (by omega) (by omega) (by omega),
    exists_div_eq_iff hbound, exists_div_eq_iff_of_le hbound (by omega),
    exists_div_eq_iff_of_le hbound (by omega), exists_div_eq_iff_of_le hbound (by omega),
    InPrefixes, Lookalike, hgroups, prefixes]
  simp only [List.take_succ_cons, List.take_zero, List.mem_cons, List.not_mem_nil, or_false,
    List.cons.injEq, and_true]
  have hlow : (∃ low < 16, g₀ = 0x2001 ∧ g₁ = 0x67c ∧ g₂ = 0x4e80 + low)
      ↔ g₀ = 0x2001 ∧ g₁ = 0x67c ∧ ∃ low < 16, g₂ = 0x4e80 + low := by
    constructor
    · rintro ⟨low, hlt, h₀, h₁, h₂⟩
      exact ⟨h₀, h₁, low, hlt, h₂⟩
    · rintro ⟨h₀, h₁, low, hlt, h₂⟩
      exact ⟨low, hlt, h₀, h₁, h₂⟩
  rw [hlow]
  constructor
  · rintro (((⟨h₀, h₁, h₂ | h₂⟩ | h) | h) | h)
    · exact Or.inl (Or.inl ⟨h₀, h₁, h₂⟩)
    · exact Or.inr ⟨h₀, h₁, h₂⟩
    · exact Or.inl (Or.inr (Or.inr (Or.inl h)))
    · exact Or.inl (Or.inr (Or.inr (Or.inr h)))
    · exact Or.inl (Or.inr (Or.inl h))
  · rintro ((⟨h₀, h₁, h₂⟩ | h | h | h) | ⟨h₀, h₁, h₂⟩)
    · exact Or.inl (Or.inl (Or.inl ⟨h₀, h₁, Or.inl h₂⟩))
    · exact Or.inr h
    · exact Or.inl (Or.inl (Or.inr h))
    · exact Or.inl (Or.inr h)
    · exact Or.inl (Or.inl (Or.inl ⟨h₀, h₁, Or.inr h₂⟩))

/-- A look-alike is in none of the blocks. -/
theorem not_inPrefixes_of_lookalike {b : Bytes} (h : Lookalike b) :
  ¬ InPrefixes b
  := by
  obtain ⟨low, hlow, hgroups⟩ := h
  rw [InPrefixes, hgroups, prefixes]
  simp only [List.mem_cons, List.not_mem_nil, List.cons.injEq, and_true, true_and, or_false]
  omega

end Exact

/-! ### The path of a request -/

section Path

open Socks.ConnectVerdict

variable {q : Request} {s t : Connection} {e : Event}

/-- The race for Telegram, which connects to other ports, is started only for a host of Telegram. -/
theorem isTelegramHost_of_step (h : step q s e = some t) (ht : t.handler = .smartConnecting) :
  q.isTelegramHost = true ∨ s.handler = .smartConnecting
  := by
  cases steps_of_step h with
  | up a up pending socket received => exact Or.inr ht
  | prepared a next hs hnext =>
      obtain rfl : next = .smartConnecting := ht
      by_contra hnot
      rw [not_or, Bool.not_eq_true] at hnot
      obtain ⟨hhost, hother⟩ := hnot
      have hstep : s.stepHandler q a = some { s with handler := .smartConnecting } := h
      cases hhandler : s.handler with
      | smartConnecting => exact hother hhandler
      | settingTimeout =>
          cases a <;> simp [Connection.stepHandler, hhandler, hhost] at hstep
      | multipathConnecting =>
          cases a <;> simp [Connection.stepHandler, hhandler] at hstep
          split_ifs at hstep <;> cases hstep
      | protecting =>
          cases a <;> simp [Connection.stepHandler, hhandler] at hstep
          split_ifs at hstep <;> cases hstep
      | refusing =>
          cases a <;> simp [Connection.stepHandler, hhandler] at hstep
      | settingOptions =>
          cases a <;> simp [Connection.stepHandler, hhandler] at hstep
      | connecting =>
          cases a <;> simp [Connection.stepHandler, hhandler, hhost] at hstep
      | _ =>
          rw [hhandler] at hs
          cases hs
  | connected a next hs hnext =>
      rw [show next = .smartConnecting from ht] at hnext
      cases hnext
  | piped a p next client remote hs hcall => cases next <;> cases ht
  | _ => cases ht

/-- In no run of a request for another host the race for Telegram is started. -/
theorem isTelegramHost_of_exec {clientStream remoteStream : Bytes} {es : List Event}
    (hrun : Run.exec (step q) (init clientStream remoteStream) es = some t)
    (ht : t.handler = .smartConnecting) :
  q.isTelegramHost = true
  := by
  have hstep : ∀ s e t, (s.handler = .smartConnecting → q.isTelegramHost = true) →
      step q s e = some t → t.handler = .smartConnecting → q.isTelegramHost = true := by
    intro s e t hs h ht
    obtain hhost | hbefore := isTelegramHost_of_step h ht
    · exact hhost
    · exact hs hbefore
  apply Run.invariant hstep _ hrun ht
  intro hstart
  cases hstart

end Path

/-- The host of an IPv6 address is detected exactly in the blocks, and no request for another host
is connected by the race that goes on to other ports. -/
structure Exact (lowercase : String → String) (hostAddress : InetAddress → Option String)
    (addr : InetAddress) : Prop where
  detects : isTelegramHost lowercase hostAddress addr = true ↔ InPrefixes addr.address
  remaps : ∀ (q : Socks.ConnectVerdict.Request) (clientStream remoteStream : Bytes)
    (es : List Socks.ConnectVerdict.Event) (t : Socks.ConnectVerdict.Connection),
    q.isTelegramHost = isTelegramHost lowercase hostAddress addr →
      Run.exec (Socks.ConnectVerdict.step q)
          (Socks.ConnectVerdict.init clientStream remoteStream) es = some t →
        t.handler = .smartConnecting → InPrefixes addr.address

/-- The detection is exact for the addresses outside `2001:67c:4e80::/44`, and for no other. -/
theorem exact_iff {lowercase : String → String} {hostAddress : InetAddress → Option String}
    {addr : InetAddress} {text scope : List Char} (hlower : Lowercases lowercase)
    (hsix : addr.address.length = 16)
    (htext : hostAddress addr = some (String.ofList (text ++ scope)))
    (hprints : Prints (groups addr.address) text) (hscope : IsScope scope) :
  Exact lowercase hostAddress addr ↔ ¬ Lookalike addr.address
  := by
  have htest := isTelegramHost_iff hlower hsix htext hprints hscope
  constructor
  · intro hexact hlook
    apply not_inPrefixes_of_lookalike hlook
    rw [← hexact.detects, htest]
    exact Or.inr hlook
  · intro hlook
    have hdetects : isTelegramHost lowercase hostAddress addr = true
        ↔ InPrefixes addr.address := by
      rw [htest]
      exact or_iff_left hlook
    refine ⟨hdetects, ?_⟩
    intro q clientStream remoteStream es t hhost hrun ht
    rw [← hdetects, ← hhost]
    exact isTelegramHost_of_exec hrun ht

/-- Lower case for ASCII, and the text of all groups. -/
def asciiLower (s : String) : String := String.ofList (s.toList.map Char.toLower)

theorem lowercases_asciiLower :
  Lowercases asciiLower
  := by
  intro front rest hfront
  use rest.map Char.toLower
  constructor
  · rw [asciiLower, String.toList_ofList, List.map_append]
  · rintro rfl
    rfl

/-- The text of an address without compression. -/
def fullText (addr : InetAddress) : Option String :=
  some (String.ofList (groupsText (groups addr.address) ++ []))

/-- An address of Telegram. -/
def telegramAddress : InetAddress :=
  ⟨[0x20, 0x01, 0x06, 0x7c, 0x04, 0xe8, 0, 0, 0, 0, 0, 0, 0, 0, 0, 1], Or.inr rfl⟩

/-- An address that looks like one of Telegram. -/
def lookalikeAddress : InetAddress :=
  ⟨[0x20, 0x01, 0x06, 0x7c, 0x4e, 0x80, 0, 0, 0, 0, 0, 0, 0, 0, 0, 1], Or.inr rfl⟩

theorem exact_telegramAddress :
  Exact asciiLower fullText telegramAddress ↔ ¬ Lookalike telegramAddress.address
  := exact_iff lowercases_asciiLower rfl rfl Prints.full (Or.inl rfl)

/-- An address of another network is taken for one of Telegram. -/
theorem not_exact :
  ¬ ∀ (lowercase : String → String) (hostAddress : InetAddress → Option String)
      (addr : InetAddress) (text scope : List Char), Lowercases lowercase →
    addr.address.length = 16 → hostAddress addr = some (String.ofList (text ++ scope)) →
      Prints (groups addr.address) text → IsScope scope → Exact lowercase hostAddress addr
  := by
  intro h
  have hexact := h asciiLower fullText lookalikeAddress _ _ lowercases_asciiLower rfl rfl
    Prints.full (Or.inl rfl)
  have hlook : Lookalike lookalikeAddress.address := ⟨0, by omega, rfl⟩
  have htext : fullText lookalikeAddress
      = some (String.ofList (groupsText (groups lookalikeAddress.address) ++ [])) := rfl
  have htest := isTelegramHost_iff lowercases_asciiLower rfl htext Prints.full (Or.inl rfl)
  apply not_inPrefixes_of_lookalike hlook
  rw [← hexact.detects, htest]
  exact Or.inr hlook

end Telegram.Ranges
