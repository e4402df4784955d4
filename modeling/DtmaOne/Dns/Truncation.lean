import DtmaOne.Dns.Answer

/-!
# Truncated DNS responses

`parseA` on the first bytes of a well-formed response.  A cut in the header, in the question or in
the head of a record stops the parser for good.  A cut in the data of a record does not: the
cursor is left at the first byte of the data, and the remaining rounds read records from there.
The parser returns a prefix of the addresses exactly when these rounds find nothing but the
addresses that the answers after the cut would have given.
-/

namespace Dns

open Socks (Bytes InetAddress)
open DnsMessage

/-! ### The bytes of a shorter response -/

section Shorter

variable {data full : Bytes} {n length i j : ℕ}

theorem byteAt_congr (h : data.take n = full.take n) (hi : i < n) :
  byteAt data i = byteAt full i
  := by
  rw [byteAt, byteAt, ← List.getElem?_take_of_lt hi, h, List.getElem?_take_of_lt hi]

/-- In a shorter response the loop over a name stops where it would, or at the end. -/
theorem skipName_shorter {root pointer : ℕ} (h : data.take n = full.take n) (hn : n ≤ length)
    (hj : skipName root pointer full length i = some j) :
  ∃ j', skipName root pointer data n i = some j' ∧ (j' = j ∨ n ≤ j')
  := by
  induction hk : n - i using Nat.strong_induction_on generalizing i with
  | _ k ih =>
      by_cases hi : i < n
      · rw [skipName, dif_pos (by omega)] at hj
        obtain ⟨len, hbyte, hj⟩ := Option.bind_eq_some_iff.mp hj
        rw [skipName, dif_pos hi, byteAt_congr h hi, hbyte, Option.bind_some]
        split at hj
        · next hroot =>
            rw [if_pos hroot]
            exact ⟨j, hj, Or.inl rfl⟩
        · next hroot =>
            rw [if_neg hroot]
            split at hj
            · next htag =>
                rw [if_pos htag]
                exact ⟨j, hj, Or.inl rfl⟩
            · next htag =>
                rw [if_neg htag]
                apply ih (n - (i + (1 + len))) (by omega) hj rfl
      · use i
        constructor
        · apply skipName_of_le (by omega)
        · right
          omega

theorem skipOwner_shorter {b : UInt8} {q : Bytes} (h : data.take n = full.take n)
    (hn : n ≤ length) (hlen : n ≤ data.length) (hi : i < n) (hb : ahead full length i = b :: q)
    (hj : skipOwner full length i = some j) :
  ∃ j', skipOwner data n i = some j' ∧ (j' = j ∨ n ≤ j')
  := by
  obtain ⟨b', q', hb'⟩ : ∃ b' q', ahead data n i = b' :: q' := by
    apply List.exists_cons_of_length_pos
    rw [length_ahead hlen]
    omega
  rw [skipOwner_eq hb] at hj
  rw [skipOwner_eq hb']
  apply skipName_shorter h hn hj

end Shorter

/-! ### Arbitrary bytes at the cursor -/

section Rounds

variable {data : Bytes} {length : ℕ}

/-- Where the loop over a name stops: after a name, or at the end of the response. -/
theorem skipName_cases (hlen : length ≤ data.length) (i : ℕ) :
  ∃ j, skipName 1 2 data length i = some j
    ∧ (length ≤ j
      ∨ ∃ (name : Name 191) (q : Bytes), ahead data length i = name.encode ++ q
          ∧ j = i + name.encode.length)
  := by
  induction hk : length - i using Nat.strong_induction_on generalizing i with
  | _ k ih =>
      have hroom := length_ahead (i := i) hlen
      rcases hcase : ahead data length i with _ | ⟨b, t⟩
      · rw [hcase, List.length_nil] at hroom
        exact ⟨i, skipName_of_le (by omega), Or.inl (by omega)⟩
      · rw [hcase, List.length_cons] at hroom
        rw [skipName_cons hcase]
        by_cases hroot : b.toNat = 0
        · rw [if_pos hroot]
          have hzero : b = 0 := UInt8.toNat_inj.mp hroot
          exact ⟨i + 1, rfl, Or.inr ⟨⟨[], .root⟩, t, by rw [hzero]; rfl, rfl⟩⟩
        · rw [if_neg hroot]
          by_cases htag : 192 ≤ b.toNat
          · rw [if_pos htag]
            rcases t with _ | ⟨lo, q⟩
            · exact ⟨i + 2, rfl, Or.inl (by rw [List.length_nil] at hroom; omega)⟩
            · exact ⟨i + 2, rfl, Or.inr ⟨⟨[], .pointer b lo htag⟩, q, rfl, rfl⟩⟩
          · rw [if_neg htag]
            by_cases hfits : b.toNat ≤ t.length
            · let l : Label 191 :=
                ⟨t.take b.toNat, by rw [List.length_take]; omega, by rw [List.length_take]; omega⟩
              have hl : l.encode = b :: t.take b.toNat := by
                rw [Label.encode, List.length_take, Nat.min_eq_left hfits, UInt8.ofNat_toNat]
              have hsplit : ahead data length i = l.encode ++ t.drop b.toNat := by
                rw [hcase, hl, List.cons_append, List.take_append_drop]
              have hsize : l.encode.length = 1 + b.toNat := by
                rw [hl, List.length_cons, List.length_take, Nat.min_eq_left hfits, Nat.add_comm]
              obtain ⟨j, hj, hrest⟩ := ih (length - (i + (1 + b.toNat))) (by omega) _ rfl
              refine ⟨j, hj, ?_⟩
              obtain hend | ⟨name, q, hname, hsum⟩ := hrest
              · exact Or.inl hend
              · right
                have hdrop : t.drop b.toNat = name.encode ++ q := by
                  rw [← hname, ← hsize, ahead_append hsplit]
                refine ⟨⟨l :: name.labels, name.ending⟩, q, ?_, ?_⟩
                · rw [← hcase, hsplit, hdrop, Name.encode_cons, List.append_assoc]
                · rw [Name.encode_cons, List.length_append, hsize, hsum, Nat.add_assoc]
            · exact ⟨_, skipName_of_le (by omega), Or.inl (by omega)⟩

/-- What a round can do: find no head of a record, read a record, or find a record whose data does
not fit. -/
theorem parseRecord_cases (hlen : length ≤ data.length) (c : Cursor) :
  (∃ j, parseRecord data length c = some ⟨j, c.out⟩ ∧ length < j + 10
      ∧ ∀ (r : Record 191) (q : Bytes), ahead data length c.i ≠ r.head ++ q)
    ∨ (∃ (r : Record 191) (q : Bytes), ahead data length c.i = r.encode ++ q
      ∧ parseRecord data length c = some ⟨c.i + r.encode.length, c.out ++ addressesOf [r]⟩)
    ∨ (∃ (r : Record 191) (q : Bytes), ahead data length c.i = r.head ++ q
      ∧ q.length < r.rdata.length
      ∧ parseRecord data length c = some ⟨c.i + r.head.length, c.out⟩)
  := by
  by_cases hhead : ∃ (r : Record 191) (q : Bytes), ahead data length c.i = r.head ++ q
  · right
    obtain ⟨r, q, hq⟩ := hhead
    by_cases hfits : r.rdata.length ≤ q.length
    · left
      let r' : Record 191 :=
        { r with
          rdata := q.take r.rdata.length
          size := by rw [List.length_take]; have := r.size; omega }
      have hlength : r'.rdata.length = r.rdata.length := by
        rw [List.length_take, Nat.min_eq_left hfits]
      have hhead : r'.head = r.head := by
        rw [Record.head, Record.fixed, hlength]
        rfl
      have hsplit : ahead data length c.i = r'.encode ++ q.drop r.rdata.length := by
        rw [hq, Record.encode, hhead, List.append_assoc, List.take_append_drop]
      exact ⟨r', _, hsplit, parseRecord_encode hlen (by decide) hsplit⟩
    · right
      exact ⟨r, q, hq, by omega, parseRecord_cut hlen (by decide) hq (by omega)⟩
  · left
    simp only [not_exists] at hhead
    have hroom := length_ahead (i := c.i) hlen
    by_cases hi : c.i < length
    · obtain ⟨b, t, hb⟩ : ∃ b t, ahead data length c.i = b :: t := by
        apply List.exists_cons_of_length_pos
        rw [hroom]
        omega
      obtain ⟨j, hj, hstop⟩ := skipName_cases hlen c.i
      have hshort : length < j + 10 := by
        obtain hend | ⟨name, q, hname, hsum⟩ := hstop
        · omega
        · by_contra hlong
          have hten : 10 ≤ q.length := by
            have hq := congrArg List.length (ahead_append hname)
            rw [length_ahead hlen] at hq
            omega
          obtain ⟨r, -, hr⟩ := Record.exists_head name (q.take 10)
            (by rw [List.length_take]; omega)
          apply hhead r (q.drop 10)
          rw [hr, hname, List.append_assoc, List.take_append_drop]
      refine ⟨j, ?_, hshort, hhead⟩
      rw [parseRecord, if_neg (by omega), skipOwner_eq hb, hj]
      simp only [Option.bind_eq_bind, Option.bind_some]
      rw [if_pos (by omega)]
      rfl
    · refine ⟨c.i, ?_, by omega, hhead⟩
      rw [parseRecord, if_pos (by omega)]

/-- Once fewer than ten bytes are left, no round finds anything. -/
theorem parseRecords_spent (hlen : length ≤ data.length) (k : ℕ) {c : Cursor}
    (hspent : length < c.i + 10) :
  ∃ c', parseRecords data length k c = some c' ∧ c'.out = c.out
  := by
  induction k generalizing c with
  | zero => exact ⟨c, rfl, rfl⟩
  | succ k ih =>
      have hroom := length_ahead (i := c.i) hlen
      have hno : ∀ (r : Record 191) (q : Bytes), ahead data length c.i ≠ r.head ++ q := by
        intro r q hq
        rw [hq, List.length_append, Record.head, List.length_append, Record.length_fixed] at hroom
        omega
      obtain ⟨j, hstep, hj, -⟩ | ⟨r, q, hq, -⟩ | ⟨r, q, hq, -⟩ := parseRecord_cases hlen c
      · obtain ⟨c', hc', hout⟩ := ih (c := ⟨j, c.out⟩) hj
        refine ⟨c', ?_, hout⟩
        rw [parseRecords, hstep, Option.bind_some, hc']
      · rw [Record.encode, List.append_assoc] at hq
        exact absurd hq (hno r _)
      · exact absurd hq (hno r q)

/-- The rounds raise nothing, and only add to what is collected. -/
theorem exists_parseRecords (hlen : length ≤ data.length) (k : ℕ) (c : Cursor) :
  ∃ c' found, parseRecords data length k c = some c' ∧ c'.out = c.out ++ found
  := by
  induction k generalizing c with
  | zero => exact ⟨c, [], rfl, by simp⟩
  | succ k ih =>
      have hadd : ∀ (c₁ : Cursor) (more : List InetAddress),
          parseRecord data length c = some c₁ → c₁.out = c.out ++ more →
          ∃ c' found, parseRecords data length (k + 1) c = some c' ∧ c'.out = c.out ++ found := by
        intro c₁ more hstep hmore
        obtain ⟨c', found, hc', hfound⟩ := ih c₁
        refine ⟨c', more ++ found, ?_, ?_⟩
        · rw [parseRecords, hstep, Option.bind_some, hc']
        · rw [hfound, hmore, List.append_assoc]
      obtain ⟨j, hstep, -⟩ | ⟨r, q, -, hstep⟩ | ⟨r, q, -, -, hstep⟩ := parseRecord_cases hlen c
      · apply hadd _ [] hstep (by simp)
      · apply hadd _ _ hstep rfl
      · apply hadd _ [] hstep (by simp)

end Rounds

/-! ### Records in the data of a record -/

/-- At most `k` records, read one after the other from some bytes, give no address but the
expected ones, in their order.  A record whose data does not fit is skipped up to its data, and
the reading stops where no head of a record is found. -/
inductive Harmless : List Bytes → ℕ → Bytes → Prop where
  | done {expected : List Bytes} {p : Bytes} : Harmless expected 0 p
  | short {expected : List Bytes} {k : ℕ} {p : Bytes}
      (nohead : ∀ (r : Record 191) (q : Bytes), p ≠ r.head ++ q) : Harmless expected k p
  | other {expected : List Bytes} {k : ℕ} {r : Record 191} {q : Bytes}
      (notA : r.aData = none) (next : Harmless expected k q) :
      Harmless expected (k + 1) (r.encode ++ q)
  | address {expected : List Bytes} {k : ℕ} {r : Record 191} {q a : Bytes}
      (isA : r.aData = some a) (next : Harmless expected k q) :
      Harmless (a :: expected) (k + 1) (r.encode ++ q)
  | cut {expected : List Bytes} {k : ℕ} {r : Record 191} {q : Bytes}
      (missing : q.length < r.rdata.length) (next : Harmless expected k q) :
      Harmless expected (k + 1) (r.head ++ q)

section Hidden

variable {data : Bytes} {length : ℕ}

theorem addressesOf_notA {limit : ℕ} {r : Record limit} (h : r.aData = none) :
  addressesOf [r] = []
  := by
  simp [addressesOf, h]

theorem map_address_isA {limit : ℕ} {r : Record limit} {a : Bytes} (h : r.aData = some a) :
  (addressesOf [r]).map InetAddress.address = [a]
  := by
  simp [map_address_addressesOf, h]

/-- Over harmless bytes the rounds find expected addresses only. -/
theorem prefix_of_harmless (hlen : length ≤ data.length) {expected : List Bytes} {k : ℕ}
    {p : Bytes} (h : Harmless expected k p) {c : Cursor} (hp : ahead data length c.i = p) :
  ∃ c' found, parseRecords data length k c = some c' ∧ c'.out = c.out ++ found
    ∧ found.map InetAddress.address <+: expected
  := by
  induction h generalizing c with
  | done => exact ⟨c, [], rfl, by simp, List.nil_prefix⟩
  | @short expected k p nohead =>
      cases k with
      | zero => exact ⟨c, [], rfl, by simp, List.nil_prefix⟩
      | succ k =>
          obtain ⟨j, hstep, hj, -⟩ | ⟨r, q, hq, -⟩ | ⟨r, q, hq, -⟩ := parseRecord_cases hlen c
          · obtain ⟨c', hc', hout⟩ := parseRecords_spent hlen k (c := ⟨j, c.out⟩) hj
            refine ⟨c', [], ?_, ?_, List.nil_prefix⟩
            · rw [parseRecords, hstep, Option.bind_some, hc']
            · rw [hout, List.append_nil]
          · rw [Record.encode, List.append_assoc, hp] at hq
            exact absurd hq (nohead r _)
          · exact absurd (hp.symm.trans hq) (nohead r q)
  | @other expected k r q notA next ih =>
      obtain ⟨c', found, hc', hout, hfound⟩ := ih (c := ⟨_, c.out⟩) (ahead_append hp)
      refine ⟨c', found, ?_, hout, hfound⟩
      rw [parseRecords, parseRecord_encode hlen (by decide) hp, Option.bind_some,
        addressesOf_notA notA, List.append_nil, hc']
  | @address expected k r q a isA next ih =>
      obtain ⟨c', found, hc', hout, hfound⟩ :=
        ih (c := ⟨_, c.out ++ addressesOf [r]⟩) (ahead_append hp)
      refine ⟨c', addressesOf [r] ++ found, ?_, ?_, ?_⟩
      · rw [parseRecords, parseRecord_encode hlen (by decide) hp, Option.bind_some, hc']
      · rw [hout, List.append_assoc]
      · rw [List.map_append, map_address_isA isA]
        apply (List.prefix_cons_inj a).mpr hfound
  | @cut expected k r q missing next ih =>
      obtain ⟨c', found, hc', hout, hfound⟩ := ih (c := ⟨_, c.out⟩) (ahead_append hp)
      refine ⟨c', found, ?_, hout, hfound⟩
      rw [parseRecords, parseRecord_cut hlen (by decide) hp missing, Option.bind_some, hc']

/-- Where the rounds find expected addresses only, the bytes are harmless. -/
theorem harmless_of_prefix (hlen : length ≤ data.length) {expected : List Bytes} {k : ℕ}
    {c c' : Cursor} {found : List InetAddress} (hrun : parseRecords data length k c = some c')
    (hout : c'.out = c.out ++ found) (hfound : found.map InetAddress.address <+: expected) :
  Harmless expected k (ahead data length c.i)
  := by
  induction k generalizing c found expected with
  | zero => apply Harmless.done
  | succ k ih =>
      rw [parseRecords] at hrun
      obtain ⟨j, -, -, nohead⟩ | ⟨r, q, hq, hstep⟩ | ⟨r, q, hq, missing, hstep⟩ :=
        parseRecord_cases hlen c
      · apply Harmless.short nohead
      · rw [hstep, Option.bind_some] at hrun
        have hnext : ahead data length (c.i + r.encode.length) = q := ahead_append hq
        rw [hq, ← hnext]
        cases hdata : r.aData with
        | none =>
            rw [addressesOf_notA hdata, List.append_nil] at hrun
            apply Harmless.other hdata
            apply ih hrun hout hfound
        | some a =>
            obtain ⟨c₂, more, hrun₂, hmore⟩ := exists_parseRecords hlen k
              ⟨c.i + r.encode.length, c.out ++ addressesOf [r]⟩
            have hsame : c₂ = c' := Option.some.inj (hrun₂.symm.trans hrun)
            have hsum : c.out ++ found = c.out ++ (addressesOf [r] ++ more) := by
              rw [← hout, ← hsame, hmore, List.append_assoc]
            have hsplit : found = addressesOf [r] ++ more := List.append_cancel_left hsum
            rw [hsplit, List.map_append, map_address_isA hdata] at hfound
            obtain ⟨rest, rfl⟩ := hfound
            apply Harmless.address hdata
            apply ih hrun (hsame ▸ hmore)
            use rest
            rfl
      · rw [hstep, Option.bind_some] at hrun
        have hnext : ahead data length (c.i + r.head.length) = q := ahead_append hq
        rw [hq, ← hnext]
        apply Harmless.cut (by rw [hnext]; exact missing)
        apply ih hrun hout hfound

end Hidden

/-! ### The place of the cut -/

section Cut

variable {m : Message} {n : ℕ} {data : Bytes}

/-- The bytes of a shorter response at a cursor. -/
theorem ahead_shorter {full : Bytes} (h : data.take n = full.take n) (i : ℕ) :
  ahead data n i = (full.drop i).take (n - i)
  := by
  rw [ahead, h, List.drop_take]

/-- A cut in the header or in the question leaves nothing to find. -/
theorem parseA_cut_preamble (h : data.take n = m.encode.take n) (hlen : n ≤ data.length)
    (hn : n ≤ m.encode.length) (hcut : n < m.preamble.length) :
  WarpBootstrapDns.parseA data n = some []
  := by
  by_cases hshort : n < 12
  · rw [WarpBootstrapDns.parseA, if_pos hshort]
  · have hcount : shortAt data 6 = some m.answers.length := by
      have hfull : m.encode.take m.encode.length = m.header
          ++ (m.questionBytes ++ (m.answers.flatMap Record.encode ++ m.rest)) := by
        rw [List.take_length, Message.encode, Message.preamble]
        simp only [List.append_assoc]
      rw [← shortAt_header hfull, shortAt, shortAt, byteAt_congr h (by omega),
        byteAt_congr h (by omega)]
    have hquestion : skipQuestion m.encode m.encode.length 12 = some m.preamble.length := by
      apply skipQuestion_preamble (q := m.answers.flatMap Record.encode ++ m.rest)
      rw [List.take_length, Message.encode, List.append_assoc]
    obtain ⟨j, hj, hstop⟩ := skipName_shorter h hn hquestion
    have hquestion' : skipQuestion data n 12 = some j := hj
    obtain ⟨c, hc, hout⟩ := parseRecords_spent hlen m.answers.length (c := ⟨j, []⟩)
      (by show n < j + 10; omega)
    rw [WarpBootstrapDns.parseA, if_neg hshort, hcount, hquestion']
    simp only [Option.bind_eq_bind, Option.bind_some]
    rw [hc, Option.bind_some, hout]
    rfl

variable {before after : List (Record 63)} {r : Record 63}

/-- The response around one of its answers. -/
theorem encode_around (hm : m.answers = before ++ r :: after) :
  m.encode = m.preamble ++ before.flatMap Record.encode
    ++ (r.encode ++ (after.flatMap Record.encode ++ m.rest))
  := by
  rw [Message.encode, hm]
  simp

/-- The rounds up to the record that is cut. -/
theorem parseA_before (hm : m.answers = before ++ r :: after)
    (h : data.take n = m.encode.take n) (hlen : n ≤ data.length)
    (hn : (m.preamble ++ before.flatMap Record.encode).length ≤ n) :
  WarpBootstrapDns.parseA data n
    = (parseRecords data n (after.length + 1)
        ⟨(m.preamble ++ before.flatMap Record.encode).length, addressesOf before⟩).map Cursor.out
  := by
  rw [List.length_append] at hn
  have hpre : data.take n = m.preamble ++ (before.flatMap Record.encode
      ++ (r.encode ++ (after.flatMap Record.encode ++ m.rest)).take
        (n - m.preamble.length - (before.flatMap Record.encode).length)) := by
    rw [h, encode_around hm, List.append_assoc, List.take_append, List.take_append,
      List.take_of_length_le (show m.preamble.length ≤ n by omega),
      List.take_of_length_le (by omega)]
  have hahead : ahead data n m.preamble.length = before.flatMap Record.encode
      ++ (r.encode ++ (after.flatMap Record.encode ++ m.rest)).take
        (n - m.preamble.length - (before.flatMap Record.encode).length) := by
    rw [ahead, hpre, List.drop_left]
  have hcount : m.answers.length = before.length + (after.length + 1) := by
    rw [hm, List.length_append, List.length_cons]
  rw [parseA_preamble hpre hlen, hcount,
    parseRecords_encode (c := ⟨m.preamble.length, []⟩) hlen (by decide) hahead,
    List.length_append, List.nil_append]

/-- A cut in the head of a record leaves nothing more to find. -/
theorem parseA_cut_head (hm : m.answers = before ++ r :: after)
    (h : data.take n = m.encode.take n) (hlen : n ≤ data.length) (hn : n ≤ m.encode.length)
    (hfrom : (m.preamble ++ before.flatMap Record.encode).length ≤ n)
    (hcut : n < (m.preamble ++ before.flatMap Record.encode ++ r.head).length) :
  WarpBootstrapDns.parseA data n = some (addressesOf before)
  := by
  have hahead : ahead m.encode m.encode.length
      (m.preamble ++ before.flatMap Record.encode).length
      = r.owner.encode ++ (r.fixed ++ (r.rdata ++ (after.flatMap Record.encode ++ m.rest))) := by
    rw [ahead, List.take_length, encode_around hm, List.drop_left, Record.encode, Record.head]
    simp only [List.append_assoc]
  have hhead : r.head.length = r.owner.encode.length + 10 := by
    rw [Record.head, List.length_append, Record.length_fixed]
  rw [List.length_append, hhead] at hcut
  rw [parseA_before hm h hlen hfrom]
  generalize hi : (m.preamble ++ before.flatMap Record.encode).length = i at *
  obtain ⟨j, hstep, hj⟩ : ∃ j, parseRecord data n ⟨i, addressesOf before⟩
      = some ⟨j, addressesOf before⟩ ∧ n < j + 10 := by
    by_cases hin : i < n
    · obtain ⟨b, t, hb⟩ : ∃ b t, ahead m.encode m.encode.length i = b :: t := by
        apply List.exists_cons_of_length_pos
        rw [length_ahead (Nat.le_refl _)]
        omega
      obtain ⟨j, hj, hstop⟩ := skipOwner_shorter h hn hlen hin hb
        (skipOwner_encode (by decide) hahead)
      have hshort : n < j + 10 := by omega
      refine ⟨j, ?_, hshort⟩
      rw [parseRecord, if_neg (by show ¬ n ≤ i; omega), hj]
      simp only [Option.bind_eq_bind, Option.bind_some]
      rw [if_pos (by omega)]
      rfl
    · refine ⟨i, ?_, by omega⟩
      rw [parseRecord, if_pos (by show n ≤ i; omega)]
  obtain ⟨c, hc, hout⟩ := parseRecords_spent hlen after.length (c := ⟨j, addressesOf before⟩) hj
  rw [parseRecords, hstep, Option.bind_some, hc, Option.map_some, hout]

/-- After a cut in the data of a record the remaining rounds read that data. -/
theorem parseA_cut_data (hm : m.answers = before ++ r :: after) {k : ℕ}
    (h : data.take n = m.encode.take n) (hlen : n ≤ data.length)
    (hk : k < r.rdata.length)
    (hcut : n = (m.preamble ++ before.flatMap Record.encode ++ r.head).length + k) :
  ∃ i, ahead data n i = r.rdata.take k
    ∧ WarpBootstrapDns.parseA data n
      = (parseRecords data n after.length ⟨i, addressesOf before⟩).map Cursor.out
  := by
  rw [List.length_append] at hcut
  have hahead : ahead data n (m.preamble ++ before.flatMap Record.encode).length
      = r.head ++ r.rdata.take k := by
    have hroom : n - (m.preamble ++ before.flatMap Record.encode).length = r.head.length + k := by
      omega
    rw [ahead_shorter h, encode_around hm, List.drop_left, hroom, Record.encode,
      List.append_assoc, List.take_length_add_append, List.take_append_of_le_length (by omega)]
  have hmissing : (r.rdata.take k).length < r.rdata.length := by
    rw [List.length_take]
    omega
  rw [parseA_before hm h hlen (by omega)]
  generalize (m.preamble ++ before.flatMap Record.encode).length = i at *
  have hstep := parseRecord_cut (c := ⟨i, addressesOf before⟩) hlen (by decide) hahead hmissing
  refine ⟨i + r.head.length, ahead_append hahead, ?_⟩
  rw [parseRecords, hstep, Option.bind_some]

/-- Where a cut falls in a list of records. -/
theorem cut_cases (records : List (Record 63)) (t : ℕ) :
  (records.flatMap Record.encode).length ≤ t
    ∨ ∃ before r after, records = before ++ r :: after
        ∧ (before.flatMap Record.encode).length ≤ t
        ∧ t < (before.flatMap Record.encode).length + r.encode.length
  := by
  induction records generalizing t with
  | nil => simp
  | cons r rs ih =>
      by_cases hr : t < r.encode.length
      · right
        exact ⟨[], r, rs, rfl, by simp, by simpa using hr⟩
      · obtain hall | ⟨before, r', after, rfl, hfrom, hto⟩ := ih (t - r.encode.length)
        · left
          rw [List.flatMap_cons, List.length_append]
          omega
        · right
          refine ⟨r :: before, r', after, rfl, ?_, ?_⟩
          · rw [List.flatMap_cons, List.length_append]
            omega
          · rw [List.flatMap_cons, List.length_append]
            omega

end Cut

/-! ### No invented address -/

/-- A parser raises nothing and returns a prefix of the addresses of the message. -/
def ReturnsPrefix (m : Message) (result : Option (List InetAddress)) : Prop :=
  ∃ out, result = some out ∧ out.map InetAddress.address <+: m.addresses

/-- If the first `n` bytes of the message end in the data of an answer, then what is left of that
data is harmless: the rounds for the answers after it can only find the addresses of these. -/
def SafeCut (m : Message) (n : ℕ) : Prop :=
  ∀ (before : List (Record 63)) (r : Record 63) (after : List (Record 63)) (k : ℕ),
    m.answers = before ++ r :: after → k < r.rdata.length →
    n = (m.preamble ++ before.flatMap Record.encode ++ r.head).length + k →
    Harmless (after.filterMap Record.aData) after.length (r.rdata.take k)

section Result

variable {m : Message} {n : ℕ} {data : Bytes} {before after : List (Record 63)} {r : Record 63}

theorem addresses_around (hm : m.answers = before ++ r :: after) :
  m.addresses = before.filterMap Record.aData
    ++ ([r].filterMap Record.aData ++ after.filterMap Record.aData)
  := by
  rw [Message.addresses, hm, ← List.filterMap_append, ← List.filterMap_append]
  rfl

/-- A record whose data is cut in its harmful part is no `A` record: there is no room for the head
of a record in fewer than four bytes. -/
theorem harmless_of_isA {k : ℕ} {a : Bytes} (hr : r.aData = some a) (hk : k < r.rdata.length)
    (expected : List Bytes) (rounds : ℕ) :
  Harmless expected rounds (r.rdata.take k)
  := by
  apply Harmless.short
  intro r' q heq
  have hfour : r.rdata.length = 4 := by
    rw [Record.aData] at hr
    split at hr
    · next hA => exact hA.2
    · contradiction
  have hsize := congrArg List.length heq
  rw [List.length_take, List.length_append, Record.head, List.length_append,
    Record.length_fixed] at hsize
  omega

/-- The whole answer section is there. -/
theorem returnsPrefix_of_all (h : data.take n = m.encode.take n) (hlen : n ≤ data.length)
    (hall : (m.preamble ++ m.answers.flatMap Record.encode).length ≤ n) :
  ReturnsPrefix m (WarpBootstrapDns.parseA data n)
  := by
  let shorter : Message :=
    { m with rest := m.rest.take (n - (m.preamble ++ m.answers.flatMap Record.encode).length) }
  have hshorter : data.take n = shorter.encode := by
    rw [h, Message.encode, List.take_append, List.take_of_length_le hall]
    rfl
  refine ⟨_, parseA_encode hshorter hlen, ?_⟩
  rw [map_address_addressesOf]
  apply List.prefix_refl

/-- After a cut in the data of a record, a prefix is returned exactly if the data is harmless. -/
theorem returnsPrefix_iff_harmless (hm : m.answers = before ++ r :: after) {k : ℕ}
    (h : data.take n = m.encode.take n) (hlen : n ≤ data.length) (hk : k < r.rdata.length)
    (hcut : n = (m.preamble ++ before.flatMap Record.encode ++ r.head).length + k) :
  ReturnsPrefix m (WarpBootstrapDns.parseA data n)
    ↔ Harmless (after.filterMap Record.aData) after.length (r.rdata.take k)
  := by
  obtain ⟨i, hahead, hparse⟩ := parseA_cut_data hm h hlen hk hcut
  rw [hparse]
  constructor
  · rintro ⟨out, hout, hprefix⟩
    obtain ⟨c', found, hrun, hfound⟩ :=
      exists_parseRecords hlen after.length ⟨i, addressesOf before⟩
    rw [hrun, Option.map_some, Option.some.injEq] at hout
    rw [← hout, hfound, List.map_append, map_address_addressesOf, addresses_around hm,
      List.prefix_append_right_inj] at hprefix
    cases hr : r.aData with
    | none =>
        simp only [List.filterMap_cons, hr, List.filterMap_nil, List.nil_append] at hprefix
        rw [← hahead]
        apply harmless_of_prefix hlen hrun hfound hprefix
    | some a => apply harmless_of_isA hr hk
  · intro hharmless
    cases hr : r.aData with
    | none =>
        obtain ⟨c', found, hrun, hfound, hprefix⟩ :=
          prefix_of_harmless (c := ⟨i, addressesOf before⟩) hlen hharmless hahead
        refine ⟨c'.out, by rw [hrun, Option.map_some], ?_⟩
        rw [hfound, List.map_append, map_address_addressesOf, addresses_around hm,
          List.prefix_append_right_inj]
        simpa only [List.filterMap_cons, hr, List.filterMap_nil, List.nil_append] using hprefix
    | some a =>
        obtain ⟨c', found, hrun, hfound, hprefix⟩ :=
          prefix_of_harmless (c := ⟨i, addressesOf before⟩) hlen
            (harmless_of_isA hr hk [] after.length) hahead
        refine ⟨c'.out, by rw [hrun, Option.map_some], ?_⟩
        rw [List.prefix_nil, List.map_eq_nil_iff] at hprefix
        rw [hfound, hprefix, List.append_nil, map_address_addressesOf, addresses_around hm]
        apply List.prefix_append

/-- The first `n` bytes of a message, in any buffer. -/
theorem returnsPrefix_iff (h : data.take n = m.encode.take n) (hlen : n ≤ data.length)
    (hn : n ≤ m.encode.length) :
  ReturnsPrefix m (WarpBootstrapDns.parseA data n) ↔ SafeCut m n
  := by
  constructor
  · intro hprefix before r after k hm hk hcut
    apply (returnsPrefix_iff_harmless hm h hlen hk hcut).mp hprefix
  · intro hsafe
    by_cases hpre : n < m.preamble.length
    · exact ⟨[], parseA_cut_preamble h hlen hn hpre, List.nil_prefix⟩
    · obtain hall | ⟨before, r, after, hm, hfrom, hto⟩ :=
        cut_cases m.answers (n - m.preamble.length)
      · apply returnsPrefix_of_all h hlen
        rw [List.length_append]
        omega
      · have hstart : (m.preamble ++ before.flatMap Record.encode).length ≤ n := by
          rw [List.length_append]
          omega
        by_cases hhead : n < (m.preamble ++ before.flatMap Record.encode ++ r.head).length
        · refine ⟨_, parseA_cut_head hm h hlen hn hstart hhead, ?_⟩
          rw [map_address_addressesOf, addresses_around hm]
          apply List.prefix_append
        · obtain ⟨k, hk⟩ := Nat.exists_eq_add_of_le (Nat.not_lt.mp hhead)
          have hdata : k < r.rdata.length := by
            simp only [Record.encode, List.length_append] at hto hk
            omega
          apply (returnsPrefix_iff_harmless hm h hlen hdata hk).mpr
          apply hsafe before r after k hm hdata hk

end Result

/-- On the first `n` bytes of a well-formed response the parsers raise nothing and return a prefix
of its addresses, exactly if the bytes do not end in the data of an answer that can be read as
records with other addresses. -/
theorem parseA_truncated_iff (m : Message) (n : ℕ) (hn : n ≤ m.encode.length) (stale : Bytes) :
  ReturnsPrefix m (WarpBootstrapDns.parseA (m.encode.take n ++ stale) n)
      ∧ ReturnsPrefix m (DohResolver.parseA (m.encode.take n))
    ↔ SafeCut m n
  := by
  have hsize : (m.encode.take n).length = n := by
    rw [List.length_take, Nat.min_eq_left hn]
  have hbuffer : (m.encode.take n ++ stale).take n = m.encode.take n := by
    rw [List.take_append_of_le_length (by omega), List.take_take, Nat.min_self]
  have hroom : n ≤ (m.encode.take n ++ stale).length := by
    rw [List.length_append]
    omega
  have harray : (m.encode.take n).take n = m.encode.take n := by
    rw [List.take_take, Nat.min_self]
  rw [DohResolver.parseA, hsize, returnsPrefix_iff hbuffer hroom hn,
    returnsPrefix_iff harray hsize.ge hn, and_self]

/-- A pointer to the name of the question. -/
def questionPointer : Name 63 :=
  ⟨[], .pointer 192 12 (by decide)⟩

/-- A response with a text record and an address record.  The strings of the text record can be
read as an `A` record of the address 6.6.6.6. -/
def disguised : Message where
  id := 7
  flags := 0x8180
  question := [⟨[97], by decide, by decide⟩]
  qtype := 1
  qclass := 1
  answers :=
    [⟨questionPointer, 16, 1, 60, [0, 0, 1, 0, 1, 0, 0, 0, 0, 0, 4, 6, 6, 6, 6, 0], by decide⟩,
      ⟨questionPointer, 1, 1, 60, [1, 2, 3, 4], by decide⟩]
  nsCount := 0
  arCount := 0
  rest := []
  counted := by decide

/-- Cut after 46 bytes, the response yields an address it does not contain. -/
theorem not_returnsPrefix_disguised :
  46 ≤ disguised.encode.length
    ∧ ¬ ReturnsPrefix disguised (WarpBootstrapDns.parseA disguised.encode 46)
    ∧ ¬ ReturnsPrefix disguised (DohResolver.parseA (disguised.encode.take 46))
  := by
  have hbuffer : WarpBootstrapDns.parseA disguised.encode 46
      = some [⟨[6, 6, 6, 6], by decide⟩] := by decide +kernel
  have harray : DohResolver.parseA (disguised.encode.take 46)
      = some [⟨[6, 6, 6, 6], by decide⟩] := by decide +kernel
  have hforeign : ¬ [[6, 6, 6, 6]] <+: disguised.addresses := by decide +kernel
  refine ⟨by decide +kernel, ?_, ?_⟩
  · rintro ⟨out, hout, hprefix⟩
    rw [hbuffer, Option.some.injEq] at hout
    rw [← hout] at hprefix
    apply hforeign hprefix
  · rintro ⟨out, hout, hprefix⟩
    rw [harray, Option.some.injEq] at hout
    rw [← hout] at hprefix
    apply hforeign hprefix

/-- The cut in the head of the text record is safe. -/
theorem safeCut_disguised_head :
  30 ≤ disguised.encode.length ∧ SafeCut disguised 30
  := by
  have hlength : 30 ≤ disguised.encode.length := by decide +kernel
  refine ⟨hlength, (parseA_truncated_iff disguised 30 hlength []).mp ⟨?_, ?_⟩⟩
  · exact ⟨[], by decide +kernel, List.nil_prefix⟩
  · exact ⟨[], by decide +kernel, List.nil_prefix⟩

end Dns
