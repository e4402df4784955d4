import DtmaOne.Dns.Answer

/-!
# The three parsers of DNS answers

`ProtectedDnsClient.parseAnswers` reads the header of a record at fixed offsets from the cursor and
moves the cursor once, and collects the addresses of one of two types.  For the type `A` it is the
same function as the two other parsers, on every array.
-/

namespace Dns

open Socks (Bytes InetAddress)

/-! ### The parser for two types -/

namespace ProtectedDnsClient

/-- `InetAddress.getByAddress(data.copyOfRange(i, i + n))`, where `none` is an exception. -/
def addressAt (data : Bytes) (i n : ℕ) : Option InetAddress :=
  if i + n ≤ data.length then InetAddress.getByAddress ((data.drop i).take n) else none

/-- One round of `repeat(anCount)`. -/
def parseAnswer (data : Bytes) (length expectedType : ℕ) (c : Cursor) : Option Cursor :=
  if c.i ≥ length then some c
  else do
    let i ← skipOwner data length c.i
    if i + 10 > length then return ⟨i, c.out⟩
    let type ← shortAt data i
    let rdLength ← shortAt data (i + 8)
    let i := i + 10
    if i + rdLength > length then return ⟨i, c.out⟩
    if type = expectedType then
      if type = 1 ∧ rdLength = 4 then
        let a ← addressAt data i 4
        return ⟨i + rdLength, c.out ++ [a]⟩
      else if type = 28 ∧ rdLength = 16 then
        let a ← addressAt data i 16
        return ⟨i + rdLength, c.out ++ [a]⟩
    return ⟨i + rdLength, c.out⟩

/-- `repeat(anCount)` -/
def parseAnswerRecords (data : Bytes) (length expectedType : ℕ) : ℕ → Cursor → Option Cursor
  | 0, c => some c
  | n + 1, c =>
      (parseAnswer data length expectedType c).bind (parseAnswerRecords data length expectedType n)

/-- `ProtectedDnsClient.parseAnswers` -/
def parseAnswers (data : Bytes) (length expectedType : ℕ) : Option (List InetAddress) :=
  if length < 12 then some []
  else do
    let anCount ← shortAt data 6
    let i ← skipQuestion data length 12
    let c ← parseAnswerRecords data length expectedType anCount ⟨i, []⟩
    return c.out

end ProtectedDnsClient

/-! ### Reading within the response -/

section Within

variable {data : Bytes} {length : ℕ} (hlen : length ≤ data.length)
include hlen

theorem exists_byteAt {i : ℕ} (hi : i < length) :
  ∃ b, byteAt data i = some b
  := by
  use data[i].toNat
  rw [byteAt, List.getElem?_eq_getElem (by omega)]
  rfl

theorem exists_shortAt {i : ℕ} (hi : i + 1 < length) :
  ∃ v, shortAt data i = some v
  := by
  obtain ⟨first, hhi⟩ := exists_byteAt hlen (i := i) (by omega)
  obtain ⟨lo, hlo⟩ := exists_byteAt hlen hi
  use first <<< 8 ||| lo
  rw [shortAt, hhi, hlo]
  rfl

/-- The loop over a name ends. -/
theorem exists_skipName (root pointer i : ℕ) :
  ∃ j, skipName root pointer data length i = some j
  := by
  induction hn : length - i using Nat.strong_induction_on generalizing i with
  | _ n ih =>
      rw [skipName]
      by_cases hi : i < length
      · obtain ⟨len, hbyte⟩ := exists_byteAt hlen hi
        rw [dif_pos hi, hbyte, Option.bind_some]
        split_ifs
        · exact ⟨_, rfl⟩
        · exact ⟨_, rfl⟩
        · exact ih (length - (i + (1 + len))) (by omega) (i + (1 + len)) rfl
      · rw [dif_neg hi]
        exact ⟨_, rfl⟩

theorem exists_skipOwner {i : ℕ} (hi : i < length) :
  ∃ j, skipOwner data length i = some j
  := by
  obtain ⟨first, hbyte⟩ := exists_byteAt hlen hi
  rw [skipOwner, hbyte]
  simp only [Option.bind_eq_bind, Option.bind_some]
  split_ifs
  · exact ⟨_, rfl⟩
  · exact exists_skipName hlen 1 2 i

/-- The four bytes of a record within the response are an address. -/
theorem exists_addressAt {i : ℕ} (hi : i + 4 ≤ length) :
  ∃ a, ProtectedDnsClient.addressAt data i 4 = some a
    ∧ ∀ out, collect data i out = out ++ [a]
  := by
  have hfour : ((data.drop i).take 4).length = 4 := by
    rw [List.length_take, List.length_drop]
    omega
  use ⟨(data.drop i).take 4, Or.inl hfour⟩
  constructor
  · rw [ProtectedDnsClient.addressAt, if_pos (by omega),
      InetAddress.getByAddress_of_length_four hfour]
  · intro out
    rw [collect, if_pos (by omega), InetAddress.getByAddress_of_length_four hfour]

/-- A round of the parser for two types is a round of the other parsers, and ends. -/
theorem parseAnswer_eq (c : Cursor) :
  ∃ c', parseRecord data length c = some c'
    ∧ ProtectedDnsClient.parseAnswer data length 1 c = some c'
  := by
  by_cases hend : c.i ≥ length
  · use c
    rw [parseRecord, if_pos hend, ProtectedDnsClient.parseAnswer, if_pos hend]
    exact ⟨rfl, rfl⟩
  · obtain ⟨j, howner⟩ := exists_skipOwner hlen (i := c.i) (by omega)
    rw [parseRecord, if_neg hend, ProtectedDnsClient.parseAnswer, if_neg hend, howner]
    simp only [Option.bind_eq_bind, Option.bind_some, Option.pure_def]
    by_cases hfixed : j + 10 > length
    · use ⟨j, c.out⟩
      rw [if_pos hfixed, if_pos hfixed]
      exact ⟨rfl, rfl⟩
    · obtain ⟨type, htype⟩ := exists_shortAt hlen (i := j) (by omega)
      obtain ⟨rdlen, hrdlen⟩ := exists_shortAt hlen (i := j + 8) (by omega)
      rw [if_neg hfixed, if_neg hfixed, htype, Option.bind_some, Option.bind_some, hrdlen,
        Option.bind_some, Option.bind_some]
      by_cases hdata : j + 10 + rdlen > length
      · use ⟨j + 10, c.out⟩
        rw [if_pos hdata, if_pos hdata]
        exact ⟨rfl, rfl⟩
      · rw [if_neg hdata, if_neg hdata]
        by_cases hone : type = 1
        · by_cases hfour : rdlen = 4
          · obtain ⟨a, haddress, hcollect⟩ := exists_addressAt hlen (i := j + 10) (by omega)
            use ⟨j + 10 + rdlen, c.out ++ [a]⟩
            rw [if_pos ⟨hone, hfour⟩, if_pos hone, if_pos ⟨hone, hfour⟩, haddress, hcollect]
            exact ⟨rfl, rfl⟩
          · use ⟨j + 10 + rdlen, c.out⟩
            rw [if_neg (fun h => hfour h.2), if_pos hone, if_neg (fun h => hfour h.2),
              if_neg (by omega)]
            exact ⟨rfl, rfl⟩
        · use ⟨j + 10 + rdlen, c.out⟩
          rw [if_neg (fun h => hone h.1), if_neg hone]
          exact ⟨rfl, rfl⟩

theorem parseAnswerRecords_eq (n : ℕ) (c : Cursor) :
  ∃ c', parseRecords data length n c = some c'
    ∧ ProtectedDnsClient.parseAnswerRecords data length 1 n c = some c'
  := by
  induction n generalizing c with
  | zero => exact ⟨c, rfl, rfl⟩
  | succ n ih =>
      obtain ⟨c', hrecord, hanswer⟩ := parseAnswer_eq hlen c
      rw [parseRecords, ProtectedDnsClient.parseAnswerRecords, hrecord, hanswer]
      exact ih c'

/-- The parser for two types agrees with `WarpBootstrapDns.parseA`, and both return. -/
theorem parseAnswers_eq :
  ∃ out, WarpBootstrapDns.parseA data length = some out
    ∧ ProtectedDnsClient.parseAnswers data length 1 = some out
  := by
  rw [WarpBootstrapDns.parseA, ProtectedDnsClient.parseAnswers]
  by_cases hshort : length < 12
  · rw [if_pos hshort, if_pos hshort]
    exact ⟨[], rfl, rfl⟩
  · obtain ⟨anCount, hcount⟩ := exists_shortAt hlen (i := 6) (by omega)
    obtain ⟨i, hquestion⟩ := exists_skipName hlen 5 6 12
    obtain ⟨c, hrecords, hanswers⟩ := parseAnswerRecords_eq hlen anCount ⟨i, []⟩
    use c.out
    rw [if_neg hshort, if_neg hshort, hcount, skipQuestion, hquestion]
    simp only [Option.bind_eq_bind, Option.bind_some, hrecords, hanswers]
    exact ⟨rfl, rfl⟩

end Within

/-! ### The first bytes of a buffer -/

section Take

variable {data : Bytes} {length : ℕ}

theorem byteAt_take {i : ℕ} (hi : i < length) :
  byteAt (data.take length) i = byteAt data i
  := by
  rw [byteAt, byteAt, List.getElem?_take_of_lt hi]

theorem shortAt_take {i : ℕ} (hi : i + 1 < length) :
  shortAt (data.take length) i = shortAt data i
  := by
  rw [shortAt, shortAt, byteAt_take (by omega), byteAt_take hi]

theorem skipName_take (root pointer i : ℕ) :
  skipName root pointer (data.take length) length i = skipName root pointer data length i
  := by
  induction hn : length - i using Nat.strong_induction_on generalizing i with
  | _ n ih =>
      rw [skipName]
      conv_rhs => rw [skipName]
      by_cases hi : i < length
      · rw [dif_pos hi, dif_pos hi, byteAt_take hi]
        congr 1
        funext len
        rw [ih (length - (i + (1 + len))) (by omega) (i + (1 + len)) rfl]
      · rw [dif_neg hi, dif_neg hi]

theorem skipOwner_take {i : ℕ} (hi : i < length) :
  skipOwner (data.take length) length i = skipOwner data length i
  := by
  simp only [skipOwner, byteAt_take hi, skipName_take]

variable (hlen : length ≤ data.length)
include hlen

theorem collect_take {i : ℕ} (hi : i + 4 ≤ length) (out : List InetAddress) :
  collect (data.take length) i out = collect data i out
  := by
  have hbytes : ((data.take length).drop i).take 4 = (data.drop i).take 4 := by
    rw [List.drop_take, List.take_take, Nat.min_eq_left (by omega)]
  rw [collect, collect, hbytes, List.length_take, if_pos (by omega), if_pos (by omega)]

theorem parseRecord_take (c : Cursor) :
  parseRecord (data.take length) length c = parseRecord data length c
  := by
  by_cases hend : c.i ≥ length
  · rw [parseRecord, if_pos hend, parseRecord, if_pos hend]
  · obtain ⟨j, howner⟩ := exists_skipOwner hlen (i := c.i) (by omega)
    rw [parseRecord, if_neg hend, parseRecord, if_neg hend, skipOwner_take (by omega), howner]
    simp only [Option.bind_eq_bind, Option.bind_some]
    by_cases hfixed : j + 10 > length
    · rw [if_pos hfixed, if_pos hfixed]
    · obtain ⟨type, htype⟩ := exists_shortAt hlen (i := j) (by omega)
      obtain ⟨rdlen, hrdlen⟩ := exists_shortAt hlen (i := j + 8) (by omega)
      rw [if_neg hfixed, if_neg hfixed, shortAt_take (by omega), shortAt_take (by omega), htype,
        Option.bind_some, Option.bind_some, hrdlen, Option.bind_some, Option.bind_some]
      by_cases hdata : j + 8 + 2 + rdlen > length
      · rw [if_pos hdata, if_pos hdata]
      · rw [if_neg hdata, if_neg hdata]
        by_cases ha : type = 1 ∧ rdlen = 4
        · rw [if_pos ha, if_pos ha, collect_take hlen (by omega)]
        · rw [if_neg ha, if_neg ha]

theorem parseRecords_take (n : ℕ) (c : Cursor) :
  parseRecords (data.take length) length n c = parseRecords data length n c
  := by
  induction n generalizing c with
  | zero => rfl
  | succ n ih =>
      rw [parseRecords, parseRecords, parseRecord_take hlen]
      congr 1
      funext c'
      exact ih c'

/-- The parser of an array agrees with the parser of a buffer that begins with it. -/
theorem parseA_take :
  DohResolver.parseA (data.take length) = WarpBootstrapDns.parseA data length
  := by
  have hsize : (data.take length).length = length := by
    rw [List.length_take, Nat.min_eq_left hlen]
  rw [DohResolver.parseA, hsize, WarpBootstrapDns.parseA, WarpBootstrapDns.parseA]
  by_cases hshort : length < 12
  · rw [if_pos hshort, if_pos hshort]
  · rw [if_neg hshort, if_neg hshort, shortAt_take (by omega), skipQuestion, skipQuestion,
      skipName_take]
    simp only [parseRecords_take hlen]

end Take

/-- On the first bytes of every array, well-formed or not, the three parsers return, and return the
same addresses. -/
theorem parsers_agree (data : Bytes) (length : ℕ) (hlen : length ≤ data.length) :
  ∃ out, WarpBootstrapDns.parseA data length = some out
    ∧ DohResolver.parseA (data.take length) = some out
    ∧ ProtectedDnsClient.parseAnswers data length 1 = some out
  := by
  obtain ⟨out, hwarp, hprotected⟩ := parseAnswers_eq hlen
  use out, hwarp, ?_, hprotected
  rw [parseA_take hlen, hwarp]

/-- A record that announces more data than there is. -/
theorem parsers_agree_cut :
  let data : Bytes := [0, 0, 0x81, 0x80, 0, 1, 0, 2, 0, 0, 0, 0, 0, 0, 1, 0, 1,
    0xc0, 12, 0, 1, 0, 1, 0, 0, 0, 60, 0, 9, 1, 2, 3, 4]
  ∃ out, WarpBootstrapDns.parseA data data.length = some out
    ∧ DohResolver.parseA (data.take data.length) = some out
    ∧ ProtectedDnsClient.parseAnswers data data.length 1 = some out
  := by
  intro data
  exact parsers_agree data data.length (Nat.le_refl _)

end Dns
