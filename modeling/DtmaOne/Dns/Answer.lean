import DtmaOne.Library.DnsMessage
import DtmaOne.Socks.Address

/-!
# The parser of DNS answers

`WarpBootstrapDns.parseA` and `DohResolver.parseA`: a cursor runs over the bytes of a response,
past the question and then over as many records as the header announces, and the addresses of the
`A` records are collected.  The two parsers differ only in where the response ends: at a given
length of a buffer, or at the end of the array.

Positions are natural numbers: the arrays are far shorter than `2 ^ 31`.  `none` stands for the
exception of an access outside the array.
-/

namespace Dns

open Socks (Bytes InetAddress)
open DnsMessage

/-! ### The parser -/

/-- `data[i].toInt() and 0xFF` -/
def byteAt (data : Bytes) (i : ℕ) : Option ℕ :=
  data[i]?.map UInt8.toNat

/-- `((data[i].toInt() and 0xFF) shl 8) or (data[i + 1].toInt() and 0xFF)` -/
def shortAt (data : Bytes) (i : ℕ) : Option ℕ := do
  let hi ← byteAt data i
  let lo ← byteAt data (i + 1)
  return hi <<< 8 ||| lo

/-- The loop over the labels of a name, which moves the cursor by `root` at an empty label and by
`pointer` at a compression pointer, and then stops. -/
def skipName (root pointer : ℕ) (data : Bytes) (length i : ℕ) : Option ℕ :=
  if _h : i < length then
    (byteAt data i).bind fun len =>
      if len = 0 then some (i + root)
      else if len &&& 0xC0 = 0xC0 then some (i + pointer)
      else skipName root pointer data length (i + (1 + len))
  else some i
termination_by length - i

/-- The loop past the question: its name, its type and its class. -/
def skipQuestion (data : Bytes) (length i : ℕ) : Option ℕ :=
  skipName 5 6 data length i

/-- The owner of a record: a pointer right away, or the loop over the labels. -/
def skipOwner (data : Bytes) (length i : ℕ) : Option ℕ := do
  let first ← byteAt data i
  if first &&& 0xC0 = 0xC0 then return i + 2
  else skipName 1 2 data length i

/-- The two variables of the loop over the records. -/
structure Cursor where
  i : ℕ
  out : List InetAddress
  deriving DecidableEq

/-- `runCatching { out += InetAddress.getByAddress(data.copyOfRange(i, i + 4)) }` -/
def collect (data : Bytes) (i : ℕ) (out : List InetAddress) : List InetAddress :=
  if i + 4 ≤ data.length then
    match InetAddress.getByAddress ((data.drop i).take 4) with
    | some a => out ++ [a]
    | none => out
  else out

/-- One round of `repeat(anCount)`. -/
def parseRecord (data : Bytes) (length : ℕ) (c : Cursor) : Option Cursor :=
  if c.i ≥ length then some c
  else do
    let i ← skipOwner data length c.i
    if i + 10 > length then return ⟨i, c.out⟩
    let type ← shortAt data i
    let i := i + 8
    let rdlen ← shortAt data i
    let i := i + 2
    if i + rdlen > length then return ⟨i, c.out⟩
    let out := if type = 1 ∧ rdlen = 4 then collect data i c.out else c.out
    return ⟨i + rdlen, out⟩

/-- `repeat(anCount)` -/
def parseRecords (data : Bytes) (length : ℕ) : ℕ → Cursor → Option Cursor
  | 0, c => some c
  | n + 1, c => (parseRecord data length c).bind (parseRecords data length n)

/-- `WarpBootstrapDns.parseA` -/
def WarpBootstrapDns.parseA (data : Bytes) (length : ℕ) : Option (List InetAddress) :=
  if length < 12 then some []
  else do
    let anCount ← shortAt data 6
    let i ← skipQuestion data length 12
    let c ← parseRecords data length anCount ⟨i, []⟩
    return c.out

/-- `DohResolver.parseA` -/
def DohResolver.parseA (data : Bytes) : Option (List InetAddress) :=
  WarpBootstrapDns.parseA data data.length

/-! ### Reading at the cursor -/

/-- The bytes of the response from the cursor on. -/
def ahead (data : Bytes) (length i : ℕ) : Bytes :=
  (data.take length).drop i

section Ahead

variable {data : Bytes} {length i : ℕ}

theorem length_ahead (hlen : length ≤ data.length) :
  (ahead data length i).length = length - i
  := by
  rw [ahead, List.length_drop, List.length_take, Nat.min_eq_left hlen]

theorem ahead_append {p q : Bytes} (h : ahead data length i = p ++ q) :
  ahead data length (i + p.length) = q
  := by
  have hdrop : ahead data length (i + p.length) = (ahead data length i).drop p.length := by
    simp [ahead, List.drop_drop]
  rw [hdrop, h, List.drop_left]

theorem ahead_cons {b : UInt8} {q : Bytes} (h : ahead data length i = b :: q) :
  ahead data length (i + 1) = q
  := ahead_append (p := [b]) h

theorem lt_of_ahead_cons {b : UInt8} {q : Bytes} (h : ahead data length i = b :: q) :
  i < length
  := by
  by_contra hi
  have hnil : ahead data length i = [] := by
    apply List.drop_eq_nil_of_le
    rw [List.length_take]
    omega
  rw [hnil] at h
  contradiction

theorem getElem?_of_ahead_cons {b : UInt8} {q : Bytes} (h : ahead data length i = b :: q) :
  data[i]? = some b
  := by
  have hhead : (ahead data length i)[0]? = some b := by rw [h]; rfl
  rw [ahead, List.getElem?_drop, Nat.add_zero,
    List.getElem?_take_of_lt (lt_of_ahead_cons h)] at hhead
  apply hhead

theorem byteAt_ahead {b : UInt8} {q : Bytes} (h : ahead data length i = b :: q) :
  byteAt data i = some b.toNat
  := by
  rw [byteAt, getElem?_of_ahead_cons h]
  rfl

theorem shortAt_ahead {v : UInt16} {q : Bytes} (h : ahead data length i = uint16Bytes v ++ q) :
  shortAt data i = some v.toNat
  := by
  have hlo := ahead_cons h
  have hv := v.toNat_lt
  rw [shortAt, byteAt_ahead h, byteAt_ahead hlo]
  simp only [Option.bind_eq_bind, Option.bind_some, Option.pure_def, Option.some.injEq]
  rw [Socks.shiftLeft_or_eq_portOf, Socks.portOf, UInt8.toNat_ofNat', UInt8.toNat_ofNat']
  omega

end Ahead

/-! ### Names -/

/-- The two upper bits are set exactly in the bytes from 192 on. -/
theorem and_eq_iff (b : UInt8) :
  b.toNat &&& 0xC0 = 0xC0 ↔ 192 ≤ b.toNat
  := by
  have hall : ∀ x : Fin 256, x.val &&& 0xC0 = 0xC0 ↔ 192 ≤ x.val := by decide +kernel
  apply hall ⟨b.toNat, b.toNat_lt⟩

section Names

variable {data : Bytes} {length i : ℕ}

theorem skipName_of_le {root pointer : ℕ} (hi : length ≤ i) :
  skipName root pointer data length i = some i
  := by
  rw [skipName, dif_neg (Nat.not_lt.mpr hi)]

theorem skipName_cons {root pointer : ℕ} {b : UInt8} {q : Bytes}
    (h : ahead data length i = b :: q) :
  skipName root pointer data length i
    = if b.toNat = 0 then some (i + root)
      else if 192 ≤ b.toNat then some (i + pointer)
      else skipName root pointer data length (i + (1 + b.toNat))
  := by
  rw [skipName, dif_pos (lt_of_ahead_cons h), byteAt_ahead h]
  simp only [Option.bind_some, and_eq_iff]

/-- How far the end of a name moves the cursor. -/
def endShift (root pointer : ℕ) : NameEnd → ℕ
  | .root => root
  | .pointer _ _ _ => pointer

theorem skipName_encode {limit root pointer : ℕ} {name : Name limit} {q : Bytes}
    (hlimit : limit ≤ 191) (h : ahead data length i = name.encode ++ q) :
  skipName root pointer data length i
    = some (i + (name.labels.flatMap Label.encode).length + endShift root pointer name.ending)
  := by
  obtain ⟨labels, ending⟩ := name
  induction labels generalizing i with
  | nil =>
      cases ending with
      | root =>
          rw [skipName_cons h]
          rfl
      | pointer hi lo tagged =>
          rw [skipName_cons h, if_neg (by omega), if_pos tagged]
          rfl
  | cons l ls ih =>
      have hpos := l.nonempty
      have hbound := l.bounded
      have hnat := l.toNat_length (by omega)
      rw [Name.encode_cons, List.append_assoc] at h
      have hnext : ahead data length (i + (1 + l.text.length)) = (Name.mk ls ending).encode ++ q := by
        rw [← ahead_append h, Label.encode, List.length_cons, Nat.add_comm 1]
      rw [skipName_cons h, hnat, if_neg (by omega), if_neg (by omega), ih hnext,
        List.flatMap_cons, List.length_append, Label.encode, List.length_cons]
      simp only [Option.some.injEq]
      omega

/-- The check for a pointer at the first byte is the one the loop makes. -/
theorem skipOwner_eq {b : UInt8} {q : Bytes} (h : ahead data length i = b :: q) :
  skipOwner data length i = skipName 1 2 data length i
  := by
  rw [skipOwner, byteAt_ahead h, skipName_cons h]
  simp only [Option.bind_eq_bind, Option.bind_some, and_eq_iff]
  split
  · next htag => rw [if_neg (by omega)]; rfl
  · next htag => rfl

theorem skipOwner_encode {limit : ℕ} {name : Name limit} {q : Bytes}
    (hlimit : limit ≤ 191) (h : ahead data length i = name.encode ++ q) :
  skipOwner data length i = some (i + name.encode.length)
  := by
  obtain ⟨b, t, hcons⟩ : ∃ b t, name.encode ++ q = b :: t := by
    obtain ⟨_ | ⟨l, ls⟩, _ | ⟨hi, lo, tagged⟩⟩ := name
    all_goals exact ⟨_, _, rfl⟩
  rw [skipOwner_eq (h.trans hcons), skipName_encode hlimit h, Name.encode, List.length_append,
    Nat.add_assoc]
  cases name.ending with
  | root => rfl
  | pointer hi lo tagged => rfl

end Names

/-! ### Records -/

/-- The addresses that records give, as the parser returns them. -/
def addressesOf {limit : ℕ} (records : List (Record limit)) : List InetAddress :=
  (records.filterMap Record.aData).filterMap InetAddress.getByAddress

section Records

variable {data : Bytes} {length : ℕ} {c : Cursor} {limit : ℕ} {r : Record limit}

/-- The round at a record, up to its data. -/
theorem parseRecord_head {q : Bytes} (hlen : length ≤ data.length) (hlimit : limit ≤ 191)
    (h : ahead data length c.i = r.head ++ q) :
  parseRecord data length c
    = if r.rdata.length ≤ q.length then
        some ⟨c.i + r.head.length + r.rdata.length,
          if r.type = 1 ∧ r.rdata.length = 4 then collect data (c.i + r.head.length) c.out
          else c.out⟩
      else some ⟨c.i + r.head.length, c.out⟩
  := by
  have hname : ahead data length c.i = r.owner.encode ++ (r.fixed ++ q) := by
    rw [h, Record.head, List.append_assoc]
  have htype : ahead data length (c.i + r.owner.encode.length) = r.fixed ++ q :=
    ahead_append hname
  have htype' : ahead data length (c.i + r.owner.encode.length) = uint16Bytes r.type
      ++ (uint16Bytes r.cls ++ uint32Bytes r.ttl
        ++ uint16Bytes (UInt16.ofNat r.rdata.length) ++ q) := by
    rw [htype, Record.fixed]
    simp only [List.append_assoc]
  have hrdlen : ahead data length (c.i + r.owner.encode.length + 8)
      = uint16Bytes (UInt16.ofNat r.rdata.length) ++ q := by
    have hsplit : ahead data length (c.i + r.owner.encode.length)
        = (uint16Bytes r.type ++ uint16Bytes r.cls ++ uint32Bytes r.ttl)
          ++ (uint16Bytes (UInt16.ofNat r.rdata.length) ++ q) := by
      rw [htype, Record.fixed]
      simp only [List.append_assoc]
    apply ahead_append hsplit
  have hend : (ahead data length c.i).length = r.head.length + q.length := by
    rw [h, List.length_append]
  rw [length_ahead hlen] at hend
  have hhead : r.head.length = r.owner.encode.length + 10 := by
    rw [Record.head, List.length_append, Record.length_fixed]
  have htoNat : r.type.toNat = 1 ↔ r.type = 1 := by
    rw [← UInt16.toNat_inj]
    rfl
  rw [parseRecord, if_neg (by omega), skipOwner_encode hlimit hname]
  simp only [Option.bind_eq_bind, Option.bind_some]
  rw [if_neg (by omega), shortAt_ahead htype', shortAt_ahead hrdlen, r.toNat_dataLength]
  simp only [Option.bind_some, htoNat, Option.pure_def]
  by_cases hfits : r.rdata.length ≤ q.length
  · rw [if_neg (by omega), if_pos hfits, hhead]
    rfl
  · rw [if_pos (by omega), if_neg hfits, hhead]
    rfl

/-- The round at a record that the response contains in full. -/
theorem parseRecord_encode {q : Bytes} (hlen : length ≤ data.length) (hlimit : limit ≤ 191)
    (h : ahead data length c.i = r.encode ++ q) :
  parseRecord data length c = some ⟨c.i + r.encode.length, c.out ++ addressesOf [r]⟩
  := by
  have hhead : ahead data length c.i = r.head ++ (r.rdata ++ q) := by
    rw [h, Record.encode, List.append_assoc]
  have hdata : ahead data length (c.i + r.head.length) = r.rdata ++ q := ahead_append hhead
  have hroom := congrArg List.length hdata
  rw [length_ahead hlen, List.length_append] at hroom
  rw [parseRecord_head hlen hlimit hhead, if_pos (by simp)]
  simp only [Record.encode, List.length_append, Nat.add_assoc, Option.some.injEq,
    Cursor.mk.injEq, true_and]
  by_cases ha : r.type = 1 ∧ r.rdata.length = 4
  · have hfour : (data.drop (c.i + r.head.length)).take 4 = r.rdata := by
      have htake : (ahead data length (c.i + r.head.length)).take 4 = r.rdata := by
        rw [hdata, ← ha.2, List.take_left]
      rw [← htake, ahead, List.drop_take, List.take_take, Nat.min_eq_left (by omega)]
    rw [if_pos ha, collect, if_pos (by omega), hfour]
    simp [addressesOf, Record.aData, ha, InetAddress.getByAddress_of_length_four ha.2]
  · rw [if_neg ha]
    simp [addressesOf, Record.aData, ha]

/-- The round at a record whose data does not fit. -/
theorem parseRecord_cut {q : Bytes} (hlen : length ≤ data.length) (hlimit : limit ≤ 191)
    (h : ahead data length c.i = r.head ++ q) (hcut : q.length < r.rdata.length) :
  parseRecord data length c = some ⟨c.i + r.head.length, c.out⟩
  := by
  rw [parseRecord_head hlen hlimit h, if_neg (by omega)]

/-- The rounds over records that the response contains in full. -/
theorem parseRecords_encode {records : List (Record limit)} {k : ℕ} {q : Bytes}
    (hlen : length ≤ data.length) (hlimit : limit ≤ 191)
    (h : ahead data length c.i = records.flatMap Record.encode ++ q) :
  parseRecords data length (records.length + k) c
    = parseRecords data length k
        ⟨c.i + (records.flatMap Record.encode).length, c.out ++ addressesOf records⟩
  := by
  induction records generalizing c with
  | nil => simp [addressesOf]
  | cons r rs ih =>
      rw [List.flatMap_cons, List.append_assoc] at h
      have hrest := ih (c := ⟨c.i + r.encode.length, c.out ++ addressesOf [r]⟩) (ahead_append h)
      have hcons : c.out ++ addressesOf (r :: rs)
          = c.out ++ addressesOf [r] ++ addressesOf rs := by
        rw [List.append_assoc, addressesOf, addressesOf, addressesOf, ← List.filterMap_append,
          ← List.filterMap_append]
        rfl
      rw [List.length_cons, Nat.add_right_comm, parseRecords, parseRecord_encode hlen hlimit h,
        Option.bind_some, hrest, hcons, List.flatMap_cons, List.length_append, Nat.add_assoc]

end Records

/-! ### Messages -/

section Messages

variable {m : Message} {data : Bytes} {length : ℕ}

/-- The number of answers as the header gives it. -/
theorem shortAt_header {q : Bytes} (h : data.take length = m.header ++ q) :
  shortAt data 6 = some m.answers.length
  := by
  have hcount : ahead data length 6 = uint16Bytes (UInt16.ofNat m.answers.length)
      ++ (uint16Bytes m.nsCount ++ uint16Bytes m.arCount ++ q) := by
    rw [ahead, h]
    rfl
  rw [shortAt_ahead hcount, UInt16.toNat_ofNat_of_lt' m.counted]

/-- The cursor after the question. -/
theorem skipQuestion_preamble {q : Bytes} (h : data.take length = m.preamble ++ q) :
  skipQuestion data length 12 = some m.preamble.length
  := by
  have hname : ahead data length 12 = (Name.mk m.question .root).encode
      ++ (uint16Bytes m.qtype ++ uint16Bytes m.qclass ++ q) := by
    have hall : ahead data length 0 = m.header
        ++ ((Name.mk m.question .root).encode
          ++ (uint16Bytes m.qtype ++ uint16Bytes m.qclass ++ q)) := by
      rw [ahead, List.drop_zero, h, Message.preamble, Message.questionBytes]
      simp only [List.append_assoc]
    have hdrop := ahead_append hall
    rwa [m.length_header, Nat.zero_add] at hdrop
  rw [skipQuestion, skipName_encode (by decide) hname, Message.preamble, Message.questionBytes]
  simp only [endShift, Name.encode, NameEnd.encode, uint16Bytes, List.length_append,
    List.length_cons, List.length_nil, Message.length_header, Option.some.injEq]
  omega

/-- The parser on the bytes of a message that start with its preamble. -/
theorem parseA_preamble {q : Bytes} (h : data.take length = m.preamble ++ q)
    (hlen : length ≤ data.length) :
  WarpBootstrapDns.parseA data length
    = (parseRecords data length m.answers.length ⟨m.preamble.length, []⟩).map Cursor.out
  := by
  have hroom := congrArg List.length h
  rw [List.length_take, Nat.min_eq_left hlen, List.length_append] at hroom
  have hpre : 12 ≤ m.preamble.length := by
    rw [Message.preamble, List.length_append, m.length_header]
    omega
  have hheader : data.take length = m.header ++ (m.questionBytes ++ q) := by
    rw [h, Message.preamble, List.append_assoc]
  rw [WarpBootstrapDns.parseA, if_neg (by omega), shortAt_header hheader,
    skipQuestion_preamble h, Option.map_eq_bind]
  rfl

/-- `parseA` on the bytes of a message. -/
theorem parseA_encode (h : data.take length = m.encode)
    (hlen : length ≤ data.length) :
  WarpBootstrapDns.parseA data length = some (addressesOf m.answers)
  := by
  have hpre : data.take length = m.preamble ++ (m.answers.flatMap Record.encode ++ m.rest) := by
    rw [h, Message.encode, List.append_assoc]
  have hahead : ahead data length m.preamble.length
      = m.answers.flatMap Record.encode ++ m.rest := by
    rw [ahead, hpre, List.drop_left]
  have hrecords := parseRecords_encode (k := 0) (c := ⟨m.preamble.length, []⟩) hlen
    (by decide) hahead
  rw [parseA_preamble hpre hlen, ← Nat.add_zero m.answers.length, hrecords]
  rfl

/-- The bytes of the returned addresses. -/
theorem map_address_addressesOf {limit : ℕ} (records : List (Record limit)) :
  (addressesOf records).map InetAddress.address = records.filterMap Record.aData
  := by
  induction records with
  | nil => rfl
  | cons r rs ih =>
      by_cases ha : r.type = 1 ∧ r.rdata.length = 4
      · have hget := InetAddress.getByAddress_of_length_four ha.2
        simp only [addressesOf] at ih
        simp [addressesOf, Record.aData, ha, hget, ih]
      · simp only [addressesOf] at ih
        simp [addressesOf, Record.aData, ha, ih]

/-- On the bytes of a well-formed response the parsers return the addresses of its answers, in
their order. -/
theorem parseA_exact (m : Message) (stale : Bytes) :
  (WarpBootstrapDns.parseA (m.encode ++ stale) m.encode.length).map (List.map InetAddress.address)
      = some m.addresses
    ∧ (DohResolver.parseA m.encode).map (List.map InetAddress.address) = some m.addresses
  := by
  constructor
  · have hbuffer : (m.encode ++ stale).take m.encode.length = m.encode := List.take_left
    rw [parseA_encode hbuffer (by simp), Option.map_some, map_address_addressesOf]
    rfl
  · have harray : m.encode.take m.encode.length = m.encode := List.take_length
    rw [DohResolver.parseA, parseA_encode harray (Nat.le_refl _), Option.map_some,
      map_address_addressesOf]
    rfl

end Messages

end Dns
