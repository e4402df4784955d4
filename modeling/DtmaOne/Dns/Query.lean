import DtmaOne.Dns.Answer
import DtmaOne.Dns.Bootstrap

/-!
# DNS queries

`DohResolver`, `WarpBootstrapDns` and `ProtectedDnsClient` each build the query for a host name, and
`SimpleDnsServer.parseQuestion` reads the question of a query.  A query is read as what it was built
from: the non-empty labels of the name, joined by dots, the type and the class `IN`.
-/

namespace Dns

open Socks (Bytes asciiString)
open DnsMessage

/-! ### The builders -/

/-- `name.split('.').filter { it.isNotEmpty() }` -/
def labels (name : String) : List String := (Text.split '.' name).filter (· ≠ "")

/-- `s.toByteArray(Charsets.US_ASCII)`: a character outside ASCII becomes a question mark. -/
def asciiBytes (s : String) : Bytes :=
  s.toList.map fun c => if c.toNat < 128 then UInt8.ofNat c.toNat else 63

/-- The loop over the labels, and the empty label. -/
def nameBytes (labels : List String) : Bytes :=
  labels.flatMap (fun l =>
    let b := asciiBytes l
    UInt8.ofNat b.length :: b) ++ [0]

/-- `buf.putShort(v.toShort())` -/
def putShort (v : ℕ) : Bytes := [UInt8.ofNat (v >>> 8), UInt8.ofNat v]

/-- `DohResolver.buildQuery`, with the time of its clock. -/
def DohResolver.buildQuery (lowercase : String → String) (nanoTime : ℕ) (name : String)
    (type : ℕ) : Bytes :=
  let labels := labels (WarpBootstrapDns.trimEndDots (lowercase (Text.trim name)))
  let id := nanoTime &&& 0xFFFF
  [UInt8.ofNat (id >>> 8), UInt8.ofNat (id &&& 0xFF), 0x01, 0x00, 0x00, 0x01, 0, 0, 0, 0, 0, 0]
    ++ nameBytes labels
    ++ [UInt8.ofNat (type >>> 8), UInt8.ofNat (type &&& 0xFF), 0x00, 0x01]

/-- `WarpBootstrapDns.buildQuery`, with the time of its clock. -/
def WarpBootstrapDns.buildQuery (nanoTime : ℕ) (name : String) (type : ℕ) : Bytes :=
  putShort (nanoTime &&& 0xFFFF) ++ putShort 0x0100 ++ putShort 1 ++ putShort 0 ++ putShort 0
    ++ putShort 0 ++ nameBytes (labels name) ++ putShort type ++ putShort 1

/-- `ProtectedDnsClient.buildQuery` -/
def ProtectedDnsClient.buildQuery (name : String) (type : ℕ) : Bytes :=
  putShort 0x1234 ++ putShort 0x0100 ++ putShort 1 ++ putShort 0 ++ putShort 0 ++ putShort 0
    ++ nameBytes (labels name) ++ putShort type ++ putShort 1

/-! ### The parser of the question -/

namespace SimpleDnsServer

/-- `Question` -/
structure Question where
  name : String
  type : ℕ
  qClass : ℕ
  endAt : ℕ
  deriving DecidableEq, Repr

/-- The loop over the labels: the cursor after the name, and its labels. -/
def parseLabels (query : Bytes) (i : ℕ) (labels : List String) : Option (ℕ × List String) :=
  if _h : i < query.length then
    let len := (query.getD i 0).toNat
    if len = 0 then some (i + 1, labels)
    else if len &&& 0xC0 = 0xC0 then none
    else if i + 1 + len > query.length then none
    else parseLabels query (i + (1 + len)) (labels ++ [asciiString ((query.drop (i + 1)).take len)])
  else some (i, labels)
termination_by query.length - i

/-- `SimpleDnsServer.parseQuestion` -/
def parseQuestion (query : Bytes) : Option Question := do
  let (i, labels) ← parseLabels query 12 []
  if i + 4 > query.length then none
  let type := (query.getD i 0).toNat <<< 8 ||| (query.getD (i + 1) 0).toNat
  let qClass := (query.getD (i + 2) 0).toNat <<< 8 ||| (query.getD (i + 3) 0).toNat
  return ⟨Text.joinToString '.' labels, type, qClass, i + 4⟩

end SimpleDnsServer

/-! ### Reading a name -/

section Reading

variable {query : Bytes} {i : ℕ}

theorem getD_ahead {b : UInt8} {q : Bytes} (h : ahead query query.length i = b :: q) :
  query.getD i 0 = b
  := by
  rw [List.getD_eq_getElem?_getD, getElem?_of_ahead_cons h]
  rfl

/-- The loop reads the labels of a name. -/
theorem parseLabels_encode {limit : ℕ} (hlimit : limit ≤ 191) {ls : List (Label limit)} {q : Bytes}
    (h : ahead query query.length i = (Name.mk ls .root).encode ++ q) (out : List String) :
  SimpleDnsServer.parseLabels query i out
    = some (i + (Name.mk ls .root).encode.length, out ++ ls.map fun l => asciiString l.text)
  := by
  induction ls generalizing i out with
  | nil =>
      rw [SimpleDnsServer.parseLabels, dif_pos (lt_of_ahead_cons h), getD_ahead h]
      simp [Name.encode, NameEnd.encode]
  | cons l ls ih =>
      have hpos := l.nonempty
      have hbound := l.bounded
      have hnat := l.toNat_length (by omega)
      have htag := and_eq_iff (UInt8.ofNat l.text.length)
      rw [hnat] at htag
      rw [Name.encode_cons, List.append_assoc] at h
      have htext : ahead query query.length (i + 1) = l.text ++ ((Name.mk ls .root).encode ++ q) :=
        ahead_cons h
      have hnext : ahead query query.length (i + (1 + l.text.length))
          = (Name.mk ls .root).encode ++ q := by
        rw [← ahead_append h, Label.encode, List.length_cons, Nat.add_comm 1]
      have hbytes : (query.drop (i + 1)).take l.text.length = l.text := by
        rw [ahead, List.take_length] at htext
        rw [htext, List.take_left]
      have hroom := congrArg List.length htext
      rw [length_ahead (Nat.le_refl _), List.length_append] at hroom
      have hlabel := lt_of_ahead_cons h
      rw [SimpleDnsServer.parseLabels, dif_pos hlabel, getD_ahead h, hnat]
      dsimp only
      rw [if_neg (by omega), if_neg (by omega), if_neg (by omega), hbytes, ih hnext,
        Name.encode_cons, List.length_append, Label.encode, List.length_cons]
      simp only [List.map_cons, List.append_assoc, List.singleton_append, Option.some.injEq,
        Prod.mk.injEq, and_true]
      omega

theorem shiftLeft_or_ahead {v : UInt16} {q : Bytes}
    (h : ahead query query.length i = uint16Bytes v ++ q) :
  (query.getD i 0).toNat <<< 8 ||| (query.getD (i + 1) 0).toNat = v.toNat
  := by
  have hshort := shortAt_ahead h
  rw [shortAt, byteAt_ahead h, byteAt_ahead (ahead_cons h)] at hshort
  rw [getD_ahead h, getD_ahead (ahead_cons h)]
  exact Option.some.inj hshort

/-- The question of a query is read. -/
theorem parseQuestion_encode {limit : ℕ} (hlimit : limit ≤ 191) {header : Bytes}
    (hheader : header.length = 12) (ls : List (Label limit)) (qtype qclass : UInt16) (q : Bytes) :
  SimpleDnsServer.parseQuestion (header ++ ((Name.mk ls .root).encode
      ++ (uint16Bytes qtype ++ (uint16Bytes qclass ++ q))))
    = some ⟨Text.joinToString '.' (ls.map fun l => asciiString l.text), qtype.toNat, qclass.toNat,
        12 + (Name.mk ls .root).encode.length + 4⟩
  := by
  generalize hquery : header ++ ((Name.mk ls .root).encode
    ++ (uint16Bytes qtype ++ (uint16Bytes qclass ++ q))) = query
  have hname : ahead query query.length 12 = (Name.mk ls .root).encode
      ++ (uint16Bytes qtype ++ (uint16Bytes qclass ++ q)) := by
    rw [ahead, List.take_length, ← hquery, List.drop_left' hheader]
  have htype := ahead_append hname
  have hclass := ahead_append htype
  have hroom := congrArg List.length htype
  have htwo (v : UInt16) : (uint16Bytes v).length = 2 := rfl
  rw [length_ahead (Nat.le_refl _), List.length_append, List.length_append, htwo, htwo] at hroom
  rw [htwo] at hclass
  rw [SimpleDnsServer.parseQuestion, parseLabels_encode hlimit hname]
  simp only [Option.bind_eq_bind, Option.bind_some, List.nil_append]
  rw [if_neg (by omega), shiftLeft_or_ahead htype, shiftLeft_or_ahead hclass]
  rfl

end Reading

/-! ### Labels -/

/-- A label of ASCII characters, of which there are at least one and at most 63. -/
structure IsLabel (l : String) : Prop where
  nonempty : l ≠ ""
  ascii : ∀ c ∈ l.toList, c.toNat < 128
  bounded : l.toList.length ≤ 63

/-- ASCII characters are encoded by their numbers. -/
theorem asciiString_asciiBytes {l : String} (hl : ∀ c ∈ l.toList, c.toNat < 128) :
  asciiString (asciiBytes l) = l
  := by
  have hchars : (asciiBytes l).map (fun x => if x < 128 then Char.ofNat x.toNat
      else Char.ofNat 0xfffd) = l.toList.map id := by
    rw [asciiBytes, List.map_map]
    apply List.map_congr_left
    intro c hc
    have hlt := hl c hc
    have hbyte : (UInt8.ofNat c.toNat).toNat = c.toNat := by
      apply UInt8.toNat_ofNat_of_lt
      simp only [UInt8.size]
      omega
    have hsmall : UInt8.ofNat c.toNat < 128 := by
      rw [UInt8.lt_iff_toNat_lt, hbyte]
      exact hlt
    rw [Function.comp_apply, if_pos hlt, if_pos hsmall, hbyte, Char.ofNat_toNat, id_eq]
  rw [asciiString, hchars, List.map_id, String.ofList_toList]

/-- The bytes of labels are those of a name of the message format. -/
theorem exists_nameBytes_eq {parts : List String} (hparts : ∀ l ∈ parts, IsLabel l) :
  ∃ ls : List (Label 63), nameBytes parts = (Name.mk ls .root).encode
    ∧ (ls.map fun l => asciiString l.text) = parts
  := by
  induction parts with
  | nil => exact ⟨[], rfl, rfl⟩
  | cons l parts ih =>
      obtain ⟨hlabel, hrest⟩ := List.forall_mem_cons.mp hparts
      obtain ⟨ls, hbytes, hnames⟩ := ih hrest
      have hlen : (asciiBytes l).length = l.toList.length := List.length_map _
      have hpos : 0 < l.toList.length := by
        rw [List.length_pos_iff, ne_eq, String.toList_eq_nil_iff]
        exact hlabel.nonempty
      have hbound := hlabel.bounded
      use ⟨asciiBytes l, by omega, by omega⟩ :: ls
      constructor
      · rw [Name.encode_cons, ← hbytes, nameBytes, nameBytes, List.flatMap_cons, List.append_assoc]
        rfl
      · rw [List.map_cons, hnames, asciiString_asciiBytes hlabel.ascii]

theorem mem_labels {name l : String} :
  l ∈ labels name ↔ l.toList ∈ name.toList.splitOn '.' ∧ l ≠ ""
  := by
  rw [labels, List.mem_filter, decide_eq_true_eq, Text.split, List.mem_map]
  constructor
  · rintro ⟨⟨p, hp, rfl⟩, hne⟩
    rw [String.toList_ofList]
    exact ⟨hp, hne⟩
  · rintro ⟨hl, hne⟩
    exact ⟨⟨l.toList, hl, String.ofList_toList⟩, hne⟩

/-- The non-empty parts of a name are labels. -/
theorem part_of_isLabel {name : String} (hname : ∀ l ∈ labels name, IsLabel l) {p : List Char}
    (hp : p ∈ name.toList.splitOn '.') (hne : p ≠ []) :
  (∀ c ∈ p, c.toNat < 128) ∧ p.length ≤ 63
  := by
  have hlabel : IsLabel (String.ofList p) := by
    apply hname
    rw [mem_labels, String.toList_ofList]
    refine ⟨hp, ?_⟩
    rwa [ne_eq, ← String.ofList_nil, String.ofList_inj]
  have hascii := hlabel.ascii
  have hbound := hlabel.bounded
  rw [String.toList_ofList] at hascii hbound
  exact ⟨hascii, hbound⟩

/-- Dots at the end give no labels. -/
theorem labels_trimEndDots (name : String) :
  labels (WarpBootstrapDns.trimEndDots name) = labels name
  := by
  have hfilter (s : String) : labels s
      = ((s.toList.splitOn '.').filter (· ≠ [])).map String.ofList := by
    rw [labels, Text.split, List.filter_map]
    congr 1
    apply List.filter_congr
    intro p hp
    simp
  rw [hfilter, hfilter, WarpBootstrapDns.trimEndDots, String.toList_ofList,
    Text.filter_splitOn_trimEnd]

/-- The labels of a trimmed name are pieces of the labels of the name. -/
theorem isLabel_trim {name : String} (hname : ∀ l ∈ labels name, IsLabel l) :
  ∀ l ∈ labels (Text.trim name), IsLabel l
  := by
  intro l hl
  obtain ⟨hpart, hne⟩ := mem_labels.mp hl
  have hpiece := (Text.isInfix_of_mem_splitOn hpart).trans (Text.isInfix_trim name)
  obtain ⟨p, hp, hwithin⟩ :=
    Text.exists_isInfix_splitOn (Text.not_mem_of_mem_splitOn hpart) hpiece
  have hpne : p ≠ [] := by
    rintro rfl
    rw [List.infix_nil, String.toList_eq_nil_iff] at hwithin
    exact hne hwithin
  obtain ⟨hascii, hbound⟩ := part_of_isLabel hname hp hpne
  exact ⟨hne, fun c hc => hascii c (hwithin.subset hc), hwithin.length_le.trans hbound⟩

/-- A name of ASCII labels has only ASCII characters. -/
theorem ascii_of_isLabel {name : String} (hname : ∀ l ∈ labels name, IsLabel l) :
  ∀ c ∈ name.toList, c.toNat < 128
  := by
  intro c hc
  have hjoin : ['.'].intercalate (name.toList.splitOn '.') = name.toList :=
    List.intercalate_splitOn '.'
  rw [← hjoin] at hc
  obtain rfl | ⟨p, hp, hcp⟩ := Text.mem_of_mem_intercalate hc
  · decide
  · exact (part_of_isLabel hname hp (List.ne_nil_of_mem hcp)).1 c hcp

/-- The lower case of an ASCII character is one, and is a dot only for the dot. -/
theorem toLower_ascii {c : Char} (hc : c.toNat < 128) :
  c.toLower.toNat < 128 ∧ (c.toLower = '.' ↔ c = '.')
  := by
  have hall : ∀ n : Fin 128, (Char.ofNat n).toLower.toNat < 128
      ∧ ((Char.ofNat n).toLower = '.' ↔ Char.ofNat n = '.') := by decide +kernel
  have h := hall ⟨c.toNat, hc⟩
  rwa [Char.ofNat_toNat] at h

/-- The labels of a lower-case name are those of the name in lower case. -/
theorem isLabel_lowercase {name : String} (hname : ∀ l ∈ labels name, IsLabel l) :
  ∀ l ∈ labels (String.ofList (name.toList.map Char.toLower)), IsLabel l
  := by
  intro l hl
  have hascii := ascii_of_isLabel hname
  obtain ⟨hpart, hne⟩ := mem_labels.mp hl
  rw [String.toList_ofList, Text.splitOn_map fun c hc => (toLower_ascii (hascii c hc)).2] at hpart
  obtain ⟨p, hp, hlower⟩ := List.mem_map.mp hpart
  have hpne : p ≠ [] := by
    rintro rfl
    rw [List.map_nil, eq_comm, String.toList_eq_nil_iff] at hlower
    exact hne hlower
  obtain ⟨hpascii, hbound⟩ := part_of_isLabel hname hp hpne
  constructor
  · exact hne
  · intro c hc
    rw [← hlower] at hc
    obtain ⟨d, hd, rfl⟩ := List.mem_map.mp hc
    exact (toLower_ascii (hpascii d hd)).1
  · rw [← hlower, List.length_map]
    exact hbound

/-! ### Queries -/

/-- A query with one question and nothing else, which is read as a name and a type of the class
`IN`. -/
structure Asks (query : Bytes) (name : String) (type : ℕ) : Prop where
  counts : (query.drop 4).take 8 = [0, 1, 0, 0, 0, 0, 0, 0]
  question : SimpleDnsServer.parseQuestion query = some ⟨name, type, 1, query.length⟩

theorem putShort_eq {v : ℕ} (hv : v < 65536) :
  putShort v = uint16Bytes (UInt16.ofNat v)
  := by
  have hlow : UInt8.ofNat v = UInt8.ofNat (v % 256) := by
    rw [← UInt8.toNat_inj, UInt8.toNat_ofNat', UInt8.toNat_ofNat']
    omega
  rw [putShort, uint16Bytes, UInt16.toNat_ofNat_of_lt' hv, Nat.shiftRight_eq_div_pow, hlow]

/-- A header with one question, and a question, are a query. -/
theorem asks_append {header : Bytes} (hheader : header.length = 12)
    (hcounts : header.drop 4 = [0, 1, 0, 0, 0, 0, 0, 0]) {parts : List String}
    (hparts : ∀ l ∈ parts, IsLabel l) {type : ℕ} (htype : type < 65536) :
  Asks (header ++ (nameBytes parts ++ (putShort type ++ putShort 1)))
    (Text.joinToString '.' parts) type
  := by
  obtain ⟨ls, hbytes, hnames⟩ := exists_nameBytes_eq hparts
  have hread := parseQuestion_encode (by omega) hheader ls (UInt16.ofNat type) 1 []
  rw [hnames, ← hbytes, ← putShort_eq htype, UInt16.toNat_ofNat_of_lt' htype] at hread
  constructor
  · rw [List.drop_append_of_le_length (by omega), hcounts]
    rfl
  · have hsize : (header ++ (nameBytes parts ++ (putShort type ++ putShort 1))).length
        = 12 + (nameBytes parts).length + 4 := by
      simp [putShort, hheader]
      omega
    rw [hsize]
    exact hread

/-- Every query is read as what it was built from. -/
theorem asks_buildQuery (lowercase : String → String)
    (hlowercase : ∀ s : String, (∀ c ∈ s.toList, c.toNat < 128) →
      lowercase s = String.ofList (s.toList.map Char.toLower))
    (nanoTime : ℕ) (name : String) (hname : ∀ l ∈ labels name, IsLabel l) (type : ℕ)
    (htype : type < 65536) :
  Asks (DohResolver.buildQuery lowercase nanoTime name type)
      (Text.joinToString '.' (labels (lowercase (Text.trim name)))) type
    ∧ Asks (WarpBootstrapDns.buildQuery nanoTime name type)
      (Text.joinToString '.' (labels name)) type
    ∧ Asks (ProtectedDnsClient.buildQuery name type) (Text.joinToString '.' (labels name)) type
  := by
  have htrim := isLabel_trim hname
  have hlower := isLabel_lowercase htrim
  rw [← hlowercase _ (ascii_of_isLabel htrim)] at hlower
  refine ⟨?_, ?_, ?_⟩
  · have hbytes : [UInt8.ofNat (type >>> 8), UInt8.ofNat (type &&& 0xFF), 0x00, 0x01]
        = putShort type ++ putShort 1 := by
      have hlow : UInt8.ofNat (type &&& 0xFF) = UInt8.ofNat type := by
        rw [← UInt8.toNat_inj, UInt8.toNat_ofNat', UInt8.toNat_ofNat',
          show 0xFF = 2 ^ 8 - 1 from rfl, Nat.and_two_pow_sub_one_eq_mod]
        omega
      rw [hlow]
      rfl
    rw [DohResolver.buildQuery, labels_trimEndDots, hbytes, List.append_assoc]
    exact asks_append rfl rfl hlower htype
  · rw [WarpBootstrapDns.buildQuery, List.append_assoc, List.append_assoc]
    exact asks_append rfl rfl hname htype
  · rw [ProtectedDnsClient.buildQuery, List.append_assoc, List.append_assoc]
    exact asks_append rfl rfl hname htype

/-- A name with white space, capitals, an empty label and a dot at its end. -/
theorem asks_buildQuery_capitals :
  let lowercase (s : String) : String := String.ofList (s.toList.map Char.toLower)
  Asks (DohResolver.buildQuery lowercase 70000 " Api..ORG." 28)
      (Text.joinToString '.' (labels (lowercase (Text.trim " Api..ORG.")))) 28
    ∧ Asks (WarpBootstrapDns.buildQuery 70000 " Api..ORG." 28) " Api.ORG" 28
    ∧ Asks (ProtectedDnsClient.buildQuery " Api..ORG." 28) " Api.ORG" 28
  := by
  intro lowercase
  have hlabels : labels " Api..ORG." = [" Api", "ORG"] := by decide
  have hascii (l : String) (hl : l.toList.all (fun c => c.toNat < 128) = true) :
      ∀ c ∈ l.toList, c.toNat < 128 := fun c hc => of_decide_eq_true (List.all_eq_true.mp hl c hc)
  have hname : ∀ l ∈ labels " Api..ORG.", IsLabel l := by
    rw [hlabels, List.forall_mem_cons, List.forall_mem_singleton]
    constructor
    · exact ⟨by decide, hascii _ (by decide), by decide⟩
    · exact ⟨by decide, hascii _ (by decide), by decide⟩
  have h := asks_buildQuery lowercase (fun s hs => rfl) 70000 " Api..ORG." hname 28 (by decide)
  rw [hlabels] at h
  exact h

end Dns
