import Mathlib.Data.List.Basic
import Mathlib.Tactic.Linarith

/-!
# DNS messages

The wire format of a DNS response with one question: a header of twelve bytes, the question, and
the answer records, each with an owner name, a type, a class, a time to live and data.  A name is
a sequence of labels that ends in the root or in a compression pointer.  The bound on the length
of a label is a parameter: the format has 63, while a reader that only tells pointers from labels
accepts more.
-/

namespace DnsMessage

/-! ### Numbers -/

/-- A number of two bytes, the more significant one first. -/
def uint16Bytes (v : UInt16) : List UInt8 :=
  [UInt8.ofNat (v.toNat / 256), UInt8.ofNat (v.toNat % 256)]

/-- A number of four bytes, the most significant one first. -/
def uint32Bytes (v : UInt32) : List UInt8 :=
  [UInt8.ofNat (v.toNat / 16777216), UInt8.ofNat (v.toNat / 65536 % 256),
    UInt8.ofNat (v.toNat / 256 % 256), UInt8.ofNat (v.toNat % 256)]

/-- The number of two bytes. -/
def uint16Of (hi lo : UInt8) : UInt16 :=
  UInt16.ofNat (hi.toNat * 256 + lo.toNat)

/-- The number of four bytes. -/
def uint32Of (a b c d : UInt8) : UInt32 :=
  UInt32.ofNat (a.toNat * 16777216 + b.toNat * 65536 + c.toNat * 256 + d.toNat)

theorem toNat_uint16Of (hi lo : UInt8) :
  (uint16Of hi lo).toNat = hi.toNat * 256 + lo.toNat
  := by
  have hhi := hi.toNat_lt
  have hlo := lo.toNat_lt
  apply UInt16.toNat_ofNat_of_lt
  simp only [UInt16.size]
  omega

/-- Any two bytes are those of a number. -/
theorem uint16Bytes_uint16Of (hi lo : UInt8) :
  uint16Bytes (uint16Of hi lo) = [hi, lo]
  := by
  have hlo := lo.toNat_lt
  have hdiv : (hi.toNat * 256 + lo.toNat) / 256 = hi.toNat := by omega
  have hmod : (hi.toNat * 256 + lo.toNat) % 256 = lo.toNat := by omega
  simp only [uint16Bytes, toNat_uint16Of, hdiv, hmod, UInt8.ofNat_toNat]

/-- Any four bytes are those of a number. -/
theorem uint32Bytes_uint32Of (a b c d : UInt8) :
  uint32Bytes (uint32Of a b c d) = [a, b, c, d]
  := by
  have ha := a.toNat_lt
  have hb := b.toNat_lt
  have hc := c.toNat_lt
  have hd := d.toNat_lt
  have hnat : (uint32Of a b c d).toNat
      = a.toNat * 16777216 + b.toNat * 65536 + c.toNat * 256 + d.toNat := by
    apply UInt32.toNat_ofNat_of_lt
    simp only [UInt32.size]
    omega
  have h3 : (a.toNat * 16777216 + b.toNat * 65536 + c.toNat * 256 + d.toNat) / 16777216
      = a.toNat := by omega
  have h2 : (a.toNat * 16777216 + b.toNat * 65536 + c.toNat * 256 + d.toNat) / 65536 % 256
      = b.toNat := by omega
  have h1 : (a.toNat * 16777216 + b.toNat * 65536 + c.toNat * 256 + d.toNat) / 256 % 256
      = c.toNat := by omega
  have h0 : (a.toNat * 16777216 + b.toNat * 65536 + c.toNat * 256 + d.toNat) % 256
      = d.toNat := by omega
  simp only [uint32Bytes, hnat, h3, h2, h1, h0, UInt8.ofNat_toNat]

/-! ### Names -/

/-- A label of at least one and at most `limit` bytes. -/
structure Label (limit : ℕ) where
  text : List UInt8
  nonempty : 0 < text.length
  bounded : text.length ≤ limit
  deriving DecidableEq

/-- The bytes of a label: its length and its text. -/
def Label.encode {limit : ℕ} (l : Label limit) : List UInt8 :=
  UInt8.ofNat l.text.length :: l.text

theorem Label.toNat_length {limit : ℕ} (hlimit : limit < 256) (l : Label limit) :
  (UInt8.ofNat l.text.length).toNat = l.text.length
  := UInt8.toNat_ofNat_of_lt (lt_of_le_of_lt l.bounded hlimit)

/-- What a name ends in: the root, or a pointer, whose first byte has its two upper bits set. -/
inductive NameEnd where
  | root
  | pointer (hi lo : UInt8) (tagged : 192 ≤ hi.toNat)
  deriving DecidableEq

/-- The bytes of the end of a name. -/
def NameEnd.encode : NameEnd → List UInt8
  | .root => [0]
  | .pointer hi lo _ => [hi, lo]

/-- A name: labels and an end. -/
structure Name (limit : ℕ) where
  labels : List (Label limit)
  ending : NameEnd
  deriving DecidableEq

/-- The bytes of a name. -/
def Name.encode {limit : ℕ} (n : Name limit) : List UInt8 :=
  n.labels.flatMap Label.encode ++ n.ending.encode

/-- The bytes of a name that starts with a label. -/
theorem Name.encode_cons {limit : ℕ} (l : Label limit) (ls : List (Label limit)) (e : NameEnd) :
  (Name.mk (l :: ls) e).encode = l.encode ++ (Name.mk ls e).encode
  := by
  simp [Name.encode]

/-! ### Records -/

/-- A resource record, whose data has fewer than `2 ^ 16` bytes. -/
structure Record (limit : ℕ) where
  owner : Name limit
  type : UInt16
  cls : UInt16
  ttl : UInt32
  rdata : List UInt8
  size : rdata.length < 65536
  deriving DecidableEq

namespace Record

variable {limit : ℕ} (r : Record limit)

/-- The fixed part between the owner and the data: type, class, time to live and the length of
the data. -/
def fixed : List UInt8 :=
  uint16Bytes r.type ++ uint16Bytes r.cls ++ uint32Bytes r.ttl
    ++ uint16Bytes (UInt16.ofNat r.rdata.length)

/-- The bytes of a record up to its data. -/
def head : List UInt8 :=
  r.owner.encode ++ r.fixed

/-- The bytes of a record. -/
def encode : List UInt8 :=
  r.head ++ r.rdata

/-- The address of an `A` record: type 1 and data of four bytes. -/
def aData : Option (List UInt8) :=
  if r.type = 1 ∧ r.rdata.length = 4 then some r.rdata else none

@[simp]
theorem length_fixed : r.fixed.length = 10
  := by
  simp [fixed, uint16Bytes, uint32Bytes]

/-- The data length is written in full. -/
theorem toNat_dataLength : (UInt16.ofNat r.rdata.length).toNat = r.rdata.length
  := UInt16.toNat_ofNat_of_lt r.size

/-- Any owner and ten bytes are the head of a record. -/
theorem exists_head (owner : Name limit) (fixed : List UInt8) (hlen : fixed.length = 10) :
  ∃ r : Record limit, r.owner = owner ∧ r.head = owner.encode ++ fixed
  := by
  obtain ⟨a, b, c, d, e, f, g, h, i, j, rfl⟩ :
      ∃ a b c d e f g h i j, fixed = [a, b, c, d, e, f, g, h, i, j] := by
    rcases fixed with _ | ⟨a, _ | ⟨b, _ | ⟨c, _ | ⟨d, _ | ⟨e, _ | ⟨f, _ | ⟨g, _ | ⟨h, _ | ⟨i, _ | ⟨j,
      _ | ⟨k, rest⟩⟩⟩⟩⟩⟩⟩⟩⟩⟩⟩
    all_goals simp_all
  have hsize : (List.replicate (uint16Of i j).toNat (0 : UInt8)).length < 65536 := by
    rw [List.length_replicate]
    apply (uint16Of i j).toNat_lt
  use ⟨owner, uint16Of a b, uint16Of c d, uint32Of e f g h, _, hsize⟩
  constructor
  · rfl
  · simp only [head, fixed, List.length_replicate, UInt16.ofNat_toNat, uint16Bytes_uint16Of,
      uint32Bytes_uint32Of]
    rfl

end Record

/-! ### Messages -/

/-- A response with one question: the identifier and the flags, the question's labels, type and
class, the answers, the counts of the other sections, and their bytes. -/
structure Message where
  id : UInt16
  flags : UInt16
  question : List (Label 63)
  qtype : UInt16
  qclass : UInt16
  answers : List (Record 63)
  nsCount : UInt16
  arCount : UInt16
  rest : List UInt8
  counted : answers.length < 65536

namespace Message

variable (m : Message)

/-- The twelve bytes of the header. -/
def header : List UInt8 :=
  uint16Bytes m.id ++ uint16Bytes m.flags ++ uint16Bytes 1
    ++ uint16Bytes (UInt16.ofNat m.answers.length) ++ uint16Bytes m.nsCount
    ++ uint16Bytes m.arCount

/-- The bytes of the question. -/
def questionBytes : List UInt8 :=
  (Name.mk m.question .root).encode ++ uint16Bytes m.qtype ++ uint16Bytes m.qclass

/-- The bytes before the answers. -/
def preamble : List UInt8 :=
  m.header ++ m.questionBytes

/-- The bytes of a message. -/
def encode : List UInt8 :=
  m.preamble ++ m.answers.flatMap Record.encode ++ m.rest

/-- The addresses of the answers, in their order. -/
def addresses : List (List UInt8) :=
  m.answers.filterMap Record.aData

@[simp]
theorem length_header : m.header.length = 12
  := by
  simp [header, uint16Bytes]

end Message

end DnsMessage
