import DtmaOne.Socks.Address

/-!
# The parser of IP packets

`IpPacketParser.parse` reads the header of a packet of the tunnel, up to the ports of its transport
segment.  The packet ends at the given length, or where its own length field says, if that is
earlier.

Every access is within the array, with one exception: the payload of an IPv4 packet that is neither
TCP nor UDP is cut out without a look at whether the length field covers the header.
-/

namespace Tun

open Socks (Bytes InetAddress)

/-! ### Arrays -/

/-- The exceptions of the calls of the parser. -/
inductive Thrown where
  | indexOutOfBounds
  | illegalArgument
  | unknownHost
  deriving DecidableEq, Repr

/-- `raw[i].toInt() and 0xFF` -/
def byteAt (raw : Bytes) (i : ℕ) : Except Thrown ℕ :=
  match raw[i]? with
  | some b => .ok b.toNat
  | none => .error .indexOutOfBounds

/-- `((raw[i].toInt() and 0xFF) shl 8) or (raw[i + 1].toInt() and 0xFF)` -/
def shortAt (raw : Bytes) (i : ℕ) : Except Thrown ℕ := do
  let hi ← byteAt raw i
  let lo ← byteAt raw (i + 1)
  return hi <<< 8 ||| lo

/-- `raw.copyOfRange(fromIndex, toIndex)` -/
def copyOfRange (raw : Bytes) (fromIndex toIndex : ℕ) : Except Thrown Bytes :=
  if raw.length < toIndex then .error .indexOutOfBounds
  else if toIndex < fromIndex then .error .illegalArgument
  else .ok ((raw.take toIndex).drop fromIndex)

/-- `raw.copyOf(newSize)` -/
def copyOf (raw : Bytes) (newSize : ℕ) : Bytes :=
  raw.take newSize ++ List.replicate (newSize - raw.length) 0

/-- `InetAddress.getByAddress(addr)` -/
def getByAddress (addr : Bytes) : Except Thrown InetAddress :=
  match InetAddress.getByAddress addr with
  | some a => .ok a
  | none => .error .unknownHost

/-! ### The parser -/

/-- `IpVersion` -/
inductive IpVersion where
  | V4
  | V6
  deriving DecidableEq, Repr

/-- `ParsedPacket` -/
structure ParsedPacket where
  version : IpVersion
  protocol : ℕ
  sourceAddress : InetAddress
  destinationAddress : InetAddress
  sourcePort : ℕ
  destinationPort : ℕ
  payload : Bytes
  raw : Bytes
  headerLength : ℕ
  deriving DecidableEq

namespace IpPacketParser

/-- `PROTO_TCP` -/
def protoTcp : ℕ := 6

/-- `PROTO_UDP` -/
def protoUdp : ℕ := 17

/-- `IpPacketParser.parseV4` -/
def parseV4 (raw : Bytes) (length : ℕ) : Except Thrown (Option ParsedPacket) :=
  if length < 20 then .ok none
  else do
    let ihl := ((← byteAt raw 0) &&& 0x0F) * 4
    if ihl < 20 ∨ length < ihl then return none
    let totalLength ← shortAt raw 2
    let usable := min length totalLength
    let protocol ← byteAt raw 9
    let src ← getByAddress (← copyOfRange raw 12 16)
    let dst ← getByAddress (← copyOfRange raw 16 20)
    if protocol ≠ protoTcp ∧ protocol ≠ protoUdp then
      let payload ← copyOfRange raw ihl usable
      return some ⟨.V4, protocol, src, dst, 0, 0, payload, copyOf raw usable, ihl⟩
    if usable < ihl + 4 then return none
    let srcPort ← shortAt raw ihl
    let dstPort ← shortAt raw (ihl + 2)
    let payload ← copyOfRange raw ihl usable
    return some ⟨.V4, protocol, src, dst, srcPort, dstPort, payload, copyOf raw usable, ihl⟩

/-- `IpPacketParser.parseV6` -/
def parseV6 (raw : Bytes) (length : ℕ) : Except Thrown (Option ParsedPacket) :=
  if length < 40 then .ok none
  else do
    let payloadLength ← shortAt raw 4
    let nextHeader ← byteAt raw 6
    let src ← getByAddress (← copyOfRange raw 8 24)
    let dst ← getByAddress (← copyOfRange raw 24 40)
    let total := min length (40 + payloadLength)
    if nextHeader ≠ protoTcp ∧ nextHeader ≠ protoUdp then
      let payload ← copyOfRange raw 40 total
      return some ⟨.V6, nextHeader, src, dst, 0, 0, payload, copyOf raw total, 40⟩
    if total < 44 then return none
    let srcPort ← shortAt raw 40
    let dstPort ← shortAt raw 42
    let payload ← copyOfRange raw 40 total
    return some ⟨.V6, nextHeader, src, dst, srcPort, dstPort, payload, copyOf raw total, 40⟩

/-- `IpPacketParser.parse` -/
def parse (raw : Bytes) (length : ℕ) : Except Thrown (Option ParsedPacket) :=
  if length < 1 then .ok none
  else do
    let version := ((← byteAt raw 0) >>> 4) &&& 0xF
    match version with
    | 4 => parseV4 raw length
    | 6 => parseV6 raw length
    | _ => return none

/-! ### Within the array -/

theorem ok_bind {α β : Type} (a : α) (f : α → Except Thrown β) :
  (Except.ok a >>= f) = f a
  := rfl

theorem byteAt_eq {raw : Bytes} {i : ℕ} (hi : i < raw.length) :
  byteAt raw i = .ok (raw.getD i 0).toNat
  := by
  rw [byteAt, List.getD_eq_getElem?_getD, List.getElem?_eq_getElem hi]
  rfl

theorem shortAt_eq {raw : Bytes} {i : ℕ} (hi : i + 1 < raw.length) :
  shortAt raw i = .ok ((raw.getD i 0).toNat <<< 8 ||| (raw.getD (i + 1) 0).toNat)
  := by
  rw [shortAt, byteAt_eq (by omega), byteAt_eq hi]
  rfl

theorem copyOfRange_eq {raw : Bytes} {fromIndex toIndex : ℕ} (hto : toIndex ≤ raw.length)
    (hfrom : fromIndex ≤ toIndex) :
  copyOfRange raw fromIndex toIndex = .ok ((raw.take toIndex).drop fromIndex)
  := by
  rw [copyOfRange, if_neg (by omega), if_neg (by omega)]

/-- The address fields of a header are those of addresses. -/
theorem exists_getByAddress (raw : Bytes) (fromIndex toIndex : ℕ) (hto : toIndex ≤ raw.length)
    (hsize : toIndex = fromIndex + 4 ∨ toIndex = fromIndex + 16) :
  ∃ a, getByAddress ((raw.take toIndex).drop fromIndex) = .ok a
  := by
  have hlen : ((raw.take toIndex).drop fromIndex).length = toIndex - fromIndex := by
    rw [List.length_drop, List.length_take, Nat.min_eq_left hto]
  obtain h | h := hsize
  · have hfour : ((raw.take toIndex).drop fromIndex).length = 4 := by omega
    use ⟨_, Or.inl hfour⟩
    rw [getByAddress, InetAddress.getByAddress_of_length_four hfour]
  · have hsixteen : ((raw.take toIndex).drop fromIndex).length = 16 := by omega
    obtain ⟨a, ha⟩ := InetAddress.getByAddress_of_length_sixteen hsixteen
    use a
    rw [getByAddress, ha]

/-! ### The header -/

/-- The length of an IPv4 header, as its first byte says. -/
def ihl (raw : Bytes) : ℕ := ((raw.getD 0 0).toNat &&& 0x0F) * 4

/-- The length of an IPv4 packet, as its header says. -/
def totalLength (raw : Bytes) : ℕ := (raw.getD 2 0).toNat <<< 8 ||| (raw.getD 3 0).toNat

/-- The protocol of an IPv4 packet. -/
def protocol (raw : Bytes) : ℕ := (raw.getD 9 0).toNat

/-- The version of a packet. -/
def version (raw : Bytes) : ℕ := ((raw.getD 0 0).toNat >>> 4) &&& 0xF

/-- An IPv4 packet that is neither TCP nor UDP, and whose length field does not cover its header. -/
structure Uncovered (raw : Bytes) (length : ℕ) : Prop where
  version : version raw = 4
  minimum : 20 ≤ length
  ihl : 20 ≤ ihl raw ∧ ihl raw ≤ length
  protocol : protocol raw ≠ protoTcp ∧ protocol raw ≠ protoUdp
  totalLength : totalLength raw < IpPacketParser.ihl raw

/-- The parser returns nothing, or a packet whose payload is a range of the first `length` bytes
from the end of its header on. -/
def Returns (raw : Bytes) (length : ℕ) (r : Except Thrown (Option ParsedPacket)) : Prop :=
  ∃ packet, r = .ok packet ∧ ∀ p ∈ packet, ∃ n, p.headerLength ≤ n ∧ n ≤ length
    ∧ p.payload = (raw.take n).drop p.headerLength

section Header

variable {raw : Bytes} {length : ℕ}

theorem returns_none :
  Returns raw length (.ok none)
  := by
  use none, rfl
  rintro p ⟨⟩

theorem returns_some {p : ParsedPacket} {n : ℕ} (hn : n ≤ length) (hheader : p.headerLength ≤ n)
    (hpayload : p.payload = (raw.take n).drop p.headerLength) :
  Returns raw length (.ok (some p))
  := by
  use some p, rfl
  rintro p ⟨⟩
  exact ⟨n, hheader, hn, hpayload⟩

/-- The parser of IPv4 packets, after the addresses. -/
theorem parseV4_eq (hlen : length ≤ raw.length) (hmin : 20 ≤ length) {src dst : InetAddress}
    (hsrc : getByAddress ((raw.take 16).drop 12) = .ok src)
    (hdst : getByAddress ((raw.take 20).drop 16) = .ok dst) :
  parseV4 raw length =
    if ihl raw < 20 ∨ length < ihl raw then .ok none
    else if protocol raw ≠ protoTcp ∧ protocol raw ≠ protoUdp then do
      let payload ← copyOfRange raw (ihl raw) (min length (totalLength raw))
      return some ⟨.V4, protocol raw, src, dst, 0, 0, payload,
        copyOf raw (min length (totalLength raw)), ihl raw⟩
    else if min length (totalLength raw) < ihl raw + 4 then .ok none
    else do
      let srcPort ← shortAt raw (ihl raw)
      let dstPort ← shortAt raw (ihl raw + 2)
      let payload ← copyOfRange raw (ihl raw) (min length (totalLength raw))
      return some ⟨.V4, protocol raw, src, dst, srcPort, dstPort, payload,
        copyOf raw (min length (totalLength raw)), ihl raw⟩
  := by
  rw [parseV4, if_neg (by omega), byteAt_eq (by omega), shortAt_eq (by omega),
    byteAt_eq (by omega), copyOfRange_eq (by omega) (by omega),
    copyOfRange_eq (by omega) (by omega)]
  simp only [ok_bind, hsrc, hdst]
  rfl

/-- The parser of IPv4 packets fails exactly on those whose header is not covered. -/
theorem returns_parseV4_iff (hlen : length ≤ raw.length) (hversion : version raw = 4) :
  Returns raw length (parseV4 raw length) ↔ ¬ Uncovered raw length
  := by
  by_cases hmin : 20 ≤ length
  · obtain ⟨src, hsrc⟩ := exists_getByAddress raw 12 16 (by omega) (Or.inl rfl)
    obtain ⟨dst, hdst⟩ := exists_getByAddress raw 16 20 (by omega) (Or.inl rfl)
    rw [parseV4_eq hlen hmin hsrc hdst]
    by_cases hihl : ihl raw < 20 ∨ length < ihl raw
    · rw [if_pos hihl]
      apply iff_of_true returns_none
      intro h
      have hcovers := h.ihl
      omega
    · rw [if_neg hihl]
      by_cases hother : protocol raw ≠ protoTcp ∧ protocol raw ≠ protoUdp
      · rw [if_pos hother]
        by_cases htotal : totalLength raw < ihl raw
        · have hraised : copyOfRange raw (ihl raw) (min length (totalLength raw))
              = .error .illegalArgument := by
            rw [copyOfRange, if_neg (by omega), if_pos (by omega)]
          rw [hraised]
          apply iff_of_false
          · rintro ⟨packet, hpacket, -⟩
            cases hpacket
          · intro h
            apply h
            exact ⟨hversion, hmin, by omega, hother, htotal⟩
        · rw [copyOfRange_eq (by omega) (by omega), ok_bind]
          apply iff_of_true
          · apply returns_some (n := min length (totalLength raw)) (Nat.min_le_left _ _)
            · dsimp only
              omega
            · rfl
          · intro h
            exact htotal h.totalLength
      · rw [if_neg hother]
        apply iff_of_true
        · by_cases hports : min length (totalLength raw) < ihl raw + 4
          · rw [if_pos hports]
            exact returns_none
          · rw [if_neg hports, shortAt_eq (by omega), shortAt_eq (by omega),
              copyOfRange_eq (by omega) (by omega), ok_bind, ok_bind, ok_bind]
            apply returns_some (n := min length (totalLength raw)) (Nat.min_le_left _ _)
            · dsimp only
              omega
            · rfl
        · intro h
          exact hother h.protocol
  · rw [parseV4, if_pos (by omega)]
    apply iff_of_true returns_none
    intro h
    exact hmin h.minimum

/-- The parser of IPv6 packets does not fail. -/
theorem returns_parseV6 (hlen : length ≤ raw.length) :
  Returns raw length (parseV6 raw length)
  := by
  by_cases hmin : 40 ≤ length
  · obtain ⟨src, hsrc⟩ := exists_getByAddress raw 8 24 (by omega) (Or.inr rfl)
    obtain ⟨dst, hdst⟩ := exists_getByAddress raw 24 40 (by omega) (Or.inr rfl)
    rw [parseV6, if_neg (by omega), shortAt_eq (by omega), byteAt_eq (by omega),
      copyOfRange_eq (by omega) (by omega), copyOfRange_eq (by omega) (by omega)]
    simp only [ok_bind, hsrc, hdst]
    generalize (raw.getD 4 0).toNat <<< 8 ||| (raw.getD (4 + 1) 0).toNat = payloadLength
    rw [copyOfRange_eq (by omega) (by omega)]
    by_cases hother : (raw.getD 6 0).toNat ≠ protoTcp ∧ (raw.getD 6 0).toNat ≠ protoUdp
    · rw [if_pos hother]
      apply returns_some (n := min length (40 + payloadLength)) (Nat.min_le_left _ _)
      · dsimp only
        omega
      · rfl
    · rw [if_neg hother]
      by_cases hports : min length (40 + payloadLength) < 44
      · rw [if_pos hports]
        exact returns_none
      · rw [if_neg hports, shortAt_eq (by omega), shortAt_eq (by omega)]
        apply returns_some (n := min length (40 + payloadLength)) (Nat.min_le_left _ _)
        · dsimp only
          omega
        · rfl
  · rw [parseV6, if_pos (by omega)]
    exact returns_none

/-- The version chooses the parser. -/
theorem parse_eq (hlen : length ≤ raw.length) (hmin : 1 ≤ length) :
  parse raw length = match version raw with
    | 4 => parseV4 raw length
    | 6 => parseV6 raw length
    | _ => .ok none
  := by
  rw [parse, if_neg (by omega), byteAt_eq (by omega), ok_bind]
  rfl

/-- The parser returns exactly if the packet is not an IPv4 packet of another protocol whose header
is not covered by its length field. -/
theorem returns_parse_iff (hlen : length ≤ raw.length) :
  Returns raw length (parse raw length) ↔ ¬ Uncovered raw length
  := by
  by_cases hmin : 1 ≤ length
  · rw [parse_eq hlen hmin]
    split
    case h_1 hversion => exact returns_parseV4_iff hlen hversion
    case h_2 hversion =>
      apply iff_of_true (returns_parseV6 hlen)
      intro h
      rw [h.version] at hversion
      cases hversion
    case h_3 hfour hsix =>
      apply iff_of_true returns_none
      intro h
      exact hfour h.version
  · rw [parse, if_pos (by omega)]
    apply iff_of_true returns_none
    intro h
    have hlong := h.minimum
    omega

end Header

/-- An `ICMP` packet without payload, with a given length field. -/
def icmpPacket (totalLength : UInt8) : Bytes :=
  [0x45, 0, 0, totalLength, 0, 0, 0x40, 0, 64, 1, 0, 0, 10, 0, 0, 1, 10, 0, 0, 2]

/-- A packet whose length field covers the header. -/
theorem returns_parse_icmpPacket :
  20 ≤ (icmpPacket 20).length ∧
    (Returns (icmpPacket 20) 20 (parse (icmpPacket 20) 20) ↔ ¬ Uncovered (icmpPacket 20) 20)
  := ⟨Nat.le_refl _, returns_parse_iff (Nat.le_refl _)⟩

/-- A packet with the length zero is refused by an exception. -/
theorem not_returns_parse :
  ¬ ∀ (raw : Bytes) (length : ℕ), length ≤ raw.length → Returns raw length (parse raw length)
  := by
  intro h
  have hthrown : parse (icmpPacket 0) 20 = .error .illegalArgument := rfl
  obtain ⟨packet, hpacket, -⟩ := h (icmpPacket 0) 20 (Nat.le_refl _)
  rw [hthrown] at hpacket
  cases hpacket

end IpPacketParser

end Tun
