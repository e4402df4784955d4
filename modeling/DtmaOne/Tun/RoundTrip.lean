import DtmaOne.Tun.PacketBuilder
import DtmaOne.Tun.TcpBridge

/-!
# Parsing undoes building

A packet of `PacketBuilder` or `buildIpv4Tcp` is parsed as the packet it was built for, whatever
follows it in the buffer.  From the payload of the parsed packet, which is the transport segment,
`onUdp` and `onTcp` take the data the packet was built from.
-/

namespace Tun

open Socks

/-! ### What is taken from a segment -/

/-- The data `onUdp` takes from a segment: the query for the resolver of the tunnel, or what is
written to the channel. -/
def udpData (toDns : Bool) (p : Bytes) : Option Bytes :=
  if toDns then
    if p.length < 8 then none else some ((p.take p.length).drop 8)
  else if 8 < p.length then some ((p.drop 8).take (p.length - 8))
  else none

/-- `payload[13].toInt() and 0xFF` -/
def flagsAt (p : Bytes) : BitVec 32 := (p.getD 13 0).toBitVec.signExtend 32 &&& 0xFF

/-! ### Fields -/

theorem toNat_toByte (v : BitVec 32) :
  (toByte v).toNat = v.toNat % 256
  := BitVec.toNat_setWidth 8 v

/-- A field of two bytes is read as it was written. -/
theorem shiftLeft_or_toByte {v : BitVec 32} (hv : v.toNat < 65536) :
  (toByte (v >>> 8)).toNat <<< 8 ||| (toByte v).toNat = v.toNat
  := by
  have hhi : (toByte (v >>> 8)).toNat = v.toNat / 256 := by
    rw [toNat_toByte, BitVec.toNat_ushiftRight, Nat.shiftRight_eq_div_pow]
    omega
  have hlo : (toByte v).toNat < 2 ^ 8 := UInt8.toNat_lt _
  have hsum : (toByte (v >>> 8)).toNat <<< 8 ||| (toByte v).toNat
      = 2 ^ 8 * (toByte (v >>> 8)).toNat + (toByte v).toNat := by
    rw [Nat.shiftLeft_eq, Nat.mul_comm]
    exact (Nat.two_pow_add_eq_or_of_lt hlo _).symm
  rw [hsum, hhi, toNat_toByte]
  omega

/-- The bits of one byte of a word, in their places. -/
theorem getLsbD_byte (v : BitVec 32) (k i : ℕ) (hi : i < 32) :
  (((v >>> k).setWidth 8).setWidth 32 <<< k).getLsbD i
    = (decide (k ≤ i ∧ i < k + 8) && v.getLsbD i)
  := by
  rw [BitVec.getLsbD_shiftLeft, BitVec.getLsbD_setWidth, BitVec.getLsbD_setWidth,
    BitVec.getLsbD_ushiftRight]
  by_cases hk : k ≤ i
  · have hplace : k + (i - k) = i := by omega
    by_cases h8 : i < k + 8
    · have hbyte : i - k < 8 := by omega
      have hword : i - k < 32 := by omega
      simp [hi, hk, h8, hbyte, hword, hplace]
    · have hbyte : ¬ i - k < 8 := by omega
      simp [h8, hbyte]
  · have hlt : i < k := by omega
    simp [hk, hlt]

/-- A word is made of its four bytes. -/
theorem bytes_or (v : BitVec 32) :
  ((v >>> 24).setWidth 8).setWidth 32 <<< 24 ||| ((v >>> 16).setWidth 8).setWidth 32 <<< 16
      ||| ((v >>> 8).setWidth 8).setWidth 32 <<< 8 ||| (v.setWidth 8).setWidth 32
    = v
  := by
  apply BitVec.eq_of_getLsbD_eq
  intro i hi
  have hlow : ((v.setWidth 8).setWidth 32).getLsbD i = (decide (i < 8) && v.getLsbD i) := by
    have h := getLsbD_byte v 0 i hi
    simpa using h
  rw [BitVec.getLsbD_or, BitVec.getLsbD_or, BitVec.getLsbD_or, getLsbD_byte v 24 i hi,
    getLsbD_byte v 16 i hi, getLsbD_byte v 8 i hi, hlow]
  cases v.getLsbD i with
  | false => simp
  | true =>
      simp
      omega

/-- A field of four bytes is read as it was written. -/
theorem beInt_putInt (p : Bytes) (v : BitVec 32) (q : Bytes) :
  beInt (p ++ (putInt v ++ q)) p.length = v
  := by
  have hbyte (i : ℕ) : (p ++ (putInt v ++ q)).getD (p.length + i) 0 = (putInt v ++ q).getD i 0 := by
    rw [List.getD_eq_getElem?_getD, List.getElem?_append_right (Nat.le_add_right _ _),
      Nat.add_sub_cancel_left, List.getD_eq_getElem?_getD]
  rw [beInt]
  simp only [hbyte]
  exact bytes_or v

/-- The low byte of the flags is written. -/
theorem flagsAt_toByte (v : BitVec 32) :
  (toByte v).toBitVec.signExtend 32 &&& 0xFF = v &&& 0xFF
  := by
  have hmask (i : ℕ) : (0xFF : BitVec 32).getLsbD i = decide (i < 8) := by
    have h := Nat.testBit_two_pow_sub_one 8 i
    exact h
  apply BitVec.eq_of_getLsbD_eq
  intro i hi
  rw [BitVec.getLsbD_and, BitVec.getLsbD_and, hmask, toByte, BitVec.getLsbD_signExtend]
  by_cases h8 : i < 8
  · simp [h8, hi]
  · simp [h8]

/-- A field of two bytes is read at its place. -/
theorem shortAt_append (p : Bytes) {v : BitVec 32} (hv : v.toNat < 65536) (q : Bytes) :
  shortAt (p ++ (putShort v ++ q)) p.length = .ok v.toNat
  := by
  have hhi : (p ++ (putShort v ++ q)).getD p.length 0 = toByte (v >>> 8) := by
    simp [putShort]
  have hlo : (p ++ (putShort v ++ q)).getD (p.length + 1) 0 = toByte v := by
    simp [putShort]
  have hsize : p.length + 1 < (p ++ (putShort v ++ q)).length := by
    simp [putShort]
  rw [IpPacketParser.shortAt_eq hsize, hhi, hlo, shiftLeft_or_toByte hv]

/-! ### The header -/

/-- A packet is parsed as `p`, whatever follows it in the buffer. -/
def ParsedAs (packet : Bytes) (p : ParsedPacket) : Prop :=
  ∀ (tail : Bytes) (length : ℕ), packet.length ≤ length → length ≤ packet.length + tail.length →
    IpPacketParser.parse (packet ++ tail) length = .ok (some p)

/-- A packet with a header of twenty bytes is parsed as what is written in it. -/
theorem parsedAs_packet {src dst : InetAddress} (hsrc : src.address.length = 4)
    (hdst : dst.address.length = 4) {srcPort dstPort : BitVec 32} (hsrcPort : srcPort.toNat < 65536)
    (hdstPort : dstPort.toNat < 65536) {protocol : UInt8} (hprotocol : protocol = 6 ∨ protocol = 17)
    (id : BitVec 32) (c : ℕ) {segment rest : Bytes}
    (hsegment : segment = putShort srcPort ++ (putShort dstPort ++ rest))
    (hlen : 20 + segment.length ≤ 65535) :
  let head := ipHead (BitVec.ofNat 32 (20 + segment.length)) id protocol
  let packet := head ++ (OnesComplement.wordBytes c ++ ((src.address ++ dst.address) ++ segment))
  ParsedAs packet ⟨.V4, protocol.toNat, src, dst, srcPort.toNat, dstPort.toNat, segment, packet, 20⟩
  := by
  intro head packet tail length hle hge
  have htwelve : (head ++ OnesComplement.wordBytes c).length = 12 := rfl
  have hsixteen : (head ++ OnesComplement.wordBytes c ++ src.address).length = 16 := by
    rw [List.length_append, htwelve, hsrc]
  have htwenty : (head ++ OnesComplement.wordBytes c ++ src.address ++ dst.address).length
      = 20 := by
    rw [List.length_append, hsixteen, hdst]
  have hsplit : packet
      = head ++ OnesComplement.wordBytes c ++ src.address ++ dst.address ++ segment := by
    simp only [packet, List.append_assoc]
  have hpacket : packet.length = 20 + segment.length := by
    rw [hsplit, List.length_append, htwenty]
  have hports : 4 ≤ segment.length := by
    simp [hsegment, putShort]
  have hraw : length ≤ (packet ++ tail).length := by
    rw [List.length_append]
    exact hge
  have hfirst : (packet ++ tail).getD 0 0 = 0x45 := rfl
  have hversion : IpPacketParser.version (packet ++ tail) = 4 := by
    rw [IpPacketParser.version, hfirst]
    decide
  have hihl : IpPacketParser.ihl (packet ++ tail) = 20 := by
    rw [IpPacketParser.ihl, hfirst]
    decide
  have hproto : IpPacketParser.protocol (packet ++ tail) = protocol.toNat := rfl
  have hfield : IpPacketParser.totalLength (packet ++ tail) = 20 + segment.length := by
    have htotal : (BitVec.ofNat 32 (20 + segment.length)).toNat = 20 + segment.length := by
      rw [BitVec.toNat_ofNat]
      omega
    have hread := shiftLeft_or_toByte (v := BitVec.ofNat 32 (20 + segment.length)) (by omega)
    exact hread.trans htotal
  have husable : min length (20 + segment.length) = 20 + segment.length := by omega
  have hsrcField : ((packet ++ tail).take 16).drop 12 = src.address := by
    rw [hsplit, List.append_assoc, List.append_assoc, List.take_left' hsixteen,
      List.drop_left' htwelve]
  have hdstField : ((packet ++ tail).take 20).drop 16 = dst.address := by
    rw [hsplit, List.append_assoc, List.take_left' htwenty, List.drop_left' hsixteen]
  have hpayload : ((packet ++ tail).take (20 + segment.length)).drop 20 = segment := by
    rw [List.take_left' hpacket, hsplit, List.drop_left' htwenty]
  have hsrcAt : shortAt (packet ++ tail) 20 = .ok srcPort.toNat := by
    have h := shortAt_append (head ++ OnesComplement.wordBytes c ++ src.address ++ dst.address)
      hsrcPort (putShort dstPort ++ (rest ++ tail))
    rw [htwenty] at h
    rw [hsplit, hsegment]
    simpa only [List.append_assoc] using h
  have hdstAt : shortAt (packet ++ tail) 22 = .ok dstPort.toNat := by
    have htwentytwo : (head ++ OnesComplement.wordBytes c ++ src.address ++ dst.address
        ++ putShort srcPort).length = 22 := by
      rw [List.length_append, htwenty]
      rfl
    have h := shortAt_append (head ++ OnesComplement.wordBytes c ++ src.address ++ dst.address
      ++ putShort srcPort) hdstPort (rest ++ tail)
    rw [htwentytwo] at h
    rw [hsplit, hsegment]
    simpa only [List.append_assoc] using h
  have hknown : ¬ (protocol.toNat ≠ IpPacketParser.protoTcp
      ∧ protocol.toNat ≠ IpPacketParser.protoUdp) := by
    rintro ⟨htcp, hudp⟩
    obtain rfl | rfl := hprotocol
    · exact htcp rfl
    · exact hudp rfl
  have hcopy : copyOf (packet ++ tail) (20 + segment.length) = packet := by
    rw [copyOf, List.take_left' hpacket, List.length_append, hpacket]
    simp
  rw [IpPacketParser.parse_eq hraw (by omega), hversion]
  change IpPacketParser.parseV4 (packet ++ tail) length = _
  rw [IpPacketParser.parseV4_eq hraw (by omega)
    (by rw [hsrcField, getByAddress, InetAddress.getByAddress_of_length_four hsrc])
    (by rw [hdstField, getByAddress, InetAddress.getByAddress_of_length_four hdst]),
    hihl, hproto, hfield, husable, if_neg (by omega), if_neg hknown, if_neg (by omega), hsrcAt,
    hdstAt, IpPacketParser.copyOfRange_eq (by omega) (by omega), hpayload, hcopy]
  rfl

/-- What a packet that is built is parsed as. -/
def builtFor (protocol : ℕ) (src dst : InetAddress) (srcPort dstPort : BitVec 32) (packet : Bytes) :
    ParsedPacket :=
  ⟨.V4, protocol, src, dst, srcPort.toNat, dstPort.toNat, packet.drop 20, packet, 20⟩

section Builders

variable {src dst : InetAddress} (hsrc : src.address.length = 4) (hdst : dst.address.length = 4)
include hsrc hdst

/-- The segment of a packet is what follows its addresses. -/
theorem drop_framed {head : Bytes} (hhead : head.length = 10) (front rest : Bytes) (c t : ℕ) :
  (framed head (src.address ++ dst.address) front rest c t).drop 20
    = front ++ (OnesComplement.wordBytes t ++ rest)
  := by
  have hbefore : (head ++ (OnesComplement.wordBytes c ++ (src.address ++ dst.address))).length
      = 20 := by
    simp [hhead, hsrc, hdst]
  have hsplit : framed head (src.address ++ dst.address) front rest c t
      = (head ++ (OnesComplement.wordBytes c ++ (src.address ++ dst.address)))
        ++ (front ++ (OnesComplement.wordBytes t ++ rest)) := by
    simp only [framed, List.append_assoc]
  rw [hsplit, List.drop_left' hbefore]

/-- A packet of the builders is parsed as what it was built for. -/
theorem parsedAs_framed {srcPort dstPort : BitVec 32} (hsrcPort : srcPort.toNat < 65536)
    (hdstPort : dstPort.toNat < 65536) {protocol : UInt8} (hprotocol : protocol = 6 ∨ protocol = 17)
    (id : BitVec 32) (total c t : ℕ) {front ports rest : Bytes}
    (hfront : front = putShort srcPort ++ (putShort dstPort ++ ports))
    (htotal : total = 20 + (front.length + 2 + rest.length)) (hlen : total ≤ 65535) :
  let packet := framed (ipHead (BitVec.ofNat 32 total) id protocol) (src.address ++ dst.address)
    front rest c t
  ParsedAs packet (builtFor protocol.toNat src dst srcPort dstPort packet)
  := by
  intro packet
  have hsegment : front ++ (OnesComplement.wordBytes t ++ rest) = putShort srcPort
      ++ (putShort dstPort ++ (ports ++ (OnesComplement.wordBytes t ++ rest))) := by
    simp only [hfront, List.append_assoc]
  have hsize : total = 20 + (front ++ (OnesComplement.wordBytes t ++ rest)).length := by
    rw [htotal, List.length_append, List.length_append, OnesComplement.length_wordBytes]
    omega
  have hparsed := parsedAs_packet hsrc hdst hsrcPort hdstPort hprotocol id c hsegment
    (by omega)
  rw [← hsize] at hparsed
  rw [builtFor, drop_framed hsrc hdst rfl]
  exact hparsed

end Builders

/-! ### The segment -/

/-- The flags of a segment are those of the byte it is built with. -/
theorem testBit_toByte (flags : BitVec 32) {i : ℕ} (hi : i < 8) :
  (toByte flags).toNat.testBit i = flags.getLsbD i
  := by
  rw [toNat_toByte, show 256 = 2 ^ 8 from rfl, Nat.testBit_mod_two_pow]
  simp [hi, BitVec.getLsbD]

/-- A segment of a builder is read as what it was built from. -/
theorem parse_segment (srcPort dstPort seq ack flags window : BitVec 32) (t : ℕ) (payload : Bytes)
    (withMss : Bool) :
  let dataOff := toByte (BitVec.ofNat 32 ((20 + if withMss then 4 else 0) / 4) <<< 4)
  let segment := tcpFront srcPort dstPort seq ack dataOff (toByte flags) window
    ++ (OnesComplement.wordBytes t ++ tcpRest payload withMss)
  Segment.parse segment = some
      { syn := flags.getLsbD 1
        ack := flags.getLsbD 4
        fin := flags.getLsbD 0
        rst := flags.getLsbD 2
        seq := seq
        payload := payload }
    ∧ flagsAt segment = flags &&& 0xFF
  := by
  intro dataOff segment
  have hflags : segment.getD 13 0 = toByte flags := rfl
  have hoff : segment.getD 12 0 = if withMss then 0x60 else 0x50 := by
    cases withMss <;> rfl
  have hseq : beInt segment 4 = seq := beInt_putInt (putShort srcPort ++ putShort dstPort) seq _
  have hlen : segment.length = 20 + (if withMss then 4 else 0) + payload.length := by
    rw [List.length_append, List.length_append, length_tcpFront, length_tcpRest,
      OnesComplement.length_wordBytes]
    omega
  have hdrop : segment.drop (20 + if withMss then 4 else 0) = payload := by
    cases withMss <;> rfl
  have hdoff : (((segment.getD 12 0).toNat &&& 0xf0) >>> 4) * 4
      = 20 + if withMss then 4 else 0 := by
    rw [hoff]
    cases withMss <;> rfl
  constructor
  · rw [Segment.parse, if_neg (by omega)]
    dsimp only
    rw [hdoff, if_neg (by omega), hflags, hseq, hdrop, testBit_toByte flags (by omega),
      testBit_toByte flags (by omega), testBit_toByte flags (by omega),
      testBit_toByte flags (by omega)]
  · rw [flagsAt, hflags]
    exact flagsAt_toByte flags

/-- The data of a UDP segment is what it was built from; an empty datagram is not written. -/
theorem udpData_segment (srcPort dstPort udpLen : BitVec 32) (t : ℕ) (payload : Bytes)
    (toDns : Bool) :
  udpData toDns (udpFront srcPort dstPort udpLen ++ (OnesComplement.wordBytes t ++ payload))
    = if toDns ∨ payload ≠ [] then some payload else none
  := by
  have hfront : (udpFront srcPort dstPort udpLen ++ OnesComplement.wordBytes t).length = 8 := rfl
  rw [← List.append_assoc, udpData, List.take_length, List.drop_left' hfront, List.length_append,
    hfront, Nat.add_sub_cancel_left, List.take_length]
  cases toDns with
  | true =>
      have hlong : ¬ 8 + payload.length < 8 := by omega
      simp [hlong]
  | false =>
      cases payload with
      | nil => simp
      | cons b payload => simp

/-- What is built is parsed as what it was built for, whatever follows it, and the data, the flags
and the sequence number are taken from its segment. -/
theorem parse_builders (src dst : InetAddress) (hsrc : src.address.length = 4)
    (hdst : dst.address.length = 4) (srcPort dstPort : BitVec 32)
    (hsrcPort : srcPort.toNat ≤ 65535) (hdstPort : dstPort.toNat ≤ 65535) :
  (∀ payload : Bytes, 20 + (8 + payload.length) ≤ 65535 →
      let packet := PacketBuilder.ipv4Udp src.address dst.address srcPort dstPort payload
      let p := builtFor IpPacketParser.protoUdp src dst srcPort dstPort packet
      ParsedAs packet p
        ∧ ∀ toDns, udpData toDns p.payload
            = if toDns ∨ payload ≠ [] then some payload else none)
    ∧ (∀ seq ack,
      let packet := PacketBuilder.ipv4TcpRst src.address dst.address srcPort dstPort seq ack
      let p := builtFor IpPacketParser.protoTcp src dst srcPort dstPort packet
      ParsedAs packet p
        ∧ Segment.parse p.payload = some
            { syn := false, ack := true, fin := false, rst := true, seq := seq, payload := [] }
        ∧ flagsAt p.payload = 0x14)
    ∧ ∀ id seq ack flags payload withMss,
      20 + (20 + (if withMss then 4 else 0) + payload.length) ≤ 65535 →
        let packet := buildIpv4Tcp id src.address dst.address srcPort dstPort seq ack flags payload
          withMss
        let p := builtFor IpPacketParser.protoTcp src dst srcPort dstPort packet
        ParsedAs packet p
          ∧ Segment.parse p.payload = some
              { syn := flags.getLsbD 1
                ack := flags.getLsbD 4
                fin := flags.getLsbD 0
                rst := flags.getLsbD 2
                seq := seq
                payload := payload }
          ∧ flagsAt p.payload = flags &&& 0xFF
  := by
  refine ⟨?_, ?_, ?_⟩
  · intro payload hlen
    dsimp only
    rw [ipv4Udp_eq hsrc hdst]
    generalize (if OnesComplement.checksum _ = 0 then 0xFFFF else OnesComplement.checksum _) = t
    constructor
    · apply parsedAs_framed hsrc hdst (by omega) (by omega) (Or.inr rfl)
      · exact List.append_assoc _ _ _
      · rw [length_udpFront]
      · exact hlen
    · intro toDns
      rw [builtFor, drop_framed hsrc hdst rfl]
      exact udpData_segment _ _ _ _ _ _
  · intro seq ack
    dsimp only
    rw [ipv4TcpRst_eq hsrc hdst]
    constructor
    · apply parsedAs_framed hsrc hdst (by omega) (by omega) (Or.inl rfl) 0 40
      · exact List.append_assoc _ _ _
      · rw [length_tcpFront, length_tcpRest]
        rfl
      · omega
    · rw [builtFor, drop_framed hsrc hdst rfl]
      exact parse_segment _ _ _ _ 0x14 0 _ [] false
  · intro id seq ack flags payload withMss hlen
    dsimp only
    rw [buildIpv4Tcp_eq hsrc hdst]
    constructor
    · apply parsedAs_framed hsrc hdst (by omega) (by omega) (Or.inl rfl)
      · exact List.append_assoc _ _ _
      · rw [length_tcpFront, length_tcpRest]
        omega
      · exact hlen
    · rw [builtFor, drop_framed hsrc hdst rfl]
      exact parse_segment _ _ _ _ _ _ _ _ _

/-- A query for the resolver, and a segment with an option. -/
theorem parse_builders_query :
  let src : InetAddress := ⟨[10, 0, 0, 1], Or.inl rfl⟩
  let dst : InetAddress := ⟨[10, 0, 0, 2], Or.inl rfl⟩
  let udp := PacketBuilder.ipv4Udp src.address dst.address 4660 53 [1, 2, 3]
  let tcp := buildIpv4Tcp 7 src.address dst.address 4660 53 (-1) 2 0x12 [1, 2, 3] true
  ParsedAs udp (builtFor IpPacketParser.protoUdp src dst 4660 53 udp)
    ∧ ParsedAs tcp (builtFor IpPacketParser.protoTcp src dst 4660 53 tcp)
    ∧ flagsAt (builtFor IpPacketParser.protoTcp src dst 4660 53 tcp).payload = 0x12
  := by
  intro src dst udp tcp
  have hflags : (0x12 : BitVec 32) &&& 0xFF = 0x12 := by decide
  obtain ⟨hudp, -, htcp⟩ := parse_builders src dst rfl rfl 4660 53 (by decide) (by decide)
  obtain ⟨hquery, -⟩ := hudp [1, 2, 3] (by decide)
  obtain ⟨hsegment, -, hread⟩ := htcp 7 (-1) 2 0x12 [1, 2, 3] true (by decide)
  exact ⟨hquery, hsegment, hread.trans hflags⟩

end Tun
