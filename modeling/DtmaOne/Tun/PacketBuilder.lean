import DtmaOne.Library.OnesComplement
import DtmaOne.Tun.IpPacket

/-!
# The builders of packets

`PacketBuilder` and `buildIpv4Tcp` write the IPv4 packets that go back to the client.  A packet is
written with zeros for the two checksums, which are then computed from the array and put in: that of
the header over its twenty bytes, and that of the transport segment over the addresses, the protocol
number, the length of the segment and the segment without its checksum field.

Every packet that is built checks, and is read back by `IpPacketParser` as what it was built from.
-/

namespace Tun

open OnesComplement Socks

/-! ### Writing -/

/-- `v.toByte()` -/
def toByte (v : BitVec 32) : UInt8 := ⟨v.setWidth 8⟩

/-- `buf.put(b)` -/
def put (b : UInt8) : Bytes := [b]

/-- `buf.putShort(v.toShort())` -/
def putShort (v : BitVec 32) : Bytes := [toByte (v >>> 8), toByte v]

/-- `buf.putInt(v)` -/
def putInt (v : BitVec 32) : Bytes :=
  [toByte (v >>> 24), toByte (v >>> 16), toByte (v >>> 8), toByte v]

/-- `arr[i] = (v ushr 8).toByte()` and `arr[i + 1] = (v and 0xFF).toByte()` -/
def putChecksum (arr : Bytes) (i v : ℕ) : Bytes :=
  (arr.set i (UInt8.ofNat (v >>> 8))).set (i + 1) (UInt8.ofNat (v &&& 0xFF))

/-- `((data[i].toInt() and 0xFF) shl 8) or (data[i + 1].toInt() and 0xFF)`, within the array. -/
def wordAt (data : Bytes) (i : ℕ) : ℕ :=
  (data.getD i 0).toNat <<< 8 ||| (data.getD (i + 1) 0).toNat

/-- The loop that adds the words from `i` on to `sum`, except the one at `skip`, with the last byte
padded. -/
def addWords (data : Bytes) (skip : Option ℕ) (last i sum : ℕ) : ℕ :=
  if i + 1 < last then
    if skip = some i then addWords data skip last (i + 2) sum
    else addWords data skip last (i + 2) (sum + wordAt data i)
  else if i < last then sum + (data.getD i 0).toNat <<< 8
  else sum
termination_by last - i

/-- `addBytes(b)` -/
def addBytes (b : Bytes) (sum : ℕ) : ℕ := addWords b none b.length 0 sum

namespace PacketBuilder

/-- `PacketBuilder.checksum` -/
def checksum (data : Bytes) (offset length : ℕ) : ℕ :=
  OnesComplement.checksum (addWords data none (offset + length) offset 0)

/-- `PacketBuilder.udpChecksumV4` -/
def udpChecksumV4 (src dst packet : Bytes) (udpOffset udpLen : ℕ) : ℕ :=
  let sum := addBytes dst (addBytes src 0) + IpPacketParser.protoUdp + udpLen
  let sum := addWords packet (some (udpOffset + 6)) (udpOffset + udpLen) udpOffset sum
  let result := OnesComplement.checksum sum
  if result = 0 then 0xFFFF else result

/-- `PacketBuilder.tcpChecksumV4` -/
def tcpChecksumV4 (src dst packet : Bytes) (tcpOffset tcpLen : ℕ) : ℕ :=
  let sum := addBytes dst (addBytes src 0) + IpPacketParser.protoTcp + tcpLen
  let sum := addWords packet (some (tcpOffset + 16)) (tcpOffset + tcpLen) tcpOffset sum
  OnesComplement.checksum sum

/-- `PacketBuilder.ipv4Udp` -/
def ipv4Udp (src dst : Bytes) (srcPort dstPort : BitVec 32) (payload : Bytes) : Bytes :=
  let udpLen := 8 + payload.length
  let total := 20 + udpLen
  let arr := put 0x45 ++ put 0 ++ putShort (BitVec.ofNat 32 total) ++ putShort 0 ++ putShort 0x4000
    ++ put 64 ++ put 17 ++ putShort 0 ++ src ++ dst
    ++ putShort srcPort ++ putShort dstPort ++ putShort (BitVec.ofNat 32 udpLen) ++ putShort 0
    ++ payload
  let arr := putChecksum arr 10 (checksum arr 0 20)
  putChecksum arr 26 (udpChecksumV4 src dst arr 20 udpLen)

/-- `PacketBuilder.ipv4TcpRst` -/
def ipv4TcpRst (src dst : Bytes) (srcPort dstPort seq ack : BitVec 32) : Bytes :=
  let total := 20 + 20
  let arr := put 0x45 ++ put 0 ++ putShort (BitVec.ofNat 32 total) ++ putShort 0 ++ putShort 0x4000
    ++ put 64 ++ put 6 ++ putShort 0 ++ src ++ dst
    ++ putShort srcPort ++ putShort dstPort ++ putInt seq ++ putInt ack
    ++ put (toByte (5 <<< 4)) ++ put 0x14 ++ putShort 0 ++ putShort 0 ++ putShort 0
  let arr := putChecksum arr 10 (checksum arr 0 20)
  putChecksum arr 36 (tcpChecksumV4 src dst arr 20 20)

end PacketBuilder

/-- The loop `while (i < 20)` over the words of the header. -/
def addHeader (arr : Bytes) (i sum : ℕ) : ℕ :=
  if i < 20 then addHeader arr (i + 2) (sum + wordAt arr i) else sum
termination_by 20 - i

/-- `buildIpv4Tcp`, with the value of the identification field. -/
def buildIpv4Tcp (id : BitVec 32) (src dst : Bytes) (srcPort dstPort seq ack flags : BitVec 32)
    (payload : Bytes) (withMss : Bool) : Bytes :=
  let optLen := if withMss then 4 else 0
  let tcpHdr := 20 + optLen
  let tcpLen := tcpHdr + payload.length
  let total := 20 + tcpLen
  let dataOff := BitVec.ofNat 32 (tcpHdr / 4) <<< 4
  let arr := put 0x45 ++ put 0 ++ putShort (BitVec.ofNat 32 total) ++ putShort id ++ putShort 0x4000
    ++ put 64 ++ put 6 ++ putShort 0 ++ src ++ dst
    ++ putShort srcPort ++ putShort dstPort ++ putInt seq ++ putInt ack
    ++ put (toByte dataOff) ++ put (toByte flags) ++ putShort 65535 ++ putShort 0 ++ putShort 0
    ++ (if withMss then put 2 ++ put 4 ++ putShort 1360 else []) ++ payload
  let arr := putChecksum arr 10 (OnesComplement.checksum (addHeader arr 0 0))
  let sum := addBytes dst (addBytes src 0) + 6 + tcpLen
  let sum := addWords arr (some (20 + 16)) total 20 sum
  putChecksum arr (20 + 16) (OnesComplement.checksum sum)

/-! ### Sums of words -/

theorem wordAt_append (p : Bytes) (hi lo : UInt8) (q : Bytes) :
  wordAt (p ++ hi :: lo :: q) p.length = hi.toNat * 256 + lo.toNat
  := by
  have hlo := lo.toNat_lt
  have hzero : (p ++ hi :: lo :: q)[p.length]? = some hi := by simp
  have hone : (p ++ hi :: lo :: q)[p.length + 1]? = some lo := by simp
  have hshift : hi.toNat <<< 8 ||| lo.toNat = 2 ^ 8 * hi.toNat + lo.toNat := by
    rw [Nat.shiftLeft_eq, Nat.mul_comm]
    exact (Nat.two_pow_add_eq_or_of_lt hlo hi.toNat).symm
  rw [wordAt, List.getD_eq_getElem?_getD, List.getD_eq_getElem?_getD, hzero, hone,
    Option.getD_some, Option.getD_some, hshift]
  omega

/-- The words of a range are added, with the last byte padded. -/
theorem addWords_append (p l q : Bytes) (sum : ℕ) :
  addWords (p ++ (l ++ q)) none (p.length + l.length) p.length sum = sum + wordSum l
  := by
  induction l using wordSum.induct generalizing p sum with
  | case1 =>
      rw [addWords, if_neg (by simp), if_neg (by simp)]
      rfl
  | case2 hi =>
      have hget : (p ++ ([hi] ++ q)).getD p.length 0 = hi := by simp
      have hshift : hi.toNat <<< 8 = hi.toNat * 256 := Nat.shiftLeft_eq _ _
      rw [addWords, if_neg (by simp), if_pos (by simp), hget, hshift]
      rfl
  | case3 hi lo l ih =>
      have hnext := ih (p ++ [hi, lo]) (sum + (hi.toNat * 256 + lo.toNat))
      rw [List.append_assoc, List.length_append] at hnext
      rw [addWords, if_pos (by simp), if_neg (by simp), List.cons_append, List.cons_append,
        wordAt_append, wordSum]
      have hend : p.length + (hi :: lo :: l).length = p.length + 2 + l.length := by
        simp only [List.length_cons]
        omega
      rw [hend]
      refine hnext.trans ?_
      omega

/-- Behind the word at `skip` nothing is left out. -/
theorem addWords_of_lt {data : Bytes} {k last i : ℕ} (hi : k < i) (sum : ℕ) :
  addWords data (some k) last i sum = addWords data none last i sum
  := by
  induction hn : last - i using Nat.strong_induction_on generalizing i sum with
  | _ n ih =>
      have hne : ¬ some k = some i := by
        rw [Option.some_inj]
        omega
      rw [addWords, if_neg hne]
      conv_rhs => rw [addWords, if_neg (Option.some_ne_none i).symm]
      by_cases hlt : i + 1 < last
      · rw [if_pos hlt, if_pos hlt]
        exact ih (last - (i + 2)) (by omega) (by omega) _ rfl
      · rw [if_neg hlt, if_neg hlt]

/-- The word at `skip` is left out. -/
theorem addWords_skip (p : Bytes) {a : Bytes} (ha : a.length % 2 = 0) (v : ℕ) (l q : Bytes)
    (sum : ℕ) :
  addWords (p ++ (a ++ (wordBytes v ++ (l ++ q)))) (some (p.length + a.length))
      (p.length + a.length + 2 + l.length) p.length sum
    = sum + wordSum a + wordSum l
  := by
  induction a using wordSum.induct generalizing p sum with
  | case1 =>
      have hrest := addWords_append (p ++ wordBytes v) l q sum
      rw [List.append_assoc, List.length_append] at hrest
      have hhere : some (p.length + ([] : Bytes).length) = some p.length := rfl
      rw [addWords, if_pos (by simp; omega), if_pos hhere, addWords_of_lt (by simp)]
      exact hrest
  | case2 hi => cases ha
  | case3 hi lo a ih =>
      have heven : a.length % 2 = 0 := by
        simp only [List.length_cons] at ha
        omega
      have hnext := ih (p ++ [hi, lo]) heven (sum + (hi.toNat * 256 + lo.toNat))
      rw [List.append_assoc, List.length_append] at hnext
      have hskip : p.length + (hi :: lo :: a).length = p.length + 2 + a.length := by
        simp only [List.length_cons]
        omega
      have hne : ¬ some (p.length + 2 + a.length) = some p.length := by
        rw [Option.some_inj]
        omega
      rw [hskip, addWords, if_pos (by omega), if_neg hne, List.cons_append, List.cons_append,
        wordAt_append, wordSum]
      refine hnext.trans ?_
      omega

theorem addBytes_eq (b : Bytes) (sum : ℕ) :
  addBytes b sum = sum + wordSum b
  := by
  have h := addWords_append [] b [] sum
  rwa [List.nil_append, List.append_nil, List.length_nil, Nat.zero_add] at h

/-- The loop over the header adds its words. -/
theorem addHeader_eq (arr : Bytes) {i : ℕ} (hi : i % 2 = 0) (hle : i ≤ 20) (sum : ℕ) :
  addHeader arr i sum = addWords arr none 20 i sum
  := by
  induction hn : 20 - i using Nat.strong_induction_on generalizing i sum with
  | _ n ih =>
      rw [addHeader, addWords, if_neg (Option.some_ne_none i).symm]
      by_cases hlt : i < 20
      · rw [if_pos hlt, if_pos (by omega)]
        exact ih (20 - (i + 2)) (by omega) (by omega) (by omega) _ rfl
      · rw [if_neg hlt, if_neg (by omega), if_neg hlt]

/-! ### The parts of a packet -/

/-- A packet with its two checksums: ten bytes of the header, the addresses, and the transport
segment before and after its checksum. -/
def framed (head addresses front rest : Bytes) (c t : ℕ) : Bytes :=
  head ++ (wordBytes c ++ (addresses ++ (front ++ (wordBytes t ++ rest))))

theorem putChecksum_append (p : Bytes) (u v : ℕ) (q : Bytes) :
  putChecksum (p ++ (wordBytes u ++ q)) p.length v = p ++ (wordBytes v ++ q)
  := by
  simp [putChecksum, wordBytes]

/-- The sum of the header without its checksum. -/
def headerSum (head addresses : Bytes) : ℕ := wordSum head + wordSum addresses

/-- The sum of the segment without its checksum, and of the pseudo-header. -/
def segmentSum (protocol : ℕ) (addresses front rest : Bytes) : ℕ :=
  wordSum addresses + protocol + (front.length + 2 + rest.length) + wordSum front + wordSum rest

section Framed

variable {head addresses : Bytes} (front rest : Bytes)

theorem addWords_header (hhead : head.length = 10) (haddresses : addresses.length = 8) (t : ℕ) :
  addWords (framed head addresses front rest 0 t) none 20 0 0 = headerSum head addresses
  := by
  have hzero : wordSum (wordBytes 0) = 0 := by decide
  have hlen : (head ++ (wordBytes 0 ++ addresses)).length = 20 := by
    simp [hhead, haddresses]
  have hsum := addWords_append [] (head ++ (wordBytes 0 ++ addresses))
    (front ++ (wordBytes t ++ rest)) 0
  rw [List.nil_append, List.length_nil, Nat.zero_add, Nat.zero_add, hlen,
    wordSum_append (by rw [hhead]), wordSum_append (by rfl), hzero, Nat.zero_add] at hsum
  rw [headerSum, ← hsum, framed]
  simp only [List.append_assoc]

/-- The sum of the loop over the segment, which starts with the addresses, the protocol and the
length. -/
theorem addWords_segment {src dst : Bytes} (hhead : head.length = 10) (hsrc : src.length = 4)
    (hdst : dst.length = 4) (hfront : front.length % 2 = 0) (protocol c skip len : ℕ)
    (hskip : skip = 20 + front.length) (hlen : len = front.length + 2 + rest.length) :
  addWords (framed head (src ++ dst) front rest c 0) (some skip) (20 + len) 20
      (addBytes dst (addBytes src 0) + protocol + len)
    = segmentSum protocol (src ++ dst) front rest
  := by
  have hbefore : (head ++ (wordBytes c ++ (src ++ dst))).length = 20 := by
    simp [hhead, hsrc, hdst]
  have hframed : framed head (src ++ dst) front rest c 0
      = (head ++ (wordBytes c ++ (src ++ dst))) ++ (front ++ (wordBytes 0 ++ (rest ++ []))) := by
    simp only [framed, List.append_assoc, List.append_nil]
  have hsum := addWords_skip (head ++ (wordBytes c ++ (src ++ dst))) hfront 0 rest []
    (addBytes dst (addBytes src 0) + protocol + len)
  have hlast : 20 + front.length + 2 + rest.length = 20 + len := by omega
  rw [hbefore, hlast, ← hskip] at hsum
  rw [hframed, hsum, addBytes_eq, addBytes_eq, Nat.zero_add, segmentSum,
    wordSum_append (by rw [hsrc]), hlen]

theorem putChecksum_header (hhead : head.length = 10) (c u t : ℕ) :
  putChecksum (framed head addresses front rest u t) 10 c = framed head addresses front rest c t
  := by
  rw [framed, ← hhead, putChecksum_append]
  rfl

theorem putChecksum_segment (hhead : head.length = 10) (haddresses : addresses.length = 8)
    (c u t : ℕ) :
  putChecksum (framed head addresses front rest c u) (20 + front.length) t
    = framed head addresses front rest c t
  := by
  have hlen : (head ++ (wordBytes c ++ (addresses ++ front))).length = 20 + front.length := by
    simp [hhead, haddresses]
    omega
  have hput := putChecksum_append (head ++ (wordBytes c ++ (addresses ++ front))) u t rest
  rw [hlen] at hput
  simpa only [framed, List.append_assoc] using hput

end Framed

/-- The header up to its checksum. -/
def ipHead (total id : BitVec 32) (protocol : UInt8) : Bytes :=
  put 0x45 ++ put 0 ++ putShort total ++ putShort id ++ putShort 0x4000 ++ put 64 ++ put protocol

/-- The header of a UDP segment up to its checksum. -/
def udpFront (srcPort dstPort udpLen : BitVec 32) : Bytes :=
  putShort srcPort ++ putShort dstPort ++ putShort udpLen

/-- The header of a TCP segment up to its checksum. -/
def tcpFront (srcPort dstPort seq ack : BitVec 32) (dataOff flags : UInt8) (window : BitVec 32) :
    Bytes :=
  putShort srcPort ++ putShort dstPort ++ putInt seq ++ putInt ack ++ put dataOff ++ put flags
    ++ putShort window

@[simp]
theorem length_ipHead (total id : BitVec 32) (protocol : UInt8) :
  (ipHead total id protocol).length = 10
  := rfl

@[simp]
theorem length_udpFront (srcPort dstPort udpLen : BitVec 32) :
  (udpFront srcPort dstPort udpLen).length = 6
  := rfl

@[simp]
theorem length_tcpFront (srcPort dstPort seq ack : BitVec 32) (dataOff flags : UInt8)
    (window : BitVec 32) :
  (tcpFront srcPort dstPort seq ack dataOff flags window).length = 16
  := rfl

/-- What follows the checksum of a TCP segment. -/
def tcpRest (payload : Bytes) (withMss : Bool) : Bytes :=
  putShort 0 ++ (if withMss then put 2 ++ put 4 ++ putShort 1360 else []) ++ payload

section Builders

variable {src dst : Bytes} (hsrc : src.length = 4) (hdst : dst.length = 4)
  (srcPort dstPort : BitVec 32)
include hsrc hdst

/-- A packet of `ipv4Udp` with its parts. -/
theorem ipv4Udp_eq (payload : Bytes) :
  let head := ipHead (BitVec.ofNat 32 (20 + (8 + payload.length))) 0 17
  let front := udpFront srcPort dstPort (BitVec.ofNat 32 (8 + payload.length))
  let t := OnesComplement.checksum (segmentSum 17 (src ++ dst) front payload)
  PacketBuilder.ipv4Udp src dst srcPort dstPort payload
    = framed head (src ++ dst) front payload
        (OnesComplement.checksum (headerSum head (src ++ dst))) (if t = 0 then 0xFFFF else t)
  := by
  intro head front t
  have haddresses : (src ++ dst).length = 8 := by rw [List.length_append, hsrc, hdst]
  have hhead : head.length = 10 := rfl
  have harr : put 0x45 ++ put 0 ++ putShort (BitVec.ofNat 32 (20 + (8 + payload.length)))
      ++ putShort 0 ++ putShort 0x4000 ++ put 64 ++ put 17 ++ putShort 0 ++ src ++ dst
      ++ putShort srcPort ++ putShort dstPort ++ putShort (BitVec.ofNat 32 (8 + payload.length))
      ++ putShort 0 ++ payload = framed head (src ++ dst) front payload 0 0 := by
    simp only [framed, head, front, ipHead, udpFront, List.append_assoc]
    rfl
  have hheader := addWords_header front payload hhead haddresses 0
  have hfront : front.length = 6 := rfl
  have ht (c : ℕ) : PacketBuilder.udpChecksumV4 src dst (framed head (src ++ dst) front payload c 0)
      20 (8 + payload.length) = if t = 0 then 0xFFFF else t := by
    have hsegment := addWords_segment front payload hhead hsrc hdst (by rw [hfront]) 17 c
      (20 + 6) (8 + payload.length) rfl (by rw [hfront])
    rw [PacketBuilder.udpChecksumV4, IpPacketParser.protoUdp, hsegment]
  rw [PacketBuilder.ipv4Udp, harr, PacketBuilder.checksum, Nat.zero_add, hheader,
    putChecksum_header front payload hhead, ht]
  exact putChecksum_segment front payload hhead haddresses _ 0 _

/-- A packet of `ipv4TcpRst` with its parts. -/
theorem ipv4TcpRst_eq (seq ack : BitVec 32) :
  let head := ipHead 40 0 6
  let front := tcpFront srcPort dstPort seq ack 0x50 0x14 0
  PacketBuilder.ipv4TcpRst src dst srcPort dstPort seq ack
    = framed head (src ++ dst) front (tcpRest [] false)
        (OnesComplement.checksum (headerSum head (src ++ dst)))
        (OnesComplement.checksum (segmentSum 6 (src ++ dst) front (tcpRest [] false)))
  := by
  intro head front
  have haddresses : (src ++ dst).length = 8 := by rw [List.length_append, hsrc, hdst]
  have hhead : head.length = 10 := rfl
  have hfront : front.length = 16 := rfl
  have harr : put 0x45 ++ put 0 ++ putShort (BitVec.ofNat 32 (20 + 20))
      ++ putShort 0 ++ putShort 0x4000 ++ put 64 ++ put 6 ++ putShort 0 ++ src ++ dst
      ++ putShort srcPort ++ putShort dstPort ++ putInt seq ++ putInt ack
      ++ put (toByte (5 <<< 4)) ++ put 0x14 ++ putShort 0 ++ putShort 0 ++ putShort 0
      = framed head (src ++ dst) front (tcpRest [] false) 0 0 := by
    simp only [framed, head, front, ipHead, tcpFront, tcpRest, List.append_assoc]
    rfl
  have hheader := addWords_header front (tcpRest [] false) hhead haddresses 0
  have ht (c : ℕ) : PacketBuilder.tcpChecksumV4 src dst
      (framed head (src ++ dst) front (tcpRest [] false) c 0) 20 20
      = OnesComplement.checksum (segmentSum 6 (src ++ dst) front (tcpRest [] false)) := by
    have hsegment := addWords_segment front (tcpRest [] false) hhead hsrc hdst (by rw [hfront]) 6 c
      (20 + 16) 20 rfl (by rw [hfront]; rfl)
    rw [PacketBuilder.tcpChecksumV4, IpPacketParser.protoTcp, hsegment]
  rw [PacketBuilder.ipv4TcpRst, harr, PacketBuilder.checksum, Nat.zero_add, hheader,
    putChecksum_header front (tcpRest [] false) hhead, ht]
  exact putChecksum_segment front (tcpRest [] false) hhead haddresses _ 0 _

omit hsrc hdst in
theorem length_tcpRest (payload : Bytes) (withMss : Bool) :
  (tcpRest payload withMss).length = 2 + (if withMss then 4 else 0) + payload.length
  := by
  cases withMss <;> simp [tcpRest, putShort, put] <;> omega

/-- A packet of `buildIpv4Tcp` with its parts. -/
theorem buildIpv4Tcp_eq (id seq ack flags : BitVec 32) (payload : Bytes) (withMss : Bool) :
  let tcpHdr := 20 + if withMss then 4 else 0
  let head := ipHead (BitVec.ofNat 32 (20 + (tcpHdr + payload.length))) id 6
  let front := tcpFront srcPort dstPort seq ack (toByte (BitVec.ofNat 32 (tcpHdr / 4) <<< 4))
    (toByte flags) 65535
  buildIpv4Tcp id src dst srcPort dstPort seq ack flags payload withMss
    = framed head (src ++ dst) front (tcpRest payload withMss)
        (OnesComplement.checksum (headerSum head (src ++ dst)))
        (OnesComplement.checksum (segmentSum 6 (src ++ dst) front (tcpRest payload withMss)))
  := by
  intro tcpHdr head front
  have haddresses : (src ++ dst).length = 8 := by rw [List.length_append, hsrc, hdst]
  have hhead : head.length = 10 := rfl
  have hfront : front.length = 16 := rfl
  have harr : put 0x45 ++ put 0 ++ putShort (BitVec.ofNat 32 (20 + (tcpHdr + payload.length)))
      ++ putShort id ++ putShort 0x4000 ++ put 64 ++ put 6 ++ putShort 0 ++ src ++ dst
      ++ putShort srcPort ++ putShort dstPort ++ putInt seq ++ putInt ack
      ++ put (toByte (BitVec.ofNat 32 (tcpHdr / 4) <<< 4)) ++ put (toByte flags)
      ++ putShort 65535 ++ putShort 0 ++ putShort 0
      ++ (if withMss then put 2 ++ put 4 ++ putShort 1360 else []) ++ payload
      = framed head (src ++ dst) front (tcpRest payload withMss) 0 0 := by
    simp only [framed, head, front, ipHead, tcpFront, tcpRest, List.append_assoc]
    rfl
  have hheader := addWords_header front (tcpRest payload withMss) hhead haddresses 0
  have ht (c : ℕ) : addWords (framed head (src ++ dst) front (tcpRest payload withMss) c 0)
      (some (20 + 16)) (20 + (tcpHdr + payload.length)) 20
      (addBytes dst (addBytes src 0) + 6 + (tcpHdr + payload.length))
      = segmentSum 6 (src ++ dst) front (tcpRest payload withMss) := by
    apply addWords_segment front (tcpRest payload withMss) hhead hsrc hdst (by rw [hfront])
    · rw [hfront]
    · rw [hfront, length_tcpRest]
      omega
  rw [buildIpv4Tcp, harr, addHeader_eq _ rfl (by omega), hheader,
    putChecksum_header front _ hhead, ht]
  exact putChecksum_segment front _ hhead haddresses _ 0 _

end Builders

/-! ### Checksums -/

/-- The pseudo-header of a transport segment: the addresses, the protocol and the length of the
segment. -/
def pseudoHeader (protocol : UInt8) (packet : Bytes) : Bytes :=
  (packet.drop 12).take 8 ++ ([0, protocol] ++ wordBytes (packet.length - 20))

/-- The checksums of a packet are right. -/
structure Valid (protocol : UInt8) (packet : Bytes) : Prop where
  header : Checks (packet.take 20)
  segment : Checks (pseudoHeader protocol packet ++ packet.drop 20)

/-- A packet is valid, if its checksums are those of its parts. -/
theorem valid_framed {head addresses front rest : Bytes} (hhead : head.length = 10)
    (haddresses : addresses.length = 8) (hfront : front.length % 2 = 0)
    (hlen : front.length + 2 + rest.length < 65536) (protocol : UInt8) {t : ℕ} (ht : t < 65536)
    (hfold : fold (segmentSum protocol.toNat addresses front rest + t) = 0xFFFF) :
  Valid protocol
    (framed head addresses front rest (OnesComplement.checksum (headerSum head addresses)) t)
  := by
  generalize hc : OnesComplement.checksum (headerSum head addresses) = c
  have hclt : c < 65536 := by
    rw [← hc]
    apply checksum_lt
  have hsplit : framed head addresses front rest c t
      = (head ++ (wordBytes c ++ addresses)) ++ (front ++ (wordBytes t ++ rest)) := by
    simp only [framed, List.append_assoc]
  have hbefore : (head ++ (wordBytes c ++ addresses)).length = 20 := by
    simp [hhead, haddresses]
  have hafter : (front ++ (wordBytes t ++ rest)).length = front.length + 2 + rest.length := by
    simp
    omega
  constructor
  · rw [hsplit, List.take_left' hbefore, Checks, wordSum_append (by rw [hhead]),
      wordSum_wordBytes_append hclt]
    have hsum : wordSum head + (c + wordSum addresses) = headerSum head addresses + c := by
      rw [headerSum]
      omega
    rw [hsum, ← hc]
    apply fold_add_checksum
  · have hpseudo : pseudoHeader protocol (framed head addresses front rest c t)
        = addresses ++ ([0, protocol] ++ wordBytes (front.length + 2 + rest.length)) := by
      have htwelve : (head ++ wordBytes c).length = 12 := by simp [hhead]
      have hdrop : (framed head addresses front rest c t).drop 12
          = addresses ++ (front ++ (wordBytes t ++ rest)) := by
        rw [framed, ← List.append_assoc, List.drop_left' htwelve]
      have hsize : (framed head addresses front rest c t).length - 20
          = front.length + 2 + rest.length := by
        rw [hsplit, List.length_append, hbefore, hafter]
        omega
      rw [pseudoHeader, hdrop, List.take_left' haddresses, hsize]
    have hprotocol (bytes : Bytes) : wordSum ([0, protocol] ++ bytes)
        = protocol.toNat + wordSum bytes := by
      simp [wordSum]
    have hsum : wordSum addresses + (protocol.toNat + (front.length + 2 + rest.length
        + (wordSum front + (t + wordSum rest))))
        = segmentSum protocol.toNat addresses front rest + t := by
      rw [segmentSum]
      omega
    rw [hpseudo, hsplit, List.drop_left' hbefore, Checks, List.append_assoc, List.append_assoc,
      wordSum_append (by rw [haddresses]), hprotocol, wordSum_wordBytes_append hlen,
      wordSum_append hfront, wordSum_wordBytes_append ht, hsum, hfold]

theorem wordAt_framed {head addresses : Bytes} (hhead : head.length = 10)
    (haddresses : addresses.length = 8) (front rest : Bytes) (c : ℕ) {t : ℕ} (ht : t < 65536) :
  wordAt (framed head addresses front rest c t) (20 + front.length) = t
  := by
  have hlen : (head ++ (wordBytes c ++ (addresses ++ front))).length = 20 + front.length := by
    simp [hhead, haddresses]
    omega
  have hsplit : framed head addresses front rest c t
      = (head ++ (wordBytes c ++ (addresses ++ front))) ++ (wordBytes t ++ rest) := by
    simp only [framed, List.append_assoc]
  have hsum := wordSum_wordBytes ht
  rw [wordBytes, wordSum, wordSum, Nat.add_zero] at hsum
  rw [hsplit, ← hlen]
  exact (wordAt_append _ _ _ rest).trans hsum

/-- The checksum of a UDP segment is not zero, and as good as the sum's complement. -/
theorem udpChecksum_spec {n t : ℕ}
    (ht : t = if OnesComplement.checksum n = 0 then 0xFFFF else OnesComplement.checksum n) :
  t ≠ 0 ∧ t < 65536 ∧ fold (n + t) = 0xFFFF
  := by
  subst ht
  split_ifs with hzero
  · exact ⟨by omega, by omega, fold_add_of_checksum_eq_zero hzero⟩
  · exact ⟨hzero, checksum_lt n, fold_add_checksum n⟩

/-- Every packet that is built is valid, and the checksum of a UDP segment is not zero. -/
theorem builders_valid (src dst : Bytes) (hsrc : src.length = 4) (hdst : dst.length = 4)
    (srcPort dstPort : BitVec 32) :
  (∀ payload : Bytes, 20 + (8 + payload.length) ≤ 65535 →
      Valid 17 (PacketBuilder.ipv4Udp src dst srcPort dstPort payload)
        ∧ wordAt (PacketBuilder.ipv4Udp src dst srcPort dstPort payload) 26 ≠ 0)
    ∧ (∀ seq ack, Valid 6 (PacketBuilder.ipv4TcpRst src dst srcPort dstPort seq ack))
    ∧ ∀ id seq ack flags payload withMss,
        20 + (20 + (if withMss then 4 else 0) + payload.length) ≤ 65535 →
          Valid 6 (buildIpv4Tcp id src dst srcPort dstPort seq ack flags payload withMss)
  := by
  have haddresses : (src ++ dst).length = 8 := by rw [List.length_append, hsrc, hdst]
  refine ⟨?_, ?_, ?_⟩
  · intro payload hlen
    rw [ipv4Udp_eq hsrc hdst]
    generalize hhead : ipHead (BitVec.ofNat 32 (20 + (8 + payload.length))) 0 17 = head
    generalize hfront : udpFront srcPort dstPort (BitVec.ofNat 32 (8 + payload.length)) = front
    have hten : head.length = 10 := by rw [← hhead, length_ipHead]
    have hsix : front.length = 6 := by rw [← hfront, length_udpFront]
    obtain ⟨hne, hlt, hfold⟩ := udpChecksum_spec
      (n := segmentSum 17 (src ++ dst) front payload) rfl
    constructor
    · apply valid_framed hten haddresses (by rw [hsix]) _ 17 hlt hfold
      omega
    · have hfield := wordAt_framed hten haddresses front payload
        (OnesComplement.checksum (headerSum head (src ++ dst))) hlt
      rw [hsix] at hfield
      rw [hfield]
      exact hne
  · intro seq ack
    rw [ipv4TcpRst_eq hsrc hdst]
    apply valid_framed rfl haddresses (by rw [length_tcpFront]) _ 6 (checksum_lt _)
    · apply fold_add_checksum
    · rw [length_tcpFront, length_tcpRest, List.length_nil, if_neg Bool.false_ne_true]
      omega
  · intro id seq ack flags payload withMss hlen
    rw [buildIpv4Tcp_eq hsrc hdst]
    apply valid_framed rfl haddresses (by rw [length_tcpFront]) _ 6 (checksum_lt _)
    · apply fold_add_checksum
    · rw [length_tcpFront, length_tcpRest]
      omega

/-- A UDP packet with a payload of odd length, and a TCP packet with an option. -/
theorem builders_valid_odd :
  Valid 17 (PacketBuilder.ipv4Udp [10, 0, 0, 1] [10, 0, 0, 2] 53 4660 [1, 2, 3])
    ∧ Valid 6 (buildIpv4Tcp 7 [10, 0, 0, 1] [10, 0, 0, 2] 443 4660 1 2 0x12 [1, 2, 3] true)
  := by
  obtain ⟨hudp, -, -⟩ := builders_valid [10, 0, 0, 1] [10, 0, 0, 2] rfl rfl 53 4660
  obtain ⟨-, -, htcp⟩ := builders_valid [10, 0, 0, 1] [10, 0, 0, 2] rfl rfl 443 4660
  exact ⟨(hudp [1, 2, 3] (by decide)).1, htcp 7 1 2 0x12 [1, 2, 3] true (by decide)⟩

end Tun
