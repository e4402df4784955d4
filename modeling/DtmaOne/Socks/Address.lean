import Mathlib.Data.List.Basic

/-!
# Internet addresses and the headers of the SOCKS5 server

The addresses of `java.net` and the byte layouts `LocalSocks5Server` writes: the header of a
relayed datagram and the reply to a request.
-/

namespace Socks

/-- A byte string. -/
abbrev Bytes : Type := List UInt8

/-- `InetAddress`: four or sixteen bytes. -/
structure InetAddress where
  address : Bytes
  size : address.length = 4 ∨ address.length = 16
  deriving DecidableEq

theorem InetAddress.size_loopback :
  ([127, 0, 0, 1] : Bytes).length = 4 ∨ ([127, 0, 0, 1] : Bytes).length = 16
  := Or.inl rfl

/-- `InetSocketAddress`, with the port as given by the datagram or the request. -/
structure InetSocketAddress where
  address : InetAddress
  port : ℕ
  deriving DecidableEq

/-- The sixteen bytes are an IPv4 address mapped into IPv6. -/
def isIpv4Mapped (b : Bytes) : Bool :=
  b.take 12 = [0, 0, 0, 0, 0, 0, 0, 0, 0, 0, 0xff, 0xff]

/-- `InetAddress.getByAddress`: a mapped IPv4 address becomes an IPv4 address, and a byte
string of another length is refused. -/
def InetAddress.getByAddress (b : Bytes) : Option InetAddress :=
  if h4 : b.length = 4 then some ⟨b, Or.inl h4⟩
  else if h16 : b.length = 16 then
    if isIpv4Mapped b then some ⟨b.drop 12, Or.inl (by simp [h16])⟩
    else some ⟨b, Or.inr h16⟩
  else none

/-- `getByAddress` accepts every four bytes. -/
theorem InetAddress.getByAddress_of_length_four {b : Bytes} (hb : b.length = 4) :
  getByAddress b = some ⟨b, Or.inl hb⟩
  := by
  simp [getByAddress, hb]

/-- `getByAddress` accepts every sixteen bytes. -/
theorem InetAddress.getByAddress_of_length_sixteen {b : Bytes} (hb : b.length = 16) :
  ∃ a, getByAddress b = some a
  := by
  cases hm : isIpv4Mapped b <;> simp [getByAddress, hb, hm]

/-- `String(bytes, US_ASCII)`: bytes outside ASCII become the replacement character. -/
def asciiString (b : Bytes) : String :=
  String.ofList (b.map fun x => if x < 128 then Char.ofNat x.toNat else Char.ofNat 0xfffd)

/-- The address field of a request, without its type byte: four bytes, sixteen bytes, or the
length of a host name and a host name that resolves. -/
inductive AddressBytes (getByName : String → Option InetAddress) :
    UInt8 → Bytes → InetAddress → Prop where
  | ipv4 {raw : Bytes} {a : InetAddress} (hlen : raw.length = 4)
      (ha : InetAddress.getByAddress raw = some a) : AddressBytes getByName 0x01 raw a
  | ipv6 {raw : Bytes} {a : InetAddress} (hlen : raw.length = 16)
      (ha : InetAddress.getByAddress raw = some a) : AddressBytes getByName 0x04 raw a
  | name {len : UInt8} {raw : Bytes} {a : InetAddress} (hlen : raw.length = len.toNat)
      (ha : getByName (asciiString raw) = some a) : AddressBytes getByName 0x03 (len :: raw) a

/-- The address field of an address is made of its own bytes. -/
theorem InetAddress.getByAddress_address {a : InetAddress}
    (ha : a.address.length = 16 → isIpv4Mapped a.address = false) :
  getByAddress a.address = some a
  := by
  obtain ⟨raw, hsize⟩ := a
  obtain h4 | h16 := hsize
  · rw [getByAddress_of_length_four h4]
  · have h4 : ¬ raw.length = 4 := by
      omega
    have hmapped : ¬ isIpv4Mapped raw = true := by
      rw [ha h16]
      apply Bool.false_ne_true
    rw [getByAddress, dif_neg h4, dif_pos h16, if_neg hmapped]

/-- The two bytes of a port, most significant first. -/
def portBytes (port : ℕ) : Bytes :=
  [UInt8.ofNat (port >>> 8), UInt8.ofNat (port &&& 0xff)]

/-- The port two bytes stand for. -/
def portOf (hi lo : UInt8) : ℕ :=
  256 * hi.toNat + lo.toNat

theorem shiftLeft_or_eq_portOf (hi lo : UInt8) :
  (hi.toNat <<< 8) ||| lo.toNat = portOf hi lo
  := by
  have hlo : lo.toNat < 2 ^ 8 := lo.toNat_lt
  rw [← Nat.shiftLeft_add_eq_or_of_lt hlo, Nat.shiftLeft_eq, portOf, Nat.mul_comm]

/-- A port is read back from its two bytes. -/
theorem exists_portBytes {port : ℕ} (hport : port ≤ 65535) :
  ∃ hi lo, portBytes port = [hi, lo] ∧ portOf hi lo = port
  := by
  refine ⟨UInt8.ofNat (port >>> 8), UInt8.ofNat (port &&& 0xff), rfl, ?_⟩
  have hmask : port &&& 0xff = port % 256 := Nat.and_two_pow_sub_one_eq_mod port 8
  rw [portOf, UInt8.toNat_ofNat', UInt8.toNat_ofNat', hmask, Nat.shiftRight_eq_div_pow]
  omega

/-- `buildUdpHeader` -/
def buildUdpHeader (addr : InetAddress) (port : ℕ) : Bytes :=
  let raw := addr.address
  if raw.length = 4 then [0, 0, 0, 0x01] ++ raw ++ portBytes port
  else [0, 0, 0, 0x04] ++ raw ++ portBytes port

/-- The bytes `reply` writes.  An address has four or sixteen bytes, so the third branch of
the source is never taken. -/
def reply (rep : UInt8) (addr : InetAddress) (port : ℕ) : Bytes :=
  let raw := addr.address
  let atyp : UInt8 := if raw.length = 4 then 0x01 else 0x04
  [0x05, rep, 0x00, atyp] ++ raw ++ portBytes port

/-- The address `0.0.0.0`. -/
def InetAddress.any : InetAddress := ⟨[0, 0, 0, 0], Or.inl rfl⟩

end Socks
