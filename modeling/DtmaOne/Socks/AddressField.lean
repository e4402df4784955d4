import DtmaOne.Socks.Handshake
import DtmaOne.Socks.UdpTransducer

/-!
# The two decoders of an address field

`LocalSocks5Server` decodes an address field, a type and an address, in two places: `readAddress`
reads it from the stream of a client, and the loop of `doUdpAssociate` from the buffer of a
datagram.  Both accept the same fields, read the same address and take the same number of bytes,
except for a host name of length zero.  `readAddress` refuses it, while the loop resolves the empty
string.
-/

namespace Socks.AddressField

open InputStream

/-- What the loop of `doUdpAssociate` decodes of a field behind the first three bytes of a datagram,
and how many bytes it takes; the buffer has old bytes behind the datagram. -/
def fieldOfDatagram (getByName : String → Option InetAddress) (field stale : Bytes) :
    Option (InetAddress × ℕ) :=
  match field with
  | [] => none
  | atyp :: addr =>
      match UdpRelay.decodeAddress getByName ([0, 0, 0] ++ atyp :: addr ++ stale)
          ([0, 0, 0] ++ atyp :: addr).length atyp 4 with
      | .ok (a, p) => some (a, p - 3)
      | .error _ => none

/-- What `handleClient` decodes of a field in the stream of a client, and how many bytes it
takes. -/
def fieldOfStream (getByName : String → Option InetAddress) (input : Source) :
    Option (InetAddress × ℕ) :=
  let (atyp, addr) := read input
  match Handshake.readAddress getByName addr atyp with
  | some (a, next) => some (a, input.flatten.length - next.flatten.length)
  | none => none

/-- Both decoders make the same of a field, whatever is behind it in the buffer and however the stream
is split. -/
def DecodedAlike (getByName : String → Option InetAddress) (field : Bytes) : Prop :=
  ∀ (stale : Bytes) (input : Source), input.flatten = field →
    fieldOfDatagram getByName field stale = fieldOfStream getByName input

variable {getByName : String → Option InetAddress}

/-- The loop accepts the address fields. -/
theorem fieldOfDatagram_eq_some {field stale : Bytes} {a : InetAddress} {n : ℕ} :
  fieldOfDatagram getByName field stale = some (a, n) ↔
    ∃ atyp addr rest, field = atyp :: (addr ++ rest) ∧ AddressBytes getByName atyp addr a ∧
      n = addr.length + 1
  := by
  constructor
  · intro h
    cases field with
    | nil => cases h
    | cons atyp bytes =>
        rw [fieldOfDatagram] at h
        cases hdecode : UdpRelay.decodeAddress getByName ([0, 0, 0] ++ atyp :: bytes ++ stale)
            ([0, 0, 0] ++ atyp :: bytes).length atyp 4 with
        | error e =>
            rw [hdecode] at h
            cases h
        | ok r =>
            obtain ⟨a', p⟩ := r
            rw [hdecode] at h
            obtain ⟨rfl, rfl⟩ := Prod.mk.inj (Option.some.inj h)
            obtain ⟨addr, haddr, rfl, -, htake⟩ := UdpRelay.addressBytes_of_decodeAddress hdecode
            change bytes.take addr.length = addr at htake
            refine ⟨atyp, addr, bytes.drop addr.length, ?_, haddr, by omega⟩
            nth_rewrite 1 [← List.take_append_drop addr.length bytes]
            rw [htake]
  · rintro ⟨atyp, addr, rest, rfl, haddr, rfl⟩
    have hlim : [0, 0, 0, atyp].length + addr.length
        ≤ ([0, 0, 0] ++ atyp :: (addr ++ rest)).length := by
      simp only [List.length_append, List.length_cons, List.length_nil]
      omega
    have hdecode := UdpRelay.decodeAddress_of_addressBytes haddr [0, 0, 0, atyp] (rest ++ stale) hlim
    have hdata : [0, 0, 0] ++ atyp :: (addr ++ rest) ++ stale
        = [0, 0, 0, atyp] ++ addr ++ (rest ++ stale) := by
      simp
    have hoffset : 4 + addr.length - 3 = addr.length + 1 := by
      omega
    rw [fieldOfDatagram, hdata]
    change (match UdpRelay.decodeAddress getByName _ _ atyp [0, 0, 0, atyp].length with
      | .ok (a, p) => some (a, p - 3)
      | .error _ => none) = _
    rw [hdecode]
    change some (a, 4 + addr.length - 3) = _
    rw [hoffset]

/-- `handleClient` accepts the address fields without the empty host name. -/
theorem fieldOfStream_eq_some {input : Source} {a : InetAddress} {n : ℕ} :
  fieldOfStream getByName input = some (a, n) ↔
    ∃ atyp addr rest, input.flatten = atyp :: (addr ++ rest) ∧
      Handshake.AddressField getByName atyp addr a ∧ n = addr.length + 1
  := by
  obtain ⟨next, hread, hnext⟩ := read_spec input
  rw [fieldOfStream, hread]
  cases hflat : input.flatten with
  | nil =>
      rw [headValue]
      dsimp only
      rw [Handshake.readAddress_of_missing]
      constructor
      · intro h
        cases h
      · rintro ⟨atyp, addr, rest, h, -⟩
        cases h
  | cons atyp bytes =>
      rw [hflat, List.tail_cons] at hnext
      rw [headValue]
      dsimp only
      have hlength : ∀ addr rest : Bytes, bytes = addr ++ rest →
          (atyp :: bytes).length - rest.length = addr.length + 1 := by
        rintro addr rest rfl
        rw [List.length_cons, List.length_append]
        omega
      constructor
      · intro h
        by_contra hnot
        rw [Handshake.readAddress_of_not] at h
        · cases h
        · intro addr dest rest haddr hfield
          obtain ⟨after, hafter, hrest⟩ := Handshake.readAddress_of_addressField hfield haddr
          rw [hafter] at h
          dsimp only at h
          rw [hrest, hlength addr rest (hnext ▸ haddr)] at h
          obtain ⟨rfl, rfl⟩ := Prod.mk.inj (Option.some.inj h)
          apply hnot
          exact ⟨atyp, addr, rest, by rw [← hnext, haddr], hfield, rfl⟩
      · rintro ⟨atyp', addr, rest, hbytes, hfield, rfl⟩
        rw [List.cons.injEq] at hbytes
        obtain ⟨rfl, hbytes⟩ := hbytes
        obtain ⟨after, hafter, hrest⟩ :=
          Handshake.readAddress_of_addressField hfield (hnext.trans hbytes)
        rw [hafter]
        dsimp only
        rw [hrest, hlength addr rest hbytes]

/-- An empty host name is accepted in a datagram, if the empty string resolves. -/
theorem not_decodedAlike_of_isPrefix {loopback : InetAddress} (h : getByName "" = some loopback)
    {field : Bytes} (hfield : [3, 0] <+: field) :
  ¬ DecodedAlike getByName field
  := by
  obtain ⟨rest, rfl⟩ := hfield
  intro halike
  have hempty : AddressBytes getByName 3 [0] loopback := by
    apply AddressBytes.name rfl
    apply h
  have hdatagram : fieldOfDatagram getByName ([3, 0] ++ rest) [] = some (loopback, 2) :=
    fieldOfDatagram_eq_some.mpr ⟨3, [0], rest, rfl, hempty, rfl⟩
  rw [halike [] [[3, 0] ++ rest] (by simp)] at hdatagram
  obtain ⟨atyp, addr, rest', hbytes, ⟨haddr, hne⟩, hlen⟩ := fieldOfStream_eq_some.mp hdatagram
  obtain ⟨b, rfl⟩ := List.length_eq_one_iff.mp (show addr.length = 1 by omega)
  rw [List.flatten_singleton, List.cons_append, List.singleton_append, List.singleton_append,
    List.cons.injEq, List.cons.injEq] at hbytes
  apply hne
  rw [← hbytes.2.1]

/-- Where the empty string resolves, both decoders make the same of a byte string exactly if it does not
start with a host name of length zero. -/
theorem decodedAlike_iff (getByName : String → Option InetAddress) (loopback : InetAddress)
    (h : getByName "" = some loopback) (field : Bytes) :
  DecodedAlike getByName field ↔ ¬ [3, 0] <+: field
  := by
  constructor
  · intro halike hfield
    apply not_decodedAlike_of_isPrefix h hfield halike
  · intro hfield stale input hinput
    apply Option.ext
    rintro ⟨a, n⟩
    rw [fieldOfDatagram_eq_some, fieldOfStream_eq_some, hinput]
    constructor
    · rintro ⟨atyp, addr, rest, rfl, haddr, hn⟩
      refine ⟨atyp, addr, rest, rfl, ⟨haddr, ?_⟩, hn⟩
      rintro rfl
      apply hfield
      cases haddr with
      | ipv4 hlen ha => cases hlen
      | ipv6 hlen ha => cases hlen
      | name hlen ha => exact ⟨rest, rfl⟩
    · rintro ⟨atyp, addr, rest, hbytes, ⟨haddr, -⟩, hn⟩
      exact ⟨atyp, addr, rest, hbytes, haddr, hn⟩

/-- A platform that resolves the empty string only. -/
def loopbackOnly (host : String) : Option InetAddress :=
  if host = "" then some ⟨[127, 0, 0, 1], InetAddress.size_loopback⟩ else none

/-- An IPv4 address is decoded alike. -/
theorem decodedAlike_ipv4 :
  DecodedAlike loopbackOnly [1, 8, 8, 8, 8]
  := (decodedAlike_iff loopbackOnly ⟨[127, 0, 0, 1], Or.inl rfl⟩ rfl [1, 8, 8, 8, 8]).mpr (by decide)

/-- An empty host name is not decoded alike. -/
theorem not_decodedAlike_emptyName :
  ¬ ∀ (getByName : String → Option InetAddress) (loopback : InetAddress),
    getByName "" = some loopback → ∀ field, DecodedAlike getByName field
  := by
  intro h
  have hnot : ¬ DecodedAlike loopbackOnly [3, 0] :=
    not_decodedAlike_of_isPrefix rfl (List.prefix_refl [3, 0])
  apply hnot
  apply h loopbackOnly _ rfl

end Socks.AddressField
