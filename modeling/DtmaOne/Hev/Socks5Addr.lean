import Mathlib.Data.Vector.Basic
import DtmaOne.Socks.Address

/-!
# Addresses of the SOCKS5 protocol

`HevSocks5Addr` with its three layouts, and its conversions from and into a `struct sockaddr_in6`
(`hev-socks5-misc.c`).  A port stands in network order everywhere, as two bytes.  The bytes of an
address are read back from its type and what follows it.
-/

namespace Hev

/-- `HevSocks5Addr`: the union of its layouts by `atype`. -/
inductive Socks5Addr where
  | ipv4 (addr : List.Vector UInt8 4) (port : List.Vector UInt8 2)
  | ipv6 (addr : List.Vector UInt8 16) (port : List.Vector UInt8 2)
  | name (addr : List UInt8) (len : addr.length < 256) (port : List.Vector UInt8 2)
  deriving DecidableEq

/-- `struct sockaddr_in6`: the address and the port. -/
structure SockaddrIn6 where
  addr : List.Vector UInt8 16
  port : List.Vector UInt8 2
  deriving DecidableEq

namespace Socks5Addr

/-- `HEV_SOCKS5_ADDR_TYPE_IPV4`, `HEV_SOCKS5_ADDR_TYPE_IPV6` and `HEV_SOCKS5_ADDR_TYPE_NAME`. -/
def atype : Socks5Addr → UInt8
  | ipv4 _ _ => 1
  | ipv6 _ _ => 4
  | name _ _ _ => 3

/-- The bytes after the type. -/
def body : Socks5Addr → List UInt8
  | ipv4 addr port => addr.toList ++ port.toList
  | ipv6 addr port => addr.toList ++ port.toList
  | name addr _ port => UInt8.ofNat addr.length :: (addr ++ port.toList)

/-- The bytes of an address, as many as `hev_socks5_addr_len` says. -/
def bytes (addr : Socks5Addr) : List UInt8 :=
  addr.atype :: addr.body

/-- The address whose type is `atype` and whose other bytes are `body`, if these are as many as the
type asks for. -/
def ofBody (atype : UInt8) (body : List UInt8) : Option Socks5Addr :=
  if atype = 1 then
    if h : body.length = 6 then
      some (ipv4 ⟨body.take 4, by simp [h]⟩ ⟨body.drop 4, by simp [h]⟩)
    else none
  else if atype = 4 then
    if h : body.length = 18 then
      some (ipv6 ⟨body.take 16, by simp [h]⟩ ⟨body.drop 16, by simp [h]⟩)
    else none
  else if atype = 3 then
    match body with
    | [] => none
    | len :: rest =>
        if h : rest.length = len.toNat + 2 then
          some (name (rest.take len.toNat) (by simp [h, len.toNat_lt])
            ⟨rest.drop len.toNat, by simp [h]⟩)
        else none
  else none

/-- `hev_socks5_addr_from_sockaddr6` -/
def fromSockaddr6 (saddr : SockaddrIn6) : Socks5Addr :=
  if Socks.isIpv4Mapped saddr.addr.toList then
    ipv4 ⟨saddr.addr.toList.drop 12, by simp⟩ saddr.port
  else ipv6 saddr.addr saddr.port

/-- `hev_socks5_addr_into_sockaddr6`: what a name resolves to is `nameInto`, which leaves something in
the memory where it fails as well; it is given the name up to a zero. -/
def intoSockaddr6 (nameInto : List UInt8 → List.Vector UInt8 2 → Except SockaddrIn6 SockaddrIn6) :
    Socks5Addr → Except SockaddrIn6 SockaddrIn6
  | ipv4 addr port =>
      .ok ⟨⟨[0, 0, 0, 0, 0, 0, 0, 0, 0, 0, 0xff, 0xff] ++ addr.toList, by simp⟩, port⟩
  | ipv6 addr port => .ok ⟨addr, port⟩
  | name addr _ port => nameInto (addr.takeWhile (· ≠ 0)) port

/-- An address is read back from its bytes. -/
@[simp]
theorem ofBody_body (addr : Socks5Addr) :
  ofBody addr.atype addr.body = some addr
  := by
  cases addr with
  | ipv4 addr port =>
      obtain ⟨addr, haddr⟩ := addr
      obtain ⟨port, hport⟩ := port
      have hlength : (addr ++ port).length = 6 := by
        rw [List.length_append, haddr, hport]
      simp only [ofBody, atype, body, List.Vector.toList_mk, dif_pos hlength, if_true,
        List.take_left' haddr, List.drop_left' haddr]
  | ipv6 addr port =>
      obtain ⟨addr, haddr⟩ := addr
      obtain ⟨port, hport⟩ := port
      have hlength : (addr ++ port).length = 18 := by
        rw [List.length_append, haddr, hport]
      have htype : ¬ (4 : UInt8) = 1 := by
        decide
      simp only [ofBody, atype, body, List.Vector.toList_mk, dif_pos hlength, if_true,
        if_neg htype, List.take_left' haddr, List.drop_left' haddr]
  | name addr len port =>
      obtain ⟨port, hport⟩ := port
      have hlen : addr.length = (UInt8.ofNat addr.length).toNat := by
        rw [UInt8.toNat_ofNat', Nat.mod_eq_of_lt len]
      have hlength : (addr ++ port).length = (UInt8.ofNat addr.length).toNat + 2 := by
        rw [List.length_append, hport, ← hlen]
      have htype : ¬ (3 : UInt8) = 1 := by
        decide
      have htype' : ¬ (3 : UInt8) = 4 := by
        decide
      simp only [ofBody, atype, body, List.Vector.toList_mk, dif_pos hlength, if_true,
        if_neg htype, if_neg htype', List.take_left' hlen, List.drop_left' hlen]

/-- A sockaddr becomes no name. -/
theorem atype_fromSockaddr6 (saddr : SockaddrIn6) : (fromSockaddr6 saddr).atype ≠ 3
  := by
  rw [fromSockaddr6]
  split_ifs <;> simp [atype]

end Socks5Addr

end Hev
