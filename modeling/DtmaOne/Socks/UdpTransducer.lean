import DtmaOne.Socks.UdpSurvival
import Mathlib.Data.List.Forall2

/-!
# The UDP relay as a transducer

What the relay sends for each datagram, said without offsets: a datagram of the client is a
request if it consists of three zero bytes, the type of an address, the address, a port and a
payload.  The decoder accepts exactly the requests, whatever stands in its buffer behind the
received bytes, and reads the header of an encapsulated datagram back.  A run in which nothing
fails sends for each datagram what it should, one after the other.
-/

namespace Socks.UdpRelay

/-! ### Requests -/

/-- The bytes are a request: its header, an address field, a port and a payload. -/
def Encodes (getByName : String → Option InetAddress) (b : Bytes) (r : Request) : Prop :=
  ∃ atyp addr hi lo, AddressBytes getByName atyp addr r.destAddr ∧
    b = [0, 0, 0, atyp] ++ addr ++ [hi, lo] ++ r.payload ∧ r.dport = portOf hi lo

/-- What stands between two offsets is copied. -/
theorem copyOfRange_middle (before middle after : Bytes) :
  copyOfRange (before ++ middle ++ after) before.length (before.length + middle.length)
    = .ok middle
  := by
  rw [copyOfRange, if_pos, List.append_assoc, List.drop_left, Nat.add_sub_cancel_left,
    List.take_left]
  rw [List.length_append, List.length_append]
  omega

theorem byteAt_middle (before : Bytes) (x : UInt8) (after : Bytes) :
  byteAt (before ++ x :: after) before.length = .ok x
  := by
  rw [byteAt, List.getElem?_append_right (Nat.le_refl _), Nat.sub_self]
  rfl

/-- An address field is decoded, wherever it stands. -/
theorem decodeAddress_of_addressBytes {getByName : String → Option InetAddress} {atyp : UInt8}
    {addr : Bytes} {a : InetAddress} (h : AddressBytes getByName atyp addr a)
    (before after : Bytes) {lim : ℕ} (hlim : before.length + addr.length ≤ lim) :
  decodeAddress getByName (before ++ addr ++ after) lim atyp before.length
    = .ok (a, before.length + addr.length)
  := by
  have hcopy := copyOfRange_middle before addr after
  cases h with
  | ipv4 hlen ha =>
      rw [hlen] at hcopy hlim
      rw [decodeAddress, if_pos rfl, skipIf, if_neg (by omega), hcopy, hlen]
      simp only [bind, Except.bind, ha, orRaise]
      rfl
  | ipv6 hlen ha =>
      rw [hlen] at hcopy hlim
      rw [decodeAddress, if_neg (by decide), if_pos rfl, skipIf, if_neg (by omega), hcopy, hlen]
      simp only [bind, Except.bind, ha, orRaise]
      rfl
  | @name len raw a hlen ha =>
      rw [List.length_cons] at hlim
      have hbyte : byteAt (before ++ len :: raw ++ after) before.length = .ok len := by
        rw [List.append_assoc, List.cons_append]
        apply byteAt_middle
      have hname : copyOfRange (before ++ len :: raw ++ after) (before.length + 1)
          (before.length + 1 + len.toNat) = .ok raw := by
        have hmiddle := copyOfRange_middle (before ++ [len]) raw after
        rw [List.length_append, List.length_singleton, hlen] at hmiddle
        rw [← hmiddle]
        simp
      rw [decodeAddress, if_neg (by decide), if_neg (by decide), if_pos rfl, skipIf,
        if_neg (by omega), hbyte]
      simp only [bind, Except.bind]
      rw [skipIf, if_neg (by omega), hname]
      simp only [ha, orRaise, List.length_cons, hlen]
      rw [Nat.add_assoc, Nat.add_comm 1]
      rfl

/-- A port and a payload are decoded, wherever they stand. -/
theorem decodePayload_of_append (before : Bytes) (hi lo : UInt8) (payload stale : Bytes)
    (destAddr : InetAddress) :
  decodePayload (before ++ [hi, lo] ++ payload ++ stale)
    (before ++ [hi, lo] ++ payload).length destAddr before.length
    = .ok ⟨destAddr, portOf hi lo, payload⟩
  := by
  have hhi : byteAt (before ++ [hi, lo] ++ payload ++ stale) before.length = .ok hi := by
    rw [List.append_assoc, List.append_assoc]
    apply byteAt_middle
  have hlo : byteAt (before ++ [hi, lo] ++ payload ++ stale) (before.length + 1) = .ok lo := by
    have hmiddle := byteAt_middle (before ++ [hi]) lo (payload ++ stale)
    rw [List.length_append, List.length_singleton] at hmiddle
    rw [← hmiddle]
    simp
  have hpayload := copyOfRange_middle (before ++ [hi, lo]) payload stale
  have hlen : (before ++ [hi, lo] ++ payload).length = (before ++ [hi, lo]).length + payload.length :=
    List.length_append
  rw [decodePayload, hhi, hlo, hlen, skipIf, if_neg (by simp)]
  have hoffset : before.length + 2 = (before ++ [hi, lo]).length := by
    simp
  rw [hoffset, hpayload, ← shiftLeft_or_eq_portOf]
  rfl

/-- A request is decoded. -/
theorem decodeRequest_of_encodes {getByName : String → Option InetAddress} {b : Bytes}
    {r : Request} (h : Encodes getByName b r) (stale : Bytes) :
  decodeRequest getByName (b ++ stale) 0 b.length = .ok r
  := by
  obtain ⟨destAddr, dport, payload⟩ := r
  obtain ⟨atyp, addr, hi, lo, haddr, rfl, rfl⟩ := h
  change decodeRequest getByName ((0 :: 0 :: 0 :: atyp :: (addr ++ [hi, lo] ++ payload)) ++ stale) 0
    ((addr ++ [hi, lo] ++ payload).length + 4) = _
  rw [decodeRequest_cons, if_pos ⟨rfl, rfl, rfl⟩]
  have hdata : (0 :: 0 :: 0 :: atyp :: (addr ++ [hi, lo] ++ payload)) ++ stale
      = [0, 0, 0, atyp] ++ addr ++ ([hi, lo] ++ payload ++ stale) := by
    simp
  have haddress : decodeAddress getByName
      ((0 :: 0 :: 0 :: atyp :: (addr ++ [hi, lo] ++ payload)) ++ stale)
      ((addr ++ [hi, lo] ++ payload).length + 4) atyp 4 = .ok (destAddr, 4 + addr.length) := by
    rw [hdata]
    apply decodeAddress_of_addressBytes haddr
    simp only [List.length_append, List.length_cons, List.length_nil]
    omega
  rw [haddress]
  have hpayload := decodePayload_of_append ([0, 0, 0, atyp] ++ addr) hi lo payload stale destAddr
  rw [List.length_append, List.length_append, List.length_append] at hpayload
  have hlen : (addr ++ [hi, lo] ++ payload).length + 4
      = [0, 0, 0, atyp].length + addr.length + [hi, lo].length + payload.length := by
    simp only [List.length_append, List.length_cons, List.length_nil]
    omega
  rw [hlen]
  apply hpayload

/-- What is decoded as an address of a fixed size are the bytes of an address. -/
theorem bytes_of_decodeFixed {b : Bytes} {p q size : ℕ} {a : InetAddress}
    (h : (if b.length < p + size then .error .skip
      else (InetAddress.getByAddress ((b.drop p).take size)).elim (.error .raised)
        fun a => .ok (a, p + size) : Except Exit (InetAddress × ℕ)) = .ok (a, q)) :
  ((b.drop p).take size).length = size ∧
    InetAddress.getByAddress ((b.drop p).take size) = some a ∧ q = p + size ∧ q ≤ b.length
  := by
  split_ifs at h with hp
  cases hget : InetAddress.getByAddress ((b.drop p).take size) with
  | none =>
      rw [hget] at h
      cases h
  | some a' =>
      rw [hget] at h
      cases h
      exact ⟨length_take_drop hp, rfl, rfl, by omega⟩

/-- What is decoded as a name is a length and a name that resolves. -/
theorem bytes_of_decodeName {getByName : String → Option InetAddress} {b stale : Bytes} {p q : ℕ}
    {a : InetAddress} (h : decodeAddress getByName (b ++ stale) b.length 0x03 p = .ok (a, q)) :
  ∃ (dlen : UInt8) (raw : Bytes), raw.length = dlen.toNat ∧ getByName (asciiString raw) = some a ∧
    q = p + 1 + dlen.toNat ∧ q ≤ b.length ∧ (b.drop p).take (1 + dlen.toNat) = dlen :: raw
  := by
  rw [decodeAddress_name] at h
  cases hget : b[p]? with
  | none =>
      rw [hget] at h
      cases h
  | some dlen =>
      rw [hget, Option.elim_some] at h
      split_ifs at h with hq
      cases hres : getByName (asciiString ((b.drop (p + 1)).take dlen.toNat)) with
      | none =>
          rw [hres] at h
          cases h
      | some a' =>
          rw [hres] at h
          cases h
          refine ⟨dlen, _, length_take_drop hq, hres, rfl, by omega, ?_⟩
          obtain ⟨hp, rfl⟩ := List.getElem?_eq_some_iff.mp hget
          rw [List.drop_eq_getElem_cons hp, Nat.add_comm 1, List.take_succ_cons]

/-- What is decoded as an address is an address field, within the received bytes. -/
theorem addressBytes_of_decodeAddress {getByName : String → Option InetAddress} {b stale : Bytes}
    {atyp : UInt8} {p q : ℕ} {a : InetAddress}
    (h : decodeAddress getByName (b ++ stale) b.length atyp p = .ok (a, q)) :
  ∃ addr, AddressBytes getByName atyp addr a ∧ q = p + addr.length ∧ q ≤ b.length ∧
    (b.drop p).take addr.length = addr
  := by
  by_cases h3 : atyp = 0x03
  · subst h3
    obtain ⟨dlen, raw, hlen, hres, hq, hle, htake⟩ := bytes_of_decodeName h
    have hsize : (dlen :: raw).length = 1 + dlen.toNat := by
      rw [List.length_cons, hlen, Nat.add_comm]
    refine ⟨dlen :: raw, AddressBytes.name hlen hres, ?_, hle, ?_⟩
    · rw [hsize, hq, Nat.add_assoc]
    · rw [hsize]
      apply htake
  · rw [decodeAddress] at h
    split_ifs at h with h1 h4
    · subst h1
      rw [decodeFixed_eq] at h
      obtain ⟨hlen, hget, hq, hle⟩ := bytes_of_decodeFixed h
      refine ⟨_, AddressBytes.ipv4 hlen hget, ?_, hle, ?_⟩
      · rw [hlen, hq]
      · rw [hlen]
    · subst h4
      rw [decodeFixed_eq] at h
      obtain ⟨hlen, hget, hq, hle⟩ := bytes_of_decodeFixed h
      refine ⟨_, AddressBytes.ipv6 hlen hget, ?_, hle, ?_⟩
      · rw [hlen, hq]
      · rw [hlen]

/-- What is decoded after an address is a port and the rest of the received bytes. -/
theorem drop_of_decodePayload {b stale : Bytes} {destAddr : InetAddress} {p : ℕ} {r : Request}
    (h : decodePayload (b ++ stale) b.length destAddr p = .ok r) :
  ∃ hi lo, b.drop p = hi :: lo :: r.payload ∧ r.destAddr = destAddr ∧ r.dport = portOf hi lo
  := by
  rw [decodePayload] at h
  by_cases hp : p + 2 > b.length
  · rw [skipIf, if_pos hp] at h
    cases h
  · rw [skipIf, if_neg hp, byteAt_append (by omega), byteAt_append (by omega),
      copyOfRange_append (by omega) (by omega)] at h
    cases h
    have hdrop : b.drop p = b[p] :: b.drop (p + 1) := List.drop_eq_getElem_cons (by omega)
    have hdrop' : b.drop (p + 1) = b[p + 1] :: b.drop (p + 1 + 1) :=
      List.drop_eq_getElem_cons (by omega)
    refine ⟨b[p], b[p + 1], ?_, rfl, shiftLeft_or_eq_portOf _ _⟩
    rw [hdrop, hdrop', List.take_of_length_le]
    apply Nat.le_of_eq List.length_drop

/-- What is decoded is a request. -/
theorem encodes_of_decodeRequest {getByName : String → Option InetAddress} {b stale : Bytes}
    {r : Request} (h : decodeRequest getByName (b ++ stale) 0 b.length = .ok r) :
  Encodes getByName b r
  := by
  rcases b with _ | ⟨b0, _ | ⟨b1, _ | ⟨b2, _ | ⟨b3, rest⟩⟩⟩⟩
  · cases h
  · cases h
  · cases h
  · cases h
  · have hlen : (b0 :: b1 :: b2 :: b3 :: rest).length = rest.length + 4 := rfl
    rw [hlen, decodeRequest_cons] at h
    split_ifs at h with hzero
    obtain ⟨rfl, rfl, rfl⟩ := hzero
    rw [← hlen] at h
    cases haddr : decodeAddress getByName ((0 :: 0 :: 0 :: b3 :: rest) ++ stale)
        (0 :: 0 :: 0 :: b3 :: rest).length b3 4 with
    | error e =>
        rw [haddr] at h
        cases h
    | ok ap =>
        obtain ⟨a, q⟩ := ap
        rw [haddr] at h
        obtain ⟨addr, hfield, rfl, hq, htake⟩ := addressBytes_of_decodeAddress haddr
        obtain ⟨hi, lo, hdrop, rfl, hport⟩ := drop_of_decodePayload h
        refine ⟨b3, addr, hi, lo, hfield, ?_, hport⟩
        have hrest : rest = addr ++ rest.drop addr.length := by
          have hparts := List.take_append_drop addr.length rest
          change rest.take addr.length = addr at htake
          rw [htake] at hparts
          apply hparts.symm
        have htail : rest.drop addr.length = hi :: lo :: r.payload := by
          rw [← hdrop, Nat.add_comm]
          rfl
        rw [htail] at hrest
        rw [hrest]
        simp

/-- The decoder accepts exactly the requests, whatever follows the received bytes. -/
theorem decodeRequest_eq_ok_iff {getByName : String → Option InetAddress} {b stale : Bytes}
    {r : Request} :
  decodeRequest getByName (b ++ stale) 0 b.length = .ok r ↔ Encodes getByName b r
  := ⟨encodes_of_decodeRequest, fun h => decodeRequest_of_encodes h stale⟩

/-- Two outcomes are equal, if they accept the same and raise at the same time. -/
theorem outcome_ext {α : Type} {x y : Except Exit α} (hok : ∀ r, x = .ok r ↔ y = .ok r)
    (hraised : x = .error .raised ↔ y = .error .raised) :
  x = y
  := by
  rcases x with (_ | _) | r
  · rcases y with (_ | _) | r
    · rfl
    · cases hraised.mpr rfl
    · cases (hok r).mpr rfl
  · exact (hraised.mp rfl).symm
  · exact ((hok r).mp rfl).symm

/-- The bytes behind the received ones have no influence. -/
theorem decodeRequest_stale (getByName : String → Option InetAddress) (b stale : Bytes) :
  decodeRequest getByName (b ++ stale) 0 b.length = decodeRequest getByName b 0 b.length
  := by
  have hself : decodeRequest getByName b 0 b.length
      = decodeRequest getByName (b ++ []) 0 b.length := by
    rw [List.append_nil]
  rw [hself]
  apply outcome_ext
  · intro r
    rw [decodeRequest_eq_ok_iff, decodeRequest_eq_ok_iff]
  · rw [decodeRequest_raised_iff, decodeRequest_raised_iff]

/-- The header of an encapsulated datagram is read back. -/
theorem decodeRequest_buildUdpHeader (getByName : String → Option InetAddress) {a : InetAddress}
    (ha : a.address.length = 16 → isIpv4Mapped a.address = false) {port : ℕ}
    (hport : port ≤ 65535) (payload : Bytes) :
  decodeRequest getByName (buildUdpHeader a port ++ payload) 0
    (buildUdpHeader a port ++ payload).length = .ok ⟨a, port, payload⟩
  := by
  obtain ⟨hi, lo, hbytes, hvalue⟩ := exists_portBytes hport
  have hraw := InetAddress.getByAddress_address ha
  rw [← decodeRequest_stale _ _ [], decodeRequest_eq_ok_iff, buildUdpHeader, hbytes]
  split_ifs with h4
  · exact ⟨1, a.address, hi, lo, AddressBytes.ipv4 h4 hraw, rfl, hvalue.symm⟩
  · exact ⟨4, a.address, hi, lo, AddressBytes.ipv6 (a.size.resolve_left h4) hraw, rfl,
      hvalue.symm⟩

/-! ### The packets -/

/-- What is sent for an event by the relay of the client `c`, if nothing fails. -/
inductive Emits (dohDns : Bool) (c : InetSocketAddress) : Event → List Sent → Prop where
  | answered {d : Datagram} {env : Env} {r : Request} {answer : Bytes} (hsender : d.sender = c)
      (hrequest : Encodes env.getByName d.bytes r) (hdoh : dohDns = true) (hport : r.dport = 53)
      (hlen : 12 ≤ r.payload.length) (hanswer : env.resolveWire r.payload = .ok (some answer)) :
      Emits dohDns c (.received d env) [.toClient c (buildUdpHeader r.destAddr 53 ++ answer)]
  | forwarded {d : Datagram} {env : Env} {r : Request} (hsender : d.sender = c)
      (hrequest : Encodes env.getByName d.bytes r)
      (hother : ¬ (dohDns = true ∧ r.dport = 53 ∧ 12 ≤ r.payload.length ∧
        ∃ answer, env.resolveWire r.payload = .ok (some answer))) :
      Emits dohDns c (.received d env) [.toRemote ⟨r.destAddr, r.dport⟩ r.payload]
  | ignored {d : Datagram} {env : Env} (hsender : d.sender = c)
      (hno : ∀ r, ¬ Encodes env.getByName d.bytes r) :
      Emits dohDns c (.received d env) []
  | wrapped {d : Datagram} {env : Env} (hsender : d.sender ≠ c) :
      Emits dohDns c (.received d env)
        [.toClient c (buildUdpHeader d.sender.address d.sender.port ++ d.bytes)]
  | timedOut : Emits dohDns c .timedOut []

/-- The packet for a request is the right one. -/
theorem emits_requestPacket {dohDns : Bool} {c : InetSocketAddress} {d : Datagram} {env : Env}
    {r : Request} (hsender : d.sender = c) (hrequest : Encodes env.getByName d.bytes r) :
  Emits dohDns c (.received d env) [requestPacket dohDns env c r]
  := by
  by_cases hdoh : dohDns = true ∧ r.dport = 53 ∧ 12 ≤ r.payload.length ∧
      ∃ answer, env.resolveWire r.payload = .ok (some answer)
  · obtain ⟨hon, hport, hlen, answer, hanswer⟩ := hdoh
    have hpacket : requestPacket dohDns env c r
        = .toClient c (buildUdpHeader r.destAddr 53 ++ answer) := by
      rw [requestPacket, dohAnswer, if_pos ⟨hon, hport, hlen⟩, hanswer, hport]
    rw [hpacket]
    apply Emits.answered hsender hrequest hon hport hlen hanswer
  · have hpacket : requestPacket dohDns env c r = .toRemote ⟨r.destAddr, r.dport⟩ r.payload := by
      have hnone : dohAnswer dohDns env r = none := by
        rw [dohAnswer]
        split_ifs with hquery
        · rcases hanswer : env.resolveWire r.payload with _ | _ | answer
          · rfl
          · rfl
          · exact absurd ⟨hquery.1, hquery.2.1, hquery.2.2, answer, hanswer⟩ hdoh
        · rfl
      rw [requestPacket, hnone]
    rw [hpacket]
    apply Emits.forwarded hsender hrequest hdoh

/-- The relay sends for an event what it should, unless something fails. -/
theorem emits_output {dohDns : Bool} {c : InetSocketAddress} {e : Event} (hopen : e.isOpen)
    (he : ¬ Raises c e) :
  Emits dohDns c e (output dohDns c e)
  := by
  cases e with
  | received d env =>
      by_cases hsender : d.sender = c
      · rw [Raises, if_pos hsender, not_or] at he
        rw [output, handle, if_pos ((takenAsClient_some c d).mpr hsender), fromClient]
        cases hdecode : decodeRequest env.getByName d.data 0 d.bytes.length with
        | ok r =>
            have haccepted : env.sendAccepted = true := by
              by_contra hrefused
              apply he.2 ⟨⟨r, hdecode⟩, Bool.eq_false_iff.mpr hrefused⟩
            have hsend : (Except.ok r >>= fun r => send env (requestPacket dohDns env c r))
                = .ok (requestPacket dohDns env c r) := by
              simp only [bind, Except.bind, send, if_pos haccepted]
            simp only [recordClient, Option.getD_some, hsend]
            apply emits_requestPacket hsender (encodes_of_decodeRequest hdecode)
        | error x =>
            apply Emits.ignored hsender
            intro r hrequest
            have hok := decodeRequest_of_encodes hrequest d.stale
            rw [← Datagram.data, hdecode] at hok
            cases hok
      · rw [Raises, if_neg hsender, Bool.not_eq_false] at he
        rw [output, handle, if_neg (mt (takenAsClient_some c d).mp hsender), fromRemote,
          copyOfRange_data]
        simp only [bind, Except.bind, send, if_pos he, recordClient, Option.getD_some]
        apply Emits.wrapped hsender
  | timedOut => apply Emits.timedOut
  | receiveFailed => exact absurd hopen id
  | closed => exact absurd hopen id

/-- The relay is an exact transducer.  After the client `c` is recorded, a run in which the
socket stays open, every name resolves and every send succeeds sends for each event exactly what
it should, in their order.  The decoder gives back what the header of an encapsulated datagram
is made of, and does not look behind the received bytes: what is there has no influence, and
without it only a name that does not resolve makes it raise. -/
theorem relay_exact (dohDns : Bool) (c : InetSocketAddress) (sent : List Sent) (es : List Event)
    (hopen : ∀ e ∈ es, e.isOpen) (hes : ∀ e ∈ es, ¬ Raises c e) :
  (∃ outs, List.Forall₂ (Emits dohDns c) es outs ∧
    (relay dohDns ⟨some c, true, sent⟩ es).sent = sent ++ outs.flatten) ∧
  (∀ (getByName : String → Option InetAddress) (a : InetAddress) (port : ℕ) (payload : Bytes),
    (a.address.length = 16 → isIpv4Mapped a.address = false) → port ≤ 65535 →
      decodeRequest getByName (buildUdpHeader a port ++ payload) 0
        (buildUdpHeader a port ++ payload).length = .ok ⟨a, port, payload⟩) ∧
  ∀ (getByName : String → Option InetAddress) (b stale : Bytes),
    decodeRequest getByName (b ++ stale) 0 b.length = decodeRequest getByName b 0 b.length ∧
      (decodeRequest getByName b 0 b.length = .error .raised →
        ∃ host, hostName b = some host ∧ getByName host = none)
  := by
  refine ⟨⟨es.map (output dohDns c), ?_, ?_⟩, ?_, ?_⟩
  · rw [List.forall₂_map_right_iff, List.forall₂_same]
    intro e he
    apply emits_output (hopen e he) (hes e he)
  · rw [relay_of_not_raises dohDns c sent es hopen hes, List.flatMap_def]
  · intro getByName a port payload ha hport
    apply decodeRequest_buildUdpHeader getByName ha hport
  · intro getByName b stale
    use decodeRequest_stale getByName b stale
    rw [← decodeRequest_stale getByName b [], decodeRequest_raised_iff]
    apply id

/-- A datagram from the address `1.2.3.4`, port 80, with stale bytes behind it. -/
def answerOfRemote : Datagram where
  sender := ⟨⟨[1, 2, 3, 4], Or.inl rfl⟩, 80⟩
  bytes := [7, 7]
  stale := [0, 1, 1, 2, 3, 4, 0, 80]

/-- A request and an answer to it. -/
def requestAndAnswer : List Event :=
  [.received wellFormed offline, .received answerOfRemote offline]

/-- The request is sent on, and the answer is sent to the client with a header. -/
theorem relay_exact_requestAndAnswer :
  ∃ outs, List.Forall₂ (Emits true wellFormed.sender) requestAndAnswer outs ∧
    outs.flatten = [.toRemote answerOfRemote.sender [],
      .toClient wellFormed.sender [0, 0, 0, 1, 1, 2, 3, 4, 0, 80, 7, 7]]
  := by
  have hopen : ∀ e ∈ requestAndAnswer, e.isOpen := by
    intro e he
    simp only [requestAndAnswer, List.mem_cons, List.not_mem_nil, or_false] at he
    obtain rfl | rfl := he <;> trivial
  have hes : ∀ e ∈ requestAndAnswer, ¬ Raises wellFormed.sender e := by
    intro e he
    simp only [requestAndAnswer, List.mem_cons, List.not_mem_nil, or_false] at he
    obtain rfl | rfl := he
    · rw [← handle_raised_iff true]
      decide
    · rw [← handle_raised_iff true]
      decide
  obtain ⟨⟨outs, houts, hsent⟩, -⟩ :=
    relay_exact true wellFormed.sender [] requestAndAnswer hopen hes
  use outs, houts
  rw [List.nil_append] at hsent
  rw [← hsent]
  decide

end Socks.UdpRelay
