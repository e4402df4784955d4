import DtmaOne.Hev.Socks5Udp
import DtmaOne.Socks.TunnelClient
import DtmaOne.Socks.UdpTransducer

/-!
# The datagrams of the native tunnel

The native tunnel sends its messages to the UDP relay of `LocalSocks5Server` and receives the answers
from it.  The two have their own code for the header: what the tunnel writes is what the relay decodes,
and what the relay writes is what the tunnel reads.  So every message goes to the address the tunnel
has put on it, and every answer comes back with the address it is from.
-/

namespace Socks.TunnelDatagrams

open Hev Hev.Socks5UDP TunnelClient UdpRelay

/-! ### The header -/

/-- The address of a message, as the relay decodes it; unlike in a request, a name may be empty. -/
def destination (getByName : String → Option InetAddress) : Socks5Addr → Option InetAddress
  | .ipv4 addr _ => InetAddress.getByAddress addr.toList
  | .ipv6 addr _ => InetAddress.getByAddress addr.toList
  | .name addr _ _ => getByName (asciiString addr)

/-- The datagram of a message is a request for its destination. -/
theorem encodes_datagram
    {getByName : String → Option InetAddress} {addr : Socks5Addr} {dest : InetAddress}
    (hdest : destination getByName addr = some dest) (buf : Bytes) :
  Encodes getByName ([0, 0, 0] ++ addr.bytes ++ buf) ⟨dest, requestedPort addr, buf⟩
  := by
  have hport : ∀ port : List.Vector UInt8 2, port.toList = [port.get 0, port.get 1] := by
    rintro ⟨_ | ⟨hi, _ | ⟨lo, _ | ⟨b, port⟩⟩⟩, h⟩
    · cases h
    · cases h
    · rfl
    · cases h
  cases addr with
  | ipv4 addr port =>
      refine ⟨1, addr.toList, port.get 0, port.get 1, .ipv4 addr.toList_length hdest, ?_, rfl⟩
      simp [Socks5Addr.bytes, Socks5Addr.atype, Socks5Addr.body, hport port]
  | ipv6 addr port =>
      refine ⟨4, addr.toList, port.get 0, port.get 1, .ipv6 addr.toList_length hdest, ?_, rfl⟩
      simp [Socks5Addr.bytes, Socks5Addr.atype, Socks5Addr.body, hport port]
  | name addr len port =>
      have hlen : addr.length = (UInt8.ofNat addr.length).toNat :=
        (UInt8.toNat_ofNat_of_lt' len).symm
      refine ⟨3, UInt8.ofNat addr.length :: addr, port.get 0, port.get 1, .name hlen hdest, ?_, rfl⟩
      simp [Socks5Addr.bytes, Socks5Addr.atype, Socks5Addr.body, hport port]

theorem buildUdpHeader_eq (addr : InetAddress) (port : ℕ) :
  buildUdpHeader addr port = [0, 0, 0] ++ (replyAddr addr port).bytes
  := by
  unfold buildUdpHeader replyAddr
  by_cases h : addr.address.length = 4
  · simp only [h, if_true, dite_true, Socks5Addr.bytes, Socks5Addr.atype, Socks5Addr.body]
    rfl
  · simp only [h, if_false, dite_false, Socks5Addr.bytes, Socks5Addr.atype, Socks5Addr.body]
    rfl

theorem length_replyAddr_le (addr : InetAddress) (port : ℕ) :
  (replyAddr addr port).bytes.length ≤ 19
  := by
  obtain ⟨address, hsize⟩ := addr
  unfold replyAddr
  split <;> simp [Socks5Addr.bytes, Socks5Addr.body, List.Vector.toList, portBytes] <;> omega

/-- What a buffer of the tunnel holds of the data behind the header of the relay. -/
def cut (addr : InetSocketAddress) (buf : Bytes) : Bytes :=
  buf.take (udpBufSize - (3 + (replyAddr addr.address addr.port).bytes.length))

/-- The tunnel reads the header of the relay, and the address and the port in it. -/
theorem recvDatagram_buildUdpHeader (addr : InetSocketAddress) (buf : Bytes) {buffer : Bytes}
    (hbuffer : buffer.length = udpBufSize) :
  recvDatagram (buildUdpHeader addr.address addr.port ++ buf) buffer
    = some (some ⟨(replyAddr addr.address addr.port).bytes, cut addr buf⟩)
  := by
  have hlength := length_replyAddr_le addr.address addr.port
  rw [buildUdpHeader_eq, recvDatagram_bytes buf (by rw [hbuffer, udpBufSize]; omega), hbuffer, cut]

/-! ### The relay between the tunnel and the network -/

/-- What reaches the relay: a message the tunnel has sent, or a datagram of anybody else.  Each comes
with the answers of the platform, and with what its buffer held before. -/
inductive Traffic where
  | message (addr : Socks5Addr) (buf : Bytes) (env : Env) (stale : Bytes)
  | answer (sender : InetSocketAddress) (buf : Bytes) (env : Env) (stale : Bytes)

/-- What the relay receives from the endpoint `c` of the tunnel and from the network. -/
def Traffic.event (c : InetSocketAddress) : Traffic → Option UdpRelay.Event
  | .message addr buf env stale =>
      (datagram ⟨addr.bytes, buf⟩).map fun bytes => .received ⟨c, bytes, stale⟩ env
  | .answer sender buf env stale => some (.received ⟨sender, buf, stale⟩ env)

/-- A datagram that the relay has sent, where it arrives: at a socket of the network, or as a message
at the tunnel. -/
inductive Delivery where
  | toRemote (dest : InetSocketAddress) (buf : Bytes)
  | toTunnel (msg : Option (Option UDPMsg))
  deriving DecidableEq

/-- How a packet of the relay arrives; the tunnel receives it into `buffer`. -/
def deliver (buffer : Bytes) : Sent → Delivery
  | .toRemote dest bytes => .toRemote dest bytes
  | .toClient _ bytes => .toTunnel (recvDatagram bytes buffer)

/-- A message with the address it is from, cut to what a buffer of the tunnel holds. -/
def messageFrom (addr : InetSocketAddress) (buf : Bytes) : Delivery :=
  .toTunnel (some (some ⟨(replyAddr addr.address addr.port).bytes, cut addr buf⟩))

/-- What should arrive: a message at its destination, or the answer of DNS over HTTPS in its place, as
if it were from there; an answer at the tunnel, with the address of its sender. -/
def Traffic.delivery (dohDns : Bool) : Traffic → Option Delivery
  | .message addr buf env _ =>
      (destination env.getByName addr).map fun dest =>
        match dohAnswer dohDns env ⟨dest, requestedPort addr, buf⟩ with
        | some answered => messageFrom ⟨dest, requestedPort addr⟩ answered
        | none => .toRemote ⟨dest, requestedPort addr⟩ buf
  | .answer sender buf _ _ => some (messageFrom sender buf)

/-- What the tunnel has sent. -/
def Traffic.FromTunnel : Traffic → Prop
  | .message _ _ _ _ => True
  | .answer _ _ _ _ => False

/-- The name in a message resolves, an answer is not from the tunnel, and the packet for it can be
sent. -/
def Traffic.Carried (c : InetSocketAddress) : Traffic → Prop
  | .message addr _ env _ => (destination env.getByName addr).isSome ∧ env.sendAccepted = true
  | .answer sender _ env _ => sender ≠ c ∧ env.sendAccepted = true

section

variable (dohDns : Bool) {c : InetSocketAddress} {buffer : Bytes}

/-- One datagram: the relay sends one packet for it, which arrives where it should. -/
theorem iterate_carried (hbuffer : buffer.length = udpBufSize) {t : Traffic} (ht : t.Carried c)
    (sent : List Sent) :
  ∃ e packet, t.event c = some e
    ∧ iterate dohDns ⟨some c, true, sent⟩ e = ⟨some c, true, sent ++ [packet]⟩
    ∧ t.delivery dohDns = some (deliver buffer packet)
  := by
  cases t with
  | message addr buf env before =>
      obtain ⟨hdest, haccepted⟩ := ht
      obtain ⟨dest, hdest⟩ := Option.isSome_iff_exists.mp hdest
      let d : Datagram := ⟨c, [0, 0, 0] ++ addr.bytes ++ buf, before⟩
      let r : Request := ⟨dest, requestedPort addr, buf⟩
      have hdecode : decodeRequest env.getByName d.data 0 d.bytes.length = .ok r :=
        decodeRequest_of_encodes (encodes_datagram hdest buf) before
      have hhandle : handle dohDns (some c) d env = .ok (requestPacket dohDns env c r) := by
        rw [handle, if_pos ((takenAsClient_some c d).mpr rfl), fromClient, hdecode]
        simp only [bind, Except.bind, send, if_pos haccepted, recordClient, Option.getD_some]
      refine ⟨.received d env, requestPacket dohDns env c r, ?_, ?_, ?_⟩
      · rw [Traffic.event, datagram_bytes, Option.map_some]
      · simp [iterate, hhandle, recordClient]
      · rw [Traffic.delivery, hdest, Option.map_some, requestPacket]
        cases dohAnswer dohDns env r with
        | none => rfl
        | some answered =>
            dsimp only
            rw [deliver, recvDatagram_buildUdpHeader ⟨dest, requestedPort addr⟩ answered hbuffer,
              messageFrom]
  | answer sender buf env before =>
      obtain ⟨hsender, haccepted⟩ := ht
      let d : Datagram := ⟨sender, buf, before⟩
      have hhandle : handle dohDns (some c) d env
          = .ok (.toClient c (buildUdpHeader sender.address sender.port ++ buf)) := by
        rw [handle, if_neg (mt (takenAsClient_some c d).mp hsender), fromRemote, copyOfRange_data]
        simp only [bind, Except.bind, send, if_pos haccepted, recordClient, Option.getD_some]
        rfl
      refine ⟨.received d env, .toClient c (buildUdpHeader sender.address sender.port ++ buf), rfl,
        ?_, ?_⟩
      · simp [iterate, hhandle, recordClient]
      · rw [Traffic.delivery, deliver, recvDatagram_buildUdpHeader sender buf hbuffer, messageFrom]

theorem relay_carried (hbuffer : buffer.length = udpBufSize) {ts : List Traffic}
    (hts : ∀ t ∈ ts, t.Carried c) (sent : List Sent) :
  ∃ es packets, ts.mapM (Traffic.event c) = some es
    ∧ relay dohDns ⟨some c, true, sent⟩ es = ⟨some c, true, sent ++ packets⟩
    ∧ ts.mapM (Traffic.delivery dohDns) = some (packets.map (deliver buffer))
  := by
  induction ts generalizing sent with
  | nil => exact ⟨[], [], rfl, by simp [relay], rfl⟩
  | cons t ts ih =>
      rw [List.forall_mem_cons] at hts
      obtain ⟨e, packet, hevent, hiterate, hdelivery⟩ := iterate_carried dohDns hbuffer hts.1 sent
      obtain ⟨es, packets, hevents, hrelay, hdeliveries⟩ := ih hts.2 (sent ++ [packet])
      refine ⟨e :: es, packet :: packets, ?_, ?_, ?_⟩
      · rw [List.mapM_cons, hevent, hevents]
        rfl
      · rw [relay, List.foldl_cons, hiterate, ← relay, hrelay, List.append_assoc]
        rfl
      · rw [List.mapM_cons, hdelivery, hdeliveries]
        rfl

/-- A message of the tunnel that comes first makes it the client of the relay, and is handled as one
that comes later. -/
theorem iterate_first {t : Traffic} (ht : t.FromTunnel) {e : UdpRelay.Event}
    (he : t.event c = some e) (sent : List Sent) :
  iterate dohDns ⟨none, true, sent⟩ e = iterate dohDns ⟨some c, true, sent⟩ e
  := by
  cases t with
  | message addr buf env stale =>
      obtain ⟨bytes, -, rfl⟩ := Option.map_eq_some_iff.mp he
      have hsome := (takenAsClient_some c ⟨c, bytes, stale⟩).mpr rfl
      have hhandle : handle dohDns none ⟨c, bytes, stale⟩ env
          = handle dohDns (some c) ⟨c, bytes, stale⟩ env := by
        rw [handle, handle, if_pos hsome]
        rfl
      simp [iterate, hhandle, recordClient]
  | answer => exact ht.elim

/-- Along every run of the relay in which the tunnel is the first to send, names resolve and packets
can be sent, in whatever order the messages of the tunnel and the answers to it come: every message
arrives, in order and as it was, at the address that the tunnel has put on it, or is answered as if
from there; and every answer arrives at the tunnel with the address of its sender, cut to the size of
a buffer. -/
theorem datagrams_carried (hbuffer : buffer.length = udpBufSize) {ts : List Traffic}
    (hfirst : ∀ t ∈ ts.head?, t.FromTunnel) (hts : ∀ t ∈ ts, t.Carried c) :
  ∃ es, ts.mapM (Traffic.event c) = some es
    ∧ (relay dohDns {} es).alive = true
    ∧ ts.mapM (Traffic.delivery dohDns) = some ((relay dohDns {} es).sent.map (deliver buffer))
  := by
  obtain ⟨es, packets, hevents, hrelay, hdeliveries⟩ := relay_carried dohDns hbuffer hts []
  use es, hevents
  cases ts with
  | nil =>
      obtain rfl := Option.some.inj hevents
      exact ⟨rfl, rfl⟩
  | cons t ts =>
      rw [List.mapM_cons] at hevents
      obtain ⟨e, he, hrest⟩ := Option.bind_eq_some_iff.mp hevents
      obtain ⟨es', -, hes⟩ := Option.bind_eq_some_iff.mp hrest
      obtain rfl := Option.some.inj hes
      have hstart : relay dohDns {} (e :: es') = relay dohDns ⟨some c, true, []⟩ (e :: es') := by
        rw [relay, relay, List.foldl_cons, List.foldl_cons, iterate_first dohDns (hfirst t rfl) he]
      rw [hstart, hrelay, hdeliveries, List.nil_append]
      exact ⟨rfl, rfl⟩

end

/-- The endpoint of the tunnel. -/
def tunnel : InetSocketAddress := ⟨loopback, 40000⟩

/-- A platform that sends every packet; it has no names. -/
def online : Env where
  getByName := fun _ => none
  resolveWire := fun _ => .error ()
  sendAccepted := true

/-- A message to `9.9.9.9`, port 8080, and its answer. -/
def messageAndAnswer : List Traffic :=
  [.message (.ipv4 ⟨[9, 9, 9, 9], rfl⟩ ⟨[0x1f, 0x90], rfl⟩) [7, 8] online [],
    .answer ⟨⟨[9, 9, 9, 9], Or.inl rfl⟩, 8080⟩ [9] online [0, 1]]

theorem datagrams_carried_small :
  messageAndAnswer.mapM (Traffic.delivery true)
      = some [.toRemote ⟨⟨[9, 9, 9, 9], Or.inl rfl⟩, 8080⟩ [7, 8],
        .toTunnel (some (some ⟨[1, 9, 9, 9, 9, 0x1f, 0x90], [9]⟩))]
    ∧ ∃ es, messageAndAnswer.mapM (Traffic.event tunnel) = some es
      ∧ (relay true {} es).alive = true
      ∧ messageAndAnswer.mapM (Traffic.delivery true)
        = some ((relay true {} es).sent.map (deliver (List.replicate udpBufSize 0)))
  := by
  have hfirst : ∀ t ∈ messageAndAnswer.head?, t.FromTunnel := by
    intro t ht
    obtain rfl := Option.some.inj ht
    trivial
  have hts : ∀ t ∈ messageAndAnswer, t.Carried tunnel := by
    intro t ht
    simp only [messageAndAnswer, List.mem_cons, List.not_mem_nil, or_false] at ht
    obtain rfl | rfl := ht
    · exact ⟨rfl, rfl⟩
    · refine ⟨?_, rfl⟩
      decide
  exact ⟨by decide, datagrams_carried true List.length_replicate hfirst hts⟩

end Socks.TunnelDatagrams
