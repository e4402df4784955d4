import DtmaOne.Socks.Address

/-!
# The UDP relay of an association

The relay loop of `LocalSocks5Server.doUdpAssociate`.  The loop receives datagrams from any
sender.  The first sender becomes the client endpoint; what the client sends is decoded and
sent on, or answered by DNS over HTTPS; what anybody else sends is wrapped and sent to the
client.  Each datagram comes with the answers of the platform while it is handled: the
resolution of host names, the answer of the DoH resolver, and whether the send is accepted.
-/

namespace Socks.UdpRelay

/-! ### Decoding a request -/

/-- How the handling of a datagram ends early: by a `continue`, or by an exception that
leaves the loop body. -/
inductive Exit where
  | skip
  | raised
  deriving DecidableEq, Repr

/-- `if (c) continue` -/
def skipIf (c : Prop) [Decidable c] : Except Exit Unit :=
  if c then .error .skip else .ok ()

/-- A call that throws, or gives a value. -/
def orRaise {α : Type} : Option α → Except Exit α
  | none => .error .raised
  | some a => .ok a

/-- `data[i]` -/
def byteAt (data : Bytes) (i : ℕ) : Except Exit UInt8 :=
  orRaise data[i]?

/-- `data.copyOfRange(from, to)` -/
def copyOfRange (data : Bytes) (a b : ℕ) : Except Exit Bytes :=
  if a ≤ b ∧ b ≤ data.length then .ok ((data.drop a).take (b - a)) else .error .raised

/-- A decoded request: where the payload goes. -/
structure Request where
  destAddr : InetAddress
  dport : ℕ
  payload : Bytes
  deriving DecidableEq

/-- The address of a request, of type `atyp` and starting at `p`, and the offset after it;
`lim` is the end of the received bytes. -/
def decodeAddress (getByName : String → Option InetAddress) (data : Bytes) (lim : ℕ)
    (atyp : UInt8) (p : ℕ) : Except Exit (InetAddress × ℕ) :=
  if atyp = 0x01 then do
    skipIf (p + 4 > lim)
    let a ← orRaise (InetAddress.getByAddress (← copyOfRange data p (p + 4)))
    return (a, p + 4)
  else if atyp = 0x04 then do
    skipIf (p + 16 > lim)
    let a ← orRaise (InetAddress.getByAddress (← copyOfRange data p (p + 16)))
    return (a, p + 16)
  else if atyp = 0x03 then do
    skipIf (p ≥ lim)
    let dlen := (← byteAt data p).toNat
    skipIf (p + 1 + dlen > lim)
    let host := asciiString (← copyOfRange data (p + 1) (p + 1 + dlen))
    let a ← orRaise (getByName host)
    return (a, p + 1 + dlen)
  else .error .skip

/-- The port and the payload of a request, from the offset `p` after its address on. -/
def decodePayload (data : Bytes) (lim : ℕ) (destAddr : InetAddress) (p : ℕ) :
    Except Exit Request := do
  skipIf (p + 2 > lim)
  let hi ← byteAt data p
  let lo ← byteAt data (p + 1)
  let payload ← copyOfRange data (p + 2) lim
  return ⟨destAddr, (hi.toNat <<< 8) ||| lo.toNat, payload⟩

/-- The request in the `len` bytes of `data` from `off` on. -/
def decodeRequest (getByName : String → Option InetAddress) (data : Bytes) (off len : ℕ) :
    Except Exit Request := do
  skipIf (len < 4)
  let b0 ← byteAt data off
  let b1 ← byteAt data (off + 1)
  skipIf (b0 ≠ 0 ∨ b1 ≠ 0)
  let b2 ← byteAt data (off + 2)
  skipIf (b2 ≠ 0)
  let atyp ← byteAt data (off + 3)
  let (destAddr, p) ← decodeAddress getByName data (off + len) atyp (off + 4)
  decodePayload data (off + len) destAddr p

/-! ### The loop -/

/-- A received datagram.  The receive buffer holds the received bytes and, after them, what
earlier datagrams left there. -/
structure Datagram where
  sender : InetSocketAddress
  bytes : Bytes
  stale : Bytes := []
  deriving DecidableEq

/-- `pkt.data` -/
def Datagram.data (d : Datagram) : Bytes := d.bytes ++ d.stale

/-- The answers of the platform while one datagram is handled. -/
structure Env where
  /-- `InetAddress.getByName`, which throws for names that do not resolve. -/
  getByName : String → Option InetAddress
  /-- `DohResolver.resolveWire`: an exception, or an answer or null. -/
  resolveWire : Bytes → Except Unit (Option Bytes)
  /-- Whether `relaySock.send` returns; at most one packet is sent for a datagram. -/
  sendAccepted : Bool

/-- A packet the relay sends: an encapsulated one to the client, or a payload to its
destination. -/
inductive Sent where
  | toClient (c : InetSocketAddress) (bytes : Bytes)
  | toRemote (dest : InetSocketAddress) (bytes : Bytes)
  deriving DecidableEq

/-- The answer of DNS over HTTPS to a request, if it is on and the request is a query; an
exception counts as no answer. -/
def dohAnswer (dohDns : Bool) (env : Env) (r : Request) : Option Bytes :=
  if dohDns ∧ r.dport = 53 ∧ r.payload.length ≥ 12 then
    match env.resolveWire r.payload with
    | .ok answered => answered
    | .error () => none
  else none

/-- `relaySock.send` -/
def send (env : Env) (packet : Sent) : Except Exit Sent :=
  if env.sendAccepted then .ok packet else .error .raised

/-- The packet for a decoded request of the client `c`. -/
def requestPacket (dohDns : Bool) (env : Env) (c : InetSocketAddress) (r : Request) : Sent :=
  match dohAnswer dohDns env r with
  | some answered => .toClient c (buildUdpHeader r.destAddr r.dport ++ answered)
  | none => .toRemote ⟨r.destAddr, r.dport⟩ r.payload

/-- Handle a datagram of the client. -/
def fromClient (dohDns : Bool) (env : Env) (c : InetSocketAddress) (d : Datagram) :
    Except Exit Sent := do
  let r ← decodeRequest env.getByName d.data 0 d.bytes.length
  send env (requestPacket dohDns env c r)

/-- Handle a datagram of anybody else. -/
def fromRemote (env : Env) (c : InetSocketAddress) (d : Datagram) : Except Exit Sent := do
  let bytes ← copyOfRange d.data 0 d.bytes.length
  send env (.toClient c (buildUdpHeader d.sender.address d.sender.port ++ bytes))

/-- What `receive` can bring: a datagram, a timeout, an exception; or the association is
closed meanwhile. -/
inductive Event where
  | received (d : Datagram) (env : Env)
  | timedOut
  | receiveFailed
  | closed

/-- The state of the loop: the client endpoint, whether the loop still runs, and the packets
sent so far. -/
structure Assoc where
  clientEp : Option InetSocketAddress := none
  alive : Bool := true
  sent : List Sent := []
  deriving DecidableEq

/-- Whether a datagram is taken as one of the client: there is no client endpoint yet, or it
is the sender. -/
def takenAsClient (clientEp : Option InetSocketAddress) (d : Datagram) : Bool :=
  match clientEp with
  | none => true
  | some ep => d.sender.address = ep.address && d.sender.port = ep.port

/-- The client endpoint after a datagram: the first sender is recorded, before its header is
checked. -/
def recordClient (clientEp : Option InetSocketAddress) (d : Datagram) : InetSocketAddress :=
  clientEp.getD d.sender

/-- The outcome of a datagram, with the client endpoint before it. -/
def handle (dohDns : Bool) (clientEp : Option InetSocketAddress) (d : Datagram) (env : Env) :
    Except Exit Sent :=
  if takenAsClient clientEp d then fromClient dohDns env (recordClient clientEp d) d
  else fromRemote env (recordClient clientEp d) d

/-- One round of the loop. -/
def iterate (dohDns : Bool) (s : Assoc) (e : Event) : Assoc :=
  if s.alive then
    match e with
    | .received d env =>
        let c := recordClient s.clientEp d
        match handle dohDns s.clientEp d env with
        | .ok packet => { s with clientEp := some c, sent := s.sent ++ [packet] }
        | .error .skip => { s with clientEp := some c }
        | .error .raised => { s with clientEp := some c, alive := false }
    | .timedOut => s
    | .receiveFailed => { s with alive := false }
    | .closed => { s with alive := false }
  else s

/-- The relay loop over a list of events. -/
def relay (dohDns : Bool) (s : Assoc) (es : List Event) : Assoc :=
  es.foldl (iterate dohDns) s

theorem takenAsClient_some (c : InetSocketAddress) (d : Datagram) :
  takenAsClient (some c) d = true ↔ d.sender = c
  := by
  obtain ⟨⟨a, p⟩, b, st⟩ := d
  obtain ⟨a', p'⟩ := c
  simp [takenAsClient]

/-- A loop that has ended stays as it is. -/
theorem relay_of_not_alive (dohDns : Bool) (s : Assoc) (hs : s.alive = false) (es : List Event) :
  relay dohDns s es = s
  := by
  induction es with
  | nil => rfl
  | cons e es ih =>
      have hstep : iterate dohDns s e = s := by simp [iterate, hs]
      rw [relay, List.foldl_cons, hstep]
      apply ih

theorem relay_append (dohDns : Bool) (s : Assoc) (es later : List Event) :
  relay dohDns s (es ++ later) = relay dohDns (relay dohDns s es) later
  := List.foldl_append

end Socks.UdpRelay
