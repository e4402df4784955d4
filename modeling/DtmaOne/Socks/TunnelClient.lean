import DtmaOne.Hev.Socks5Handshake
import DtmaOne.Socks.Handshake

/-!
# The native tunnel as a client of the local server

The handshake between the SOCKS5 client of the native tunnel and `LocalSocks5Server`, which the
application runs for it.  `handleClient` is here a program of one party, up to the reply of
`doConnect` or `doUdpAssociate`; fed with a whole stream it does what the function of
`Socks.Handshake` does.  The server offers no authentication, and agrees with every client that
does not send its credentials before it is asked.
-/

namespace Socks.TunnelClient

open InputStream Handshake Network

/-! ### The server as a program -/

/-- How `handleClient` ends when it does not close the socket of the client. -/
inductive Served where
  | connect (dest : InetAddress) (port : ℕ)
  | udpAssociate
  | left
  deriving DecidableEq

section Program

variable {ρ : Type}

/-- `input.read()` -/
def read (next : ℤ → Proc UInt8 ρ) : Proc UInt8 ρ :=
  .recv 1 fun b => next (headValue b)

/-- `readFully`; the end of the stream is an exception, here none. -/
def readFully (size : ℕ) (next : Option Bytes → Proc UInt8 ρ) : Proc UInt8 ρ :=
  .recv size fun b => next (if b.length = size then some b else none)

/-- `readAddress` -/
def readAddress (getByName : String → Option InetAddress) (atyp : ℤ)
    (next : Option InetAddress → Proc UInt8 ρ) : Proc UInt8 ρ :=
  if atyp = 0x01 then readFully 4 fun b => next (b.bind InetAddress.getByAddress)
  else if atyp = 0x04 then readFully 16 fun b => next (b.bind InetAddress.getByAddress)
  else if atyp = 0x03 then
    read fun len =>
      if len ≤ 0 then next none
      else readFully len.toNat fun b => next (b.bind fun b => getByName (asciiString b))
  else next none

variable (doConnect : InetAddress → ℕ → Proc UInt8 Served) (doUdpAssociate : Proc UInt8 Served)

/-- The end of `handleClient`, after the address. -/
def dispatch (cmd : ℤ) (dest : InetAddress) : Proc UInt8 Served :=
  read fun portHi => read fun portLo =>
    if portHi < 0 ∨ portLo < 0 then .done .left
    else if cmd = 0x01 then doConnect dest ((portHi.toNat <<< 8) ||| portLo.toNat)
    else if cmd = 0x03 then doUdpAssociate
    else .send (reply 0x07 InetAddress.any 0) .fail

/-- `handleClient` after the greeting. -/
def handleRequest (getByName : String → Option InetAddress) : Proc UInt8 Served :=
  read fun ver => read fun cmd => read fun _ => read fun atyp =>
    if ver ≠ 0x05 then .done .left
    else readAddress getByName atyp fun
      | none => .send (reply 0x08 InetAddress.any 0) (.done .left)
      | some dest => dispatch doConnect doUdpAssociate cmd dest

/-- `handleClient` -/
def handleClient (getByName : String → Option InetAddress) : Proc UInt8 Served :=
  read fun b =>
    if b ≠ 0x05 then .done .left
    else read fun nMethods =>
      if nMethods ≤ 0 then .done .left
      else readFully nMethods.toNat fun
        | none => .fail
        | some _ => .send methodReply (handleRequest doConnect doUdpAssociate getByName)

end Program

/-! ### The program and the function -/

section Function

variable {ρ : Type}

theorem feed_read (next : ℤ → Proc UInt8 ρ) (s : Bytes) :
  (read next).feed s = (next (headValue s)).feed s.tail
  := by
  cases s <;> rfl

theorem feed_readFully (size : ℕ) (next : Option Bytes → Proc UInt8 ρ) (s : Bytes) :
  (readFully size next).feed s
    = (next (if size ≤ s.length then some (s.take size) else none)).feed (s.drop size)
  := by
  rw [readFully, Proc.feed]
  congr 2
  rw [List.length_take]
  by_cases h : size ≤ s.length <;> simp [h]

/-- A stream is read as its bytes are. -/
theorem readFully_spec (size : ℕ) (input : Source) :
  ∃ next, InputStream.readFully size input
      = (if size ≤ input.flatten.length then some (input.flatten.take size, next) else none)
    ∧ (size ≤ input.flatten.length → next.flatten = input.flatten.drop size)
  := by
  by_cases h : size ≤ input.flatten.length
  · obtain ⟨next, hread, hnext⟩ := readLoop_of_le (Nat.le_refl size) h
    exact ⟨next, by rw [if_pos h]; exact hread, fun _ => hnext⟩
  · refine ⟨[], ?_, fun h' => absurd h' h⟩
    rw [if_neg h]
    exact readFully_of_lt (Nat.lt_of_not_le h)

/-- The end of a run of the program, which has written `written` before, is the outcome of the
function. -/
def Agrees (h : Handled Source) (written : Bytes) (run : Bytes × Option Served × Bytes) : Prop :=
  written ++ run.1 = h.written ∧
    match h.outcome with
    | .connect dest port unread => run.2 = (some (.connect dest port), unread.flatten)
    | .udpAssociate unread => run.2 = (some .udpAssociate, unread.flatten)
    | .closed => run.2.1 = none
    | .left => run.2.1 = some .left

/-- The program that ends where `doConnect` or `doUdpAssociate` is called. -/
def handshakeOnly (getByName : String → Option InetAddress) : Proc UInt8 Served :=
  handleClient (fun dest port => .done (.connect dest port)) (.done .udpAssociate) getByName

theorem agrees_dispatch (cmd : ℤ) (dest : InetAddress) (input : Source) :
  Agrees (Handshake.dispatch cmd dest input) methodReply
    ((dispatch (fun dest port => .done (.connect dest port)) (.done .udpAssociate) cmd dest).feed
      input.flatten)
  := by
  obtain ⟨i1, hfirst, hi1⟩ := read_spec input
  obtain ⟨i2, hsecond, hi2⟩ := read_spec i1
  rw [dispatch, feed_read, feed_read, Handshake.dispatch, hfirst]
  dsimp only
  rw [hsecond, ← hi1, ← hi2]
  dsimp only
  split_ifs <;> simp [Agrees, Proc.feed]

/-- Bytes that are read in full become an address, or not, in both. -/
theorem feed_readFully_bind
    (size : ℕ) (input : Source) (f : Bytes → Option InetAddress)
    (next : Option InetAddress → Proc UInt8 ρ) :
  match (InputStream.readFully size input).bind fun x => (f x.1).bind fun a => some (a, x.2) with
  | some (dest, rest) =>
      (readFully size fun b => next (b.bind f)).feed input.flatten
        = (next (some dest)).feed rest.flatten
  | none =>
      ∃ rest, (readFully size fun b => next (b.bind f)).feed input.flatten = (next none).feed rest
  := by
  obtain ⟨i1, hread, hi1⟩ := readFully_spec size input
  rw [feed_readFully, hread]
  by_cases hlen : size ≤ input.flatten.length
  · rw [if_pos hlen, if_pos hlen, ← hi1 hlen, Option.bind_some, Option.bind_some]
    dsimp only
    cases f (input.flatten.take size) with
    | none => exact ⟨_, rfl⟩
    | some dest => rfl
  · rw [if_neg hlen, if_neg hlen]
    exact ⟨_, rfl⟩

/-- The address that is decoded and what follows it are those of the function. -/
theorem feed_readAddress
    (getByName : String → Option InetAddress) (atyp : ℤ) (input : Source)
    (next : Option InetAddress → Proc UInt8 ρ) :
  match Handshake.readAddress getByName input atyp with
  | some (dest, rest) =>
      (readAddress getByName atyp next).feed input.flatten = (next (some dest)).feed rest.flatten
  | none => ∃ rest, (readAddress getByName atyp next).feed input.flatten = (next none).feed rest
  := by
  rw [readAddress, Handshake.readAddress]
  by_cases h1 : atyp = 0x01
  · rw [if_pos h1, if_pos h1]
    exact feed_readFully_bind 4 input InetAddress.getByAddress next
  · rw [if_neg h1, if_neg h1]
    by_cases h4 : atyp = 0x04
    · rw [if_pos h4, if_pos h4]
      exact feed_readFully_bind 16 input InetAddress.getByAddress next
    · rw [if_neg h4, if_neg h4]
      by_cases h3 : atyp = 0x03
      · obtain ⟨i1, hfirst, hi1⟩ := read_spec input
        rw [if_pos h3, if_pos h3, feed_read, hfirst, ← hi1]
        dsimp only
        by_cases hzero : headValue input.flatten ≤ 0
        · rw [if_pos hzero, if_pos hzero]
          exact ⟨_, rfl⟩
        · rw [if_neg hzero, if_neg hzero]
          exact feed_readFully_bind _ i1 (fun b => getByName (asciiString b)) next
      · rw [if_neg h3, if_neg h3]
        exact ⟨_, rfl⟩

theorem agrees_handleRequest (getByName : String → Option InetAddress) (input : Source) :
  Agrees (Handshake.handleRequest getByName input) methodReply
    ((handleRequest (fun dest port => .done (.connect dest port)) (.done .udpAssociate)
      getByName).feed input.flatten)
  := by
  obtain ⟨i1, hver, hi1⟩ := read_spec input
  obtain ⟨i2, hcmd, hi2⟩ := read_spec i1
  obtain ⟨i3, hrsv, hi3⟩ := read_spec i2
  obtain ⟨i4, hatyp, hi4⟩ := read_spec i3
  rw [handleRequest, feed_read, feed_read, feed_read, feed_read, Handshake.handleRequest, hver]
  dsimp only
  rw [hcmd]
  dsimp only
  rw [hrsv]
  dsimp only
  rw [hatyp, ← hi1, ← hi2, ← hi3, ← hi4]
  dsimp only
  split_ifs with hfive
  · simp [Agrees, Proc.feed]
  · have haddress := feed_readAddress getByName (headValue i3.flatten) i4
      fun
        | none => .send (reply 0x08 InetAddress.any 0) (.done .left)
        | some dest => dispatch (fun dest port => .done (.connect dest port))
            (.done .udpAssociate) (headValue i1.flatten) dest
    cases hread : Handshake.readAddress getByName i4 (headValue i3.flatten) with
    | none =>
        rw [hread] at haddress
        obtain ⟨rest, hrest⟩ := haddress
        rw [hrest]
        simp [Agrees, Proc.feed]
    | some address =>
        obtain ⟨dest, rest⟩ := address
        rw [hread] at haddress
        rw [haddress]
        apply agrees_dispatch

/-- Fed with a whole stream, however it is split, the program does what the function does. -/
theorem agrees_handleClient (getByName : String → Option InetAddress) (input : Source) :
  Agrees (Handshake.handleClient getByName input) []
    ((handshakeOnly getByName).feed input.flatten)
  := by
  obtain ⟨i1, hfirst, hi1⟩ := read_spec input
  obtain ⟨i2, hcount, hi2⟩ := read_spec i1
  rw [handshakeOnly, handleClient, feed_read, Handshake.handleClient, hfirst]
  dsimp only
  by_cases hfive : headValue input.flatten ≠ 5
  · rw [if_pos hfive, if_pos hfive]
    simp [Agrees, Proc.feed]
  · rw [if_neg hfive, if_neg hfive, feed_read, hcount, ← hi1, ← hi2]
    dsimp only
    by_cases hzero : headValue i1.flatten ≤ 0
    · rw [if_pos hzero, if_pos hzero]
      simp [Agrees, Proc.feed]
    · obtain ⟨i3, hmethods, hi3⟩ := readFully_spec (headValue i1.flatten).toNat i2
      rw [if_neg hzero, if_neg hzero, feed_readFully, hmethods]
      by_cases hlen : (headValue i1.flatten).toNat ≤ i2.flatten.length
      · rw [if_pos hlen, if_pos hlen, ← hi3 hlen]
        have hrequest := agrees_handleRequest getByName i3
        simpa [Agrees, Proc.feed] using hrequest
      · rw [if_neg hlen, if_neg hlen]
        simp [Agrees, Proc.feed]

end Function

/-! ### The two parties -/

open Hev Hev.Socks5Handshake Hev.Socks5Client

/-- How the socket of a request is connected: `protect` has failed, or an exception was raised, or
it has a local address. -/
inductive Connecting where
  | protectFailed
  | failed
  | ok (bindAddr : InetAddress) (bindPort : ℕ)

/-- The answers of the platform to `handleClient`: the addresses of names, the connection of a
socket, what `protect` says of the socket for datagrams, unless an exception is raised, and the
port of this socket. -/
structure LocalServer where
  getByName : String → Option InetAddress
  connecting : InetAddress → ℕ → Connecting
  protecting : Option Bool
  localPort : ℕ

/-- The address `127.0.0.1`. -/
def loopback : InetAddress := ⟨[127, 0, 0, 1], InetAddress.size_loopback⟩

/-- `doConnect` up to the reply. -/
def LocalServer.doConnect (server : LocalServer) (dest : InetAddress) (port : ℕ) :
    Proc UInt8 Served :=
  match server.connecting dest port with
  | .protectFailed => .send (reply 0x01 InetAddress.any 0) .fail
  | .failed => .send (reply 0x05 InetAddress.any 0) .fail
  | .ok bindAddr bindPort => .send (reply 0x00 bindAddr bindPort) (.done (.connect dest port))

/-- `doUdpAssociate` up to the reply. -/
def LocalServer.doUdpAssociate (server : LocalServer) : Proc UInt8 Served :=
  match server.protecting with
  | none => .fail
  | some false => .send (reply 0x01 InetAddress.any 0) .fail
  | some true => .send (reply 0x00 loopback server.localPort) (.done .udpAssociate)

/-- `handleClient` with its continuations. -/
def LocalServer.handshake (server : LocalServer) : Proc UInt8 Served :=
  handleClient server.doConnect server.doUdpAssociate server.getByName

/-- The address a client asks for, as the server decodes it. -/
def destination (getByName : String → Option InetAddress) : Socks5Addr → Option InetAddress
  | .ipv4 addr _ => InetAddress.getByAddress addr.toList
  | .ipv6 addr _ => InetAddress.getByAddress addr.toList
  | .name addr _ _ => if addr = [] then none else getByName (asciiString addr)

/-- The two bytes of the port. -/
def portField : Socks5Addr → List.Vector UInt8 2
  | .ipv4 _ port => port
  | .ipv6 _ port => port
  | .name _ _ port => port

/-- The port a client asks for. -/
def requestedPort (addr : Socks5Addr) : ℕ :=
  portOf ((portField addr).get 0) ((portField addr).get 1)

/-- The address of a reply, as the client reads it. -/
def replyAddr (addr : InetAddress) (port : ℕ) : Socks5Addr :=
  if h : addr.address.length = 4 then .ipv4 ⟨addr.address, h⟩ ⟨portBytes port, rfl⟩
  else .ipv6 ⟨addr.address, addr.size.resolve_left h⟩ ⟨portBytes port, rfl⟩

/-- What the server does after it has read a request. -/
def afterRequest (server : LocalServer) (cmd : UInt8) (addr : Socks5Addr) : Proc UInt8 Served :=
  match destination server.getByName addr with
  | none => .send (reply 0x08 InetAddress.any 0) (.done .left)
  | some dest =>
      if cmd = 1 then server.doConnect dest (requestedPort addr)
      else if cmd = 3 then server.doUdpAssociate
      else .send (reply 0x07 InetAddress.any 0) .fail

theorem reply_eq (rep : UInt8) (addr : InetAddress) (port : ℕ) :
  reply rep addr port = [5, rep, 0] ++ (replyAddr addr port).bytes
  := by
  unfold reply replyAddr
  by_cases h : addr.address.length = 4
  · simp only [h, if_true, dite_true, Socks5Addr.bytes, Socks5Addr.atype, Socks5Addr.body]
    rfl
  · simp only [h, if_false, dite_false, Socks5Addr.bytes, Socks5Addr.atype, Socks5Addr.body]
    rfl

theorem atype_replyAddr (addr : InetAddress) (port : ℕ) : (replyAddr addr port).atype ≠ 3
  := by
  unfold replyAddr
  split_ifs <;> simp [Socks5Addr.atype]

section Server

variable {ρ τ : Type} {p : Proc UInt8 ρ} {l r : Bytes}

theorem reaches_read (next : ℤ → Proc UInt8 τ) (b : UInt8) :
  Reaches Net.step ⟨p, read next, l, b :: r⟩ ⟨p, next b.toNat, l, r⟩
  := by
  have hblock : b :: r = [b] ++ r := rfl
  exact Net.reaches_recv_right hblock rfl

theorem reaches_readFully
    (next : Option Bytes → Proc UInt8 τ) {size : ℕ} {block : Bytes} (hsize : block.length = size) :
  Reaches Net.step ⟨p, readFully size next, l, block ++ r⟩ ⟨p, next (some block), l, r⟩
  := by
  apply (Net.reaches_recv_right rfl hsize).trans
  rw [if_pos hsize]
  exact Reaches.refl _

/-- The greeting of a client is answered with the method 0, whatever its method is. -/
theorem reaches_greeting
    (doConnect : InetAddress → ℕ → Proc UInt8 Served) (doUdpAssociate : Proc UInt8 Served)
    (getByName : String → Option InetAddress) (method : UInt8) :
  Reaches Net.step ⟨p, handleClient doConnect doUdpAssociate getByName, l, 5 :: 1 :: method :: r⟩
    ⟨p, handleRequest doConnect doUdpAssociate getByName, l ++ [5, 0], r⟩
  := by
  have hmethods : method :: r = [method] ++ r := rfl
  have hfive : ¬ ((5 : UInt8).toNat : ℤ) ≠ 0x05 := by
    decide
  have hpos : ¬ ((1 : UInt8).toNat : ℤ) ≤ 0 := by
    decide
  have hone : ([method] : Bytes).length = ((1 : UInt8).toNat : ℤ).toNat := rfl
  apply (reaches_read _ 5).trans
  rw [if_neg hfive]
  apply (reaches_read _ 1).trans
  rw [if_neg hpos, hmethods]
  apply (reaches_readFully _ hone).trans
  exact Net.reaches_send_right _

/-- The address of a request is read to its end. -/
theorem reaches_readAddress
    (getByName : String → Option InetAddress) (addr : Socks5Addr)
    (next : Option InetAddress → Proc UInt8 τ) :
  Reaches Net.step
    ⟨p, readAddress getByName addr.atype.toNat next, l, addr.body ++ r⟩
    ⟨p, next (destination getByName addr), l, (portField addr).toList ++ r⟩
  := by
  have h1 : ((1 : UInt8).toNat : ℤ) = 0x01 := rfl
  have h4 : ((4 : UInt8).toNat : ℤ) = 0x04 := rfl
  have h3 : ((3 : UInt8).toNat : ℤ) = 0x03 := rfl
  cases addr with
  | ipv4 addr port =>
      simp only [Socks5Addr.atype, Socks5Addr.body, List.append_assoc]
      rw [readAddress, h1, if_pos rfl]
      exact reaches_readFully _ addr.toList_length
  | ipv6 addr port =>
      simp only [Socks5Addr.atype, Socks5Addr.body, List.append_assoc]
      rw [readAddress, h4, if_neg (by decide), if_pos rfl]
      exact reaches_readFully _ addr.toList_length
  | name addr len port =>
      have hlen : (UInt8.ofNat addr.length).toNat = addr.length := UInt8.toNat_ofNat_of_lt' len
      simp only [Socks5Addr.atype, Socks5Addr.body, List.cons_append, List.append_assoc]
      rw [readAddress, h3, if_neg (by decide), if_neg (by decide), if_pos rfl]
      apply (reaches_read _ (UInt8.ofNat addr.length)).trans
      rw [hlen]
      by_cases hnil : addr = []
      · subst hnil
        exact Reaches.refl _
      · have hpos : ¬ (addr.length : ℤ) ≤ 0 := by
          have := List.length_pos_iff.mpr hnil
          omega
        rw [if_neg hpos, Int.toNat_natCast]
        apply (reaches_readFully _ rfl).trans
        simp only [destination, hnil, if_false, Option.bind_some]
        exact Reaches.refl _

theorem natCast_toNat_eq_iff (b c : UInt8) : (b.toNat : ℤ) = c.toNat ↔ b = c
  := by
  rw [Int.ofNat_inj, UInt8.toNat_inj]

/-- A request is read to its end, if its address can be decoded. -/
theorem reaches_request (server : LocalServer) (cmd : UInt8) (addr : Socks5Addr) :
  ∃ unread, Reaches Net.step
      ⟨p, handleRequest server.doConnect server.doUdpAssociate server.getByName, l,
        [5, cmd, 0] ++ addr.bytes⟩
      ⟨p, afterRequest server cmd addr, l, unread⟩
    ∧ ((destination server.getByName addr).isSome → unread = [])
  := by
  have hfive : ¬ ((5 : UInt8).toNat : ℤ) ≠ 0x05 := by
    decide
  have hbytes : [5, cmd, 0] ++ addr.bytes = 5 :: cmd :: 0 :: addr.atype :: (addr.body ++ []) := by
    simp [Socks5Addr.bytes]
  have hhead : ∀ q : Net UInt8 ρ Served,
      Reaches Net.step ⟨p, readAddress server.getByName addr.atype.toNat fun
        | none => .send (reply 0x08 InetAddress.any 0) (.done .left)
        | some dest => dispatch server.doConnect server.doUdpAssociate cmd.toNat dest, l,
        addr.body ++ []⟩ q →
      Reaches Net.step ⟨p, handleRequest server.doConnect server.doUdpAssociate server.getByName,
        l, [5, cmd, 0] ++ addr.bytes⟩ q := by
    intro q hq
    rw [hbytes]
    apply (reaches_read _ 5).trans
    apply (reaches_read _ cmd).trans
    apply (reaches_read _ 0).trans
    apply (reaches_read _ addr.atype).trans
    rw [if_neg hfive]
    exact hq
  cases hdest : destination server.getByName addr with
  | none =>
      refine ⟨(portField addr).toList ++ [], ?_, by simp⟩
      apply hhead
      apply (reaches_readAddress server.getByName addr _).trans
      rw [afterRequest, hdest]
      exact Reaches.refl _
  | some dest =>
      refine ⟨[], ?_, fun _ => rfl⟩
      apply hhead
      apply (reaches_readAddress server.getByName addr _).trans
      rw [hdest]
      have hport : (portField addr).toList = [(portField addr).get 0, (portField addr).get 1] := by
        obtain ⟨_ | ⟨hi, _ | ⟨lo, _ | ⟨b, port⟩⟩⟩, h⟩ := portField addr
        · cases h
        · cases h
        · rfl
        · cases h
      rw [hport]
      apply (reaches_read _ ((portField addr).get 0)).trans
      apply (reaches_read _ ((portField addr).get 1)).trans
      have hnonneg : ¬ ((((portField addr).get 0).toNat : ℤ) < 0
          ∨ (((portField addr).get 1).toNat : ℤ) < 0) := by
        omega
      have h1 : ((1 : UInt8).toNat : ℤ) = 0x01 := rfl
      have h3 : ((3 : UInt8).toNat : ℤ) = 0x03 := rfl
      rw [if_neg hnonneg, Int.toNat_natCast, Int.toNat_natCast, shiftLeft_or_eq_portOf, ← h1, ← h3]
      simp only [natCast_toNat_eq_iff]
      rw [afterRequest, hdest]
      exact Reaches.refl _

end Server

/-! ### The handshake -/

section Handshake

variable (client : Socks5Client) (server : LocalServer)

/-- The service the two agree on, with the address and the port of the reply. -/
def agreed : Option (Served × InetAddress × ℕ) :=
  match cmd client.type, destination server.getByName client.upstreamAddr with
  | some 1, some dest =>
      match server.connecting dest (requestedPort client.upstreamAddr) with
      | .ok bindAddr bindPort =>
          some (.connect dest (requestedPort client.upstreamAddr), bindAddr, bindPort)
      | _ => none
  | some 3, some _ =>
      if server.protecting = some true then some (.udpAssociate, loopback, server.localPort)
      else none
  | _, _ => none

/-- How the client ends. -/
def clientEnd : Proc UInt8 Socks5Addr :=
  match agreed client server with
  | none => .fail
  | some (_, addr, port) =>
      if client.setUpstreamAddr (replyAddr addr port) then .done (replyAddr addr port) else .fail

/-- How the server ends: it leaves the socket of a client open whose address it cannot decode. -/
def serverEnd : Proc UInt8 Served :=
  match agreed client server with
  | some (served, _) => .done served
  | none =>
      if destination server.getByName client.upstreamAddr = none then .done .left else .fail

variable {client server}

/-- The client reads the reply of the server. -/
theorem reaches_reply
    {ρ : Type} (client : Socks5Client) (rep : UInt8) (addr : InetAddress) (port : ℕ)
    (last : Proc UInt8 ρ) (r : Bytes) :
  ∃ unread, Reaches Net.step
      ⟨client.readResponse .done, .send (reply rep addr port) last, [], r⟩
      ⟨if rep = 0 ∧ client.setUpstreamAddr (replyAddr addr port) then .done (replyAddr addr port)
        else .fail, last, unread, r⟩
    ∧ (rep = 0 → unread = [])
  := by
  obtain ⟨unread, hreach, hunread⟩ := client_readResponse (q := last) (l := []) (r := r) client
    .done rep (atype_replyAddr addr port)
  refine ⟨unread, ?_, hunread⟩
  apply (Net.reaches_send_right _).trans
  rw [reply_eq]
  rw [List.append_nil] at hreach
  exact hreach

/-- A server that closes the socket without a reply fails the client. -/
theorem readResponse_closed {ρ : Type} (client : Socks5Client) (r : Bytes) :
  Reaches Net.step ⟨client.readResponse .done, (.fail : Proc UInt8 ρ), [], r⟩ ⟨.fail, .fail, [], r⟩
  := Net.reaches_recv_left_closed (Nat.zero_le 4)

/-- A reply that refuses the request fails the client. -/
theorem refused_reaches
    (hagreed : agreed client server = none) {rep : UInt8} (hrep : rep ≠ 0)
    {last : Proc UInt8 Served}
    (hlast : serverEnd client server = last) (r : Bytes) :
  ∃ unread, Reaches Net.step
      ⟨client.readResponse .done, .send (reply rep InetAddress.any 0) last, [], r⟩
      ⟨clientEnd client server, serverEnd client server, unread, r⟩
    ∧ ((agreed client server).isSome → unread = [])
  := by
  obtain ⟨unread, hreach, -⟩ := reaches_reply client rep InetAddress.any 0 last r
  refine ⟨unread, ?_, by simp [hagreed]⟩
  have hclient : clientEnd client server = .fail := by
    rw [clientEnd, hagreed]
  rw [hclient, hlast]
  simpa [hrep] using hreach

/-- A reply that grants the request ends the client with its address. -/
theorem granted_reaches
    {served : Served} {addr : InetAddress} {port : ℕ}
    (hagreed : agreed client server = some (served, addr, port)) (r : Bytes) :
  ∃ unread, Reaches Net.step
      ⟨client.readResponse .done, .send (reply 0 addr port) (.done served), [], r⟩
      ⟨clientEnd client server, serverEnd client server, unread, r⟩
    ∧ ((agreed client server).isSome → unread = [])
  := by
  obtain ⟨unread, hreach, hunread⟩ := reaches_reply client 0 addr port (.done served) r
  refine ⟨unread, ?_, fun _ => hunread rfl⟩
  rw [clientEnd, serverEnd, hagreed]
  simpa using hreach

/-- After the request both come to their ends. -/
theorem afterRequest_reaches
    (server : LocalServer) {c : UInt8} (hcmd : cmd client.type = some c) (r : Bytes) :
  ∃ unread, Reaches Net.step
      ⟨client.readResponse .done, afterRequest server c client.upstreamAddr, [], r⟩
      ⟨clientEnd client server, serverEnd client server, unread, r⟩
    ∧ ((agreed client server).isSome → unread = [])
  := by
  cases hdest : destination server.getByName client.upstreamAddr with
  | none =>
      have hagreed : agreed client server = none := by
        simp [agreed, hdest]
      have hlast : serverEnd client server = .done .left := by
        simp [serverEnd, hagreed, hdest]
      simp only [afterRequest, hdest]
      exact refused_reaches hagreed (by decide) hlast r
  | some dest =>
      have hlast : agreed client server = none → serverEnd client server = .fail := by
        intro hagreed
        simp [serverEnd, hagreed, hdest]
      have h31 : ¬ (3 : UInt8) = 1 := by
        decide
      have h51 : ¬ (5 : UInt8) = 1 := by
        decide
      have h53 : ¬ (5 : UInt8) = 3 := by
        decide
      simp only [afterRequest, hdest]
      cases htype : client.type with
      | none =>
          rw [htype] at hcmd
          cases hcmd
      | tcp =>
          rw [htype] at hcmd
          obtain rfl := Option.some.inj hcmd
          rw [if_pos rfl, LocalServer.doConnect]
          cases hconnect : server.connecting dest (requestedPort client.upstreamAddr) with
          | protectFailed =>
              have hagreed : agreed client server = none := by
                simp [agreed, hdest, htype, cmd, hconnect]
              exact refused_reaches hagreed (by decide) (hlast hagreed) r
          | failed =>
              have hagreed : agreed client server = none := by
                simp [agreed, hdest, htype, cmd, hconnect]
              exact refused_reaches hagreed (by decide) (hlast hagreed) r
          | ok bindAddr bindPort =>
              apply granted_reaches
              simp [agreed, hdest, htype, cmd, hconnect]
      | udpInTcp =>
          rw [htype] at hcmd
          obtain rfl := Option.some.inj hcmd
          have hagreed : agreed client server = none := by
            simp [agreed, hdest, htype, cmd]
          rw [if_neg h51, if_neg h53]
          exact refused_reaches hagreed (by decide) (hlast hagreed) r
      | udpInUdp =>
          rw [htype] at hcmd
          obtain rfl := Option.some.inj hcmd
          rw [if_neg h31, if_pos rfl, LocalServer.doUdpAssociate]
          cases hprotect : server.protecting with
          | none =>
              have hagreed : agreed client server = none := by
                simp [agreed, hdest, htype, cmd, hprotect]
              refine ⟨[], ?_, fun _ => rfl⟩
              rw [hlast hagreed, clientEnd, hagreed]
              exact readResponse_closed client r
          | some isProtected =>
              cases isProtected with
              | false =>
                  have hagreed : agreed client server = none := by
                    simp [agreed, hdest, htype, cmd, hprotect]
                  exact refused_reaches hagreed (by decide) (hlast hagreed) r
              | true =>
                  apply granted_reaches
                  simp [agreed, hdest, htype, cmd, hprotect]

theorem ended_clientEnd : (clientEnd client server).ended
  := by
  unfold clientEnd
  cases agreed client server with
  | none => rfl
  | some service =>
      dsimp only
      split_ifs <;> rfl

theorem ended_serverEnd : (serverEnd client server).ended
  := by
  unfold serverEnd
  cases agreed client server with
  | none =>
      dsimp only
      split_ifs <;> rfl
  | some service => rfl

/-- The request of a client that is past the greeting, and what follows it. -/
theorem request_reaches
    (server : LocalServer) {c : UInt8} (hcmd : cmd client.type = some c) :
  ∃ unreadL unreadR, Reaches Net.step
      ⟨client.readResponse .done,
        handleRequest server.doConnect server.doUdpAssociate server.getByName, [],
        [5, c, 0] ++ client.upstreamAddr.bytes⟩
      ⟨clientEnd client server, serverEnd client server, unreadL, unreadR⟩
    ∧ ((agreed client server).isSome → unreadL = [] ∧ unreadR = [])
  := by
  obtain ⟨unreadR, hrequest, hunreadR⟩ := reaches_request (p := client.readResponse .done) (l := [])
    server c client.upstreamAddr
  obtain ⟨unreadL, hreply, hunreadL⟩ := afterRequest_reaches server hcmd unreadR
  refine ⟨unreadL, unreadR, hrequest.trans hreply, fun h => ⟨hunreadL h, hunreadR ?_⟩⟩
  by_contra hdest
  rw [Option.not_isSome_iff_eq_none] at hdest
  simp [agreed, hdest] at h

theorem standard_reaches {c : UInt8} (hcmd : cmd client.type = some c) :
  Reaches Net.step ⟨client.handshakeStandard, server.handshake, [], []⟩
    ⟨client.readResponse .done,
      handleRequest server.doConnect server.doUdpAssociate server.getByName, [],
      [5, c, 0] ++ client.upstreamAddr.bytes⟩
  := by
  have h02 : ¬ (0 : UInt8) = 2 := by
    decide
  apply (Net.reaches_send_left _).trans
  apply (reaches_greeting _ _ _ _).trans
  apply (client_readAuthMethod _ 0).trans
  rw [authStandard, if_neg h02, if_neg (not_not.mpr rfl), writeRequest, hcmd]
  exact Net.reaches_send_left _

theorem pipeline_reaches
    {c : UInt8} (hcmd : cmd client.type = some c) (hcreds : client.creds = none) :
  Reaches Net.step ⟨client.handshakePipeline, server.handshake, [], []⟩
    ⟨client.readResponse .done,
      handleRequest server.doConnect server.doUdpAssociate server.getByName, [],
      [5, c, 0] ++ client.upstreamAddr.bytes⟩
  := by
  have h02 : ¬ (0 : UInt8) = 2 := by
    decide
  have hoffer := reaches_offer client
    (client.writeRequest <| readAuthMethod <| authPipeline <| client.readResponse .done)
    server.handshake
  apply hoffer.trans
  simp only [writeRequest, hcmd, offer, hcreds]
  apply (Net.reaches_send_left _).trans
  apply (reaches_greeting _ _ _ 0).trans
  apply (client_readAuthMethod _ 0).trans
  rw [authPipeline, if_neg h02, if_neg (not_not.mpr rfl)]
  exact Reaches.refl _

/-- The handshake of the native tunnel with the local server ends, and in only one way, whatever the
order of the steps: the two agree on the service the tunnel has asked for, for the destination of
its request, and nothing is left unread on the connection; or the tunnel has failed. -/
theorem tunnel_handshake_settles
    {client : Socks5Client} (server : LocalServer) {pipeline : Bool}
    (hcreds : pipeline = true → client.creds = none) (htype : client.type ≠ .none) :
  ∃ unreadL unreadR,
    Settles Net.step ⟨client.handshake pipeline, server.handshake, [], []⟩
      ⟨clientEnd client server, serverEnd client server, unreadL, unreadR⟩
    ∧ ((agreed client server).isSome → unreadL = [] ∧ unreadR = [])
  := by
  obtain ⟨c, hcmd⟩ : ∃ c, cmd client.type = some c := by
    cases h : client.type with
    | none => exact absurd h htype
    | tcp => exact ⟨1, rfl⟩
    | udpInTcp => exact ⟨5, rfl⟩
    | udpInUdp => exact ⟨3, rfl⟩
  obtain ⟨unreadL, unreadR, hrequest, hunread⟩ := request_reaches server hcmd
  refine ⟨unreadL, unreadR, ?_, hunread⟩
  apply Net.diamond.settles (Net.terminal_of_ended ended_clientEnd ended_serverEnd)
  cases pipeline with
  | true => exact (pipeline_reaches hcmd (hcreds rfl)).trans hrequest
  | false => exact (standard_reaches hcmd).trans hrequest

/-- A tunnel that asks for a connection to `1.2.3.4`, port 443. -/
def httpsTunnel : Socks5Client where
  user := none
  pass := none
  type := .tcp
  upstreamAddr := .ipv4 ⟨[1, 2, 3, 4], rfl⟩ ⟨[0x01, 0xbb], rfl⟩
  setUpstreamAddr := fun _ => true

/-- A server that connects every socket. -/
def openServer : LocalServer where
  getByName := fun _ => none
  connecting := fun _ _ => .ok InetAddress.any 40000
  protecting := some true
  localPort := 40001

theorem tunnel_handshake_settles_https :
  agreed httpsTunnel openServer
      = some (.connect ⟨[1, 2, 3, 4], Or.inl rfl⟩ 443, InetAddress.any, 40000)
    ∧ ∃ unreadL unreadR,
      Settles Net.step ⟨httpsTunnel.handshake true, openServer.handshake, [], []⟩
        ⟨clientEnd httpsTunnel openServer, serverEnd httpsTunnel openServer, unreadL, unreadR⟩
      ∧ ((agreed httpsTunnel openServer).isSome → unreadL = [] ∧ unreadR = [])
  := ⟨rfl, tunnel_handshake_settles openServer (fun _ => rfl) (by decide)⟩

end Handshake

end Socks.TunnelClient
