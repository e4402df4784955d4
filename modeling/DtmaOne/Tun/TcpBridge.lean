import DtmaOne.Library.Log
import DtmaOne.Library.Run
import Mathlib.Algebra.Order.Ring.Int
import Mathlib.Data.List.Infix

/-!
# The userspace TCP bridge

`TunDataplane.onTcp` passes the bytes of a client on to a remote socket.  The bridge of a flow has
one counter, `clientNext`, for the next sequence number it expects from the client, modulo `2 ^ 32`.
A segment is delivered if it starts there, and acknowledged in any case; a `FIN` advances the
counter by one if nothing is missing before it.

* The bytes that are delivered are a prefix of the stream of the client, every acknowledgement
  carries the number of the byte after it, and the `FIN` is counted once, at the end of the stream.
* The output of the remote socket is shut down at every `FIN`, also when bytes before it are
  missing.
-/

namespace Tun

/-! ### Segments -/

/-- The fields of a TCP segment `onTcp` reads. -/
structure Segment where
  syn : Bool
  ack : Bool
  fin : Bool
  rst : Bool
  seq : BitVec 32
  payload : List UInt8
  deriving DecidableEq, Repr

/-- `TunDataplane.beInt` -/
def beInt (b : List UInt8) (o : ℕ) : BitVec 32 :=
  let byte (i : ℕ) : BitVec 32 := (b.getD (o + i) 0).toBitVec.setWidth 32
  byte 0 <<< 24 ||| byte 1 <<< 16 ||| byte 2 <<< 8 ||| byte 3

/-- The segment in the payload of an IP packet, if `onTcp` does not drop it. -/
def Segment.parse (p : List UInt8) : Option Segment :=
  if p.length < 20 then none
  else
    let doff := (((p.getD 12 0).toNat &&& 0xf0) >>> 4) * 4
    if doff < 20 ∨ p.length < doff then none
    else
      let flag (bit : ℕ) : Bool := (p.getD 13 0).toNat.testBit bit
      some
        { syn := flag 1
          ack := flag 4
          fin := flag 0
          rst := flag 2
          seq := beInt p 4
          payload := p.drop doff }

/-! ### The bridge -/

/-- The fields of `TcpBridge` that `onTcp` uses. -/
structure TcpBridge where
  clientIsn : BitVec 32
  clientNext : BitVec 32 := 0
  serverNext : BitVec 32 := 0
  up : Bool := false
  closed : Bool := false
  /-- Whether `socket` is set. -/
  socket : Bool := false
  deriving DecidableEq, Repr

/-- What `onTcp` does for others to see. -/
inductive Output where
  /-- A packet to the client with the flag `ACK`. -/
  | ack (seq ack : BitVec 32)
  /-- Bytes are written to the remote socket. -/
  | write (data : List UInt8)
  /-- `clientNext` is advanced for a `FIN`. -/
  | countFin
  /-- The output of the remote socket is shut down. -/
  | shutdownOutput
  deriving DecidableEq, Repr

namespace TcpBridge

/-- `ackClient` -/
def ackClient (b : TcpBridge) : List Output :=
  if !b.up || b.closed then [] else [.ack b.serverNext b.clientNext]

/-- `writeToRemote`, if the calls on the stream return. -/
def writeToRemote (b : TcpBridge) (data : List UInt8) (returns : Bool) : Bool × List Output :=
  if b.socket && returns then (true, [.write data]) else (false, [])

/-- `onClientFin` -/
def onClientFin (b : TcpBridge) : List Output :=
  if b.socket then [.shutdownOutput] else []

/-- `TcpBridge.close` -/
def close (b : TcpBridge) : TcpBridge :=
  if b.closed then b else { b with closed := true, socket := false }

/-- `seqLt` -/
def seqLt (a b : BitVec 32) : Bool :=
  (a - b).toInt < 0

/-- The part of `onTcp` for the payload. -/
def onPayload (b : TcpBridge) (s : Segment) (returns : Bool) : TcpBridge × List Output :=
  if s.payload = [] then (b, [])
  else
    let expect := b.clientNext
    if s.seq = expect then
      let (written, ws) := b.writeToRemote s.payload returns
      let b :=
        if written then { b with clientNext := b.clientNext + BitVec.ofNat 32 s.payload.length }
        else b
      (b, ws ++ b.ackClient)
    else if seqLt s.seq expect then (b, b.ackClient)
    else (b, b.ackClient)

/-- Whether the `FIN` of a segment is counted. -/
def countsFin (b : TcpBridge) (s : Segment) : Bool :=
  let expect := b.clientNext
  let size := BitVec.ofNat 32 s.payload.length
  if s.seq = expect ∨ s.seq = expect - size ∨ s.payload = [] ∧ s.seq = expect then
    if s.payload = [] ∧ s.seq = expect then true
    else if s.payload ≠ [] ∧ s.seq = expect - size then true
    else false
  else false

/-- The part of `onTcp` for the flag `FIN`. -/
def onFin (b : TcpBridge) (s : Segment) : TcpBridge × List Output :=
  if s.fin then
    let counts := b.countsFin s
    let b := if counts then { b with clientNext := b.clientNext + 1 } else b
    (b, (if counts then [.countFin] else []) ++ b.ackClient ++ b.onClientFin)
  else (b, [])

/-- `TunDataplane.onTcp` for a packet of the flow of the bridge; `returns` is whether a write to the
remote socket returns. -/
def onTcp (b : TcpBridge) (packet : List UInt8) (returns : Bool) : TcpBridge × List Output :=
  match Segment.parse packet with
  | none => (b, [])
  | some s =>
      if s.rst then (b.close, [])
      else if !b.up then
        if s.syn && !s.ack then ({ b with clientIsn := s.seq, clientNext := s.seq + 1 }, [])
        else (b, [])
      else
        let (b, ws) := b.onPayload s returns
        let (b, ws') := b.onFin s
        (b, ws ++ ws')

/-- The bridge after bytes were written. -/
def advance (b : TcpBridge) (n : ℕ) : TcpBridge :=
  { b with clientNext := b.clientNext + BitVec.ofNat 32 n }

/-- The payload of the segment is written to the remote socket. -/
def Accepts (b : TcpBridge) (s : Segment) (returns : Bool) : Prop :=
  s.payload ≠ [] ∧ s.seq = b.clientNext ∧ b.socket = true ∧ returns = true

instance (b : TcpBridge) (s : Segment) (returns : Bool) : Decidable (b.Accepts s returns) :=
  inferInstanceAs (Decidable (_ ∧ _ ∧ _ ∧ _))

/-- What `onTcp` does with a payload. -/
theorem onPayload_cases (b : TcpBridge) (s : Segment) (returns : Bool) :
  b.Accepts s returns ∧
      b.onPayload s returns = (b.advance s.payload.length,
        .write s.payload :: (b.advance s.payload.length).ackClient) ∨
    ¬ b.Accepts s returns ∧
      b.onPayload s returns = (b, if s.payload = [] then [] else b.ackClient)
  := by
  rw [onPayload]
  by_cases hempty : s.payload = []
  · right
    simp [Accepts, hempty]
  by_cases hseq : s.seq = b.clientNext
  · rw [if_neg hempty, if_pos hseq, writeToRemote]
    by_cases hwrite : (b.socket && returns) = true
    · left
      rw [if_pos hwrite]
      rw [Bool.and_eq_true] at hwrite
      exact ⟨⟨hempty, hseq, hwrite⟩, rfl⟩
    · right
      rw [if_neg hwrite, if_neg hempty]
      rw [Bool.and_eq_true] at hwrite
      exact ⟨fun h => hwrite h.2.2, rfl⟩
  · right
    rw [if_neg hempty, if_neg hseq, if_neg hempty, ite_self]
    exact ⟨fun h => hseq h.2.1, rfl⟩

/-- What `onTcp` does with a `FIN`. -/
theorem onFin_cases (b : TcpBridge) (s : Segment) :
  s.fin = false ∧ b.onFin s = (b, []) ∨
    s.fin = true ∧ b.countsFin s = true ∧
      b.onFin s = (b.advance 1, .countFin :: ((b.advance 1).ackClient ++ (b.advance 1).onClientFin)) ∨
    s.fin = true ∧ b.countsFin s = false ∧ b.onFin s = (b, b.ackClient ++ b.onClientFin)
  := by
  rw [onFin]
  cases hfin : s.fin with
  | false =>
      left
      exact ⟨rfl, rfl⟩
  | true =>
      right
      cases hcounts : b.countsFin s with
      | false =>
          right
          exact ⟨rfl, rfl, rfl⟩
      | true =>
          left
          exact ⟨rfl, rfl, rfl⟩

/-- A `FIN` is counted where its segment ends at the counter. -/
theorem countsFin_iff (b : TcpBridge) (s : Segment) :
  b.countsFin s = true ↔ s.seq + BitVec.ofNat 32 s.payload.length = b.clientNext
  := by
  rw [countsFin, ← BitVec.eq_sub_iff_add_eq]
  by_cases hempty : s.payload = []
  · simp [hempty]
  · by_cases hend : s.seq = b.clientNext - BitVec.ofNat 32 s.payload.length
    · simp [hempty, ← hend]
    · simp [hempty, hend]

/-- The bridge as `openTcp` leaves it when the remote socket is connected. -/
structure Established (b : TcpBridge) (isn : BitVec 32) : Prop where
  up : b.up = true
  closed : b.closed = false
  socket : b.socket = true
  clientNext : b.clientNext = isn + 1

end TcpBridge

/-! ### Sessions -/

/-- A packet of the client, and whether a write to the remote socket returns. -/
structure Arrival where
  packet : List UInt8
  returns : Bool := true
  deriving DecidableEq, Repr

/-- A bridge, and what was done so far. -/
structure Session where
  bridge : TcpBridge
  log : List Output := []
  deriving DecidableEq, Repr

/-- The session after a call that leaves a bridge and does something. -/
def Session.after (t : Session) (r : TcpBridge × List Output) : Session where
  bridge := r.1
  log := t.log ++ r.2

/-- One packet. -/
def step (t : Session) (a : Arrival) : Option Session :=
  some (t.after (t.bridge.onTcp a.packet a.returns))

/-- The bytes that were written to the remote socket. -/
def written (log : List Output) : List UInt8 :=
  log.flatMap fun
    | .write data => data
    | _ => []

/-- The number of sequence numbers the `FIN` takes up, if it has been counted. -/
def finCount (log : List Output) : ℕ :=
  if .countFin ∈ log then 1 else 0

/-- The next sequence number, after what was done. -/
def nextSeq (isn : BitVec 32) (log : List Output) : BitVec 32 :=
  isn + 1 + BitVec.ofNat 32 ((written log).length + finCount log)

/-- The segment is one of the stream `B` of a client with the initial sequence number `isn`: it has
neither payload nor `FIN`, or a part of the stream at its place, with a `FIN` only at the end. -/
def Segment.OfStream (isn : BitVec 32) (B : List UInt8) (s : Segment) : Prop :=
  s.syn = false ∧ s.rst = false ∧
    (s.payload = [] ∧ s.fin = false ∨
      ∃ o, s.seq = isn + 1 + BitVec.ofNat 32 o ∧ o + s.payload.length ≤ B.length ∧
        s.payload = (B.drop o).take s.payload.length ∧
        (s.fin = true → o + s.payload.length = B.length))

/-- The packet has a segment of the stream, if it has one that is not dropped. -/
def Arrival.OfStream (isn : BitVec 32) (B : List UInt8) (a : Arrival) : Prop :=
  ∀ s, Segment.parse a.packet = some s → s.OfStream isn B

/-! ### What may be done -/

/-- After what was done, the output is one of a delivery of `B`. -/
def Allowed (isn : BitVec 32) (B : List UInt8) (log : List Output) : Output → Prop
  | .ack _ ack => ack = nextSeq isn log
  | .write data => written log ++ data <+: B
  | .countFin => written log = B ∧ .countFin ∉ log
  | .shutdownOutput => True

@[simp]
theorem written_append (log log' : List Output) :
  written (log ++ log') = written log ++ written log'
  := List.flatMap_append

@[simp]
theorem written_ack (seq ack : BitVec 32) :
  written [.ack seq ack] = []
  := rfl

@[simp]
theorem written_write (data : List UInt8) :
  written [.write data] = data
  := List.append_nil data

@[simp]
theorem written_countFin :
  written [.countFin] = []
  := rfl

@[simp]
theorem written_shutdownOutput :
  written [.shutdownOutput] = []
  := rfl

theorem finCount_of_mem {log : List Output} (h : .countFin ∈ log) :
  finCount log = 1
  := if_pos h

theorem finCount_of_not_mem {log : List Output} (h : .countFin ∉ log) :
  finCount log = 0
  := if_neg h

/-- Sequence numbers of a stream that is shorter than `2 ^ 32` are different. -/
theorem seq_inj {isn : BitVec 32} {m n : ℕ} (hm : m < 2 ^ 32) (hn : n < 2 ^ 32) :
  isn + 1 + BitVec.ofNat 32 m = isn + 1 + BitVec.ofNat 32 n ↔ m = n
  := by
  constructor
  · intro h
    have hofNat : BitVec.ofNat 32 m = BitVec.ofNat 32 n := BitVec.add_right_inj _ |>.mp h
    have htoNat := congrArg BitVec.toNat hofNat
    rw [BitVec.toNat_ofNat, BitVec.toNat_ofNat, Nat.mod_eq_of_lt hm, Nat.mod_eq_of_lt hn] at htoNat
    apply htoNat
  · rintro rfl
    rfl

/-- A session that delivers a part of `B`. -/
structure Delivering (isn : BitVec 32) (B : List UInt8) (t : Session) : Prop where
  up : t.bridge.up = true
  closed : t.bridge.closed = false
  socket : t.bridge.socket = true
  clientNext : t.bridge.clientNext = nextSeq isn t.log
  delivered : written t.log <+: B
  complete : .countFin ∈ t.log → written t.log = B
  allowed : Log.Along (Allowed isn B) t.log

section Outputs

variable {isn : BitVec 32} {B : List UInt8} {t : Session}

/-- An output that takes up no sequence number. -/
theorem Delivering.emit (h : Delivering isn B t) {o : Output} (hwritten : written [o] = [])
    (hfin : o ≠ .countFin) (hallowed : Allowed isn B t.log o) :
  Delivering isn B { t with log := t.log ++ [o] }
  := by
  have hsame : written (t.log ++ [o]) = written t.log := by
    rw [written_append, hwritten, List.append_nil]
  have hmem : .countFin ∈ t.log ++ [o] ↔ .countFin ∈ t.log := by
    rw [List.mem_append, List.mem_singleton, or_iff_left hfin.symm]
  have hnext : nextSeq isn (t.log ++ [o]) = nextSeq isn t.log := by
    rw [nextSeq, nextSeq, hsame, finCount, finCount, if_congr hmem rfl rfl]
  refine ⟨h.up, h.closed, h.socket, ?_, ?_, ?_, ?_⟩
  · dsimp only
    rw [hnext, h.clientNext]
  · dsimp only
    rw [hsame]
    exact h.delivered
  · intro hcounted
    dsimp only
    rw [hsame]
    exact h.complete (hmem.mp hcounted)
  · exact (Log.along_concat _ _).mpr ⟨h.allowed, hallowed⟩

/-- The next bytes of the stream. -/
theorem Delivering.write (h : Delivering isn B t) {data : List UInt8}
    (hdata : written t.log ++ data <+: B) (hfin : .countFin ∉ t.log) :
  Delivering isn B ⟨t.bridge.advance data.length, t.log ++ [.write data]⟩
  := by
  have hnext : nextSeq isn (t.log ++ [.write data]) =
      nextSeq isn t.log + BitVec.ofNat 32 data.length := by
    rw [nextSeq, nextSeq, written_append, written_write, List.length_append, finCount_of_not_mem hfin,
      finCount_of_not_mem (by simpa using hfin), Nat.add_zero, Nat.add_zero, BitVec.ofNat_add,
      ← BitVec.add_assoc]
  refine ⟨h.up, h.closed, h.socket, ?_, ?_, ?_, ?_⟩
  · dsimp only [TcpBridge.advance]
    rw [hnext, h.clientNext]
  · simpa using hdata
  · intro hmem
    exact absurd (by simpa using hmem) hfin
  · exact (Log.along_concat _ _).mpr ⟨h.allowed, hdata⟩

/-- The `FIN` at the end of the stream. -/
theorem Delivering.countFin (h : Delivering isn B t) (hall : written t.log = B)
    (hfin : .countFin ∉ t.log) :
  Delivering isn B ⟨t.bridge.advance 1, t.log ++ [.countFin]⟩
  := by
  have hnext : nextSeq isn (t.log ++ [.countFin]) = nextSeq isn t.log + BitVec.ofNat 32 1 := by
    rw [nextSeq, nextSeq, written_append, written_countFin, List.append_nil,
      finCount_of_not_mem hfin, finCount_of_mem (by simp), BitVec.ofNat_add, ← BitVec.add_assoc]
    rfl
  refine ⟨h.up, h.closed, h.socket, ?_, ?_, ?_, ?_⟩
  · dsimp only [TcpBridge.advance]
    rw [hnext, h.clientNext]
  · simp [hall]
  · intro _
    simpa using hall
  · exact (Log.along_concat _ _).mpr ⟨h.allowed, hall, hfin⟩

/-- The outputs of `ackClient`. -/
theorem Delivering.ackClient (h : Delivering isn B t) :
  Delivering isn B { t with log := t.log ++ t.bridge.ackClient }
  := by
  rw [TcpBridge.ackClient, h.up, h.closed]
  exact h.emit rfl nofun h.clientNext

/-- The outputs of `onClientFin`. -/
theorem Delivering.onClientFin (h : Delivering isn B t) :
  Delivering isn B { t with log := t.log ++ t.bridge.onClientFin }
  := by
  rw [TcpBridge.onClientFin, h.socket]
  exact h.emit rfl nofun trivial

end Outputs

/-! ### The steps keep delivering -/

section Steps

variable {isn : BitVec 32} {B : List UInt8} {t : Session} {s : Segment}

/-- The counter is at a place of the stream only if it is behind the bytes delivered and the `FIN`
has not been counted. -/
theorem Delivering.place_eq (h : Delivering isn B t) (hB : B.length < 2 ^ 31) {n : ℕ}
    (hn : n ≤ B.length) (heq : isn + 1 + BitVec.ofNat 32 n = t.bridge.clientNext) :
  n = (written t.log).length ∧ .countFin ∉ t.log
  := by
  have hlength := h.delivered.length_le
  have hcount : n = (written t.log).length + finCount t.log := by
    rw [h.clientNext, nextSeq] at heq
    apply (seq_inj _ _).mp heq
    · omega
    · rw [finCount]
      split_ifs <;> omega
  have hfin : .countFin ∉ t.log := by
    intro hmem
    rw [h.complete hmem, finCount_of_mem hmem] at hcount
    omega
  rw [finCount_of_not_mem hfin, Nat.add_zero] at hcount
  exact ⟨hcount, hfin⟩

/-- A segment that starts where the counter is has the bytes after the ones delivered. -/
theorem Delivering.next_of_seq_eq (h : Delivering isn B t) (hB : B.length < 2 ^ 31) {o : ℕ}
    (hseq : s.seq = isn + 1 + BitVec.ofNat 32 o) (hend : o + s.payload.length ≤ B.length)
    (hpart : s.payload = (B.drop o).take s.payload.length) (heq : s.seq = t.bridge.clientNext) :
  written t.log ++ s.payload <+: B ∧ .countFin ∉ t.log
  := by
  obtain ⟨hcount, hfin⟩ := h.place_eq hB (by omega) (hseq.symm.trans heq)
  refine ⟨?_, hfin⟩
  have htake : written t.log = B.take o := by
    rw [hcount]
    apply List.prefix_iff_eq_take.mp h.delivered
  rw [hpart, htake, ← List.take_add]
  apply List.take_prefix

/-- A segment whose end is where the counter is finds the whole stream delivered. -/
theorem Delivering.complete_of_end (h : Delivering isn B t) (hB : B.length < 2 ^ 31) {n : ℕ}
    (hn : n = B.length) (heq : isn + 1 + BitVec.ofNat 32 n = t.bridge.clientNext) :
  written t.log = B ∧ .countFin ∉ t.log
  := by
  obtain ⟨hcount, hfin⟩ := h.place_eq hB hn.le heq
  refine ⟨?_, hfin⟩
  apply h.delivered.eq_of_length
  rw [← hcount, hn]

theorem Delivering.onPayload (h : Delivering isn B t) (hB : B.length < 2 ^ 31)
    (hs : s.OfStream isn B) (returns : Bool) :
  Delivering isn B (t.after (t.bridge.onPayload s returns))
  := by
  obtain ⟨⟨hpayload, heq, -⟩, hresult⟩ | ⟨-, hresult⟩ := t.bridge.onPayload_cases s returns
  · obtain ⟨-, -, ⟨hnil, -⟩ | ⟨o, hseq, hend, hpart, -⟩⟩ := hs
    · exact absurd hnil hpayload
    obtain ⟨hnext, hfin⟩ := h.next_of_seq_eq hB hseq hend hpart heq
    have hwritten := (h.write hnext hfin).ackClient
    rw [hresult]
    simpa [Session.after] using hwritten
  · rw [hresult]
    split_ifs
    · simpa [Session.after] using h
    · apply h.ackClient

theorem Delivering.onFin (h : Delivering isn B t) (hB : B.length < 2 ^ 31)
    (hs : s.OfStream isn B) :
  Delivering isn B (t.after (t.bridge.onFin s))
  := by
  obtain ⟨-, hresult⟩ | ⟨hfin, hcounts, hresult⟩ | ⟨-, -, hresult⟩ := t.bridge.onFin_cases s
  · rw [hresult]
    simpa [Session.after] using h
  · obtain ⟨-, -, ⟨-, hnot⟩ | ⟨o, hseq, -, -, hend⟩⟩ := hs
    · rw [hfin] at hnot
      cases hnot
    have heq : isn + 1 + BitVec.ofNat 32 (o + s.payload.length) = t.bridge.clientNext := by
      rw [BitVec.ofNat_add, ← BitVec.add_assoc, ← hseq, ← t.bridge.countsFin_iff]
      apply hcounts
    obtain ⟨hall, hnot⟩ := h.complete_of_end hB (hend hfin) heq
    have hcounted := (h.countFin hall hnot).ackClient.onClientFin
    rw [hresult]
    simpa [Session.after] using hcounted
  · have hacked := h.ackClient.onClientFin
    rw [hresult]
    simpa [Session.after] using hacked

/-- A packet without a segment changes nothing. -/
theorem onTcp_of_parse_eq_none {b : TcpBridge} {packet : List UInt8}
    (hparse : Segment.parse packet = none) (returns : Bool) :
  b.onTcp packet returns = (b, [])
  := by
  rw [TcpBridge.onTcp, hparse]

/-- A packet of an established flow is handled in two parts. -/
theorem onTcp_of_up {b : TcpBridge} (hup : b.up = true) {packet : List UInt8}
    (hparse : Segment.parse packet = some s) (hrst : s.rst = false) (returns : Bool) :
  b.onTcp packet returns =
    (((b.onPayload s returns).1.onFin s).1,
      (b.onPayload s returns).2 ++ ((b.onPayload s returns).1.onFin s).2)
  := by
  rw [TcpBridge.onTcp, hparse]
  simp [hrst, hup]

/-- A packet of the stream is delivered or not, in any order. -/
theorem delivering_step (hB : B.length < 2 ^ 31) {a : Arrival} (h : Delivering isn B t)
    (ha : a.OfStream isn B) {t' : Session} (hstep : step t a = some t') :
  Delivering isn B t'
  := by
  obtain rfl := Option.some.inj hstep
  cases hparse : Segment.parse a.packet with
  | none =>
      rw [onTcp_of_parse_eq_none hparse]
      simpa [Session.after] using h
  | some s =>
      have hs := ha s hparse
      have hfin := (h.onPayload hB hs a.returns).onFin hB hs
      rw [onTcp_of_up h.up hparse hs.2.1]
      simpa [Session.after] using hfin

end Steps

/-- The bytes of a client are delivered once and in order: for every order of the packets, with
duplicates, overlaps and gaps, if all writes return, what is written is a prefix of the stream,
every acknowledgement carries the number after it, and the `FIN` is counted at most once, when the
whole stream is written. -/
theorem delivers_in_order (isn : BitVec 32) (B : List UInt8) (hB : B.length < 2 ^ 31)
    (b : TcpBridge) (hb : b.Established isn) (as : List Arrival)
    (has : ∀ a ∈ as, a.OfStream isn B ∧ a.returns = true) (t : Session)
    (hrun : Run.exec step ⟨b, []⟩ as = some t) :
  written t.log <+: B ∧
    (∀ pre seq ack post, t.log = pre ++ .ack seq ack :: post →
      ack = isn + 1 + BitVec.ofNat 32 ((written pre).length + if .countFin ∈ pre then 1 else 0)) ∧
    (∀ pre post, t.log = pre ++ .countFin :: post → written pre = B ∧ .countFin ∉ pre)
  := by
  have hinit : Delivering isn B ⟨b, []⟩ := by
    refine ⟨hb.up, hb.closed, hb.socket, ?_, List.nil_prefix, nofun, trivial⟩
    rw [hb.clientNext]
    simp [nextSeq, written, finCount]
  have hmeets : Run.Meets step (fun _ a => a.OfStream isn B) ⟨b, []⟩ as := by
    rw [Run.meets_iff]
    rintro pre a post s rfl -
    apply (has a (by simp)).1
  have hdelivering : Delivering isn B t :=
    Run.invariant_of_meets (fun _ _ _ h ha hstep => delivering_step hB h ha hstep) hinit hmeets hrun
  refine ⟨hdelivering.delivered, ?_, ?_⟩
  · intro pre seq ack post hlog
    have hallowed := hdelivering.allowed
    rw [hlog] at hallowed
    apply hallowed.at
  · intro pre post hlog
    have hallowed := hdelivering.allowed
    rw [hlog] at hallowed
    apply hallowed.at

/-- A TCP header without options, and a payload. -/
def tcpPacket (seq : List UInt8) (flags : UInt8) (payload : List UInt8) : List UInt8 :=
  [0x9c, 0x40, 0x01, 0xbb] ++ seq ++ [0, 0, 0, 0, 0x50, flags, 0xff, 0xff, 0, 0, 0, 0] ++ payload

/-- A bridge that is connected, with a sequence number that wraps around soon. -/
def sampleBridge : TcpBridge where
  clientIsn := 0xfffffffe
  clientNext := 0xffffffff
  serverNext := 1
  up := true
  socket := true

/-- The end of the stream `[1, 2, 3]`, with a `FIN`. -/
def lastPacket : Arrival := { packet := tcpPacket [0, 0, 0, 1] 0x11 [3] }

/-- The end of the stream, without the `FIN`. -/
def latePacket : Arrival := { packet := tcpPacket [0, 0, 0, 1] 0x10 [3] }

/-- The beginning of the stream. -/
def firstPacket : Arrival := { packet := tcpPacket [0xff, 0xff, 0xff, 0xff] 0x10 [1, 2] }

theorem established_sampleBridge :
  sampleBridge.Established 0xfffffffe
  := by
  constructor <;> rfl

theorem ofStream_lastPacket :
  lastPacket.OfStream 0xfffffffe [1, 2, 3]
  := by
  intro s hs
  obtain rfl : (⟨false, true, true, false, 1, [3]⟩ : Segment) = s := by
    apply Option.some.inj
    rw [← hs]
    decide
  refine ⟨rfl, rfl, Or.inr ⟨2, ?_⟩⟩
  decide

theorem ofStream_latePacket :
  latePacket.OfStream 0xfffffffe [1, 2, 3]
  := by
  intro s hs
  obtain rfl : (⟨false, true, false, false, 1, [3]⟩ : Segment) = s := by
    apply Option.some.inj
    rw [← hs]
    decide
  refine ⟨rfl, rfl, Or.inr ⟨2, ?_⟩⟩
  decide

theorem ofStream_firstPacket :
  firstPacket.OfStream 0xfffffffe [1, 2, 3]
  := by
  intro s hs
  obtain rfl : (⟨false, true, false, false, 0xffffffff, [1, 2]⟩ : Segment) = s := by
    apply Option.some.inj
    rw [← hs]
    decide
  refine ⟨rfl, rfl, Or.inr ⟨0, ?_⟩⟩
  decide

/-- A stream whose end comes first, and again after the beginning. -/
theorem delivers_reordered :
  ∃ t, Run.exec step ⟨sampleBridge, []⟩ [latePacket, firstPacket, firstPacket, lastPacket] = some t ∧
    written t.log = [1, 2, 3] ∧
    ∀ pre seq ack post, t.log = pre ++ .ack seq ack :: post →
      ack = 0xfffffffe + 1 +
        BitVec.ofNat 32 ((written pre).length + if .countFin ∈ pre then 1 else 0)
  := by
  refine ⟨_, rfl, by decide, ?_⟩
  apply (delivers_in_order 0xfffffffe [1, 2, 3] (by decide) sampleBridge established_sampleBridge
    [latePacket, firstPacket, firstPacket, lastPacket] _ _ rfl).2.1
  rw [List.forall_mem_cons, List.forall_mem_cons, List.forall_mem_cons, List.forall_mem_singleton]
  exact ⟨⟨ofStream_latePacket, rfl⟩, ⟨ofStream_firstPacket, rfl⟩, ⟨ofStream_firstPacket, rfl⟩,
    ofStream_lastPacket, rfl⟩

/-! ### Closing the output -/

/-- The output is shut down only after all bytes of `B`. -/
def ShutsComplete (B : List UInt8) (pre : List Output) : Output → Prop
  | .shutdownOutput => written pre = B
  | _ => True

/-- If the packet has a `FIN`, then the bytes written before, with its payload if that is accepted,
are all bytes of `B`. -/
def Completes (B : List UInt8) (t : Session) (a : Arrival) : Prop :=
  ∀ s ∈ Segment.parse a.packet, s.fin = true →
    written t.log ++ (if t.bridge.Accepts s a.returns then s.payload else []) = B

instance (B : List UInt8) (t : Session) (a : Arrival) : Decidable (Completes B t a) :=
  inferInstanceAs (Decidable (∀ s ∈ Segment.parse a.packet, s.fin = true → _ = _))

section Shutdown

variable {B : List UInt8} {b : TcpBridge} {s : Segment}

theorem shutsComplete_ackClient (b : TcpBridge) :
  ∀ o ∈ b.ackClient, ∀ pre, ShutsComplete B pre o
  := by
  rw [TcpBridge.ackClient]
  split_ifs
  · intro o ho
    cases ho
  · intro o ho pre
    obtain rfl := List.mem_singleton.mp ho
    trivial

theorem written_ackClient (b : TcpBridge) :
  written b.ackClient = []
  := by
  rw [TcpBridge.ackClient]
  split_ifs <;> rfl

/-- The payload part does not shut the output down, and writes what is accepted. -/
theorem onPayload_quiet (b : TcpBridge) (s : Segment) (returns : Bool) (pre : List Output) :
  Log.AlongFrom (ShutsComplete B) pre (b.onPayload s returns).2 ∧
    (b.Accepts s returns ∧ written (b.onPayload s returns).2 = s.payload ∨
      ¬ b.Accepts s returns ∧ written (b.onPayload s returns).2 = [])
  := by
  obtain ⟨haccepts, hresult⟩ | ⟨hnot, hresult⟩ := b.onPayload_cases s returns
  · rw [hresult]
    constructor
    · exact ⟨trivial, Log.alongFrom_of_forall (shutsComplete_ackClient _) _⟩
    · left
      refine ⟨haccepts, ?_⟩
      change s.payload ++ written (TcpBridge.ackClient _) = _
      rw [written_ackClient, List.append_nil]
  · rw [hresult]
    split_ifs
    · exact ⟨trivial, Or.inr ⟨hnot, rfl⟩⟩
    · exact ⟨Log.alongFrom_of_forall (shutsComplete_ackClient _) _,
        Or.inr ⟨hnot, written_ackClient _⟩⟩

/-- The part for the `FIN` shuts the output down. -/
theorem onFin_shuts (hb : b.socket = true) (pre : List Output) :
  Log.AlongFrom (ShutsComplete B) pre (b.onFin s).2 ↔ (s.fin = true → written pre = B)
  := by
  have hshut : ∀ c : TcpBridge, c.socket = true → ∀ base : List Output,
      Log.AlongFrom (ShutsComplete B) base (c.ackClient ++ c.onClientFin) ↔ written base = B := by
    intro c hc base
    have hquiet : Log.AlongFrom (ShutsComplete B) base c.ackClient :=
      Log.alongFrom_of_forall (shutsComplete_ackClient _) _
    rw [Log.alongFrom_append, and_iff_right hquiet, TcpBridge.onClientFin, hc]
    change written (base ++ c.ackClient) = B ∧ True ↔ _
    rw [and_true, written_append, written_ackClient, List.append_nil]
  obtain ⟨hfin, hresult⟩ | ⟨hfin, -, hresult⟩ | ⟨hfin, -, hresult⟩ := b.onFin_cases s
  · rw [hresult, hfin]
    exact iff_of_true trivial nofun
  · rw [hresult, hfin]
    change True ∧ _ ↔ _
    rw [true_and, hshut (b.advance 1) hb, written_append, written_countFin, List.append_nil]
    simp
  · rw [hresult, hfin, hshut b hb]
    simp

/-- The bridge is connected. -/
def Open (t : Session) : Prop :=
  t.bridge.up = true ∧ t.bridge.socket = true

theorem advance_open {n : ℕ} (hb : b.up = true ∧ b.socket = true) :
  (b.advance n).up = true ∧ (b.advance n).socket = true
  := hb

theorem onPayload_open (hb : b.up = true ∧ b.socket = true) (returns : Bool) :
  (b.onPayload s returns).1.up = true ∧ (b.onPayload s returns).1.socket = true
  := by
  obtain ⟨-, hresult⟩ | ⟨-, hresult⟩ := b.onPayload_cases s returns <;> rw [hresult]
  · apply advance_open hb
  · apply hb

theorem onFin_open (hb : b.up = true ∧ b.socket = true) :
  (b.onFin s).1.up = true ∧ (b.onFin s).1.socket = true
  := by
  obtain ⟨-, hresult⟩ | ⟨-, -, hresult⟩ | ⟨-, -, hresult⟩ := b.onFin_cases s <;> rw [hresult]
  · apply hb
  · apply advance_open hb
  · apply hb

variable {isn : BitVec 32} {t t' : Session} {a : Arrival}

theorem open_step (ht : Open t) (ha : a.OfStream isn B) (h : step t a = some t') :
  Open t'
  := by
  obtain rfl := Option.some.inj h
  cases hparse : Segment.parse a.packet with
  | none =>
      rw [Open, Session.after, onTcp_of_parse_eq_none hparse]
      apply ht
  | some s =>
      rw [Open, Session.after, onTcp_of_up ht.1 hparse (ha s hparse).2.1]
      apply onFin_open (onPayload_open ht a.returns)

/-- A packet shuts the output down early exactly if it does not complete the stream. -/
theorem shutsComplete_step (ht : Open t) (ha : a.OfStream isn B) (h : step t a = some t') :
  Log.Along (ShutsComplete B) t'.log ↔ Log.Along (ShutsComplete B) t.log ∧ Completes B t a
  := by
  obtain rfl := Option.some.inj h
  cases hparse : Segment.parse a.packet with
  | none =>
      simp [Session.after, onTcp_of_parse_eq_none hparse, Completes, hparse]
  | some s =>
      obtain ⟨hquiet, hwritten⟩ := onPayload_quiet (B := B) t.bridge s a.returns t.log
      have hsocket := (onPayload_open (s := s) ht a.returns).2
      have hcompletes : Completes B t a ↔
          (s.fin = true → written (t.log ++ (t.bridge.onPayload s a.returns).2) = B) := by
        rw [Completes, hparse]
        simp only [Option.mem_def, Option.some.injEq, forall_eq', written_append]
        obtain ⟨haccepts, hpayload⟩ | ⟨hnot, hnone⟩ := hwritten
        · simp [haccepts, hpayload]
        · simp [hnot, hnone]
      rw [Session.after, onTcp_of_up ht.1 hparse (ha s hparse).2.1, hcompletes]
      dsimp only
      rw [Log.along_append, Log.alongFrom_append, and_iff_right hquiet, onFin_shuts hsocket]

theorem along_shutsComplete {log : List Output} :
  Log.Along (ShutsComplete B) log ↔
    ∀ pre post, log = pre ++ .shutdownOutput :: post → written pre = B
  := by
  rw [Log.along_iff]
  constructor
  · intro h pre post hlog
    apply h pre .shutdownOutput post hlog
  · intro h pre o post hlog
    cases o with
    | shutdownOutput => apply h pre post hlog
    | _ => trivial

/-- The packets of a run shut the output down early exactly if one of them does not complete the
stream. -/
theorem shutsComplete_run {as : List Arrival} (ht : Open t) (has : ∀ a ∈ as, a.OfStream isn B)
    (hrun : Run.exec step t as = some t') :
  Log.Along (ShutsComplete B) t'.log ↔
    Log.Along (ShutsComplete B) t.log ∧ Run.Meets step (Completes B) t as
  := by
  induction as generalizing t with
  | nil =>
      obtain rfl := Option.some.inj hrun
      rw [Run.Meets, and_true]
  | cons a as ih =>
      obtain ⟨r, hr, hrun'⟩ := (Run.exec_cons_eq_some _).mp hrun
      have ha := has a List.mem_cons_self
      rw [ih (open_step ht ha hr) (fun c hc => has c (List.mem_cons_of_mem a hc)) hrun',
        shutsComplete_step ht ha hr, and_assoc, Run.Meets]
      simp [hr]

end Shutdown

/-- For every order of the packets of a stream and every outcome of the writes, the output of the
remote socket is shut down only after all bytes of the stream, exactly if every packet with a `FIN`
completes it. -/
theorem shutsComplete_iff (isn : BitVec 32) (B : List UInt8) (b : TcpBridge)
    (hb : b.Established isn) (as : List Arrival) (has : ∀ a ∈ as, a.OfStream isn B) (t : Session)
    (hrun : Run.exec step ⟨b, []⟩ as = some t) :
  (∀ pre post, t.log = pre ++ .shutdownOutput :: post → written pre = B) ↔
    Run.Meets step (Completes B) ⟨b, []⟩ as
  := by
  rw [← along_shutsComplete, shutsComplete_run ⟨hb.up, hb.socket⟩ has hrun]
  apply and_iff_right
  trivial

/-- A `FIN` that comes before the beginning of the stream shuts the output down. -/
theorem not_shutsComplete_reordered :
  lastPacket.OfStream 0xfffffffe [1, 2, 3] ∧
    ∃ t, Run.exec step ⟨sampleBridge, []⟩ [lastPacket] = some t ∧
      ¬ ∀ pre post, t.log = pre ++ .shutdownOutput :: post → written pre = [1, 2, 3]
  := by
  refine ⟨ofStream_lastPacket, _, rfl, ?_⟩
  intro h
  have hearly := h [.ack 1 0xffffffff, .ack 1 0xffffffff] [] (by decide)
  revert hearly
  decide

/-- A stream in order is complete when the output is shut down. -/
theorem shutsComplete_inOrder :
  ∃ t, Run.exec step ⟨sampleBridge, []⟩ [firstPacket, lastPacket] = some t ∧
    ∀ pre post, t.log = pre ++ .shutdownOutput :: post → written pre = [1, 2, 3]
  := by
  have has : ∀ a ∈ [firstPacket, lastPacket], a.OfStream 0xfffffffe [1, 2, 3] := by
    rw [List.forall_mem_cons, List.forall_mem_singleton]
    exact ⟨ofStream_firstPacket, ofStream_lastPacket⟩
  refine ⟨_, rfl, ?_⟩
  apply (shutsComplete_iff 0xfffffffe [1, 2, 3] sampleBridge established_sampleBridge
    [firstPacket, lastPacket] has _ rfl).mpr
  decide

end Tun
