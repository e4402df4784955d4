import DtmaOne.Hev.RingBuffer
import DtmaOne.Library.Run
import Mathlib.Data.Int.Bitwise
import Mathlib.Data.List.Flatten

/-!
# The splice of a TCP session

A session of the tunnel carries the bytes of a connection of the device to a SOCKS5 server and back.
`TcpSession` is the task of `hev-socks5-session-tcp.c` with the connection of the network stack and
the socket of the server.  The task gives way when it waits for the mutex and between its rounds, so
that the handlers of the connection run between any two of its steps.

The bytes for the device are written without a copy: the network stack keeps the places of the bytes
in the ring buffer until the device acknowledges them, and reads them again when it repeats a segment.
-/

namespace Hev

open Circular

/-- `TCP_SND_BUF` -/
def tcpSndBuf : ℕ := 8 * 8191

/-- `TCP_WND` -/
def tcpWnd : ℕ := 8 * 8191

/-- The buffer size that the configuration gives for the value of `tcp-buffer-size`. -/
def tcpBufferSize (configured : ℕ) : ℕ := if tcpSndBuf < configured then tcpSndBuf else configured

/-- What a call of `readv` or `writev` returns. -/
inductive IoResult (β : Type) where
  | done (b : β)
  | again
  | failed

/-- The place of the task in `hev_socks5_session_tcp_splice`: before `tcp_splice_f`, at the lock in it
after `s` bytes have been written, before `tcp_splice_b`, at the lock in it with the result so far, at
the yielder, in the last loop, or after it. -/
inductive Pc where
  | forward
  | forwardLock (s : ℕ)
  | backward
  | backwardLock (res : ℤ)
  | yield
  | drain
  | finished
deriving DecidableEq

/-- The session, its connection and its socket. -/
structure TcpSession where
  pc : Pc
  queue : List (List UInt8)
  pcb : Bool
  pcbEof : Bool
  buffer : RingBuffer
  resF : ℤ
  resB : ℤ
  /-- The bytes that the connection has handed over. -/
  received : List UInt8
  /-- The bytes by which the window has been opened with `tcp_recved`. -/
  credit : ℕ
  /-- The places of the bytes that the connection has yet to see acknowledged. -/
  refs : List ℕ
  /-- The number of bytes that have been acknowledged. -/
  acked : ℕ
  /-- The connection has been shut down for sending. -/
  fin : Bool
  /-- The bytes that have been written to the socket. -/
  sent : List UInt8
  /-- The socket has been shut down for writing. -/
  shut : Bool
  /-- The bytes that have been read from the socket. -/
  read : List UInt8

namespace TcpSession

/-- The session when the splice begins. -/
def start (data : ℕ → UInt8) (configured : ℕ) : TcpSession where
  pc := .forward
  queue := []
  pcb := true
  pcbEof := false
  buffer := .alloca data (tcpBufferSize configured)
  resF := 1
  resB := 1
  received := []
  credit := 0
  refs := []
  acked := 0
  fin := false
  sent := []
  shut := false
  read := []

/-- `pbuf_free_header` -/
def freeHeader : List (List UInt8) → ℕ → List (List UInt8)
  | [], _ => []
  | p :: q, size =>
      if size = 0 then p :: q
      else if p.length ≤ size then freeHeader q (size - p.length)
      else p.drop size :: q

/-- The bytes of the vectors of `tcp_splice_f`, at most 64 of them. -/
def outgoing (self : TcpSession) : List UInt8 := (self.queue.take 64).flatten

/-- `tcp_splice_f` up to its lock. -/
def spliceF (self : TcpSession) (written : IoResult ℕ) : TcpSession :=
  if self.resF < 0 then { self with pc := .backward }
  else if self.queue = [] then
    if self.pcbEof then { self with resF := -1, shut := true, pc := .backward }
    else { self with resF := 0, pc := .backward }
  else
    match written with
    | .done s =>
        if s = 0 then { self with resF := -1, pc := .backward }
        else { self with sent := self.sent ++ self.outgoing.take s, pc := .forwardLock s }
    | .again => { self with resF := 0, pc := .backward }
    | .failed => { self with resF := -1, pc := .backward }

/-- The rest of `tcp_splice_f`; the lengths of the network stack have 16 bits. -/
def spliceFLocked (self : TcpSession) (s : ℕ) : TcpSession :=
  { self with
    queue := freeHeader self.queue (s % 65536)
    credit := if self.pcb then self.credit + s % 65536 else self.credit
    resF := 1
    pc := .backward }

/-- `tcp_splice_b` up to its lock. -/
def spliceB (self : TcpSession) (read : IoResult (List UInt8)) : TcpSession :=
  if self.resB < 0 then { self with pc := .yield }
  else if self.buffer.writing = [] then { self with pc := .backwardLock 0 }
  else
    match read with
    | .done bytes =>
        if bytes = [] then { self with pc := .backwardLock (-1) }
        else
          { self with
            buffer := (self.buffer.fill self.buffer.writing bytes).writeFinish bytes.length
            read := self.read ++ bytes
            pc := .backwardLock 1 }
    | .again => { self with pc := .backwardLock 0 }
    | .failed => { self with pc := .backwardLock (-1) }

/-- `tcp_write`, without a copy, on the places that the connection refers to; it is refused when the
send buffer has no room, and may be refused for other reasons. -/
def tcpWrite (refs : List ℕ) (iov : Iovec) (accept : Bool) : List ℕ × Bool :=
  if tcpSndBuf - refs.length < iov.len % 65536 ∨ accept = false then (refs, false)
  else (refs ++ List.range' iov.base (iov.len % 65536), true)

/-- The loop over the vectors; a missing answer counts as one that refuses. -/
def tcpWrites (refs : List ℕ) : List Iovec → List Bool → List ℕ × Bool
  | [], _ => (refs, true)
  | iov :: iovs, accepts =>
      let (refs, ok) := tcpWrite refs iov (accepts.headD false)
      let (refs, oks) := tcpWrites refs iovs accepts.tail
      (refs, ok && oks)

/-- The rest of `tcp_splice_b`. -/
def spliceBLocked (self : TcpSession) (res : ℤ) (accepts : List Bool) (output : Bool) :
    TcpSession :=
  if self.pcb then
    if self.buffer.reading ≠ [] then
      let (refs, ok) := tcpWrites self.refs self.buffer.reading accepts
      { self with
        refs := refs
        buffer := self.buffer.readFinish (self.buffer.reading.map Iovec.len).sum
        resB := if ok && output then 1 else -1
        pc := .yield }
    else { self with fin := self.fin || res < 0, resB := res, pc := .yield }
  else { self with resB := -1, pc := .yield }

/-- The yielder of the main loop, or the end of the loop. -/
def yielded (self : TcpSession) (alive : Bool) : TcpSession :=
  if 0 < self.resF ∨ 0 < self.resB ∨ Int.land self.resF self.resB = 0 then
    { self with pc := if alive then .forward else .drain }
  else { self with pc := .drain }

/-- A round of the last loop. -/
def drained (self : TcpSession) (alive : Bool) : TcpSession :=
  if self.pcb = false ∨ self.buffer.useSize = 0 ∨ alive = false then { self with pc := .finished }
  else self

/-- `tcp_recv_handler` -/
def recvHandler (self : TcpSession) (p : List (List UInt8)) : TcpSession :=
  if self.queue ≠ [] ∧ tcpWnd < self.queue.flatten.length then self
  else { self with queue := self.queue ++ p, received := self.received ++ p.flatten }

/-- `tcp_sent_handler` -/
def sentHandler (self : TcpSession) (len : ℕ) : TcpSession :=
  { self with
    refs := self.refs.drop len
    acked := self.acked + len
    buffer := self.buffer.readRelease len }

/-- What happens next: a step of the task, with the results of its calls, or a handler of the
connection. -/
inductive Event where
  | forward (written : IoResult ℕ)
  | forwardLocked
  | backward (read : IoResult (List UInt8))
  | backwardLocked (accepts : List Bool) (output : Bool)
  | yielded (alive : Bool)
  | drained (alive : Bool)
  | recv (p : List (List UInt8))
  | eof
  | acknowledged (len : ℕ)
  | err

/-- A step of the session. -/
def step (self : TcpSession) : Event → Option TcpSession
  | .forward written => if self.pc = .forward then some (self.spliceF written) else none
  | .forwardLocked =>
      match self.pc with
      | .forwardLock s => some (self.spliceFLocked s)
      | _ => none
  | .backward read => if self.pc = .backward then some (self.spliceB read) else none
  | .backwardLocked accepts output =>
      match self.pc with
      | .backwardLock res => some (self.spliceBLocked res accepts output)
      | _ => none
  | .yielded alive => if self.pc = .yield then some (self.yielded alive) else none
  | .drained alive => if self.pc = .drain then some (self.drained alive) else none
  | .recv p => if self.pcb ∧ ¬ self.pcbEof then some (self.recvHandler p) else none
  | .eof => if self.pcb then some { self with pcbEof := true } else none
  | .acknowledged len => if self.pcb then some (self.sentHandler len) else none
  | .err => if self.pcb then some { self with pcb := false } else none

/-- What the calls and the connection keep to on the way from the device to the server: no more bytes
are written than there are, and the connection hands over no more bytes than its window allows. -/
def DeviceLawful (self : TcpSession) : Event → Prop
  | .forward (.done s) => s ≤ self.outgoing.length
  | .recv p => self.received.length + p.flatten.length ≤ self.credit + tcpWnd
  | _ => True

/-- What they keep to on the way back: no more bytes are read than there is room for, and only bytes
that were sent are acknowledged. -/
def ServerLawful (self : TcpSession) : Event → Prop
  | .backward (.done bytes) => bytes.length ≤ (self.buffer.writing.map Iovec.len).sum
  | .acknowledged len => len ≤ self.refs.length
  | _ => True

/-- The connection accepts no vector after one that it has refused in the same call of `tcp_splice_b`,
which does not stop at a refusal. -/
def InOrder (self : TcpSession) : Event → Prop
  | .backwardLocked accepts _ =>
      self.pcb → (accepts.take self.buffer.reading.length).Pairwise fun a b => b = true → a = true
  | _ => True

instance DeviceLawful.decidable (self : TcpSession) : ∀ e, Decidable (self.DeviceLawful e)
  | .forward (.done s) => inferInstanceAs (Decidable (s ≤ self.outgoing.length))
  | .forward .again => isTrue trivial
  | .forward .failed => isTrue trivial
  | .recv p =>
      inferInstanceAs (Decidable (self.received.length + p.flatten.length ≤ self.credit + tcpWnd))
  | .forwardLocked => isTrue trivial
  | .backward _ => isTrue trivial
  | .backwardLocked _ _ => isTrue trivial
  | .yielded _ => isTrue trivial
  | .drained _ => isTrue trivial
  | .eof => isTrue trivial
  | .acknowledged _ => isTrue trivial
  | .err => isTrue trivial

instance ServerLawful.decidable (self : TcpSession) : ∀ e, Decidable (self.ServerLawful e)
  | .backward (.done bytes) =>
      inferInstanceAs (Decidable (bytes.length ≤ (self.buffer.writing.map Iovec.len).sum))
  | .backward .again => isTrue trivial
  | .backward .failed => isTrue trivial
  | .acknowledged len => inferInstanceAs (Decidable (len ≤ self.refs.length))
  | .forward _ => isTrue trivial
  | .forwardLocked => isTrue trivial
  | .backwardLocked _ _ => isTrue trivial
  | .yielded _ => isTrue trivial
  | .drained _ => isTrue trivial
  | .recv _ => isTrue trivial
  | .eof => isTrue trivial
  | .err => isTrue trivial

instance InOrder.decidable (self : TcpSession) : ∀ e, Decidable (self.InOrder e)
  | .backwardLocked accepts _ =>
      inferInstanceAs (Decidable (self.pcb →
        (accepts.take self.buffer.reading.length).Pairwise fun a b => b = true → a = true))
  | .forward _ => isTrue trivial
  | .forwardLocked => isTrue trivial
  | .backward _ => isTrue trivial
  | .yielded _ => isTrue trivial
  | .drained _ => isTrue trivial
  | .recv _ => isTrue trivial
  | .eof => isTrue trivial
  | .acknowledged _ => isTrue trivial
  | .err => isTrue trivial

/-! ### From the device to the server -/

/-- The bytes that have been written while the task waits at the lock of `tcp_splice_f`. -/
def pending (self : TcpSession) : ℕ :=
  match self.pc with
  | .forwardLock s => s
  | _ => 0

/-- No byte is lost, doubled or moved: what has been written and what still waits is what has been
received, and the window is as far open as bytes have been written. -/
structure Forwards (st : TcpSession) : Prop where
  pos : ∀ s, st.pc = .forwardLock s → 0 < s
  pending : st.pending ≤ st.queue.flatten.length
  stream : st.sent ++ st.queue.flatten.drop st.pending = st.received
  credit : st.credit + st.pending ≤ st.sent.length
  credit_eq : st.pcb → st.credit + st.pending = st.sent.length
  window : st.queue.flatten.length ≤ tcpWnd
  shut : st.shut → st.queue = [] ∧ st.pcbEof ∧ st.resF < 0

variable {self : TcpSession}

theorem flatten_freeHeader (q : List (List UInt8)) (size : ℕ) :
  (freeHeader q size).flatten = q.flatten.drop size
  := by
  induction q generalizing size with
  | nil => simp [freeHeader]
  | cons p q ih =>
      rw [freeHeader, List.flatten_cons]
      by_cases hzero : size = 0
      · rw [if_pos hzero, hzero]
        rfl
      · rw [if_neg hzero]
        by_cases hle : p.length ≤ size
        · rw [if_pos hle, ih, List.drop_append, List.drop_of_length_le hle, List.nil_append]
        · rw [if_neg hle, List.flatten_cons, List.drop_append_of_le_length (by omega)]

/-- The bytes of the vectors are the first ones of the queue. -/
theorem outgoing_prefix (self : TcpSession) :
  self.outgoing <+: self.queue.flatten
  := by
  conv_rhs => rw [← List.take_append_drop 64 self.queue, List.flatten_append]
  exact List.prefix_append _ _

/-- The steps that leave this direction alone. -/
theorem Forwards.congr {st : TcpSession} (h : self.Forwards)
    (hpc : ∀ s, st.pc = .forwardLock s ↔ self.pc = .forwardLock s) (hqueue : st.queue = self.queue)
    (hpcb : st.pcb → self.pcb) (heof : self.pcbEof → st.pcbEof)
    (hreceived : st.received = self.received)
    (hcredit : st.credit = self.credit) (hsent : st.sent = self.sent)
    (hshut : st.shut = self.shut) (hres : st.resF = self.resF) :
  st.Forwards
  := by
  have hpending : st.pending = self.pending := by
    cases hst : st.pc with
    | forwardLock s =>
        have hself := (hpc s).mp hst
        rw [TcpSession.pending, TcpSession.pending, hst, hself]
    | _ =>
        have hnot : ∀ s, self.pc ≠ .forwardLock s := by
          intro s hself
          rw [(hpc s).mpr hself] at hst
          cases hst
        rw [TcpSession.pending, TcpSession.pending, hst]
        cases hself : self.pc with
        | forwardLock s => exact absurd hself (hnot s)
        | _ => rfl
  constructor
  · intro s hs
    exact h.pos s ((hpc s).mp hs)
  · rw [hpending, hqueue]
    exact h.pending
  · rw [hpending, hqueue, hreceived, hsent]
    exact h.stream
  · rw [hcredit, hpending, hsent]
    exact h.credit
  · intro hst
    rw [hcredit, hpending, hsent]
    exact h.credit_eq (hpcb hst)
  · rw [hqueue]
    exact h.window
  · intro hst
    rw [hshut] at hst
    obtain ⟨hnil, hpcbEof, hneg⟩ := h.shut hst
    rw [hqueue, hres]
    exact ⟨hnil, heof hpcbEof, hneg⟩

/-- Where nothing is pending, the queue is the rest of what has been received. -/
theorem Forwards.of_not_lock {st : TcpSession} (hpc : ∀ s, st.pc ≠ .forwardLock s)
    (hstream : st.sent ++ st.queue.flatten = st.received) (hcredit : st.credit ≤ st.sent.length)
    (hcredit_eq : st.pcb → st.credit = st.sent.length) (hwindow : st.queue.flatten.length ≤ tcpWnd)
    (hshut : st.shut → st.queue = [] ∧ st.pcbEof ∧ st.resF < 0) :
  st.Forwards
  := by
  have hpending : st.pending = 0 := by
    rw [TcpSession.pending]
    cases hst : st.pc with
    | forwardLock s => exact absurd hst (hpc s)
    | _ => rfl
  constructor
  · intro s hs
    exact absurd hs (hpc s)
  · rw [hpending]
    exact Nat.zero_le _
  · rw [hpending]
    exact hstream
  · rw [hpending]
    exact hcredit
  · rw [hpending]
    exact hcredit_eq
  · exact hwindow
  · exact hshut

theorem Forwards.spliceF (h : self.Forwards) (hpc : self.pc = .forward) {written : IoResult ℕ}
    (hlawful : self.DeviceLawful (.forward written)) :
  (self.spliceF written).Forwards
  := by
  have hpending : self.pending = 0 := by rw [TcpSession.pending, hpc]
  have hstream := h.stream
  have hcredit := h.credit
  have hcredit_eq := h.credit_eq
  rw [hpending] at hstream hcredit hcredit_eq
  rw [List.drop_zero] at hstream
  unfold TcpSession.spliceF
  by_cases hneg : self.resF < 0
  · rw [if_pos hneg]
    exact .of_not_lock nofun hstream hcredit hcredit_eq h.window h.shut
  · have hopen : self.shut = false := by
      cases hshut : self.shut with
      | false => rfl
      | true => exact absurd (h.shut hshut).2.2 hneg
    have hvoid : ∀ p : Prop, self.shut = true → p := by
      intro p hp
      rw [hopen] at hp
      cases hp
    rw [if_neg hneg]
    by_cases hnil : self.queue = []
    · rw [if_pos hnil]
      by_cases heof : self.pcbEof
      · rw [if_pos heof]
        exact .of_not_lock nofun hstream hcredit hcredit_eq h.window
          fun _ => ⟨hnil, heof, (by decide : (-1 : ℤ) < 0)⟩
      · rw [if_neg heof]
        exact .of_not_lock nofun hstream hcredit hcredit_eq h.window (hvoid _)
    · rw [if_neg hnil]
      cases written with
      | again => exact .of_not_lock nofun hstream hcredit hcredit_eq h.window (hvoid _)
      | failed => exact .of_not_lock nofun hstream hcredit hcredit_eq h.window (hvoid _)
      | done s =>
          dsimp only
          by_cases hzero : s = 0
          · rw [if_pos hzero]
            exact .of_not_lock nofun hstream hcredit hcredit_eq h.window (hvoid _)
          · rw [if_neg hzero]
            obtain ⟨rest, hrest⟩ := self.outgoing_prefix
            have hle : s ≤ self.outgoing.length := hlawful
            have htake : self.outgoing.take s = self.queue.flatten.take s := by
              rw [← hrest, List.take_append_of_le_length hle]
            have hlen : (self.outgoing.take s).length = s := List.length_take_of_le hle
            constructor
            · rintro _ ⟨⟩
              exact Nat.pos_of_ne_zero hzero
            · rw [← hrest, List.length_append]
              exact Nat.le_add_right_of_le hle
            · show self.sent ++ self.outgoing.take s ++ self.queue.flatten.drop s = self.received
              rw [htake, List.append_assoc, List.take_append_drop]
              exact hstream
            · show self.credit + s ≤ (self.sent ++ self.outgoing.take s).length
              rw [List.length_append, hlen]
              omega
            · intro hpcb
              show self.credit + s = (self.sent ++ self.outgoing.take s).length
              rw [List.length_append, hlen]
              have := hcredit_eq hpcb
              omega
            · exact h.window
            · exact hvoid _

/-- The lengths of the network stack are long enough for the bytes of a full window. -/
theorem Forwards.spliceFLocked (h : self.Forwards) {s : ℕ} (hpc : self.pc = .forwardLock s) :
  (self.spliceFLocked s).Forwards
  := by
  have hpending : self.pending = s := by rw [TcpSession.pending, hpc]
  have hle := h.pending
  have hwindow := h.window
  have hstream := h.stream
  have hcredit := h.credit
  have hcredit_eq := h.credit_eq
  rw [hpending] at hle hstream hcredit hcredit_eq
  have hmod : s % 65536 = s := Nat.mod_eq_of_lt (by rw [tcpWnd] at hwindow; omega)
  rw [TcpSession.spliceFLocked, hmod]
  apply Forwards.of_not_lock
  · exact nofun
  · rw [flatten_freeHeader]
    exact hstream
  · show (if self.pcb then self.credit + s else self.credit) ≤ self.sent.length
    split <;> omega
  · intro hpcb
    show (if self.pcb then self.credit + s else self.credit) = self.sent.length
    rw [if_pos hpcb]
    exact hcredit_eq hpcb
  · rw [flatten_freeHeader, List.length_drop]
    omega
  · intro hshut
    -- a socket that is shut down has nothing left to write
    obtain ⟨hnil, -⟩ := h.shut hshut
    have hpos := h.pos s hpc
    rw [hnil, List.flatten_nil, List.length_nil] at hle
    omega

theorem Forwards.recvHandler (h : self.Forwards) {p : List (List UInt8)} (hpcb : self.pcb)
    (heof : ¬ self.pcbEof) (hlawful : self.DeviceLawful (.recv p)) :
  (self.recvHandler p).Forwards
  := by
  have hwindow := h.window
  have hpending := h.pending
  have hcredit := h.credit_eq hpcb
  have hlength := congrArg List.length h.stream
  rw [List.length_append, List.length_drop] at hlength
  have hroom : self.received.length + p.flatten.length ≤ self.credit + tcpWnd := hlawful
  rw [TcpSession.recvHandler, if_neg (by omega)]
  constructor
  · exact h.pos
  · show self.pending ≤ (self.queue ++ p).flatten.length
    rw [List.flatten_append, List.length_append]
    omega
  · show self.sent ++ (self.queue ++ p).flatten.drop self.pending = self.received ++ p.flatten
    rw [List.flatten_append, List.drop_append_of_le_length hpending, ← List.append_assoc, h.stream]
  · exact h.credit
  · exact h.credit_eq
  · rw [List.flatten_append, List.length_append]
    omega
  · intro hshut
    exact absurd (h.shut hshut).2.1 heof

/-! ### From the server to the device -/

/-- The ring buffer holds the bytes that have been sent and not acknowledged, and then those that wait.
The first ones are in the places that the connection refers to, if it has been `ordered` and has
accepted no vector out of order, and in any case while this direction runs and after the device has
been told the end.  After a refusal some of the bytes it holds are not sent. -/
structure Backwards (ordered : Prop) (st : TcpSession) (b : ℕ) (held ready : List UInt8) : Prop where
  models : st.buffer.Models b held ready
  size : st.buffer.maxSize ≤ tcpSndBuf
  refs : ordered ∨ 0 ≤ st.resB ∨ st.fin → st.refs = cells st.buffer.maxSize b st.refs.length
  refs_le : st.refs.length ≤ held.length
  stream : st.read.drop st.acked = held ++ ready
  total : st.acked + held.length + ready.length = st.read.length
  refused : 0 ≤ st.resB → st.refs.length = held.length
  lock : ∀ res, st.pc = .backwardLock res → 0 ≤ st.resB
  fin : st.fin → ready = [] ∧ st.refs.length = held.length ∧ st.resB < 0

/-- The vectors cover as many bytes as wait. -/
theorem length_places (iovs : List Iovec) :
  (iovs.flatMap Iovec.places).length = (iovs.map Iovec.len).sum
  := by
  simp [List.length_flatMap, Iovec.places]

/-- A vector for which there is room is accepted or refused as a whole. -/
theorem tcpWrite_of_room {refs : List ℕ} {iov : Iovec} (hroom : refs.length + iov.len ≤ tcpSndBuf)
    (accept : Bool) :
  tcpWrite refs iov accept = if accept then (refs ++ iov.places, true) else (refs, false)
  := by
  have hmod : iov.len % 65536 = iov.len := Nat.mod_eq_of_lt (by rw [tcpSndBuf] at hroom; omega)
  cases accept with
  | true =>
      rw [tcpWrite, hmod, if_neg (by simp; omega)]
      rfl
  | false => exact if_pos (.inr rfl)

/-- The connection refers to no more places than those of the vectors. -/
theorem length_tcpWrites_le (refs : List ℕ) (iovs : List Iovec) (accepts : List Bool) :
  (tcpWrites refs iovs accepts).1.length ≤ refs.length + (iovs.map Iovec.len).sum
  := by
  induction iovs generalizing refs accepts with
  | nil => simp [tcpWrites]
  | cons iov iovs ih =>
      have hwrite : (tcpWrite refs iov (accepts.headD false)).1.length ≤ refs.length + iov.len := by
        have hmod := Nat.mod_le iov.len 65536
        rw [tcpWrite]
        split_ifs
        · exact Nat.le_add_right _ _
        · rw [List.length_append, List.length_range']
          omega
      have hrest := ih (tcpWrite refs iov (accepts.headD false)).1 accepts.tail
      rw [tcpWrites, List.map_cons, List.sum_cons]
      dsimp only
      omega

/-- If nothing is refused, then the connection refers to all places of the vectors. -/
theorem tcpWrites_accepted {refs : List ℕ} {iovs : List Iovec} {accepts : List Bool}
    (hroom : refs.length + (iovs.map Iovec.len).sum ≤ tcpSndBuf)
    (hok : (tcpWrites refs iovs accepts).2 = true) :
  (tcpWrites refs iovs accepts).1 = refs ++ iovs.flatMap Iovec.places
  := by
  induction iovs generalizing refs accepts with
  | nil => simp [tcpWrites]
  | cons iov iovs ih =>
      rw [List.map_cons, List.sum_cons] at hroom
      have hwrite : tcpWrite refs iov (accepts.headD false)
          = if accepts.headD false then (refs ++ iov.places, true) else (refs, false) :=
        tcpWrite_of_room (by omega) (accepts.headD false)
      rw [tcpWrites, hwrite] at hok ⊢
      cases haccept : accepts.headD false with
      | true =>
          rw [haccept] at hok
          have hlen : (refs ++ iov.places).length = refs.length + iov.len := by
            simp [Iovec.places]
          have hrest : (tcpWrites (refs ++ iov.places) iovs accepts.tail).1
              = refs ++ iov.places ++ iovs.flatMap Iovec.places :=
            ih (by rw [hlen]; omega) (by simpa using hok)
          rw [if_pos rfl]
          dsimp only
          rw [hrest, List.flatMap_cons, List.append_assoc]
      | false =>
          rw [haccept] at hok
          simp at hok

/-- Vectors that are refused are not referred to. -/
theorem tcpWrites_refused {refs : List ℕ} {iovs : List Iovec} {accepts : List Bool}
    (h : ∀ a ∈ accepts.take iovs.length, a = false) :
  (tcpWrites refs iovs accepts).1 = refs
  := by
  induction iovs generalizing accepts with
  | nil => rfl
  | cons iov iovs ih =>
      have hhead : accepts.headD false = false := by
        cases accepts with
        | nil => rfl
        | cons a _ => exact h a (by simp)
      have hwrite : tcpWrite refs iov (accepts.headD false) = (refs, false) := if_pos (.inr hhead)
      rw [tcpWrites, hwrite]
      apply ih
      intro a ha
      cases accepts with
      | nil => simp at ha
      | cons a' accepts =>
          apply h a
          rw [List.length_cons, List.take_succ_cons]
          exact List.mem_cons_of_mem a' ha

/-- If no vector is accepted after one that was refused, then the connection refers to the first
places of the vectors. -/
theorem tcpWrites_inOrder {refs : List ℕ} {iovs : List Iovec} {accepts : List Bool}
    (hroom : refs.length + (iovs.map Iovec.len).sum ≤ tcpSndBuf)
    (haccepts : (accepts.take iovs.length).Pairwise fun a b => b = true → a = true) :
  ∃ k ≤ (iovs.map Iovec.len).sum,
    (tcpWrites refs iovs accepts).1 = refs ++ (iovs.flatMap Iovec.places).take k
  := by
  induction iovs generalizing refs accepts with
  | nil => exact ⟨0, by simp [tcpWrites]⟩
  | cons iov iovs ih =>
      cases accepts with
      | nil =>
          refine ⟨0, Nat.zero_le _, ?_⟩
          rw [tcpWrites_refused (by simp), List.take_zero, List.append_nil]
      | cons a accepts =>
          rw [List.length_cons, List.take_succ_cons, List.pairwise_cons] at haccepts
          obtain ⟨hfirst, haccepts⟩ := haccepts
          rw [List.map_cons, List.sum_cons] at hroom ⊢
          cases a with
          | false =>
              have hrefused : ∀ a ∈ (false :: accepts).take (iov :: iovs).length, a = false := by
                rw [List.length_cons, List.take_succ_cons, List.forall_mem_cons]
                refine ⟨rfl, fun a ha => ?_⟩
                simpa using hfirst a ha
              refine ⟨0, Nat.zero_le _, ?_⟩
              rw [tcpWrites_refused hrefused, List.take_zero, List.append_nil]
          | true =>
              have hplaces : iov.places.length = iov.len := by simp [Iovec.places]
              have hwrite : tcpWrite refs iov true = (refs ++ iov.places, true) :=
                tcpWrite_of_room (by omega) true
              have hroom' : (refs ++ iov.places).length + (iovs.map Iovec.len).sum ≤ tcpSndBuf := by
                rw [List.length_append, hplaces]
                omega
              obtain ⟨k, hk, hrest⟩ := ih hroom' haccepts
              refine ⟨iov.len + k, by omega, ?_⟩
              rw [tcpWrites, List.headD_cons, hwrite, List.tail_cons]
              dsimp only
              rw [hrest, List.flatMap_cons, List.append_assoc, ← hplaces,
                List.take_length_add_append]

variable {ordered : Prop}

theorem Backwards.spliceB {b : ℕ} {held ready : List UInt8}
    (h : self.Backwards ordered b held ready) {read : IoResult (List UInt8)}
    (hlawful : self.ServerLawful (.backward read)) :
  ∃ ready', (self.spliceB read).Backwards ordered b held ready'
  := by
  unfold TcpSession.spliceB
  by_cases hneg : self.resB < 0
  · rw [if_pos hneg]
    exact ⟨ready, { h with lock := nofun }⟩
  · have hres : 0 ≤ self.resB := by omega
    rw [if_neg hneg]
    by_cases hfull : self.buffer.writing = []
    · rw [if_pos hfull]
      exact ⟨ready, { h with lock := fun _ _ => hres }⟩
    · rw [if_neg hfull]
      cases read with
      | again => exact ⟨ready, { h with lock := fun _ _ => hres }⟩
      | failed => exact ⟨ready, { h with lock := fun _ _ => hres }⟩
      | done bytes =>
          dsimp only
          by_cases hnil : bytes = []
          · rw [if_pos hnil]
            exact ⟨ready, { h with lock := fun _ _ => hres }⟩
          · rw [if_neg hnil]
            have hbytes : bytes.length ≤ self.buffer.maxSize - self.buffer.useSize := by
              have hle : bytes.length ≤ (self.buffer.writing.map Iovec.len).sum := hlawful
              rwa [← length_places, (RingBuffer.writing_spec h.models).1, length_cells] at hle
            have htotal := h.total
            exact ⟨ready ++ bytes, {
              models := RingBuffer.writeFinish_spec h.models hbytes
              size := h.size
              refs := h.refs
              refs_le := h.refs_le
              stream := by
                show (self.read ++ bytes).drop self.acked = held ++ (ready ++ bytes)
                rw [List.drop_append_of_le_length (by omega), h.stream, List.append_assoc]
              total := by
                simp only [List.length_append]
                omega
              refused := h.refused
              lock := fun _ _ => hres
              fin := fun hfin => absurd (h.fin hfin).2.2 hneg }⟩

/-- What is written refers to the next places, if it is written in order or if all of it is. -/
theorem Backwards.spliceBLocked {b : ℕ} {held ready : List UInt8}
    (h : self.Backwards ordered b held ready) {res : ℤ} (hpc : self.pc = .backwardLock res)
    {accepts : List Bool} {output : Bool}
    (hordered : ordered → self.InOrder (.backwardLocked accepts output)) :
  ∃ held' ready', (self.spliceBLocked res accepts output).Backwards ordered b held' ready'
  := by
  have hres := h.lock res hpc
  have hlength := h.refused hres
  have hrefs := h.refs (.inr (.inl hres))
  have hplaces := (RingBuffer.reading_spec h.models).1
  rw [TcpSession.spliceBLocked]
  by_cases hpcb : self.pcb
  · rw [if_pos hpcb]
    by_cases hreading : self.buffer.reading ≠ []
    · rw [if_pos hreading]
      have hsum : (self.buffer.reading.map Iovec.len).sum = ready.length := by
        rw [← length_places, hplaces, length_cells]
      have huse := h.models.use
      have hle := h.models.le
      have hsize := h.size
      have hroom : self.refs.length + (self.buffer.reading.map Iovec.len).sum ≤ tcpSndBuf := by
        omega
      have hmost := length_tcpWrites_le self.refs self.buffer.reading accepts
      have hall : (tcpWrites self.refs self.buffer.reading accepts).2 = true →
          (tcpWrites self.refs self.buffer.reading accepts).1
            = cells self.buffer.maxSize b (held.length + ready.length) := by
        intro hok
        rw [tcpWrites_accepted hroom hok, hplaces, cells_add, ← hlength, ← hrefs]
      have hsome : ordered → ∃ k, (tcpWrites self.refs self.buffer.reading accepts).1
          = cells self.buffer.maxSize b k := by
        intro ho
        obtain ⟨k, hk, hwrites⟩ := tcpWrites_inOrder hroom (hordered ho hpcb)
        rw [hsum] at hk
        refine ⟨held.length + k, ?_⟩
        rw [hwrites, hplaces, take_cells hk, cells_add, ← hlength, ← hrefs]
      have hmodels := RingBuffer.readFinish_spec h.models (le_refl ready.length)
      rw [List.take_length, List.drop_length] at hmodels
      have htotal := h.total
      generalize tcpWrites self.refs self.buffer.reading accepts = result at hmost hall hsome ⊢
      obtain ⟨refs', ok⟩ := result
      dsimp only at hmost hall hsome ⊢
      refine ⟨held ++ ready, [], ?_⟩
      constructor
      · rw [hsum]
        exact hmodels
      · exact h.size
      · rintro (ho | hok | hfin)
        · obtain ⟨k, hk⟩ := hsome ho
          have hrefs' : refs'.length = k := by rw [hk, length_cells]
          show refs' = cells self.buffer.maxSize b refs'.length
          rw [hrefs', hk]
        · dsimp only at hok ⊢
          cases ok with
          | true =>
              have hrefs' := hall rfl
              show refs' = cells self.buffer.maxSize b refs'.length
              rw [hrefs', length_cells]
          | false => exact absurd hok (by simp)
        · exact absurd (h.fin hfin).2.2 (by omega)
      · dsimp only
        rw [List.length_append]
        omega
      · rw [List.append_nil]
        exact h.stream
      · dsimp only
        rw [List.length_append, List.length_nil]
        omega
      · intro hok
        dsimp only at hok ⊢
        cases ok with
        | true => rw [hall rfl, length_cells, List.length_append]
        | false => exact absurd hok (by simp)
      · exact nofun
      · intro hfin
        exact absurd (h.fin hfin).2.2 (by omega)
    · rw [if_neg hreading]
      have hready : ready = [] := by
        rw [not_not.mp hreading] at hplaces
        have := congrArg List.length hplaces
        rw [length_cells] at this
        exact List.length_eq_zero_iff.mp this.symm
      refine ⟨held, ready, { h with
        lock := nofun
        refs := fun _ => hrefs
        refused := fun _ => hlength
        fin := ?_ }⟩
      intro hfin
      rw [Bool.or_eq_true, decide_eq_true_eq] at hfin
      obtain hfin | hneg := hfin
      · exact absurd (h.fin hfin).2.2 (by omega)
      · exact ⟨hready, hlength, hneg⟩
  · rw [if_neg hpcb]
    exact ⟨held, ready, { h with
      lock := nofun
      refs := fun _ => hrefs
      refused := fun _ => hlength
      fin := fun hfin => absurd (h.fin hfin).2.2 (by omega) }⟩

theorem Backwards.sentHandler {b : ℕ} {held ready : List UInt8}
    (h : self.Backwards ordered b held ready) {len : ℕ}
    (hlawful : self.ServerLawful (.acknowledged len)) :
  ∃ b' held', (self.sentHandler len).Backwards ordered b' held' ready
  := by
  have hlen : len ≤ self.refs.length := hlawful
  have hrefs_le := h.refs_le
  have htotal := h.total
  obtain ⟨b', hmodels, hcells⟩ := RingBuffer.readRelease_spec h.models (hlen.trans hrefs_le)
  have hdrop : (self.refs.drop len).length = self.refs.length - len := List.length_drop
  have hheld : (held.drop len).length = held.length - len := List.length_drop
  refine ⟨b', held.drop len, ?_⟩
  constructor
  · exact hmodels
  · show (self.buffer.readRelease len).maxSize ≤ tcpSndBuf
    rw [RingBuffer.maxSize_readRelease]
    exact h.size
  · intro hkept
    show self.refs.drop len
      = cells (self.buffer.readRelease len).maxSize b' (self.refs.drop len).length
    rw [RingBuffer.maxSize_readRelease, hdrop, hcells _ (by omega), ← drop_cells hlen,
      ← h.refs hkept]
  · show (self.refs.drop len).length ≤ _
    omega
  · show self.read.drop (self.acked + len) = _
    rw [← List.drop_drop, h.stream, List.drop_append_of_le_length (hlen.trans hrefs_le)]
  · show self.acked + len + _ + _ = self.read.length
    omega
  · intro hres
    have := h.refused hres
    show (self.refs.drop len).length = _
    omega
  · exact h.lock
  · intro hfin
    obtain ⟨hready, hall, hneg⟩ := h.fin hfin
    refine ⟨hready, ?_, hneg⟩
    show (self.refs.drop len).length = _
    omega

/-! ### Both directions -/

/-- The steps of the other direction, at a place that is not in `tcp_splice_f`. -/
theorem Forwards.spliceB (h : self.Forwards) (hpc : self.pc = .backward)
    (read : IoResult (List UInt8)) :
  (self.spliceB read).Forwards
  := by
  have hnot : ∀ s, self.pc ≠ .forwardLock s := by simp [hpc]
  unfold TcpSession.spliceB
  repeat' split
  all_goals
    exact h.congr (fun s => iff_of_false nofun (hnot s)) rfl id id rfl rfl rfl rfl rfl

theorem Forwards.spliceBLocked (h : self.Forwards) {res : ℤ} (hpc : self.pc = .backwardLock res)
    (accepts : List Bool) (output : Bool) :
  (self.spliceBLocked res accepts output).Forwards
  := by
  have hnot : ∀ s, self.pc ≠ .forwardLock s := by simp [hpc]
  unfold TcpSession.spliceBLocked
  repeat' split
  all_goals
    exact h.congr (fun s => iff_of_false nofun (hnot s)) rfl id id rfl rfl rfl rfl rfl

/-- The task goes from a place without a lock to another one. -/
theorem Forwards.setPc (h : self.Forwards) {pc : Pc} (hself : ∀ s, self.pc ≠ .forwardLock s)
    (hpc : ∀ s, pc ≠ .forwardLock s) :
  ({ self with pc := pc } : TcpSession).Forwards
  := h.congr (fun s => iff_of_false (hpc s) (hself s)) rfl id id rfl rfl rfl rfl rfl

theorem Forwards.yielded (h : self.Forwards) (hpc : self.pc = .yield) (alive : Bool) :
  (self.yielded alive).Forwards
  := by
  have hnot : ∀ s, self.pc ≠ .forwardLock s := by simp [hpc]
  rw [TcpSession.yielded]
  split
  · cases alive with
    | true => exact h.setPc hnot nofun
    | false => exact h.setPc hnot nofun
  · exact h.setPc hnot nofun

theorem Forwards.drained (h : self.Forwards) (hpc : self.pc = .drain) (alive : Bool) :
  (self.drained alive).Forwards
  := by
  have hnot : ∀ s, self.pc ≠ .forwardLock s := by simp [hpc]
  rw [TcpSession.drained]
  split
  · exact h.setPc hnot nofun
  · exact h

/-- A step keeps the stream from the device. -/
theorem forwards_step {st st' : TcpSession} {e : Event} (h : st.Forwards)
    (hlawful : st.DeviceLawful e) (hstep : st.step e = some st') :
  st'.Forwards
  := by
  cases e with
  | forward written =>
      obtain ⟨hpc, rfl⟩ := Option.ite_some_none_eq_some.mp hstep
      exact h.spliceF hpc hlawful
  | forwardLocked =>
      rw [step] at hstep
      split at hstep
      · obtain rfl := Option.some.inj hstep
        exact h.spliceFLocked ‹_›
      · cases hstep
  | backward read =>
      obtain ⟨hpc, rfl⟩ := Option.ite_some_none_eq_some.mp hstep
      exact h.spliceB hpc read
  | backwardLocked accepts output =>
      rw [step] at hstep
      split at hstep
      · obtain rfl := Option.some.inj hstep
        exact h.spliceBLocked ‹_› accepts output
      · cases hstep
  | yielded alive =>
      obtain ⟨hpc, rfl⟩ := Option.ite_some_none_eq_some.mp hstep
      exact h.yielded hpc alive
  | drained alive =>
      obtain ⟨hpc, rfl⟩ := Option.ite_some_none_eq_some.mp hstep
      exact h.drained hpc alive
  | recv p =>
      obtain ⟨⟨hpcb, heof⟩, rfl⟩ := Option.ite_some_none_eq_some.mp hstep
      exact h.recvHandler hpcb heof hlawful
  | eof =>
      obtain ⟨-, rfl⟩ := Option.ite_some_none_eq_some.mp hstep
      exact h.congr (fun _ => .rfl) rfl id (fun _ => rfl) rfl rfl rfl rfl rfl
  | acknowledged len =>
      obtain ⟨-, rfl⟩ := Option.ite_some_none_eq_some.mp hstep
      exact h.congr (fun _ => .rfl) rfl id id rfl rfl rfl rfl rfl
  | err =>
      obtain ⟨-, rfl⟩ := Option.ite_some_none_eq_some.mp hstep
      exact h.congr (fun _ => .rfl) rfl nofun id rfl rfl rfl rfl rfl

theorem Backwards.spliceF {b : ℕ} {held ready : List UInt8} (h : self.Backwards ordered b held ready)
    (written : IoResult ℕ) :
  (self.spliceF written).Backwards ordered b held ready
  := by
  unfold TcpSession.spliceF
  repeat' split
  all_goals exact { h with lock := nofun }

theorem Backwards.yielded {b : ℕ} {held ready : List UInt8}
    (h : self.Backwards ordered b held ready) (alive : Bool) :
  (self.yielded alive).Backwards ordered b held ready
  := by
  rw [TcpSession.yielded]
  split
  · cases alive with
    | true => exact { h with lock := nofun }
    | false => exact { h with lock := nofun }
  · exact { h with lock := nofun }

theorem Backwards.drained {b : ℕ} {held ready : List UInt8}
    (h : self.Backwards ordered b held ready) (alive : Bool) :
  (self.drained alive).Backwards ordered b held ready
  := by
  rw [TcpSession.drained]
  split
  · exact { h with lock := nofun }
  · exact h

/-- A step keeps the stream from the server. -/
theorem backwards_step {st st' : TcpSession} {e : Event}
    (h : ∃ b held ready, st.Backwards ordered b held ready) (hlawful : st.ServerLawful e)
    (hordered : ordered → st.InOrder e) (hstep : st.step e = some st') :
  ∃ b held ready, st'.Backwards ordered b held ready
  := by
  obtain ⟨b, held, ready, h⟩ := h
  cases e with
  | forward written =>
      obtain ⟨-, rfl⟩ := Option.ite_some_none_eq_some.mp hstep
      exact ⟨b, held, ready, h.spliceF written⟩
  | forwardLocked =>
      rw [step] at hstep
      split at hstep
      · obtain rfl := Option.some.inj hstep
        exact ⟨b, held, ready, { h with lock := nofun }⟩
      · cases hstep
  | backward read =>
      obtain ⟨-, rfl⟩ := Option.ite_some_none_eq_some.mp hstep
      exact ⟨b, held, h.spliceB hlawful⟩
  | backwardLocked accepts output =>
      rw [step] at hstep
      split at hstep
      · obtain rfl := Option.some.inj hstep
        exact ⟨b, h.spliceBLocked ‹_› hordered⟩
      · cases hstep
  | yielded alive =>
      obtain ⟨-, rfl⟩ := Option.ite_some_none_eq_some.mp hstep
      exact ⟨b, held, ready, h.yielded alive⟩
  | drained alive =>
      obtain ⟨-, rfl⟩ := Option.ite_some_none_eq_some.mp hstep
      exact ⟨b, held, ready, h.drained alive⟩
  | recv p =>
      obtain ⟨-, rfl⟩ := Option.ite_some_none_eq_some.mp hstep
      refine ⟨b, held, ready, ?_⟩
      rw [TcpSession.recvHandler]
      split
      · exact h
      · exact { h with }
  | eof =>
      obtain ⟨-, rfl⟩ := Option.ite_some_none_eq_some.mp hstep
      exact ⟨b, held, ready, { h with }⟩
  | acknowledged len =>
      obtain ⟨-, rfl⟩ := Option.ite_some_none_eq_some.mp hstep
      obtain ⟨b', held', h'⟩ := h.sentHandler hlawful
      exact ⟨b', held', ready, h'⟩
  | err =>
      obtain ⟨-, rfl⟩ := Option.ite_some_none_eq_some.mp hstep
      exact ⟨b, held, ready, { h with }⟩

theorem forwards_start (data : ℕ → UInt8) (configured : ℕ) : (start data configured).Forwards
  := .of_not_lock nofun rfl le_rfl (fun _ => rfl) (Nat.zero_le _) nofun

theorem backwards_start (data : ℕ → UInt8) (configured : ℕ) :
  (start data configured).Backwards ordered 0 [] []
  := by
  have hsize : tcpBufferSize configured ≤ tcpSndBuf := by
    rw [tcpBufferSize]
    split <;> omega
  exact {
    models := RingBuffer.models_alloca data _
    size := hsize
    refs := fun _ => rfl
    refs_le := le_rfl
    stream := rfl
    total := rfl
    refused := fun _ => rfl
    lock := nofun
    fin := nofun }

variable {data : ℕ → UInt8} {configured : ℕ}

/-- Whatever the order of the steps of the task and of the handlers, the bytes that have been written
to the server are the first ones the device has sent, without a gap or a repetition; the server is told
the end only after all of them; and the window of the device is never wider than what has been passed
on allows. -/
theorem device_stream_kept {es : List Event} {st : TcpSession}
    (hlawful : Run.Meets step DeviceLawful (start data configured) es)
    (hrun : Run.exec step (start data configured) es = some st) :
  st.sent <+: st.received ∧ (st.shut → st.pcbEof ∧ st.sent = st.received)
    ∧ st.credit ≤ st.sent.length ∧ st.received.length ≤ st.sent.length + tcpWnd
  := by
  have hforwards := Run.invariant_of_meets (fun s e t => forwards_step)
    (forwards_start data configured) hlawful hrun
  have hstream := hforwards.stream
  have hwindow := hforwards.window
  refine ⟨⟨_, hstream⟩, ?_, (Nat.le_add_right _ _).trans hforwards.credit, ?_⟩
  · intro hshut
    obtain ⟨hnil, heof, -⟩ := hforwards.shut hshut
    rw [hnil, List.flatten_nil, List.drop_nil, List.append_nil] at hstream
    exact ⟨heof, hstream⟩
  · rw [← hstream, List.length_append, List.length_drop]
    omega

/-- The places that the connection keeps hold the bytes that were read from the server after those
acknowledged, so that a repeated segment is the one that was sent. -/
def Kept (st : TcpSession) : Prop :=
  st.refs.map st.buffer.data = (st.read.drop st.acked).take st.refs.length

instance (st : TcpSession) : Decidable st.Kept :=
  inferInstanceAs (Decidable (_ = _))

/-- Where the connection refers to the first places of the buffer, it keeps their bytes. -/
theorem Backwards.kept {b : ℕ} {held ready : List UInt8} (h : self.Backwards ordered b held ready)
    (hrefs : self.refs = cells self.buffer.maxSize b self.refs.length) :
  self.Kept
  := by
  have hrefs_le := h.refs_le
  have hplaces : self.refs = (cells self.buffer.maxSize b (held.length + ready.length)).take
      self.refs.length := by
    rw [take_cells (by omega), ← hrefs]
  rw [Kept]
  conv_lhs => rw [hplaces]
  rw [List.map_take, h.models.data, h.stream]

/-- Whatever the order of the steps of the task and of the handlers, the places that the connection
keeps hold the bytes that were read after those acknowledged, while this direction runs, and when the
device is told the end, which is after all bytes; a buffer that is not in use has all its bytes
acknowledged.  If no vector is ever accepted after one that was refused in the same call, then the
places hold these bytes throughout. -/
theorem server_stream_kept {es : List Event} {st : TcpSession}
    (hlawful : Run.Meets step ServerLawful (start data configured) es)
    (hrun : Run.exec step (start data configured) es = some st) :
  (0 ≤ st.resB ∨ st.fin → st.Kept)
    ∧ st.acked + st.refs.length ≤ st.read.length
    ∧ (st.fin → st.acked + st.refs.length = st.read.length)
    ∧ (st.buffer.useSize = 0 → st.acked = st.read.length)
    ∧ (Run.Meets step InOrder (start data configured) es → st.Kept)
  := by
  obtain ⟨b, held, ready, h⟩ : ∃ b held ready, st.Backwards False b held ready :=
    Run.invariant_of_meets
      (fun s e t hs (he : s.ServerLawful e) => backwards_step hs he False.elim)
      ⟨0, [], [], backwards_start data configured⟩ hlawful hrun
  have hrefs_le := h.refs_le
  have htotal := h.total
  refine ⟨fun hkept => h.kept (h.refs (.inr hkept)), by omega, ?_, ?_, ?_⟩
  · intro hfin
    obtain ⟨rfl, hall, -⟩ := h.fin hfin
    rw [List.length_nil] at htotal
    omega
  · intro hzero
    have := h.models.use
    omega
  · intro hinOrder
    have hboth : Run.Meets step (fun s e => s.ServerLawful e ∧ s.InOrder e)
        (start data configured) es := by
      rw [Run.meets_iff] at hlawful hinOrder ⊢
      exact fun pre e post t hes ht => ⟨hlawful pre e post t hes ht, hinOrder pre e post t hes ht⟩
    obtain ⟨b', held', ready', h'⟩ : ∃ b held ready, st.Backwards True b held ready :=
      Run.invariant_of_meets
        (fun s e t hs (he : s.ServerLawful e ∧ s.InOrder e) =>
          backwards_step hs he.1 fun _ => he.2)
        ⟨0, [], [], backwards_start data configured⟩ hboth hrun
    exact h'.kept (h'.refs (.inl trivial))

/-- A round of the task in which the handlers run at its locks. -/
def smallRun : List Event :=
  [.recv [[1, 2, 3]], .forward (.done 2), .recv [[4]], .forwardLocked, .backward (.done [5, 6, 7]),
    .eof, .backwardLocked [true] true, .acknowledged 1, .yielded true]

theorem device_stream_kept_small :
  ∃ st, Run.exec step (start (fun _ => 0) 4) smallRun = some st
    ∧ st.sent <+: st.received ∧ (st.shut → st.pcbEof ∧ st.sent = st.received)
    ∧ st.credit ≤ st.sent.length ∧ st.received.length ≤ st.sent.length + tcpWnd
  := by
  have hlawful : Run.Meets step DeviceLawful (start (fun _ => 0) 4) smallRun := by decide
  exact ⟨_, rfl, device_stream_kept hlawful rfl⟩

theorem server_stream_kept_small :
  ∃ st, Run.exec step (start (fun _ => 0) 4) smallRun = some st
    ∧ (0 ≤ st.resB ∨ st.fin → st.Kept)
    ∧ st.acked + st.refs.length ≤ st.read.length
    ∧ (st.fin → st.acked + st.refs.length = st.read.length)
    ∧ (st.buffer.useSize = 0 → st.acked = st.read.length)
    ∧ (Run.Meets step InOrder (start (fun _ => 0) 4) smallRun → st.Kept)
  := by
  have hlawful : Run.Meets step ServerLawful (start (fun _ => 0) 4) smallRun := by decide
  exact ⟨_, rfl, server_stream_kept hlawful rfl⟩

/-- Two bytes go round the end of a buffer for four bytes: of their two vectors the first is refused
and the second accepted. -/
def refusedFirst : List Event :=
  [.forward .again, .backward (.done [1, 2, 3]), .backwardLocked [true] true, .acknowledged 2,
    .yielded true, .forward .again, .backward (.done [4, 5]), .backwardLocked [false, true] true]

/-- The device is sent the last byte in the place of the one before it. -/
theorem not_kept_refusedFirst :
  ∃ st, Run.exec step (start (fun _ => 0) 4) refusedFirst = some st
    ∧ Run.Meets step ServerLawful (start (fun _ => 0) 4) refusedFirst ∧ ¬ st.Kept
  := by
  refine ⟨_, rfl, ?_, ?_⟩ <;> decide

end TcpSession

end Hev
