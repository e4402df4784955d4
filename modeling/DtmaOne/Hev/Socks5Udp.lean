import DtmaOne.Hev.Socks5Addr
import DtmaOne.Library.Run

/-!
# Messages with an address

`hev-socks5-udp.c` sends messages with the addresses of their destinations, as datagrams or on the
byte stream of a connection.  Whatever the batches in which they are sent and received, the stream is
a queue of messages, as long as the length of each header fits its byte and each message the buffer of
the receiver.  Reads and writes do not fail here: a read that has to wait for more bytes does not end.
-/

namespace Hev.Socks5UDP

/-- `HevSocks5UDPMsg`: the bytes of the address and those of `buf`. -/
structure UDPMsg where
  addr : List UInt8
  buf : List UInt8
  deriving DecidableEq

/-- `hev_socks5_addr_len` -/
def addrLen : List UInt8 → Option ℕ
  | [] => none
  | atype :: rest =>
      if atype = 1 then some 7
      else if atype = 4 then some 19
      else if atype = 3 then rest.head?.map fun len => 4 + len.toNat
      else none

/-- What `hev_socks5_udp_sendmmsg_tcp` sends for one message; the two lengths are cut to their
fields. -/
def frame (msg : UDPMsg) : Option (List UInt8) :=
  (addrLen msg.addr).map fun addrlen =>
    [UInt8.ofNat (msg.buf.length / 256), UInt8.ofNat msg.buf.length, UInt8.ofNat (3 + addrlen)]
      ++ msg.addr.take addrlen ++ msg.buf

/-- `hev_socks5_udp_sendmmsg_tcp`: none if a message has no address. -/
def sendmmsgTcp (msgv : List UDPMsg) : Option (List UInt8) :=
  (msgv.mapM frame).map List.flatten

/-- The round of `hev_socks5_udp_recvmmsg_tcp` for a buffer of `len` bytes, none if it has to wait: the
message, or none if the round ends the call with -1, and what has not been read. -/
def recvMsg (len : ℕ) : List UInt8 → Option (Option UDPMsg × List UInt8)
  | hi :: lo :: hdrlen :: atype :: domainLen :: rest =>
      if hdrlen.toNat < 5 then some (none, rest)
      else if hi.toNat * 256 + lo.toNat > (len + 2 ^ 64 - (hdrlen.toNat - 3)) % 2 ^ 64 then
        some (none, rest)
      else if rest.length < hdrlen.toNat - 5 + (hi.toNat * 256 + lo.toNat) then none
      else
        some (some ⟨atype :: domainLen :: rest.take (hdrlen.toNat - 5),
            (rest.drop (hdrlen.toNat - 5)).take (hi.toNat * 256 + lo.toNat)⟩,
          rest.drop (hdrlen.toNat - 5 + (hi.toNat * 256 + lo.toNat)))
  | _ => none

/-- `hev_socks5_udp_recvmmsg_tcp` with buffers of the sizes `lens`, after the messages `msgv`: the
result, the messages and what has not been read.  With `nonblock`, the read of a header does not wait
for its first byte. -/
def recvmmsgTcp (nonblock : Bool) : List ℕ → List UDPMsg → List UInt8 →
    Option (ℤ × List UDPMsg × List UInt8)
  | [], msgv, stream => some (msgv.length, msgv, stream)
  | len :: lens, msgv, stream =>
      if stream = [] ∧ nonblock then some (if msgv = [] then -1 else msgv.length, msgv, stream)
      else
        match recvMsg len stream with
        | none => none
        | some (none, rest) => some (-1, msgv, rest)
        | some (some msg, rest) => recvmmsgTcp nonblock lens (msgv ++ [msg]) rest

/-- What `hev_socks5_udp_sendmmsg_udp` sends for one message. -/
def datagram (msg : UDPMsg) : Option (List UInt8) :=
  (addrLen msg.addr).map fun addrlen => [0, 0, 0] ++ msg.addr.take addrlen ++ msg.buf

/-- `hev_socks5_udp_sendmmsg_udp`: none if a message has no address. -/
def sendmmsgUdp (msgv : List UDPMsg) : Option (List (List UInt8)) :=
  msgv.mapM datagram

/-- `UDP_BUF_SIZE` -/
def udpBufSize : ℕ := 1500

/-- What `hev_socks5_udp_recvmmsg_udp` makes of the datagram `bytes`, which is received into a buffer
with the bytes `buffer` and cut to its size: none if it ends the call with -1, and no message if the
datagram is too short. -/
def recvDatagram (bytes buffer : List UInt8) : Option (Option UDPMsg) :=
  let received := bytes.take buffer.length
  if received.length < 4 then some none
  else
    match addrLen ((received ++ buffer.drop received.length).drop 3) with
    | none => none
    | some addrlen =>
        if received.length < 3 + addrlen then none
        else some (some ⟨(received.drop 3).take addrlen, received.drop (3 + addrlen)⟩)

/-- `hev_socks5_udp_recvmmsg_udp`, for datagrams with the buffers they are received into. -/
def recvmmsgUdp (packets : List (List UInt8 × List UInt8)) : Option (List (Option UDPMsg)) :=
  packets.mapM fun packet => recvDatagram packet.1 packet.2

/-! ### One message -/

/-- A message with an address of the protocol, whose header has a length of one byte, and which fits
a buffer of `size` bytes. -/
structure UDPMsg.Fits (msg : UDPMsg) (size : ℕ) : Prop where
  addr : ∃ addr : Socks5Addr, msg.addr = addr.bytes
  header : msg.addr.length ≤ 252
  data : msg.buf.length < 65536
  room : msg.addr.length + msg.buf.length ≤ size

/-- The bytes of a message on the stream. -/
def UDPMsg.bytes (msg : UDPMsg) : List UInt8 :=
  [UInt8.ofNat (msg.buf.length / 256), UInt8.ofNat msg.buf.length,
    UInt8.ofNat (3 + msg.addr.length)] ++ msg.addr ++ msg.buf

/-- The length of an address is found from its first two bytes. -/
theorem addrLen_bytes (addr : Socks5Addr) (rest : List UInt8) :
  addrLen (addr.bytes ++ rest) = some addr.bytes.length
  := by
  cases addr with
  | ipv4 addr port => simp [Socks5Addr.bytes, Socks5Addr.atype, Socks5Addr.body, addrLen]
  | ipv6 addr port => simp [Socks5Addr.bytes, Socks5Addr.atype, Socks5Addr.body, addrLen]
  | name addr len port =>
      have hlen : (UInt8.ofNat addr.length).toNat = addr.length := UInt8.toNat_ofNat_of_lt' len
      simp [Socks5Addr.bytes, Socks5Addr.atype, Socks5Addr.body, addrLen]
      omega

/-- The datagram of a message with an address of the protocol. -/
theorem datagram_bytes (addr : Socks5Addr) (buf : List UInt8) :
  datagram ⟨addr.bytes, buf⟩ = some ([0, 0, 0] ++ addr.bytes ++ buf)
  := by
  have hlen := addrLen_bytes addr []
  rw [List.append_nil] at hlen
  rw [datagram, hlen, Option.map_some, List.take_length]

/-- It is read back, whatever the buffer held before, as far as the buffer goes. -/
theorem recvDatagram_bytes {addr : Socks5Addr} (buf : List UInt8) {buffer : List UInt8}
    (hroom : 3 + addr.bytes.length ≤ buffer.length) :
  recvDatagram ([0, 0, 0] ++ addr.bytes ++ buf) buffer
    = some (some ⟨addr.bytes, buf.take (buffer.length - (3 + addr.bytes.length))⟩)
  := by
  let data := buf.take (buffer.length - (3 + addr.bytes.length))
  have hreceived : ([0, 0, 0] ++ addr.bytes ++ buf).take buffer.length
      = [0, 0, 0] ++ addr.bytes ++ data := by
    have hheader : ([0, 0, 0] ++ addr.bytes : List UInt8).length = 3 + addr.bytes.length := by
      simp only [List.length_append, List.length_cons, List.length_nil]
    rw [List.take_append, List.take_of_length_le (hheader ▸ hroom), hheader]
  have hfour : ¬ ([0, 0, 0] ++ addr.bytes ++ data).length < 4 := by
    simp only [Socks5Addr.bytes, List.length_append, List.length_cons, List.length_nil]
    omega
  have hdrop : ∀ rest, ([0, 0, 0] ++ addr.bytes ++ data ++ rest).drop 3
      = addr.bytes ++ (data ++ rest) := by
    simp
  have hlong : ¬ ([0, 0, 0] ++ addr.bytes ++ data).length < 3 + addr.bytes.length := by
    simp only [List.length_append, List.length_cons, List.length_nil]
    omega
  rw [recvDatagram, hreceived, if_neg hfour, hdrop, addrLen_bytes]
  dsimp only
  rw [if_neg hlong]
  simp [← List.drop_drop]
  rfl

/-- Datagrams are read back as the messages they were sent for, if they fit the buffer. -/
theorem recvmmsgUdp_sendmmsgUdp {msgv : List UDPMsg} {buffer : List UInt8}
    (h : ∀ msg ∈ msgv, (∃ addr : Socks5Addr, msg.addr = addr.bytes)
      ∧ 3 + msg.addr.length + msg.buf.length ≤ buffer.length) :
  ∃ packets, sendmmsgUdp msgv = some packets
    ∧ recvmmsgUdp (packets.map fun bytes => (bytes, buffer)) = some (msgv.map some)
  := by
  induction msgv with
  | nil => exact ⟨[], rfl, rfl⟩
  | cons msg msgv ih =>
      rw [List.forall_mem_cons] at h
      obtain ⟨⟨⟨addr, haddr⟩, hroom⟩, hmsgv⟩ := h
      obtain ⟨packets, hsend, hrecv⟩ := ih hmsgv
      obtain ⟨maddr, buf⟩ := msg
      subst haddr
      dsimp only at hroom
      have hheader : 3 + addr.bytes.length ≤ buffer.length := by omega
      have hbuf : buf.take (buffer.length - (3 + addr.bytes.length)) = buf :=
        List.take_of_length_le (by omega)
      refine ⟨([0, 0, 0] ++ addr.bytes ++ buf) :: packets, ?_, ?_⟩
      · rw [sendmmsgUdp] at hsend ⊢
        rw [List.mapM_cons, datagram_bytes, hsend]
        rfl
      · rw [recvmmsgUdp] at hrecv ⊢
        rw [List.map_cons, List.mapM_cons, recvDatagram_bytes buf hheader, hbuf, hrecv]
        rfl

theorem frame_of_fits {msg : UDPMsg} {size : ℕ} (h : msg.Fits size) : frame msg = some msg.bytes
  := by
  obtain ⟨addr, haddr⟩ := h.addr
  have hlen : addrLen msg.addr = some msg.addr.length := by
    rw [haddr, ← List.append_nil addr.bytes, addrLen_bytes, List.append_nil]
  rw [frame, hlen, Option.map_some, List.take_length, UDPMsg.bytes]

theorem sendmmsgTcp_of_fits {msgv : List UDPMsg} {size : ℕ} (h : ∀ msg ∈ msgv, msg.Fits size) :
  sendmmsgTcp msgv = some (msgv.flatMap UDPMsg.bytes)
  := by
  have hmap : msgv.mapM frame = some (msgv.map UDPMsg.bytes) := by
    induction msgv with
    | nil => rfl
    | cons msg msgv ih =>
        rw [List.forall_mem_cons] at h
        rw [List.mapM_cons, frame_of_fits h.1, ih h.2]
        rfl
  rw [sendmmsgTcp, hmap, Option.map_some, List.flatMap_def]

theorem bytes_ne_nil (msg : UDPMsg) : msg.bytes ≠ []
  := by
  simp [UDPMsg.bytes]

/-- A message that fits is read back, and nothing after it. -/
theorem recvMsg_bytes
    {msg : UDPMsg} {size len : ℕ} (h : msg.Fits size) (hsize : size ≤ len) (hlen : len < 2 ^ 64)
    (rest : List UInt8) :
  recvMsg len (msg.bytes ++ rest) = some (some msg, rest)
  := by
  obtain ⟨⟨addr, haddr⟩, hheader, hdata, hroom⟩ := h
  obtain ⟨atype, domainLen, body, hbody⟩ : ∃ atype domainLen body,
      msg.addr = atype :: domainLen :: body := by
    cases addr with
    | ipv4 addr port =>
        obtain ⟨_ | ⟨a, l⟩, ha⟩ := addr
        · cases ha
        · exact ⟨1, a, l ++ port.toList, haddr⟩
    | ipv6 addr port =>
        obtain ⟨_ | ⟨a, l⟩, ha⟩ := addr
        · cases ha
        · exact ⟨4, a, l ++ port.toList, haddr⟩
    | name addr len port => exact ⟨3, _, addr ++ port.toList, haddr⟩
  obtain ⟨maddr, buf⟩ := msg
  subst hbody
  simp only [List.length_cons] at hheader hdata hroom
  have hhdr : (UInt8.ofNat (3 + (body.length + 1 + 1))).toNat = body.length + 5 := by
    rw [UInt8.toNat_ofNat']
    omega
  have hdat : (UInt8.ofNat (buf.length / 256)).toNat * 256 + (UInt8.ofNat buf.length).toNat
      = buf.length := by
    rw [UInt8.toNat_ofNat', UInt8.toNat_ofNat']
    omega
  have hroom' : (len + 2 ^ 64 - (body.length + 5 - 3)) % 2 ^ 64 = len - (body.length + 2) := by
    omega
  simp only [UDPMsg.bytes, List.length_cons, List.cons_append, List.nil_append, recvMsg, hhdr, hdat,
    hroom', Nat.add_sub_cancel, List.append_assoc]
  rw [if_neg (by omega), if_neg (by omega), if_neg (by simp)]
  simp [List.drop_append]

/-- Only messages with a header of that length, and no longer than the buffer, are ever received. -/
theorem bounds_of_recvMsg
    {len : ℕ} (hmin : 252 ≤ len) (hmax : len < 2 ^ 64) {unread rest : List UInt8} {msg : UDPMsg}
    (h : recvMsg len unread = some (some msg, rest)) :
  msg.addr.length ≤ 252 ∧ msg.buf.length < 65536 ∧ msg.addr.length + msg.buf.length ≤ len
  := by
  unfold recvMsg at h
  split at h
  · rename_i hi lo hdrlen atype domainLen bytes
    have hhdr := hdrlen.toNat_lt
    have hhi := hi.toNat_lt
    have hlo := lo.toNat_lt
    split_ifs at h with hshort hlong hwait
    · cases h
    · cases h
    · obtain ⟨hmsg, -⟩ := Prod.mk.inj (Option.some.inj h)
      obtain rfl := Option.some.inj hmsg
      simp only [List.length_cons, List.length_take, List.length_drop]
      omega
  · cases h

/-! ### A queue of messages -/

/-- A queue after `n` messages have been asked for: those that are there, and the result, -1 if there
are none; without `nonblock` the call waits for all of them. -/
def Queue.recv (nonblock : Bool) (n : ℕ) (queue : List UDPMsg) :
    Option (ℤ × List UDPMsg × List UDPMsg) :=
  if n ≤ queue.length then some (n, queue.take n, queue.drop n)
  else if nonblock then some (if queue = [] then -1 else queue.length, queue, [])
  else none

/-- The stream of the messages of a queue. -/
def stream (queue : List UDPMsg) : List UInt8 :=
  queue.flatMap UDPMsg.bytes

/-- The loop over the buffers takes the first messages of the queue. -/
theorem recvmmsgTcp_stream
    {size : ℕ} (nonblock : Bool) {lens : List ℕ} (hlens : ∀ len ∈ lens, size ≤ len ∧ len < 2 ^ 64)
    {queue : List UDPMsg} (hqueue : ∀ msg ∈ queue, msg.Fits size) (msgv : List UDPMsg) :
  recvmmsgTcp nonblock lens msgv (stream queue)
    = if lens.length ≤ queue.length then
        some (((msgv ++ queue.take lens.length).length : ℤ), msgv ++ queue.take lens.length,
          stream (queue.drop lens.length))
      else if nonblock then
        some (if msgv ++ queue = [] then (-1 : ℤ) else (msgv ++ queue).length, msgv ++ queue, [])
      else none
  := by
  induction lens generalizing queue msgv with
  | nil => simp [recvmmsgTcp]
  | cons len lens ih =>
      rw [List.forall_mem_cons] at hlens
      cases queue with
      | nil =>
          cases nonblock with
          | true => simp [recvmmsgTcp, stream]
          | false => simp [recvmmsgTcp, stream, recvMsg]
      | cons msg queue =>
          rw [List.forall_mem_cons] at hqueue
          have hstream : stream (msg :: queue) = msg.bytes ++ stream queue := rfl
          have hne : ¬ (msg.bytes ++ stream queue = [] ∧ nonblock = true) := by
            simp [bytes_ne_nil]
          rw [recvmmsgTcp, hstream, if_neg hne, recvMsg_bytes hqueue.1 hlens.1.1 hlens.1.2]
          dsimp only
          rw [ih hlens.2 hqueue.2]
          simp

/-! ### Runs -/

/-- A batch of messages is sent, or messages are received into buffers of the sizes `lens`. -/
inductive Event where
  | send (msgv : List UDPMsg)
  | recv (nonblock : Bool) (lens : List ℕ)

/-- Every message fits `size` bytes, and every buffer has so many. -/
def Event.Fits (size : ℕ) : Event → Prop
  | .send msgv => ∀ msg ∈ msgv, msg.Fits size
  | .recv _ lens => ∀ len ∈ lens, size ≤ len ∧ len < 2 ^ 64

/-- An answer of a call for messages: its result and the messages. -/
abbrev Answer := ℤ × List UDPMsg

/-- A call, on the unread bytes of the stream and the answers before it. -/
def step (s : List UInt8 × List Answer) : Event → Option (List UInt8 × List Answer)
  | .send msgv => (sendmmsgTcp msgv).map fun bytes => (s.1 ++ bytes, s.2)
  | .recv nonblock lens =>
      (recvmmsgTcp nonblock lens [] s.1).map fun r => (r.2.2, s.2 ++ [(r.1, r.2.1)])

/-- A call, on a queue of messages and the answers before it. -/
def Queue.step (s : List UDPMsg × List Answer) : Event → Option (List UDPMsg × List Answer)
  | .send msgv => some (s.1 ++ msgv, s.2)
  | .recv nonblock lens =>
      (Queue.recv nonblock lens.length s.1).map fun r => (r.2.2, s.2 ++ [(r.1, r.2.1)])

/-- A call does on the stream of a queue what it does on the queue. -/
theorem step_stream
    {size : ℕ} {e : Event} (he : e.Fits size) {queue : List UDPMsg}
    (hqueue : ∀ msg ∈ queue, msg.Fits size) (answers : List Answer) :
  step (stream queue, answers) e
    = (Queue.step (queue, answers) e).map fun s => (stream s.1, s.2)
  := by
  cases e with
  | send msgv => simp [step, Queue.step, sendmmsgTcp_of_fits he, stream]
  | recv nonblock lens =>
      rw [step, recvmmsgTcp_stream nonblock he hqueue, Queue.step, Queue.recv]
      by_cases hlen : lens.length ≤ queue.length
      · simp [hlen]
      · cases nonblock <;> simp [hlen, stream]

/-- The messages of the queue after a call are some before it, or have been sent by it. -/
theorem fits_queueStep
    {size : ℕ} {e : Event} (he : e.Fits size) {queue queue' : List UDPMsg}
    {answers answers' : List Answer} (hqueue : ∀ msg ∈ queue, msg.Fits size)
    (hstep : Queue.step (queue, answers) e = some (queue', answers')) :
  ∀ msg ∈ queue', msg.Fits size
  := by
  cases e with
  | send msgv =>
      obtain ⟨rfl, -⟩ := Prod.mk.inj (Option.some.inj hstep)
      intro msg hmsg
      exact (List.mem_append.mp hmsg).elim (hqueue msg) (he msg)
  | recv nonblock lens =>
      simp only [Queue.step, Queue.recv] at hstep
      split_ifs at hstep
      · obtain ⟨rfl, -⟩ := Prod.mk.inj (Option.some.inj hstep)
        intro msg hmsg
        exact hqueue msg (List.mem_of_mem_drop hmsg)
      all_goals
        cases hstep
      all_goals
        simp

theorem exec_stream
    {size : ℕ} {es : List Event} (hes : ∀ e ∈ es, e.Fits size) {queue : List UDPMsg}
    (hqueue : ∀ msg ∈ queue, msg.Fits size) (answers : List Answer) :
  Run.exec step (stream queue, answers) es
    = (Run.exec Queue.step (queue, answers) es).map fun s => (stream s.1, s.2)
  := by
  induction es generalizing queue answers with
  | nil => rfl
  | cons e es ih =>
      rw [List.forall_mem_cons] at hes
      rw [Run.exec, Run.exec, step_stream hes.1 hqueue]
      cases hstep : Queue.step (queue, answers) e with
      | none => rfl
      | some s =>
          obtain ⟨queue', answers'⟩ := s
          exact ih hes.2 (fits_queueStep hes.1 hqueue hstep) answers'

/-- Along every run, whatever the batches, the datagrams on the connection are a queue: each one that
is sent is received once, in order, and as it was; a call waits, or says that there is none, when the
queue does. -/
theorem datagrams_queued {size : ℕ} {es : List Event} (hes : ∀ e ∈ es, e.Fits size) :
  Run.exec step ([], []) es
    = (Run.exec Queue.step ([], []) es).map fun s => (stream s.1, s.2)
  := exec_stream hes (fun _ hmsg => absurd hmsg List.not_mem_nil) []

/-- Two messages to `8.8.8.8`, port 53, and to the name `a`, port 80. -/
def twoMessages : List UDPMsg :=
  [⟨(Socks5Addr.ipv4 ⟨[8, 8, 8, 8], rfl⟩ ⟨[0, 53], rfl⟩).bytes, [7, 8]⟩,
    ⟨(Socks5Addr.name [97] (by simp) ⟨[0, 80], rfl⟩).bytes, []⟩]

/-- They are sent together, and a call asks for three. -/
def sendAndReceive : List Event :=
  [.send twoMessages, .recv true [1500, 1500, 1500]]

theorem datagrams_queued_small :
  Run.exec step ([], []) sendAndReceive = some ([], [(2, twoMessages)])
  := by
  have hes : ∀ e ∈ sendAndReceive, e.Fits 1500 := by
    intro e he
    simp only [sendAndReceive, List.mem_cons, List.not_mem_nil, or_false] at he
    obtain rfl | rfl := he
    · intro msg hmsg
      simp only [twoMessages, List.mem_cons, List.not_mem_nil, or_false] at hmsg
      obtain rfl | rfl := hmsg
      · exact ⟨⟨_, rfl⟩, by decide, by decide, by decide⟩
      · exact ⟨⟨_, rfl⟩, by decide, by decide, by decide⟩
    · simp [Event.Fits]
  exact datagrams_queued hes

end Hev.Socks5UDP
