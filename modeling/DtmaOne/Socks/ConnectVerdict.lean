import DtmaOne.Socks.ConnectRelay

/-!
# The verdict on a CONNECT request

`LocalSocks5Server.doConnect` from its start to its end, where every call may raise.  The handler
connects the remote, directly or in one of the races for Telegram, replies, starts the thread
`s5-c2s` and relays.  One `catch` block counts a failure and replies 5, whatever the call was
that raised, and a `finally` block closes both sockets.

Four calls raise too late for that block, or in it: `r.getInputStream()` and `up.join(500)` come after
the reply and the counter of a connection, `client.close()` comes after the reply and the counter of
a socket that is not protected, and the reply of the block itself.  The first of them raises
whenever the thread `s5-c2s` has come to its end before, for it closes the remote.
-/

namespace Socks.ConnectVerdict

open ConnectRelay

/-- What the settings of the server and the request decide, and the local address of the remote
socket. -/
structure Request where
  isTelegramHost : Bool
  telegramSmartPath : Bool
  telegramMultipath : Bool
  localSocketAddress : Option InetSocketAddress
  deriving DecidableEq

/-- The reply to a request that is connected. -/
def Request.successReply (q : Request) : Bytes :=
  reply 0x00 (q.localSocketAddress.elim InetAddress.any InetSocketAddress.address)
    (q.localSocketAddress.elim 0 InetSocketAddress.port)

/-- The next call of the handler. -/
inductive Handler where
  | settingTimeout
  | smartConnecting
  | multipathConnecting
  | protecting
  | refusing
  | closingRefused
  | settingOptions
  | connecting
  | remembering
  | replying
  | gettingInput
  | piping (p : Pipe)
  | shutting
  | joining
  | failing
  | closingRemote
  | closingClient
  | ended
  deriving DecidableEq, Repr

/-- How a call ends: it returns, where a `read` returns `n` bytes; it returns whether there is a
socket, or whether the socket is protected; or it raises, where a `write` has written `n` bytes
before. -/
inductive Answer where
  | returned (n : ℕ)
  | value (b : Bool)
  | raised (n : ℕ)
  deriving DecidableEq, Repr

/-- A request that is handled.  What the client receives includes the replies, and `verdicts` are their
codes; the counters are what this request adds to `tcpConnectOk` and `tcpConnectFail`. -/
structure Connection where
  handler : Handler := .settingTimeout
  up : Option Up := none
  client : Peer
  remote : Peer
  connected : Bool := false
  verdicts : List UInt8 := []
  tcpConnectOk : ℕ := 0
  tcpConnectFail : ℕ := 0
  deriving DecidableEq, Repr

/-- A step: the next call of the thread `s5-c2s`, or of the handler. -/
inductive Event where
  | up (a : Answer)
  | handler (a : Answer)
  deriving DecidableEq, Repr

/-- A call of `pipe` on a socket, with its answer.  An exception ends the loop, and one of
`output.close()` is ignored. -/
def call (a : Answer) (input output : Peer) (p : Pipe) : Option (Option Pipe × Peer × Peer) :=
  match a, p with
  | .returned n, p => p.step n input output
  | .raised _, .reading => some (some .closing, input, output)
  | .raised n, .writing chunk =>
      if output.socket = .opened then
        some (some .closing, input, { output with received := output.received ++ chunk.take n })
      else some (some .closing, input, output)
  | .raised n, .closing => Pipe.closing.step n input output
  | .value _, _ => none

/-- The next call of the thread `s5-c2s`.  It ends with an exception if the remote is closed before it
starts. -/
def Connection.stepUp (s : Connection) (a : Answer) : Option Connection :=
  match s.up with
  | none => none
  | some .start =>
      if s.remote.socket = .opened ∧ a = .returned 0 then
        some { s with up := some (.piping .reading) }
      else some { s with up := some .ended }
  | some (.piping p) =>
      (call a s.client s.remote p).map fun (next, client, remote) =>
        { s with up := some (next.elim .shutting .piping), client := client, remote := remote }
  | some .shutting =>
      some { s with
        up := some .ended
        remote := { s.remote with socket := s.remote.socket.shutdownOutput } }
  | some .ended => none

/-- The reply `bytes` with the code `rep` is written. -/
def Connection.write (s : Connection) (rep : UInt8) (bytes : Bytes) : Connection :=
  { s with
    client := { s.client with received := s.client.received ++ bytes }
    verdicts := s.verdicts ++ [rep] }

/-- The next call of the handler.  The last two cases are those of the `catch` block: an exception of
any call that is not listed before leads there. -/
def Connection.stepHandler (q : Request) (s : Connection) (a : Answer) : Option Connection :=
  match s.handler, a with
  | .settingTimeout, .returned _ =>
      if q.isTelegramHost && q.telegramSmartPath then some { s with handler := .smartConnecting }
      else if q.isTelegramHost && q.telegramMultipath then
        some { s with handler := .multipathConnecting }
      else some { s with handler := .protecting }
  | .smartConnecting, .value found =>
      if found then some { s with handler := .replying, connected := true }
      else some { s with handler := .protecting }
  | .multipathConnecting, .value found =>
      if found then some { s with handler := .replying, connected := true }
      else some { s with handler := .protecting }
  | .protecting, .value isProtected =>
      if isProtected then some { s with handler := .settingOptions }
      else some { s with handler := .refusing }
  | .refusing, .returned _ =>
      if s.client.socket = .opened then
        some { s.write 0x01 (reply 0x01 InetAddress.any 0) with
          handler := .closingRefused
          tcpConnectFail := s.tcpConnectFail + 1 }
      else none
  | .closingRefused, .returned _ =>
      some { s with handler := .closingRemote, client := { s.client with socket := .closed } }
  | .settingOptions, .returned _ => some { s with handler := .connecting }
  | .connecting, .returned _ =>
      some { s with
        handler := if q.isTelegramHost then .remembering else .replying
        connected := true }
  | .remembering, .returned _ => some { s with handler := .replying }
  | .replying, .returned _ =>
      if s.client.socket = .opened then
        some { s.write 0x00 q.successReply with
          handler := .gettingInput
          tcpConnectOk := s.tcpConnectOk + 1
          up := some .start }
      else none
  | .gettingInput, .returned _ =>
      if s.remote.socket = .closed then none
      else some { s with handler := .piping .reading }
  | .piping p, a =>
      (call a s.remote s.client p).map fun (next, remote, client) =>
        { s with handler := next.elim .shutting .piping, client := client, remote := remote }
  | .shutting, .returned _ =>
      some { s with
        handler := .joining
        client := { s.client with socket := s.client.socket.shutdownOutput } }
  | .shutting, .raised _ => some { s with handler := .joining }
  | .joining, .returned _ => some { s with handler := .closingRemote }
  | .closingRemote, _ =>
      some { s with handler := .closingClient, remote := { s.remote with socket := .closed } }
  | .closingClient, _ =>
      some { s with handler := .ended, client := { s.client with socket := .closed } }
  | .ended, _ => none
  | .failing, .returned _ =>
      if s.client.socket = .opened then
        some { s.write 0x05 (reply 0x05 InetAddress.any 0) with
          handler := .closingRemote
          tcpConnectFail := s.tcpConnectFail + 1 }
      else none
  | .failing, .raised _ =>
      some { s with handler := .closingRemote, tcpConnectFail := s.tcpConnectFail + 1 }
  | _, .raised _ => some { s with handler := .failing }
  | _, _ => none

/-- One step of a request. -/
def step (q : Request) (s : Connection) : Event → Option Connection
  | .up a => s.stepUp a
  | .handler a => s.stepHandler q a

/-- The request at the start, when the client sends `clientStream` and the remote sends
`remoteStream`. -/
def init (clientStream remoteStream : Bytes) : Connection where
  client := { pending := clientStream }
  remote := { pending := remoteStream }

/-! ### The cases of a step -/

/-- How far the handler has come. -/
inductive Stage where
  | connecting
  | connected
  | refused
  | relaying (p : Pipe)
  | failing
  | finished
  deriving DecidableEq, Repr

/-- The stage of the next call. -/
def Handler.stage : Handler → Stage
  | .remembering => .connected
  | .replying => .connected
  | .closingRefused => .refused
  | .gettingInput => .relaying .reading
  | .piping p => .relaying p
  | .shutting => .relaying .closing
  | .joining => .relaying .closing
  | .failing => .failing
  | .closingRemote => .finished
  | .closingClient => .finished
  | .ended => .finished
  | _ => .connecting

/-- The cases of a step. -/
inductive Steps (q : Request) (s : Connection) : Event → Connection → Prop where
  | up (a : Answer) (up : Option Up) (pending : Bytes) (socket : SocketState) (received : Bytes) :
      Steps q s (.up a) { s with
        up := up
        client := { s.client with pending := pending }
        remote := { s.remote with socket := socket, received := received } }
  | prepared (a : Answer) (h : Handler) (hs : s.handler.stage = .connecting)
      (hh : h.stage = .connecting) :
      Steps q s (.handler a) { s with handler := h }
  | connected (a : Answer) (h : Handler) (hs : s.handler.stage = .connecting)
      (hh : h.stage = .connected) :
      Steps q s (.handler a) { s with handler := h, connected := true }
  | remembered (n : ℕ) (hs : s.handler = .remembering) :
      Steps q s (.handler (.returned n)) { s with handler := .replying }
  | refused (n : ℕ) (hs : s.handler = .refusing) :
      Steps q s (.handler (.returned n)) { s.write 0x01 (reply 0x01 InetAddress.any 0) with
        handler := .closingRefused
        tcpConnectFail := s.tcpConnectFail + 1 }
  | closedRefused (n : ℕ) (hs : s.handler = .closingRefused) :
      Steps q s (.handler (.returned n))
        { s with handler := .closingRemote, client := { s.client with socket := .closed } }
  | replied (n : ℕ) (hs : s.handler = .replying) :
      Steps q s (.handler (.returned n)) { s.write 0x00 q.successReply with
        handler := .gettingInput
        tcpConnectOk := s.tcpConnectOk + 1
        up := some .start }
  | gotInput (n : ℕ) (hs : s.handler = .gettingInput) (hremote : s.remote.socket ≠ .closed) :
      Steps q s (.handler (.returned n)) { s with handler := .piping .reading }
  | piped (a : Answer) (p : Pipe) (next : Option Pipe) (client remote : Peer)
      (hs : s.handler = .piping p) (hcall : call a s.remote s.client p = some (next, remote, client)) :
      Steps q s (.handler a)
        { s with handler := next.elim .shutting .piping, client := client, remote := remote }
  | shut (a : Answer) (socket : SocketState) (hs : s.handler = .shutting) :
      Steps q s (.handler a)
        { s with handler := .joining, client := { s.client with socket := socket } }
  | joined (n : ℕ) (hs : s.handler = .joining) :
      Steps q s (.handler (.returned n)) { s with handler := .closingRemote }
  | caught (n : ℕ) (hs : s.handler = .failing) :
      Steps q s (.handler (.returned n)) { s.write 0x05 (reply 0x05 InetAddress.any 0) with
        handler := .closingRemote
        tcpConnectFail := s.tcpConnectFail + 1 }
  | silent (n : ℕ) (hs : s.handler = .failing) :
      Steps q s (.handler (.raised n))
        { s with handler := .closingRemote, tcpConnectFail := s.tcpConnectFail + 1 }
  | closedRemote (a : Answer) (hs : s.handler = .closingRemote) :
      Steps q s (.handler a)
        { s with handler := .closingClient, remote := { s.remote with socket := .closed } }
  | closedClient (a : Answer) (hs : s.handler = .closingClient) :
      Steps q s (.handler a)
        { s with handler := .ended, client := { s.client with socket := .closed } }
  | raised (n : ℕ) (hs : s.handler.stage = .connecting ∨ s.handler.stage = .connected) :
      Steps q s (.handler (.raised n)) { s with handler := .failing }
  | raisedLate (n : ℕ)
      (hs : s.handler = .closingRefused ∨ s.handler = .gettingInput ∨ s.handler = .joining) :
      Steps q s (.handler (.raised n)) { s with handler := .failing }

/-- A call of `pipe` takes nothing from its output, and writes nothing to its input. -/
theorem call_frame {a : Answer} {input output input' output' : Peer} {p : Pipe}
    {next : Option Pipe} (h : call a input output p = some (next, input', output')) :
  input' = { input with pending := input'.pending } ∧
    output' = { output with socket := output'.socket, received := output'.received }
  := by
  cases a with
  | returned n =>
      cases Pipe.calls_of_step h <;> exact ⟨rfl, rfl⟩
  | raised n =>
      cases p with
      | reading =>
          obtain ⟨rfl, rfl, rfl⟩ := h
          exact ⟨rfl, rfl⟩
      | writing chunk =>
          simp only [call] at h
          split_ifs at h with hopen
          · obtain ⟨rfl, rfl, rfl⟩ := h
            exact ⟨rfl, rfl⟩
          · obtain ⟨rfl, rfl, rfl⟩ := h
            exact ⟨rfl, rfl⟩
      | closing =>
          obtain ⟨rfl, rfl, rfl⟩ := h
          exact ⟨rfl, rfl⟩
  | value b => cases h

variable {q : Request} {s t : Connection}

theorem steps_of_stepUp {a : Answer} (h : s.stepUp a = some t) :
  Steps q s (.up a) t
  := by
  unfold Connection.stepUp at h
  split at h
  case h_1 => cases h
  case h_2 =>
    split_ifs at h
    · obtain rfl := Option.some.inj h
      apply Steps.up a _ s.client.pending s.remote.socket s.remote.received
    · obtain rfl := Option.some.inj h
      apply Steps.up a _ s.client.pending s.remote.socket s.remote.received
  case h_3 p _ =>
    obtain ⟨⟨next, client, remote⟩, hcall, rfl⟩ := Option.map_eq_some_iff.mp h
    obtain ⟨hclient, hremote⟩ := call_frame hcall
    dsimp only
    rw [hclient, hremote]
    apply Steps.up
  case h_4 =>
    obtain rfl := Option.some.inj h
    apply Steps.up a _ s.client.pending _ s.remote.received
  case h_5 => cases h

theorem steps_of_stepHandler {a : Answer} (h : s.stepHandler q a = some t) :
  Steps q s (.handler a) t
  := by
  unfold Connection.stepHandler at h
  split at h
  case h_1 n hs =>
    split_ifs at h <;> obtain rfl := Option.some.inj h
    · apply Steps.prepared _ _ (by rw [hs]; rfl) rfl
    · apply Steps.prepared _ _ (by rw [hs]; rfl) rfl
    · apply Steps.prepared _ _ (by rw [hs]; rfl) rfl
  case h_2 found hs =>
    split_ifs at h <;> obtain rfl := Option.some.inj h
    · apply Steps.connected _ _ (by rw [hs]; rfl) rfl
    · apply Steps.prepared _ _ (by rw [hs]; rfl) rfl
  case h_3 found hs =>
    split_ifs at h <;> obtain rfl := Option.some.inj h
    · apply Steps.connected _ _ (by rw [hs]; rfl) rfl
    · apply Steps.prepared _ _ (by rw [hs]; rfl) rfl
  case h_4 isProtected hs =>
    split_ifs at h <;> obtain rfl := Option.some.inj h
    · apply Steps.prepared _ _ (by rw [hs]; rfl) rfl
    · apply Steps.prepared _ _ (by rw [hs]; rfl) rfl
  case h_5 n hs =>
    split_ifs at h
    obtain rfl := Option.some.inj h
    apply Steps.refused n hs
  case h_6 n hs =>
    obtain rfl := Option.some.inj h
    apply Steps.closedRefused n hs
  case h_7 n hs =>
    obtain rfl := Option.some.inj h
    apply Steps.prepared _ _ (by rw [hs]; rfl) rfl
  case h_8 n hs =>
    obtain rfl := Option.some.inj h
    apply Steps.connected _ _ (by rw [hs]; rfl)
    split <;> rfl
  case h_9 n hs =>
    obtain rfl := Option.some.inj h
    apply Steps.remembered n hs
  case h_10 n hs =>
    split_ifs at h
    obtain rfl := Option.some.inj h
    apply Steps.replied n hs
  case h_11 n hs =>
    split_ifs at h with hremote
    obtain rfl := Option.some.inj h
    apply Steps.gotInput n hs hremote
  case h_12 p hs =>
    obtain ⟨⟨next, remote, client⟩, hcall, rfl⟩ := Option.map_eq_some_iff.mp h
    apply Steps.piped _ p next client remote hs hcall
  case h_13 n hs =>
    obtain rfl := Option.some.inj h
    apply Steps.shut _ _ hs
  case h_14 n hs =>
    obtain rfl := Option.some.inj h
    apply Steps.shut _ s.client.socket hs
  case h_15 n hs =>
    obtain rfl := Option.some.inj h
    apply Steps.joined n hs
  case h_16 hs =>
    obtain rfl := Option.some.inj h
    apply Steps.closedRemote _ hs
  case h_17 hs =>
    obtain rfl := Option.some.inj h
    apply Steps.closedClient _ hs
  case h_18 => cases h
  case h_19 n hs =>
    split_ifs at h
    obtain rfl := Option.some.inj h
    apply Steps.caught n hs
  case h_20 n hs =>
    obtain rfl := Option.some.inj h
    apply Steps.silent n hs
  case h_21 n hpiping hshutting hremote hclient hended hfailing =>
    obtain rfl := Option.some.inj h
    cases hs : s.handler with
    | closingRefused => apply Steps.raisedLate n (Or.inl hs)
    | gettingInput => apply Steps.raisedLate n (Or.inr (Or.inl hs))
    | joining => apply Steps.raisedLate n (Or.inr (Or.inr hs))
    | remembering => apply Steps.raised n (Or.inr (by rw [hs]; rfl))
    | replying => apply Steps.raised n (Or.inr (by rw [hs]; rfl))
    | piping p => exact absurd hs (hpiping p)
    | shutting => exact absurd hs hshutting
    | closingRemote => exact absurd hs hremote
    | closingClient => exact absurd hs hclient
    | ended => exact absurd hs hended
    | failing => exact absurd hs hfailing
    | _ => apply Steps.raised n (Or.inl (by rw [hs]; rfl))
  case h_22 => cases h

theorem steps_of_step {e : Event} (h : step q s e = some t) :
  Steps q s e t
  := by
  cases e with
  | up a => apply steps_of_stepUp h
  | handler a => apply steps_of_stepHandler h

/-- The handler closes the socket of the client before it ends. -/
theorem closed_of_ended {clientStream remoteStream : Bytes} {es : List Event}
    (hrun : Run.exec (step q) (init clientStream remoteStream) es = some t)
    (hended : t.handler = .ended) :
  t.client.socket = .closed
  := by
  have hstep : ∀ s e t, (s.handler = .ended → s.client.socket = .closed) →
      step q s e = some t → t.handler = .ended → t.client.socket = .closed := by
    intro s e t hs h
    cases steps_of_step h with
    | up a up pending socket received => apply hs
    | closedClient a hhandler =>
        intro _
        rfl
    | prepared a next hstage hnext =>
        rintro rfl
        cases hnext
    | connected a next hstage hnext =>
        rintro rfl
        cases hnext
    | piped a p next client remote hhandler hcall =>
        intro hended
        cases next <;> cases hended
    | _ =>
        intro hended
        cases hended
  apply Run.invariant hstep _ hrun hended
  intro hstart
  cases hstart

/-! ### The verdict -/

/-- The request has had one verdict: one reply has been written and one counter has gone up by one,
and if the reply says that the request is connected, then a remote is connected and all that the
client receives after it is the beginning of the stream of the remote. -/
structure Connection.OneVerdict (q : Request) (remoteStream : Bytes) (s : Connection) : Prop where
  replied : ∃ rep, s.verdicts = [rep]
  counted : s.tcpConnectOk = 1 ∧ s.tcpConnectFail = 0 ∨ s.tcpConnectOk = 0 ∧ s.tcpConnectFail = 1
  success : 0x00 ∈ s.verdicts → s.connected = true ∧
    ∃ relayed, s.client.received = q.successReply ++ relayed ∧ relayed <+: remoteStream

/-- No call raises that comes after a reply, or is the reply of the `catch` block. -/
def Connection.Undisturbed (s : Connection) : Event → Prop
  | .handler (.raised _) =>
      s.handler ≠ .closingRefused ∧ s.handler ≠ .gettingInput ∧ s.handler ≠ .joining ∧
        s.handler ≠ .failing
  | _ => True

instance (s : Connection) : (e : Event) → Decidable (s.Undisturbed e)
  | .up _ => isTrue trivial
  | .handler (.returned _) => isTrue trivial
  | .handler (.value _) => isTrue trivial
  | .handler (.raised _) => inferInstanceAs (Decidable (_ ∧ _))

/-- Nothing has been replied or counted. -/
structure Connection.Silent (remoteStream : Bytes) (s : Connection) : Prop where
  verdicts : s.verdicts = []
  received : s.client.received = []
  ok : s.tcpConnectOk = 0
  fail : s.tcpConnectFail = 0
  pending : s.remote.pending = remoteStream

/-- A failure has been replied and counted. -/
structure Connection.Denied (s : Connection) : Prop where
  verdicts : ∃ rep, rep ≠ 0x00 ∧ s.verdicts = [rep]
  ok : s.tcpConnectOk = 0
  fail : s.tcpConnectFail = 1

/-- A connection has been replied and counted, and what the client has received after the reply and
what the handler is about to write are the beginning of the stream of the remote. -/
structure Connection.Relays (q : Request) (remoteStream : Bytes) (s : Connection) (p : Pipe) :
    Prop where
  verdicts : s.verdicts = [0x00]
  ok : s.tcpConnectOk = 1
  fail : s.tcpConnectFail = 0
  connected : s.connected = true
  received : ∃ relayed, s.client.received = q.successReply ++ relayed ∧
    Carries remoteStream relayed s.remote.pending p

/-- What holds before a call of the handler, in a run where none of the late calls raises. -/
def Connection.Lawful (q : Request) (remoteStream : Bytes) (s : Connection) : Stage → Prop
  | .connecting => s.Silent remoteStream
  | .connected => s.Silent remoteStream ∧ s.connected = true
  | .failing => s.Silent remoteStream
  | .refused => s.Denied
  | .relaying p => s.Relays q remoteStream p
  | .finished => s.Denied ∨ s.Relays q remoteStream .closing

variable {remoteStream : Bytes}

/-- A call of `pipe` does not depend on what the output has received before. -/
theorem step_received {n : ℕ} {input output input' output' : Peer} {p : Pipe} {next : Option Pipe}
    {before relayed : Bytes} (hreceived : output.received = before ++ relayed)
    (h : p.step n input output = some (next, input', output')) :
  ∃ relayed', output'.received = before ++ relayed' ∧
    p.step n input { output with received := relayed }
      = some (next, input', { output' with received := relayed' })
  := by
  cases p with
  | reading =>
      simp only [Pipe.step] at h ⊢
      split_ifs at h ⊢ with hend hn
      · obtain ⟨rfl, rfl, rfl⟩ := h
        exact ⟨relayed, hreceived, rfl⟩
      · obtain ⟨rfl, rfl, rfl⟩ := h
        exact ⟨relayed, hreceived, rfl⟩
  | writing chunk =>
      simp only [Pipe.step] at h ⊢
      split_ifs at h ⊢ with hopen
      · obtain ⟨rfl, rfl, rfl⟩ := h
        refine ⟨relayed ++ chunk, ?_, rfl⟩
        rw [hreceived, List.append_assoc]
      · obtain ⟨rfl, rfl, rfl⟩ := h
        exact ⟨relayed, hreceived, rfl⟩
  | closing =>
      obtain ⟨rfl, rfl, rfl⟩ := h
      exact ⟨relayed, hreceived, rfl⟩

/-- A call of `pipe` carries the stream on, and if it raises, what it loses is lost. -/
theorem carries_call {a : Answer} {input output input' output' : Peer} {p : Pipe}
    {next : Option Pipe} {before relayed : Bytes}
    (hreceived : output.received = before ++ relayed)
    (h : Carries remoteStream relayed input.pending p)
    (hcall : call a input output p = some (next, input', output')) :
  ∃ relayed', output'.received = before ++ relayed' ∧
    Carries remoteStream relayed' input'.pending (next.getD .closing)
  := by
  cases a with
  | returned n =>
      obtain ⟨relayed', hreceived', hstep⟩ := step_received hreceived hcall
      use relayed', hreceived'
      have hrelayed : Carries remoteStream { output with received := relayed }.received
          input.pending p := h
      apply carries_step hrelayed hstep
  | raised n =>
      cases p with
      | reading =>
          obtain ⟨rfl, rfl, rfl⟩ := hcall
          exact ⟨relayed, hreceived, h.closing⟩
      | writing chunk =>
          simp only [call] at hcall
          split_ifs at hcall with hopen
          · obtain ⟨rfl, rfl, rfl⟩ := hcall
            refine ⟨relayed ++ chunk.take n, ?_, chunk.drop n, ?_⟩
            · rw [hreceived, List.append_assoc]
            · rw [List.append_assoc relayed, List.take_append_drop]
              apply h.2
          · obtain ⟨rfl, rfl, rfl⟩ := hcall
            exact ⟨relayed, hreceived, h.closing⟩
      | closing =>
          obtain ⟨rfl, rfl, rfl⟩ := hcall
          exact ⟨relayed, hreceived, h⟩
  | value b => cases hcall

theorem lawful_init (q : Request) (clientStream remoteStream : Bytes) :
  (init clientStream remoteStream).Lawful q remoteStream
    (init clientStream remoteStream).handler.stage
  := by
  exact ⟨rfl, rfl, rfl, rfl, rfl⟩

/-- What the verdict is about. -/
def Connection.account (s : Connection) : List UInt8 × Bytes × ℕ × ℕ × Bool × Bytes :=
  (s.verdicts, s.client.received, s.tcpConnectOk, s.tcpConnectFail, s.connected, s.remote.pending)

theorem Connection.Silent.congr (hs : s.Silent remoteStream) (h : t.account = s.account) :
  t.Silent remoteStream
  := by
  simp only [account, Prod.mk.injEq] at h
  obtain ⟨hverdicts, hreceived, hok, hfail, -, hpending⟩ := h
  exact ⟨hverdicts.trans hs.verdicts, hreceived.trans hs.received, hok.trans hs.ok,
    hfail.trans hs.fail, hpending.trans hs.pending⟩

theorem Connection.Denied.congr (hs : s.Denied) (h : t.account = s.account) :
  t.Denied
  := by
  simp only [account, Prod.mk.injEq] at h
  obtain ⟨hverdicts, -, hok, hfail, -, -⟩ := h
  exact ⟨hverdicts ▸ hs.verdicts, hok.trans hs.ok, hfail.trans hs.fail⟩

theorem Connection.Relays.congr {p : Pipe} (hs : s.Relays q remoteStream p)
    (h : t.account = s.account) :
  t.Relays q remoteStream p
  := by
  simp only [account, Prod.mk.injEq] at h
  obtain ⟨hverdicts, hreceived, hok, hfail, hconnected, hpending⟩ := h
  refine ⟨hverdicts.trans hs.verdicts, hok.trans hs.ok, hfail.trans hs.fail,
    hconnected.trans hs.connected, ?_⟩
  rw [hreceived, hpending]
  apply hs.received

/-- A step that changes nothing the verdict is about keeps the law of its stage. -/
theorem Connection.Lawful.congr {stage : Stage} (hs : s.Lawful q remoteStream stage)
    (h : t.account = s.account) :
  t.Lawful q remoteStream stage
  := by
  cases stage with
  | connecting => exact Silent.congr hs h
  | connected =>
      simp only [account, Prod.mk.injEq] at h
      obtain ⟨hsilent, hconnected⟩ := hs
      refine ⟨hsilent.congr ?_, h.2.2.2.2.1.trans hconnected⟩
      simp only [account, Prod.mk.injEq]
      apply h
  | refused => exact Denied.congr hs h
  | relaying p => exact Relays.congr hs h
  | failing => exact Silent.congr hs h
  | finished =>
      obtain hdenied | hrelays := hs
      · exact Or.inl (hdenied.congr h)
      · exact Or.inr (hrelays.congr h)

theorem stage_elim (next : Option Pipe) :
  (next.elim Handler.shutting Handler.piping).stage = .relaying (next.getD .closing)
  := by
  cases next <;> rfl

/-- A failure is replied and counted where nothing has been before. -/
theorem Connection.Silent.denied (hs : s.Silent remoteStream) {rep : UInt8} (hrep : rep ≠ 0x00)
    (bytes : Bytes) (h : Handler) :
  { s.write rep bytes with handler := h, tcpConnectFail := s.tcpConnectFail + 1 }.Denied
  := by
  refine ⟨⟨rep, hrep, ?_⟩, hs.ok, ?_⟩
  · change s.verdicts ++ [rep] = [rep]
    rw [hs.verdicts, List.nil_append]
  · change s.tcpConnectFail + 1 = 1
    rw [hs.fail]

theorem lawful_step {e : Event} (hs : s.Lawful q remoteStream s.handler.stage)
    (hok : s.Undisturbed e) (h : step q s e = some t) :
  t.Lawful q remoteStream t.handler.stage
  := by
  cases steps_of_step h with
  | up a up pending socket received => exact hs.congr rfl
  | prepared a next hstage hnext =>
      change Connection.Lawful q remoteStream _ next.stage
      rw [hstage] at hs
      rw [hnext]
      exact hs.congr rfl
  | connected a next hstage hnext =>
      change Connection.Lawful q remoteStream _ next.stage
      rw [hstage] at hs
      rw [hnext]
      exact ⟨⟨hs.verdicts, hs.received, hs.ok, hs.fail, hs.pending⟩, rfl⟩
  | remembered n hhandler =>
      rw [hhandler] at hs
      exact Connection.Lawful.congr hs rfl
  | refused n hhandler =>
      rw [hhandler] at hs
      apply Connection.Silent.denied hs (by decide)
  | closedRefused n hhandler =>
      rw [hhandler] at hs
      left
      exact Connection.Denied.congr hs rfl
  | replied n hhandler =>
      rw [hhandler] at hs
      obtain ⟨hsilent, hconnected⟩ := hs
      refine ⟨?_, ?_, hsilent.fail, hconnected, [], ?_, hsilent.pending⟩
      · change s.verdicts ++ [0x00] = [0x00]
        rw [hsilent.verdicts, List.nil_append]
      · change s.tcpConnectOk + 1 = 1
        rw [hsilent.ok]
      · change s.client.received ++ q.successReply = q.successReply ++ []
        rw [hsilent.received, List.nil_append, List.append_nil]
  | gotInput n hhandler hremote =>
      rw [hhandler] at hs
      exact Connection.Lawful.congr hs rfl
  | piped a p next client remote hhandler hcall =>
      change Connection.Lawful q remoteStream _
        (next.elim Handler.shutting Handler.piping).stage
      rw [hhandler] at hs
      rw [stage_elim]
      obtain ⟨hverdicts, hcounted, hfail, hconnected, relayed, hreceived, hcarries⟩ := hs
      exact ⟨hverdicts, hcounted, hfail, hconnected, carries_call hreceived hcarries hcall⟩
  | shut a socket hhandler =>
      rw [hhandler] at hs
      exact Connection.Lawful.congr hs rfl
  | joined n hhandler =>
      rw [hhandler] at hs
      right
      exact Connection.Relays.congr hs rfl
  | caught n hhandler =>
      rw [hhandler] at hs
      left
      apply Connection.Silent.denied hs (by decide)
  | silent n hhandler => exact absurd hhandler hok.2.2.2
  | closedRemote a hhandler =>
      rw [hhandler] at hs
      exact Connection.Lawful.congr hs rfl
  | closedClient a hhandler =>
      rw [hhandler] at hs
      exact Connection.Lawful.congr hs rfl
  | raised n hstage =>
      obtain hstage | hstage := hstage
      · rw [hstage] at hs
        exact Connection.Silent.congr hs rfl
      · rw [hstage] at hs
        exact Connection.Silent.congr hs.1 rfl
  | raisedLate n hhandler =>
      obtain ⟨hrefused, hinput, hjoining, -⟩ := hok
      obtain hhandler | hhandler | hhandler := hhandler
      · exact absurd hhandler hrefused
      · exact absurd hhandler hinput
      · exact absurd hhandler hjoining

/-- The law of the last stage is the verdict. -/
theorem Connection.Lawful.oneVerdict (hs : s.Lawful q remoteStream .finished) :
  s.OneVerdict q remoteStream
  := by
  obtain hdenied | hrelays := hs
  · obtain ⟨⟨rep, hrep, hverdicts⟩, hok, hfail⟩ := hdenied
    refine ⟨⟨rep, hverdicts⟩, Or.inr ⟨hok, hfail⟩, ?_⟩
    intro hsuccess
    rw [hverdicts, List.mem_singleton] at hsuccess
    exact absurd hsuccess.symm hrep
  · obtain ⟨hverdicts, hok, hfail, hconnected, relayed, hreceived, hcarries⟩ := hrelays
    refine ⟨⟨0x00, hverdicts⟩, Or.inl ⟨hok, hfail⟩, ?_⟩
    intro _
    exact ⟨hconnected, relayed, hreceived, hcarries.isPrefix⟩

/-! ### The calls that raise too late -/

/-- The number of verdicts that have been counted. -/
def Connection.counted (s : Connection) : ℕ :=
  s.tcpConnectOk + s.tcpConnectFail

/-- The stages after a reply that has been counted. -/
def Stage.Late : Stage → Prop
  | .refused => True
  | .relaying _ => True
  | _ => False

/-- A reply has been counted as soon as it is written, and a call of a late stage comes after one. -/
structure Connection.Counted (s : Connection) : Prop where
  replied : s.verdicts ≠ [] → 1 ≤ s.counted
  late : s.handler.stage.Late → 1 ≤ s.counted

theorem counted_init (clientStream remoteStream : Bytes) :
  (init clientStream remoteStream).Counted
  := by
  constructor
  · intro hreplied
    exact absurd rfl hreplied
  · intro hlate
    cases hlate

/-- The counters of a request never go down. -/
theorem counted_le {e : Event} (h : step q s e = some t) :
  s.counted ≤ t.counted
  := by
  cases steps_of_step h with
  | refused n hhandler => exact Nat.le_succ _
  | replied n hhandler => exact Nat.add_le_add_right (Nat.le_succ _) _
  | caught n hhandler => exact Nat.le_succ _
  | silent n hhandler => exact Nat.le_succ _
  | _ => exact Nat.le_refl _

theorem counted_step {e : Event} (hs : s.Counted) (h : step q s e = some t) :
  t.Counted
  := by
  have hle := counted_le h
  obtain ⟨hreplied, hlate⟩ := hs
  cases steps_of_step h with
  | refused n hhandler =>
      constructor <;> intro _ <;> exact Nat.le_add_left 1 _
  | replied n hhandler =>
      have hcounted : 1 ≤ (s.tcpConnectOk + 1) + s.tcpConnectFail := by
        omega
      exact ⟨fun _ => hcounted, fun _ => hcounted⟩
  | caught n hhandler =>
      constructor <;> intro _ <;> exact Nat.le_add_left 1 _
  | silent n hhandler =>
      constructor <;> intro _ <;> exact Nat.le_add_left 1 _
  | prepared a next hstage hnext =>
      use hreplied
      rw [hnext]
      intro hlate
      cases hlate
  | connected a next hstage hnext =>
      use hreplied
      rw [hnext]
      intro hlate
      cases hlate
  | gotInput n hhandler hremote =>
      rw [hhandler] at hlate
      exact ⟨hreplied, hlate⟩
  | piped a p next client remote hhandler hcall =>
      rw [hhandler] at hlate
      exact ⟨hreplied, fun _ => hlate trivial⟩
  | shut a socket hhandler =>
      rw [hhandler] at hlate
      exact ⟨hreplied, hlate⟩
  | up a up pending socket received => exact ⟨hreplied, hlate⟩
  | _ =>
      use hreplied
      intro hlate
      cases hlate

/-- The request has had two verdicts, or is about to have the second, or it is over without a
reply. -/
def Connection.Misjudged (s : Connection) : Prop :=
  2 ≤ s.counted ∨ (s.handler = .failing ∧ 1 ≤ s.counted) ∨
    (s.handler.stage = .finished ∧ s.verdicts = [])

theorem misjudged_step {e : Event} (hs : s.Misjudged) (h : step q s e = some t) :
  t.Misjudged
  := by
  obtain htwo | ⟨hfailing, hone⟩ | ⟨hover, hnone⟩ := hs
  · left
    apply Nat.le_trans htwo (counted_le h)
  · cases steps_of_step h with
    | up a up pending socket received => exact Or.inr (Or.inl ⟨hfailing, hone⟩)
    | caught n hhandler => exact Or.inl (Nat.succ_le_succ hone)
    | silent n hhandler => exact Or.inl (Nat.succ_le_succ hone)
    | _ => grind [Handler.stage]
  · cases steps_of_step h with
    | up a up pending socket received => exact Or.inr (Or.inr ⟨hover, hnone⟩)
    | closedRemote a hhandler => exact Or.inr (Or.inr ⟨rfl, hnone⟩)
    | closedClient a hhandler => exact Or.inr (Or.inr ⟨rfl, hnone⟩)
    | _ => grind [Handler.stage]

theorem exists_raised_of_not_undisturbed {e : Event} (hok : ¬ s.Undisturbed e) :
  ∃ n, e = .handler (.raised n) ∧ (s.handler = .closingRefused ∨ s.handler = .gettingInput ∨
    s.handler = .joining ∨ s.handler = .failing)
  := by
  cases e with
  | up a => exact absurd trivial hok
  | handler a =>
      cases a with
      | returned n => exact absurd trivial hok
      | value b => exact absurd trivial hok
      | raised n =>
          use n, rfl
          unfold Connection.Undisturbed at hok
          tauto

/-- A call that raises too late takes the verdict from the request. -/
theorem misjudged_of_not_undisturbed {e : Event} (hs : s.Counted) (hok : ¬ s.Undisturbed e)
    (h : step q s e = some t) :
  t.Misjudged
  := by
  obtain ⟨n, rfl, hhandler⟩ := exists_raised_of_not_undisturbed hok
  cases steps_of_step h with
  | silent n hfailing =>
      by_cases hnone : s.verdicts = []
      · exact Or.inr (Or.inr ⟨rfl, hnone⟩)
      · exact Or.inl (Nat.succ_le_succ (hs.replied hnone))
  | raisedLate n hlate =>
      right
      left
      use rfl
      apply hs.late
      obtain hlate | hlate | hlate := hlate <;> rw [hlate] <;> trivial
  | _ => grind [Handler.stage]

/-- A request that is misjudged has not had one verdict when it is over. -/
theorem Connection.Misjudged.not_oneVerdict (hs : s.Misjudged) (hended : s.handler = .ended) :
  ¬ s.OneVerdict q remoteStream
  := by
  rintro ⟨⟨rep, hreplied⟩, hcounted, -⟩
  obtain htwo | ⟨hfailing, -⟩ | ⟨-, hnone⟩ := hs
  · rw [Connection.counted] at htwo
    omega
  · rw [hended] at hfailing
    cases hfailing
  · rw [hreplied] at hnone
    cases hnone

/-- A request that has been handled to its end has had one verdict exactly if none of the calls that
come after a reply has raised, nor the reply of the `catch` block. -/
theorem oneVerdict_iff (q : Request) (clientStream remoteStream : Bytes) (es : List Event)
    {t : Connection} (hrun : Run.exec (step q) (init clientStream remoteStream) es = some t)
    (hended : t.handler = .ended) :
  t.OneVerdict q remoteStream ↔
    Run.Meets (step q) Connection.Undisturbed (init clientStream remoteStream) es
  := by
  constructor
  · intro hverdict
    by_contra hnot
    have hinv : ∀ s e t, s.Counted → step q s e = some t → t.Counted := by
      intro s e t hs h
      apply counted_step hs h
    have hbreak : ∀ s e t, s.Counted → ¬ s.Undisturbed e → step q s e = some t →
        t.Misjudged := by
      intro s e t hs hok h
      apply misjudged_of_not_undisturbed hs hok h
    have hbad : ∀ s e t, s.Counted → s.Misjudged → step q s e = some t → t.Misjudged := by
      intro s e t _ hs h
      apply misjudged_step hs h
    have hmisjudged := Run.bad_of_not_meets hinv hbreak hbad
      (counted_init clientStream remoteStream) hrun hnot
    exact hmisjudged.not_oneVerdict hended hverdict
  · intro hmeets
    have hinv : ∀ s e t, s.Lawful q remoteStream s.handler.stage → s.Undisturbed e →
        step q s e = some t → t.Lawful q remoteStream t.handler.stage := by
      intro s e t hs hok h
      apply lawful_step hs hok h
    have hlawful := Run.invariant_of_meets hinv (lawful_init q clientStream remoteStream) hmeets
      hrun
    rw [hended] at hlawful
    exact Connection.Lawful.oneVerdict hlawful

/-- A connection to a Telegram address where no race is won: the remote sends two bytes, and both peers
end their streams. -/
def connectAndRelay : List Event :=
  [.handler (.returned 0), .handler (.value false), .handler (.value true), .handler (.returned 0),
    .handler (.returned 0), .handler (.returned 0), .handler (.returned 0), .up (.returned 0),
    .handler (.returned 0), .handler (.returned 2), .handler (.returned 0), .handler (.returned 0),
    .up (.returned 0), .handler (.returned 0), .up (.returned 0), .handler (.returned 0),
    .up (.returned 0), .handler (.returned 0), .handler (.returned 0), .handler (.returned 0)]

/-- A request for a Telegram address. -/
def telegramRequest : Request := ⟨true, true, true, none⟩

theorem oneVerdict_connectAndRelay :
  ∃ t, Run.exec (step telegramRequest) (init [] [0x16, 0x03]) connectAndRelay = some t ∧
    t.handler = .ended ∧ t.OneVerdict telegramRequest [0x16, 0x03]
  := by
  refine ⟨_, rfl, rfl, ?_⟩
  exact (oneVerdict_iff telegramRequest [] [0x16, 0x03] connectAndRelay rfl rfl).mpr
    (by decide +kernel)

/-- The client ends its stream with the request, and the thread `s5-c2s` comes to its end before the
handler gets the input of the remote. -/
def upstreamEndsFirst : List Event :=
  [.handler (.returned 0), .handler (.value true), .handler (.returned 0), .handler (.returned 0),
    .handler (.returned 0), .up (.returned 0), .up (.returned 0), .up (.returned 0),
    .handler (.raised 0), .handler (.returned 0), .handler (.returned 0), .handler (.returned 0)]

/-- The client receives two replies, and both counters go up. -/
theorem not_oneVerdict_upstreamEndsFirst :
  ∃ t, Run.exec (step ⟨false, true, true, none⟩) (init [] [0x16, 0x03]) upstreamEndsFirst = some t ∧
    t.handler = .ended ∧ ¬ t.OneVerdict ⟨false, true, true, none⟩ [0x16, 0x03]
  := by
  refine ⟨_, rfl, rfl, ?_⟩
  rintro ⟨⟨rep, hreplied⟩, -, -⟩
  cases hreplied

end Socks.ConnectVerdict
