import DtmaOne.Library.Run
import DtmaOne.Socks.Address
import Mathlib.Tactic.Basic

/-!
# The relay of `LocalSocks5Server.doConnect`

After the reply to a CONNECT request two threads copy bytes between the client and the
remote.  The thread `s5-c2s` runs `pipe` from the client to the remote and then shuts down
the output of the remote; the thread of the request runs `pipe` from the remote to the client,
shuts down the output of the client, waits for the other thread for at most 500 ms and closes
both sockets.

`pipe` itself ends with `output.close()`, and the output stream of a socket closes the whole
socket, so the direction that ends first also ends the other one.  A step is one call on a
socket; the streams of both peers are finite and no peer raises an error.

Both streams are delivered exactly when no socket is closed while bytes have still to go
through it.
-/

namespace Socks.ConnectRelay

/-- A `java.net.Socket` that has been connected. -/
inductive SocketState where
  | opened
  | outputShut
  | closed
  deriving DecidableEq, Repr

/-- `shutdownOutput`; it throws on a socket that is closed or shut, and the exception is
ignored. -/
def SocketState.shutdownOutput : SocketState → SocketState
  | .opened => .outputShut
  | s => s

theorem SocketState.eq_closed {s : SocketState} (hopened : s ≠ .opened)
    (hshut : s ≠ .outputShut) :
  s = .closed
  := by
  cases s with
  | opened => exact absurd rfl hopened
  | outputShut => exact absurd rfl hshut
  | closed => rfl

/-- A peer of the relay: its socket, the bytes it sends before its end of stream that have not
been read, and the bytes `pipe` has written to it. -/
structure Peer where
  socket : SocketState := .opened
  pending : Bytes
  received : Bytes := []
  deriving DecidableEq, Repr

/-- Where a thread is in `pipe`. -/
inductive Pipe where
  | reading
  | writing (chunk : Bytes)
  | closing
  deriving DecidableEq, Repr

/-- `ByteArray(64 * 1024)` -/
def bufferSize : ℕ := 64 * 1024

/-- One call of `pipe` on a socket; a `read` returns `n` bytes.  The first component is where
the thread is afterwards, `none` when `pipe` has returned. -/
def Pipe.step (n : ℕ) (input output : Peer) : Pipe → Option (Option Pipe × Peer × Peer)
  | .reading =>
      if input.socket = .closed ∨ input.pending = [] then some (some .closing, input, output)
      else if 0 < n ∧ n ≤ bufferSize ∧ n ≤ input.pending.length then
        some (some (.writing (input.pending.take n)),
          { input with pending := input.pending.drop n }, output)
      else none
  | .writing chunk =>
      if output.socket = .opened then
        some (some .reading, input, { output with received := output.received ++ chunk })
      else some (some .closing, input, output)
  | .closing => some (none, input, { output with socket := .closed })

/-- Where the thread `s5-c2s` is. -/
inductive Up where
  | start
  | piping (p : Pipe)
  | shutting
  | ended
  deriving DecidableEq, Repr

/-- Where the thread of the request is. -/
inductive Down where
  | start
  | piping (p : Pipe)
  | shutting
  | joining
  | failed
  | closingRemote
  | closingClient
  | ended
  deriving DecidableEq, Repr

/-- The relay.  The reply of the exception handler is kept apart from the relayed bytes. -/
structure Relay where
  up : Up := .start
  down : Down := .start
  client : Peer
  remote : Peer
  failure : Option Bytes := none
  deriving DecidableEq, Repr

/-- A step of the relay: the next call of one of the threads, with the number of bytes it
reads if it is a `read`, or the end of the time of `up.join(500)`. -/
inductive Event where
  | up (n : ℕ)
  | down (n : ℕ)
  | joinTimeout
  deriving DecidableEq, Repr

/-- The next call of the thread `s5-c2s`. -/
def Relay.stepUp (s : Relay) (n : ℕ) : Option Relay :=
  match s.up with
  | .start =>
      if s.remote.socket = .opened then some { s with up := .piping .reading }
      else some { s with up := .ended }
  | .piping p =>
      (p.step n s.client s.remote).map fun (q, client, remote) =>
        { s with up := q.elim .shutting .piping, client := client, remote := remote }
  | .shutting =>
      some { s with
        up := .ended, remote := { s.remote with socket := s.remote.socket.shutdownOutput } }
  | .ended => none

/-- The next call of the thread of the request. -/
def Relay.stepDown (s : Relay) (n : ℕ) : Option Relay :=
  match s.down with
  | .start =>
      if s.remote.socket = .closed then some { s with down := .failed }
      else some { s with down := .piping .reading }
  | .piping p =>
      (p.step n s.remote s.client).map fun (q, remote, client) =>
        { s with down := q.elim .shutting .piping, client := client, remote := remote }
  | .shutting =>
      some { s with
        down := .joining, client := { s.client with socket := s.client.socket.shutdownOutput } }
  | .joining => if s.up = .ended then some { s with down := .closingRemote } else none
  | .failed =>
      some { s with
        down := .closingRemote
        failure := if s.client.socket = .opened then some (reply 0x05 .any 0) else none }
  | .closingRemote =>
      some { s with down := .closingClient, remote := { s.remote with socket := .closed } }
  | .closingClient =>
      some { s with down := .ended, client := { s.client with socket := .closed } }
  | .ended => none

/-- One step of the relay. -/
def step (s : Relay) : Event → Option Relay
  | .up n => s.stepUp n
  | .down n => s.stepDown n
  | .joinTimeout => if s.down = .joining then some { s with down := .closingRemote } else none

/-- The relay after the reply to the request, when the client sends `clientStream` and the
remote sends `remoteStream`. -/
def init (clientStream remoteStream : Bytes) : Relay where
  client := { pending := clientStream }
  remote := { pending := remoteStream }

/-- Both threads have ended. -/
def Relay.Ended (s : Relay) : Prop :=
  s.up = .ended ∧ s.down = .ended

instance (s : Relay) : Decidable s.Ended := inferInstanceAs (Decidable (_ ∧ _))

/-! ### One direction -/

/-- Where the thread is in its `pipe`: before it, nothing has been read; after it, the output
is closed. -/
def Up.pipe : Up → Pipe
  | .start => .reading
  | .piping p => p
  | _ => .closing

/-- Where the thread is in its `pipe`: before it, nothing has been read; after it, the output
is closed. -/
def Down.pipe : Down → Pipe
  | .start => .reading
  | .piping p => p
  | _ => .closing

theorem Up.eq_of_pipe_eq_writing {u : Up} {chunk : Bytes} (h : u.pipe = .writing chunk) :
  u = .piping (.writing chunk)
  := by
  cases u with
  | piping p =>
      obtain rfl : p = .writing chunk := h
      rfl
  | start => cases h
  | shutting => cases h
  | ended => cases h

/-- The bytes of `stream` are those received, those the thread holds and those still to be
read, in this order; once the loop of `pipe` is over some may be lost. -/
def Carries (stream received pending : Bytes) : Pipe → Prop
  | .reading => received ++ pending = stream
  | .writing chunk => chunk ≠ [] ∧ received ++ chunk ++ pending = stream
  | .closing => ∃ lost, received ++ lost ++ pending = stream

theorem Carries.closing {stream received pending : Bytes} {p : Pipe}
    (h : Carries stream received pending p) :
  Carries stream received pending .closing
  := by
  cases p with
  | reading =>
      use []
      rw [List.append_nil]
      apply h
  | writing chunk => exact ⟨chunk, h.2⟩
  | closing => apply h

/-- What has been received is a prefix of the stream. -/
theorem Carries.isPrefix {stream received pending : Bytes} {p : Pipe}
    (h : Carries stream received pending p) :
  received <+: stream
  := by
  obtain ⟨lost, rfl⟩ := h.closing
  rw [List.append_assoc]
  apply List.prefix_append

theorem Carries.pending_eq_nil {stream pending : Bytes} {p : Pipe}
    (h : Carries stream stream pending p) :
  pending = []
  := by
  obtain ⟨lost, hlost⟩ := h.closing
  have hlen := congrArg List.length hlost
  simp only [List.length_append] at hlen
  apply List.length_eq_zero_iff.mp
  omega

theorem Carries.not_writing {stream pending chunk : Bytes} :
  ¬ Carries stream stream pending (.writing chunk)
  := by
  rintro ⟨hne, heq⟩
  apply hne
  have hlen := congrArg List.length heq
  simp only [List.length_append] at hlen
  apply List.length_eq_zero_iff.mp
  omega

/-- A call of `pipe` carries the stream on. -/
theorem carries_step {stream : Bytes} {n : ℕ} {input output input' output' : Peer}
    {p : Pipe} {q : Option Pipe} (h : Carries stream output.received input.pending p)
    (hstep : p.step n input output = some (q, input', output')) :
  Carries stream output'.received input'.pending (q.getD .closing)
  := by
  cases p with
  | reading =>
      simp only [Pipe.step] at hstep
      split_ifs at hstep with hend hn
      · obtain ⟨rfl, rfl, rfl⟩ := hstep
        apply h.closing
      · obtain ⟨rfl, rfl, rfl⟩ := hstep
        constructor
        · intro hnil
          have hlen := congrArg List.length hnil
          simp only [List.length_take, List.length_nil] at hlen
          omega
        · rw [List.append_assoc, List.take_append_drop]
          apply h
  | writing chunk =>
      simp only [Pipe.step] at hstep
      split_ifs at hstep with hopen
      · obtain ⟨rfl, rfl, rfl⟩ := hstep
        apply h.2
      · obtain ⟨rfl, rfl, rfl⟩ := hstep
        apply h.closing
  | closing =>
      obtain ⟨rfl, rfl, rfl⟩ := hstep
      apply h

/-! ### The cases of a step -/

/-- The cases of a call of `pipe`. -/
inductive Pipe.Calls (n : ℕ) (input output : Peer) : Pipe → Option Pipe → Peer → Peer → Prop where
  | readEnd (hend : input.socket = .closed ∨ input.pending = []) :
      Calls n input output .reading (some .closing) input output
  | read (hopen : input.socket ≠ .closed) (hne : input.pending ≠ []) :
      Calls n input output .reading (some (.writing (input.pending.take n)))
        { input with pending := input.pending.drop n } output
  | write (chunk : Bytes) (hopen : output.socket = .opened) :
      Calls n input output (.writing chunk) (some .reading) input
        { output with received := output.received ++ chunk }
  | writeFailed (chunk : Bytes) (hclosed : output.socket ≠ .opened) :
      Calls n input output (.writing chunk) (some .closing) input output
  | close :
      Calls n input output .closing none input { output with socket := .closed }

theorem Pipe.calls_of_step {n : ℕ} {input output input' output' : Peer} {p : Pipe}
    {q : Option Pipe} (h : p.step n input output = some (q, input', output')) :
  Calls n input output p q input' output'
  := by
  cases p with
  | reading =>
      simp only [Pipe.step] at h
      split_ifs at h with hend hn
      · obtain ⟨rfl, rfl, rfl⟩ := h
        apply Calls.readEnd hend
      · obtain ⟨rfl, rfl, rfl⟩ := h
        rw [not_or] at hend
        apply Calls.read hend.1 hend.2
  | writing chunk =>
      simp only [Pipe.step] at h
      split_ifs at h with hopen
      · obtain ⟨rfl, rfl, rfl⟩ := h
        apply Calls.write chunk hopen
      · obtain ⟨rfl, rfl, rfl⟩ := h
        apply Calls.writeFailed chunk hopen
  | closing =>
      obtain ⟨rfl, rfl, rfl⟩ := h
      apply Calls.close

/-- The cases of a step of the relay. -/
inductive Steps (s : Relay) : Event → Relay → Prop where
  | upStart (n : ℕ) (hup : s.up = .start) (hopen : s.remote.socket = .opened) :
      Steps s (.up n) { s with up := .piping .reading }
  | upDied (n : ℕ) (hup : s.up = .start) (hclosed : s.remote.socket ≠ .opened) :
      Steps s (.up n) { s with up := .ended }
  | upPipe (n : ℕ) (p : Pipe) (q : Option Pipe) (client remote : Peer) (hup : s.up = .piping p)
      (hpipe : p.step n s.client s.remote = some (q, client, remote)) :
      Steps s (.up n)
        { s with up := q.elim .shutting .piping, client := client, remote := remote }
  | upShut (n : ℕ) (hup : s.up = .shutting) :
      Steps s (.up n) { s with
        up := .ended, remote := { s.remote with socket := s.remote.socket.shutdownOutput } }
  | downFailed (n : ℕ) (hdown : s.down = .start) (hclosed : s.remote.socket = .closed) :
      Steps s (.down n) { s with down := .failed }
  | downStart (n : ℕ) (hdown : s.down = .start) (hopen : s.remote.socket ≠ .closed) :
      Steps s (.down n) { s with down := .piping .reading }
  | downPipe (n : ℕ) (p : Pipe) (q : Option Pipe) (client remote : Peer)
      (hdown : s.down = .piping p)
      (hpipe : p.step n s.remote s.client = some (q, remote, client)) :
      Steps s (.down n)
        { s with down := q.elim .shutting .piping, client := client, remote := remote }
  | downShut (n : ℕ) (hdown : s.down = .shutting) :
      Steps s (.down n) { s with
        down := .joining, client := { s.client with socket := s.client.socket.shutdownOutput } }
  | joined (n : ℕ) (hdown : s.down = .joining) :
      Steps s (.down n) { s with down := .closingRemote }
  | timedOut (hdown : s.down = .joining) :
      Steps s .joinTimeout { s with down := .closingRemote }
  | replied (n : ℕ) (failure : Option Bytes) (hdown : s.down = .failed) :
      Steps s (.down n) { s with down := .closingRemote, failure := failure }
  | closeRemote (n : ℕ) (hdown : s.down = .closingRemote) :
      Steps s (.down n)
        { s with down := .closingClient, remote := { s.remote with socket := .closed } }
  | closeClient (n : ℕ) (hdown : s.down = .closingClient) :
      Steps s (.down n) { s with down := .ended, client := { s.client with socket := .closed } }

theorem steps_of_stepUp {s t : Relay} {n : ℕ} (h : s.stepUp n = some t) :
  Steps s (.up n) t
  := by
  unfold Relay.stepUp at h
  split at h
  case h_1 hup =>
    split_ifs at h with hopen
    · obtain rfl := Option.some.inj h
      apply Steps.upStart n hup hopen
    · obtain rfl := Option.some.inj h
      apply Steps.upDied n hup hopen
  case h_2 p hup =>
    obtain ⟨⟨q, client, remote⟩, hpipe, rfl⟩ := Option.map_eq_some_iff.mp h
    apply Steps.upPipe n p q client remote hup hpipe
  case h_3 hup =>
    obtain rfl := Option.some.inj h
    apply Steps.upShut n hup
  case h_4 hup => cases h

theorem steps_of_stepDown {s t : Relay} {n : ℕ} (h : s.stepDown n = some t) :
  Steps s (.down n) t
  := by
  unfold Relay.stepDown at h
  split at h
  case h_1 hdown =>
    split_ifs at h with hclosed
    · obtain rfl := Option.some.inj h
      apply Steps.downFailed n hdown hclosed
    · obtain rfl := Option.some.inj h
      apply Steps.downStart n hdown hclosed
  case h_2 p hdown =>
    obtain ⟨⟨q, remote, client⟩, hpipe, rfl⟩ := Option.map_eq_some_iff.mp h
    apply Steps.downPipe n p q client remote hdown hpipe
  case h_3 hdown =>
    obtain rfl := Option.some.inj h
    apply Steps.downShut n hdown
  case h_4 hdown =>
    split_ifs at h
    obtain rfl := Option.some.inj h
    apply Steps.joined n hdown
  case h_5 hdown =>
    obtain rfl := Option.some.inj h
    apply Steps.replied n _ hdown
  case h_6 hdown =>
    obtain rfl := Option.some.inj h
    apply Steps.closeRemote n hdown
  case h_7 hdown =>
    obtain rfl := Option.some.inj h
    apply Steps.closeClient n hdown
  case h_8 hdown => cases h

theorem steps_of_step {s t : Relay} {e : Event} (h : step s e = some t) :
  Steps s e t
  := by
  cases e with
  | up n => apply steps_of_stepUp h
  | down n => apply steps_of_stepDown h
  | joinTimeout =>
      simp only [step] at h
      split_ifs at h with hjoin
      obtain rfl := Option.some.inj h
      apply Steps.timedOut hjoin

/-! ### What every run keeps -/

/-- What holds in every state of the relay. -/
structure Sound (clientStream remoteStream : Bytes) (s : Relay) : Prop where
  up : Carries clientStream s.remote.received s.client.pending s.up.pipe
  down : Carries remoteStream s.client.received s.remote.pending s.down.pipe
  remoteShut : s.remote.socket ≠ .outputShut
  clientShut : s.client.socket ≠ .outputShut
  upShutting : s.up = .shutting → s.remote.socket = .closed
  downShutting : s.down = .shutting ∨ s.down = .joining → s.client.socket = .closed
  failed : s.down = .failed → s.remote.socket = .closed
  closingRemote : s.down = .closingRemote → s.client.socket = .closed ∨ s.remote.socket = .closed
  closingClient : s.down = .closingClient → s.remote.socket = .closed

variable {clientStream remoteStream : Bytes}

theorem sound_init (clientStream remoteStream : Bytes) :
  Sound clientStream remoteStream (init clientStream remoteStream)
  := by
  constructor <;> simp [init, Carries, Up.pipe, Down.pipe]

theorem upPipe_elim (q : Option Pipe) :
  (q.elim Up.shutting Up.piping).pipe = q.getD .closing
  := by
  cases q <;> rfl

theorem downPipe_elim (q : Option Pipe) :
  (q.elim Down.shutting Down.piping).pipe = q.getD .closing
  := by
  cases q <;> rfl

theorem sound_step {s t : Relay} {e : Event} (hs : Sound clientStream remoteStream s)
    (h : step s e = some t) :
  Sound clientStream remoteStream t
  := by
  obtain ⟨hcarriesUp, hcarriesDown, hremoteShut, hclientShut, hupShutting, hdownShutting, hfailed,
    hclosingRemote, hclosingClient⟩ := hs
  cases steps_of_step h with
  | upStart n hup hopen =>
      rw [hup] at hcarriesUp
      constructor <;> grind [Up.pipe]
  | upDied n hup hclosed =>
      have hlost := hcarriesUp.closing
      constructor <;> grind [Up.pipe]
  | upPipe n p q client remote hup hpipe =>
      rw [hup] at hcarriesUp
      have hcarries := carries_step hcarriesUp hpipe
      rw [← upPipe_elim] at hcarries
      cases Pipe.calls_of_step hpipe <;> constructor <;> grind
  | upShut n hup =>
      rw [hup] at hcarriesUp
      constructor <;> grind [SocketState.shutdownOutput, Up.pipe]
  | downFailed n hdown hclosed =>
      have hlost := hcarriesDown.closing
      constructor <;> grind [Down.pipe]
  | downStart n hdown hopen =>
      rw [hdown] at hcarriesDown
      constructor <;> grind [Down.pipe]
  | downPipe n p q client remote hdown hpipe =>
      rw [hdown] at hcarriesDown
      have hcarries := carries_step hcarriesDown hpipe
      rw [← downPipe_elim] at hcarries
      cases Pipe.calls_of_step hpipe <;> constructor <;> grind
  | downShut n hdown =>
      rw [hdown] at hcarriesDown
      constructor <;> grind [SocketState.shutdownOutput, Down.pipe]
  | joined n hdown =>
      rw [hdown] at hcarriesDown
      constructor <;> grind [Down.pipe]
  | timedOut hdown =>
      rw [hdown] at hcarriesDown
      constructor <;> grind [Down.pipe]
  | replied n failure hdown =>
      rw [hdown] at hcarriesDown
      constructor <;> grind [Down.pipe]
  | closeRemote n hdown =>
      rw [hdown] at hcarriesDown
      constructor <;> grind [Down.pipe]
  | closeClient n hdown =>
      rw [hdown] at hcarriesDown
      constructor <;> grind [Down.pipe]

/-! ### The sockets that are closed too early -/

/-- The step closes no socket that bytes have still to go through: `pipe` closes the remote
when all its bytes have been read, and the client when all its bytes have been read, and the
remote is not closed in the end while the other thread holds bytes for it. -/
def Orderly (s : Relay) : Event → Prop
  | .up _ => s.up = .piping .closing → s.remote.pending = []
  | .down _ =>
      (s.down = .piping .closing → s.client.pending = []) ∧
        (s.down = .closingRemote → ∀ chunk, s.up ≠ .piping (.writing chunk))
  | .joinTimeout => True

instance Up.decidableNotWriting : (up : Up) → Decidable (∀ chunk, up ≠ .piping (.writing chunk))
  | .piping (.writing chunk) => isFalse fun h => h chunk rfl
  | .start => isTrue (by simp)
  | .piping .reading => isTrue (by simp)
  | .piping .closing => isTrue (by simp)
  | .shutting => isTrue (by simp)
  | .ended => isTrue (by simp)

instance (s : Relay) : (e : Event) → Decidable (Orderly s e)
  | .up _ => inferInstanceAs (Decidable (_ → _))
  | .down _ => inferInstanceAs (Decidable (_ ∧ _))
  | .joinTimeout => isTrue trivial

/-- A thread that is through with its loop, and a socket that is no longer open, leave nothing
behind. -/
structure Kept (clientStream remoteStream : Bytes) (s : Relay) : Prop where
  up : s.up.pipe = .closing → s.client.pending = [] ∧ s.remote.received = clientStream
  down : s.down.pipe = .closing → s.remote.pending = [] ∧ s.client.received = remoteStream
  remote : s.remote.socket = .closed →
    s.remote.pending = [] ∧ s.client.pending = [] ∧ s.remote.received = clientStream
  client : s.client.socket = .closed → s.client.pending = [] ∧ s.down.pipe = .closing

theorem kept_init (clientStream remoteStream : Bytes) :
  Kept clientStream remoteStream (init clientStream remoteStream)
  := by
  constructor <;> simp [init, Up.pipe, Down.pipe]

/-- A thread that leaves its loop with nothing to read has delivered the stream. -/
theorem Carries.received_eq {stream received : Bytes}
    (h : Carries stream received [] .reading) :
  received = stream
  := by
  rw [← h, List.append_nil]

/-- The thread that goes on without a call on a socket keeps this, if it does not leave its
loop. -/
theorem Kept.setDown {s : Relay} (hk : Kept clientStream remoteStream s) {d : Down}
    (hpipe : d.pipe = s.down.pipe) (failure : Option Bytes) :
  Kept clientStream remoteStream { s with down := d, failure := failure }
  := by
  obtain ⟨hkeptUp, hkeptDown, hkeptRemote, hkeptClient⟩ := hk
  rw [← hpipe] at hkeptDown hkeptClient
  exact ⟨hkeptUp, hkeptDown, hkeptRemote, hkeptClient⟩

theorem kept_step {s t : Relay} {e : Event} (hs : Sound clientStream remoteStream s)
    (hk : Kept clientStream remoteStream s) (hok : Orderly s e) (h : step s e = some t) :
  Kept clientStream remoteStream t
  := by
  obtain ⟨hcarriesUp, hcarriesDown, hremoteShut, hclientShut, hupShutting, hdownShutting, hfailed,
    hclosingRemote, hclosingClient⟩ := hs
  have ⟨hkeptUp, hkeptDown, hkeptRemote, hkeptClient⟩ := hk
  cases steps_of_step h with
  | upStart n hup hopen =>
      constructor <;> grind [Up.pipe]
  | upDied n hup hclosed =>
      have hk := hkeptRemote (SocketState.eq_closed hclosed hremoteShut)
      constructor <;> grind
  | upPipe n p q client remote hup hpipe =>
      rw [hup] at hcarriesUp hkeptUp
      cases Pipe.calls_of_step hpipe with
      | readEnd hend =>
          have hnil : s.client.pending = [] := by grind
          have hall : s.remote.received = clientStream := by
            apply Carries.received_eq
            rw [← hnil]
            apply hcarriesUp
          constructor <;> grind
      | read hopen hne => constructor <;> grind [Up.pipe]
      | write chunk hopen => constructor <;> grind [Up.pipe]
      | writeFailed chunk hclosed =>
          rw [(hkeptRemote (SocketState.eq_closed hclosed hremoteShut)).2.2] at hcarriesUp
          exact absurd hcarriesUp Carries.not_writing
      | close =>
          have hnil : s.remote.pending = [] := hok hup
          constructor <;> grind [Up.pipe]
  | upShut n hup =>
      constructor <;> grind [SocketState.shutdownOutput, Up.pipe]
  | downFailed n hdown hclosed =>
      rw [hdown] at hcarriesDown
      have hall : s.client.received = remoteStream := by
        apply Carries.received_eq
        rw [← (hkeptRemote hclosed).1]
        apply hcarriesDown
      have hnil := (hkeptRemote hclosed).1
      constructor <;> grind [Down.pipe]
  | downStart n hdown hopen =>
      apply hk.setDown (by rw [hdown]; rfl)
  | downPipe n p q client remote hdown hpipe =>
      rw [hdown] at hcarriesDown hkeptDown hkeptClient
      cases Pipe.calls_of_step hpipe with
      | readEnd hend =>
          have hnil : s.remote.pending = [] := by grind
          have hall : s.client.received = remoteStream := by
            apply Carries.received_eq
            rw [← hnil]
            apply hcarriesDown
          constructor <;> grind [Down.pipe]
      | read hopen hne => constructor <;> grind [Down.pipe]
      | write chunk hopen => constructor <;> grind [Down.pipe]
      | writeFailed chunk hclosed =>
          have hpast := (hkeptClient (SocketState.eq_closed hclosed hclientShut)).2
          cases hpast
      | close =>
          have hnil : s.client.pending = [] := hok.1 hdown
          constructor <;> grind [Down.pipe]
  | downShut n hdown =>
      constructor <;> grind [SocketState.shutdownOutput, Down.pipe]
  | joined n hdown =>
      apply hk.setDown (by rw [hdown]; rfl)
  | timedOut hdown =>
      apply hk.setDown (by rw [hdown]; rfl)
  | replied n failure hdown =>
      apply hk.setDown (by rw [hdown]; rfl)
  | closeRemote n hdown =>
      have hnil : s.client.pending = [] := by grind
      have hall : s.remote.received = clientStream := by
        rw [hnil] at hcarriesUp
        cases hp : s.up.pipe with
        | reading =>
            rw [hp] at hcarriesUp
            apply hcarriesUp.received_eq
        | writing chunk =>
            exact absurd (Up.eq_of_pipe_eq_writing hp) (hok.2 hdown chunk)
        | closing => exact (hkeptUp hp).2
      constructor <;> grind [Down.pipe]
  | closeClient n hdown =>
      constructor <;> grind [Down.pipe]

/-- A socket has been closed before all bytes went through it. -/
def Lost (clientStream : Bytes) (s : Relay) : Prop :=
  (s.remote.socket = .closed ∧ (s.remote.pending ≠ [] ∨ s.remote.received ≠ clientStream)) ∨
    (s.client.socket = .closed ∧ s.client.pending ≠ [])

theorem lost_step {s t : Relay} {e : Event} (hlost : Lost clientStream s)
    (h : step s e = some t) :
  Lost clientStream t
  := by
  unfold Lost at *
  cases steps_of_step h with
  | upPipe n p q client remote hup hpipe => cases Pipe.calls_of_step hpipe <;> grind
  | downPipe n p q client remote hdown hpipe => cases Pipe.calls_of_step hpipe <;> grind
  | _ => grind [SocketState.shutdownOutput]

theorem lost_of_not_orderly {s t : Relay} {e : Event} (hs : Sound clientStream remoteStream s)
    (hok : ¬ Orderly s e) (h : step s e = some t) :
  Lost clientStream t
  := by
  unfold Lost
  obtain ⟨hcarriesUp, -⟩ := hs
  cases steps_of_step h with
  | upPipe n p q client remote hup hpipe =>
      cases Pipe.calls_of_step hpipe <;> grind [Orderly]
  | downPipe n p q client remote hdown hpipe =>
      cases Pipe.calls_of_step hpipe <;> grind [Orderly]
  | closeRemote n hdown =>
      obtain ⟨chunk, hup⟩ : ∃ chunk, s.up = .piping (.writing chunk) := by
        by_contra hnot
        apply hok
        constructor
        · intro hclosing
          rw [hdown] at hclosing
          cases hclosing
        · intro _ chunk hup
          apply hnot
          use chunk
      left
      use rfl
      right
      intro hall
      change s.remote.received = clientStream at hall
      rw [hup, hall] at hcarriesUp
      apply Carries.not_writing hcarriesUp
  | _ => grind [Orderly]

/-! ### The relay ends -/

/-- What is left of a call of `pipe` that has `n` bytes to read. -/
def Pipe.weight (n : ℕ) : Pipe → ℕ
  | .reading => 2 * n + 2
  | .writing _ => 2 * n + 3
  | .closing => 1

/-- What is left for the thread `s5-c2s`. -/
def Up.weight (n : ℕ) : Up → ℕ
  | .start => 2 * n + 4
  | .piping p => p.weight n + 1
  | .shutting => 1
  | .ended => 0

/-- What is left for the thread of the request. -/
def Down.weight (n : ℕ) : Down → ℕ
  | .start => 2 * n + 7
  | .piping p => p.weight n + 4
  | .shutting => 4
  | .joining => 3
  | .failed => 3
  | .closingRemote => 2
  | .closingClient => 1
  | .ended => 0

/-- What is left to do. -/
def Relay.weight (s : Relay) : ℕ :=
  s.up.weight s.client.pending.length + s.down.weight s.remote.pending.length

/-- Every call of `pipe` brings it closer to its end. -/
theorem Pipe.weight_step {n : ℕ} {input output input' output' : Peer} {p : Pipe}
    {q : Option Pipe} (h : p.step n input output = some (q, input', output')) :
  (q.elim 0 fun p' => p'.weight input'.pending.length) < p.weight input.pending.length ∧
    output'.pending = output.pending
  := by
  cases p with
  | reading =>
      simp only [Pipe.step] at h
      split_ifs at h with hend hn
      · obtain ⟨rfl, rfl, rfl⟩ := h
        simp [Pipe.weight]
      · obtain ⟨rfl, rfl, rfl⟩ := h
        simp only [Option.elim_some, Pipe.weight, List.length_drop, and_true]
        omega
  | writing chunk =>
      simp only [Pipe.step] at h
      split_ifs at h with hopen <;> obtain ⟨rfl, rfl, rfl⟩ := h <;> simp [Pipe.weight]
  | closing =>
      obtain ⟨rfl, rfl, rfl⟩ := h
      simp [Pipe.weight]

theorem weight_step {s t : Relay} {e : Event} (h : step s e = some t) :
  t.weight < s.weight
  := by
  cases steps_of_step h with
  | upPipe n p q client remote hup hpipe =>
      obtain ⟨hlt, hpending⟩ := Pipe.weight_step hpipe
      cases q <;> simp_all [Relay.weight, Up.weight]
  | downPipe n p q client remote hdown hpipe =>
      obtain ⟨hlt, hpending⟩ := Pipe.weight_step hpipe
      cases q <;> simp_all [Relay.weight, Down.weight]
  | _ => simp_all [Relay.weight, Up.weight, Down.weight, Pipe.weight]

/-- A call of `pipe` is never stuck: a `read` of one byte is possible when nothing else is. -/
theorem Pipe.exists_step (p : Pipe) (input output : Peer) :
  ∃ r, p.step 1 input output = some r
  := by
  cases p with
  | reading =>
      simp only [Pipe.step]
      split_ifs with hend hn
      · exact ⟨_, rfl⟩
      · exact ⟨_, rfl⟩
      · rw [not_or] at hend
        have hpos := List.length_pos_of_ne_nil hend.2
        exact absurd ⟨by omega, by decide, hpos⟩ hn
  | writing chunk =>
      simp only [Pipe.step]
      split_ifs <;> exact ⟨_, rfl⟩
  | closing => exact ⟨_, rfl⟩

/-- As long as a thread has not ended, a step is possible. -/
theorem exists_step (s : Relay) (hnot : ¬ s.Ended) :
  ∃ e t, step s e = some t
  := by
  have hup : s.up ≠ .ended → ∃ t, step s (.up 1) = some t := by
    intro hne
    simp only [step, Relay.stepUp]
    cases hp : s.up with
    | start => split_ifs <;> exact ⟨_, rfl⟩
    | piping p =>
        obtain ⟨r, hr⟩ := p.exists_step s.client s.remote
        simp [hr]
    | shutting => exact ⟨_, rfl⟩
    | ended => exact absurd hp hne
  by_cases hend : s.up = .ended
  · use .down 1
    simp only [step, Relay.stepDown]
    cases hp : s.down with
    | start => split_ifs <;> exact ⟨_, rfl⟩
    | piping p =>
        obtain ⟨r, hr⟩ := p.exists_step s.remote s.client
        simp [hr]
    | joining =>
        rw [if_pos hend]
        exact ⟨_, rfl⟩
    | ended => exact absurd ⟨hend, hp⟩ hnot
    | shutting => exact ⟨_, rfl⟩
    | failed => exact ⟨_, rfl⟩
    | closingRemote => exact ⟨_, rfl⟩
    | closingClient => exact ⟨_, rfl⟩
  · exact ⟨.up 1, hup hend⟩

/-- No run is longer than what is left to do, and from every state the threads can end. -/
theorem relay_ends (s : Relay) :
  (∀ es t, Run.exec step s es = some t → es.length ≤ s.weight) ∧
    ∃ es t, Run.exec step s es = some t ∧ t.Ended
  := by
  constructor
  · intro es t hrun
    have hle := Run.length_le_measure (fun _ _ _ h => weight_step h) hrun
    omega
  · apply Run.exists_exec_done (fun _ _ _ h => weight_step h) exists_step

/-! ### What is delivered -/

/-- Both peers have received the whole stream of the other one. -/
def Delivered (clientStream remoteStream : Bytes) (s : Relay) : Prop :=
  s.client.received = remoteStream ∧ s.remote.received = clientStream

theorem sound_run {es : List Event} {s : Relay}
    (hrun : Run.exec step (init clientStream remoteStream) es = some s) :
  Sound clientStream remoteStream s
  := by
  apply Run.invariant (fun _ _ _ hs h => sound_step hs h) (sound_init _ _) hrun

theorem delivered_of_kept {s : Relay} (hk : Kept clientStream remoteStream s) (hended : s.Ended) :
  Delivered clientStream remoteStream s
  := by
  obtain ⟨hup, hdown⟩ := hended
  constructor
  · apply (hk.down _).2
    rw [hdown]
    rfl
  · apply (hk.up _).2
    rw [hup]
    rfl

theorem not_delivered_of_lost {s : Relay} (hs : Sound clientStream remoteStream s)
    (hlost : Lost clientStream s) :
  ¬ Delivered clientStream remoteStream s
  := by
  rintro ⟨hclient, hremote⟩
  have hdown := hs.down
  have hup := hs.up
  rw [hclient] at hdown
  rw [hremote] at hup
  obtain ⟨-, hpending | hreceived⟩ | ⟨-, hpending⟩ := hlost
  · apply hpending hdown.pending_eq_nil
  · apply hreceived hremote
  · apply hpending hup.pending_eq_nil

/-- In every state of every run each peer has received a prefix of the stream of the other,
and when both threads have ended both streams are delivered exactly when no step of the run
closed a socket that bytes had still to go through. -/
theorem delivered_iff (clientStream remoteStream : Bytes) (es : List Event) (s : Relay)
    (hrun : Run.exec step (init clientStream remoteStream) es = some s) :
  s.client.received <+: remoteStream ∧ s.remote.received <+: clientStream ∧
    (s.Ended → (Delivered clientStream remoteStream s ↔
      Run.Meets step Orderly (init clientStream remoteStream) es))
  := by
  have hsound := sound_run hrun
  refine ⟨hsound.down.isPrefix, hsound.up.isPrefix, ?_⟩
  intro hended
  constructor
  · intro hdelivered
    by_contra hnot
    apply not_delivered_of_lost hsound _ hdelivered
    apply Run.bad_of_not_meets (fun _ _ _ hs h => sound_step hs h)
      (fun _ _ _ hs hok h => lost_of_not_orderly hs hok h)
      (fun _ _ _ _ hlost h => lost_step hlost h) (sound_init _ _) hrun hnot
  · intro hmeets
    have hboth : Sound clientStream remoteStream s ∧ Kept clientStream remoteStream s := by
      apply Run.invariant_of_meets _ ⟨sound_init _ _, kept_init _ _⟩ hmeets hrun
      rintro q e q' ⟨hq, hq'⟩ hok h
      exact ⟨sound_step hq h, kept_step hq hq' hok h⟩
    apply delivered_of_kept hboth.2 hended

/-- A client that half-closes after its request loses the answer it has not yet received: the
thread `s5-c2s` closes the remote before the other thread has read it. -/
def earlyClose : List Event :=
  [.up 0, .down 0, .up 1, .up 0, .up 0, .up 0, .up 0, .down 0, .down 0, .down 0, .down 0,
    .down 0, .down 0]

/-- A half-closing client does not get the answer of the remote. -/
theorem not_delivered_earlyClose :
  ¬ ∀ (clientStream remoteStream : Bytes) (es : List Event) (s : Relay),
    Run.exec step (init clientStream remoteStream) es = some s → s.Ended →
      Delivered clientStream remoteStream s
  := by
  intro h
  have hdelivered := h [0x47] [0x4f, 0x4b] earlyClose _ rfl (by decide)
  cases hdelivered.1

/-- When the answer has been read before the client half-closes, it arrives. -/
def orderlyClose : List Event :=
  [.up 0, .down 0, .up 1, .up 0, .down 2, .down 0, .down 0, .up 0, .up 0, .up 0, .down 0,
    .down 0, .down 0, .down 0, .down 0]

theorem delivered_orderlyClose :
  ∃ s, Run.exec step (init [0x47] [0x4f, 0x4b]) orderlyClose = some s ∧
    Delivered [0x47] [0x4f, 0x4b] s
  := by
  refine ⟨_, rfl, ?_⟩
  apply ((delivered_iff [0x47] [0x4f, 0x4b] orderlyClose _ rfl).2.2 (by decide)).mpr
  decide +kernel

end Socks.ConnectRelay
