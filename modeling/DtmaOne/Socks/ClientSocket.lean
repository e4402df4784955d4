import DtmaOne.Library.Emit
import DtmaOne.Socks.ConnectVerdict
import DtmaOne.Socks.Handshake

/-!
# The socket of a client

`LocalSocks5Server.handleClient` to its end, with `doConnect` and `doUdpAssociate`, where every call
may raise.  An exception is caught at the end, where the socket of the client is closed; everywhere
else each exit closes it, or does not.

It is not closed where `handleClient` returns early: the first byte or the version of the request is
not 5, there are no methods, the address is not decoded, or the port is cut off by the end of the
stream.  Where the stream does not end but raises, all but the reading of the address close it.
-/

namespace Socks.ClientSocket

open Emit InputStream Handshake

/-- What happens to the socket of the client. -/
inductive Effect where
  | wrote (bytes : Bytes)
  | closed
  deriving DecidableEq

/-- A call that may raise. -/
abbrev Call : Type := Except Unit Unit

/-- A run of `doConnect` to its end, for a client whose stream goes on with `unread`. -/
structure ConnectRun (unread : Bytes) where
  request : ConnectVerdict.Request
  remoteStream : Bytes
  events : List ConnectVerdict.Event
  final : ConnectVerdict.Connection
  exec_eq : Run.exec (ConnectVerdict.step request) (ConnectVerdict.init unread remoteStream) events
    = some final
  ended : final.handler = .ended

/-- How the calls of a handler end. -/
structure Environment where
  getByName : String → Option InetAddress
  streams : Call
  methodReply : Call
  unsupportedReply : Call
  addressReply : Call
  close : Call
  connect : InetAddress → ℕ → (unread : Bytes) → ConnectRun unread
  datagramSocket : Call
  protect : Except Unit Bool
  protectReply : Call
  relayTimeout : Call
  localPort : ℕ
  associateReply : Call
  clientTimeout : Call
  drain : Call
  join : Call

/-- The stream of the client: what arrives, and whether reading raises after that, or ends. -/
structure Stream where
  chunks : Source
  raises : Bool

/-- `input.read()` -/
def Stream.read (input : Stream) : Emit Effect Unit (ℤ × Stream) :=
  let (value, chunks) := InputStream.read input.chunks
  if value < 0 ∧ input.raises = true then raise ()
  else pure (value, { input with chunks := chunks })

/-- `readFully`; the end of the stream is an exception as well. -/
def Stream.readFully (size : ℕ) (input : Stream) : Emit Effect Unit Stream :=
  match InputStream.readFully size input.chunks with
  | none => raise ()
  | some (_, chunks) => pure { input with chunks := chunks }

/-- Bytes are written to the client. -/
def write (accepted : Call) (bytes : Bytes) : Emit Effect Unit Unit := do
  answer accepted
  tell (.wrote bytes)

/-- `client.close()`: the socket is closed, even if the call raises. -/
def close (r : Call) : Emit Effect Unit Unit := do
  tell .closed
  answer r

/-- The address `127.0.0.1`. -/
def loopback : InetAddress := ⟨[127, 0, 0, 1], InetAddress.size_loopback⟩

/-- `doConnect`, which catches every exception. -/
def doConnect {unread : Bytes} (r : ConnectRun unread) : Emit Effect Unit Unit := do
  tell (.wrote r.final.client.received)
  if r.final.client.socket = .closed then tell .closed

/-- `doUdpAssociate` -/
def doUdpAssociate (env : Environment) : Emit Effect Unit Unit := do
  answer env.datagramSocket
  let isProtected ← answer env.protect
  if isProtected then do
    answer env.relayTimeout
    write env.associateReply (reply 0x00 loopback env.localPort)
    answer env.clientTimeout
    let drained ← runCatching (answer env.drain)
    tell .closed
    answer env.join
    answer drained
  else do
    write env.protectReply (reply 0x01 InetAddress.any 0)
    close env.close

/-- The end of `handleClient`, after the address. -/
def dispatch (env : Environment) (cmd : ℤ) (dest : InetAddress) (input : Stream) :
    Emit Effect Unit Unit := do
  let (portHi, input) ← input.read
  let (portLo, input) ← input.read
  if portHi < 0 ∨ portLo < 0 then pure ()
  else
    let port := (portHi.toNat <<< 8) ||| portLo.toNat
    if cmd = 0x01 then doConnect (env.connect dest port input.chunks.flatten)
    else if cmd = 0x03 then doUdpAssociate env
    else do
      write env.unsupportedReply (reply 0x07 InetAddress.any 0)
      close env.close

/-- `handleClient` after the greeting. -/
def handleRequest (env : Environment) (input : Stream) : Emit Effect Unit Unit := do
  let (ver, input) ← input.read
  let (cmd, input) ← input.read
  let (_, input) ← input.read
  let (atyp, input) ← input.read
  if ver ≠ 0x05 then pure ()
  else
    match readAddress env.getByName input.chunks atyp with
    | none => write env.addressReply (reply 0x08 InetAddress.any 0)
    | some (dest, chunks) => dispatch env cmd dest { input with chunks := chunks }

/-- The `try` block of `handleClient`. -/
def serve (env : Environment) (input : Stream) : Emit Effect Unit Unit := do
  answer env.streams
  let (first, input) ← input.read
  if first ≠ 0x05 then pure ()
  else do
    let (nMethods, input) ← input.read
    if nMethods ≤ 0 then pure ()
    else do
      let input ← input.readFully nMethods.toNat
      write env.methodReply methodReply
      handleRequest env input

/-- `handleClient` -/
def handleClient (env : Environment) (input : Stream) : Emit Effect Unit Unit := do
  match ← runCatching (serve env input) with
  | .ok () => pure ()
  | .error () => tell .closed

/-! ### The streams that leave the socket open -/

/-- A request, after the greeting, that leaves the socket open. -/
inductive LeavesRequest (env : Environment) (raises : Bool) : Bytes → Prop where
  | notRequest {s : Bytes} (h : s.head? ≠ some 5) (hread : raises = true → 4 ≤ s.length) :
      LeavesRequest env raises s
  | undecodable {s : Bytes} (h : Undecodable env.getByName s) (hread : raises = true → 3 ≤ s.length)
      (hreply : env.addressReply = .ok ()) :
      LeavesRequest env raises (5 :: s)
  | cutPort {addr s : Bytes} {cmd rsv atyp : UInt8} {dest : InetAddress}
      (haddr : AddressField env.getByName atyp addr dest) (h : s.length < 2)
      (hread : raises = false) :
      LeavesRequest env raises ([5, cmd, rsv, atyp] ++ addr ++ s)

/-- A stream that leaves the socket open: it does not start with a 5, it has no methods, or the reply
to its greeting is written and its request leaves the socket open. -/
inductive Leaves (env : Environment) (raises : Bool) : Bytes → Prop where
  | notSocks {s : Bytes} (h : s.head? ≠ some 5) (hread : raises = true → s ≠ []) :
      Leaves env raises s
  | noMethods {s : Bytes} (h : s.head? = none ∨ s.head? = some 0) (hread : raises = true → s ≠ []) :
      Leaves env raises (5 :: s)
  | request {greeting s : Bytes} (hgreeting : Greeting greeting) (hreply : env.methodReply = .ok ())
      (h : LeavesRequest env raises s) :
      Leaves env raises (greeting ++ s)

/-! ### The exits of the sub-handlers -/

variable {env : Environment}

theorem closed_not_mem_write (accepted : Call) (bytes : Bytes) :
  Effect.closed ∉ (write accepted bytes).writes
  := by
  cases accepted with
  | ok => exact List.not_mem_cons_of_ne_of_not_mem Effect.noConfusion List.not_mem_nil
  | error => exact List.not_mem_nil

theorem result_write (accepted : Call) (bytes : Bytes) :
  (write accepted bytes).result = accepted
  := by
  cases accepted <;> rfl

theorem raisesOr_write {accepted : Call} {bytes : Bytes} :
  (write accepted bytes).RaisesOr .closed ↔ accepted ≠ .ok ()
  := by
  rw [RaisesOr, result_write, or_iff_left (closed_not_mem_write accepted bytes)]
  cases accepted with
  | ok => simp
  | error e => simp

theorem raisesOr_write_bind {accepted : Call} {bytes : Bytes} {f : Unit → Emit Effect Unit Unit} :
  (write accepted bytes >>= f).RaisesOr .closed ↔ (accepted = .ok () → (f ()).RaisesOr .closed)
  := by
  rw [raisesOr_bind (closed_not_mem_write accepted bytes), result_write]
  constructor
  · intro hf
    apply hf ()
  · rintro hf ⟨⟩
    apply hf

theorem raisesOr_close (r : Call) :
  (close r).RaisesOr .closed
  := raisesOr_tell_bind _ _

theorem raisesOr_doConnect {unread : Bytes} (r : ConnectRun unread) :
  (doConnect r).RaisesOr .closed
  := by
  have hwrote : Effect.closed ∉
      (tell (.wrote r.final.client.received) : Emit Effect Unit Unit).writes := by
    simp
  rw [doConnect, raisesOr_bind hwrote]
  intro _ _
  rw [if_pos (ConnectVerdict.closed_of_ended r.exec_eq r.ended), raisesOr_tell]

theorem raisesOr_doUdpAssociate (env : Environment) :
  (doUdpAssociate env).RaisesOr .closed
  := by
  rw [doUdpAssociate, raisesOr_answer_bind]
  intro _ _
  rw [raisesOr_answer_bind]
  intro isProtected _
  cases isProtected with
  | true =>
      rw [if_pos rfl, raisesOr_answer_bind]
      intro _ _
      rw [raisesOr_write_bind]
      intro _
      rw [raisesOr_answer_bind]
      intro _ _
      rw [raisesOr_bind List.not_mem_nil]
      intro _ _
      apply raisesOr_tell_bind
  | false =>
      rw [if_neg Bool.false_ne_true, raisesOr_write_bind]
      intro _
      apply raisesOr_close

/-! ### Reading -/

/-- Where reading does not raise, the first byte is read. -/
theorem raisesOr_read (input : Stream) :
  ∃ next : Stream, next.raises = input.raises ∧
    next.chunks.flatten = input.chunks.flatten.tail ∧
    ∀ f : ℤ × Stream → Emit Effect Unit Unit, (input.read >>= f).RaisesOr .closed ↔
      ((input.raises = true → input.chunks.flatten ≠ []) →
        (f (headValue input.chunks.flatten, next)).RaisesOr .closed)
  := by
  obtain ⟨next, hread, hnext⟩ := read_spec input.chunks
  refine ⟨{ input with chunks := next }, rfl, hnext, ?_⟩
  intro f
  have hnegative : headValue input.chunks.flatten < 0 ↔ input.chunks.flatten = [] := by
    cases input.chunks.flatten with
    | nil => exact iff_of_true (by decide) rfl
    | cons b s => exact iff_of_false (Int.not_lt.mpr (Int.natCast_nonneg _)) (List.cons_ne_nil b s)
  rw [Stream.read, hread]
  dsimp only
  split_ifs with hcut
  · obtain ⟨hvalue, hraises⟩ := hcut
    rw [raisesOr_bind List.not_mem_nil]
    apply iff_of_true
    · rintro a ⟨⟩
    · intro hne
      exact absurd (hnegative.mp hvalue) (hne hraises)
  · rw [raisesOr_bind List.not_mem_nil]
    have hne : input.raises = true → input.chunks.flatten ≠ [] := by
      intro hraises hnil
      exact hcut ⟨hnegative.mpr hnil, hraises⟩
    constructor
    · intro hf _
      apply hf _ rfl
    · rintro hf a ⟨⟩
      apply hf hne

/-- A complete block is read. -/
theorem raisesOr_readFully {input : Stream} {block rest : Bytes}
    (h : input.chunks.flatten = block ++ rest) :
  ∃ next : Stream, next.raises = input.raises ∧ next.chunks.flatten = rest ∧
    ∀ f : Stream → Emit Effect Unit Unit,
      (input.readFully block.length >>= f).RaisesOr .closed ↔ (f next).RaisesOr .closed
  := by
  obtain ⟨next, hread, hnext⟩ := readFully_of_flatten_eq_append h
  refine ⟨{ input with chunks := next }, rfl, hnext, ?_⟩
  intro f
  rw [Stream.readFully, hread]
  dsimp only
  rw [raisesOr_bind List.not_mem_nil]
  constructor
  · intro hf
    apply hf _ rfl
  · rintro hf a ⟨⟩
    apply hf

/-- A block that is cut off is an exception. -/
theorem raisesOr_readFully_of_lt {input : Stream} {size : ℕ}
    (h : input.chunks.flatten.length < size) (f : Stream → Emit Effect Unit Unit) :
  (input.readFully size >>= f).RaisesOr .closed
  := by
  rw [Stream.readFully, readFully_of_lt h]
  dsimp only
  rw [raisesOr_bind List.not_mem_nil]
  rintro a ⟨⟩

/-! ### The port -/

/-- Whatever the command is, what is done with it closes the socket. -/
theorem raisesOr_command (env : Environment) (cmd : ℤ) (dest : InetAddress) (port : ℕ)
    (unread : Bytes) :
  (if cmd = 0x01 then doConnect (env.connect dest port unread)
    else if cmd = 0x03 then doUdpAssociate env
    else do
      write env.unsupportedReply (reply 0x07 InetAddress.any 0)
      close env.close).RaisesOr .closed
  := by
  split_ifs
  · apply raisesOr_doConnect
  · apply raisesOr_doUdpAssociate
  · rw [raisesOr_write_bind]
    intro _
    apply raisesOr_close

/-- After the address the socket is left open exactly if the stream ends within the port. -/
theorem raisesOr_dispatch (cmd : ℤ) (dest : InetAddress) (input : Stream) :
  (dispatch env cmd dest input).RaisesOr .closed ↔
    (input.chunks.flatten.length < 2 → input.raises = true)
  := by
  obtain ⟨i1, hraises1, hi1, hread1⟩ := raisesOr_read input
  obtain ⟨i2, hraises2, hi2, hread2⟩ := raisesOr_read i1
  rw [dispatch, hread1]
  dsimp only
  rw [hread2, hraises1, hi1]
  dsimp only
  rcases input.chunks.flatten with _ | ⟨hi, _ | ⟨lo, rest⟩⟩
  · rw [if_pos (by decide)]
    cases input.raises with
    | true => simp
    | false => simp [not_raisesOr_pure]
  · have hend : headValue [hi] < 0 ∨ headValue [hi].tail < 0 := Or.inr (Int.negSucc_lt_zero 0)
    rw [if_pos hend]
    cases input.raises with
    | true => simp
    | false => simp [not_raisesOr_pure]
  · have hport : ¬ (headValue (hi :: lo :: rest) < 0 ∨ headValue (lo :: rest) < 0) := by
      change ¬ ((hi.toNat : ℤ) < 0 ∨ (lo.toNat : ℤ) < 0)
      omega
    apply iff_of_true
    · intro _ _
      rw [List.tail_cons, if_neg hport]
      apply raisesOr_command
    · intro hlen
      simp only [List.length_cons] at hlen
      omega

/-! ### The request -/

variable {input : Stream}

/-- The first four bytes of a request are read before any of them is looked at. -/
theorem raisesOr_handleRequest (env : Environment) (input : Stream) :
  ∃ next : Stream, next.raises = input.raises ∧
    next.chunks.flatten = input.chunks.flatten.tail.tail.tail.tail ∧
    ((handleRequest env input).RaisesOr .closed ↔
      ((input.raises = true → 4 ≤ input.chunks.flatten.length) →
        Emit.RaisesOr .closed
          (if headValue input.chunks.flatten ≠ 0x05 then pure ()
          else
            match readAddress env.getByName next.chunks
                (headValue input.chunks.flatten.tail.tail.tail) with
            | none => write env.addressReply (reply 0x08 InetAddress.any 0)
            | some (dest, chunks) =>
                dispatch env (headValue input.chunks.flatten.tail) dest
                  { next with chunks := chunks })))
  := by
  obtain ⟨i1, hraises1, hi1, hread1⟩ := raisesOr_read input
  obtain ⟨i2, hraises2, hi2, hread2⟩ := raisesOr_read i1
  obtain ⟨i3, hraises3, hi3, hread3⟩ := raisesOr_read i2
  obtain ⟨i4, hraises4, hi4, hread4⟩ := raisesOr_read i3
  rw [hi1] at hi2 hread2
  rw [hi2] at hi3 hread3
  rw [hi3] at hi4 hread4
  rw [hraises1] at hraises2 hread2
  rw [hraises2] at hraises3 hread3
  rw [hraises3] at hraises4 hread4
  refine ⟨i4, hraises4, hi4, ?_⟩
  have hlength : (input.raises = true → 4 ≤ input.chunks.flatten.length) ↔
      (input.raises = true → input.chunks.flatten ≠ []) ∧
      (input.raises = true → input.chunks.flatten.tail ≠ []) ∧
      (input.raises = true → input.chunks.flatten.tail.tail ≠ []) ∧
      (input.raises = true → input.chunks.flatten.tail.tail.tail ≠ []) := by
    rcases input.chunks.flatten with _ | ⟨a, _ | ⟨b, _ | ⟨c, _ | ⟨d, s⟩⟩⟩⟩ <;> simp
  rw [handleRequest, hread1]
  dsimp only
  rw [hread2]
  dsimp only
  rw [hread3]
  dsimp only
  rw [hread4]
  dsimp only
  rw [hlength, and_imp, and_imp, and_imp]

theorem headValue_five (s : Bytes) :
  ¬ headValue (5 :: s) ≠ 0x05
  := not_not.mpr rfl

theorem headValue_ne_five {s : Bytes} (h : s.head? ≠ some 5) :
  headValue s ≠ 0x05
  := headValue_ne h

theorem not_raisesOr_of_leavesRequest
    (h : LeavesRequest env input.raises input.chunks.flatten) :
  ¬ (handleRequest env input).RaisesOr .closed
  := by
  obtain ⟨next, hraises, hnext, hiff⟩ := raisesOr_handleRequest env input
  rw [hiff, Classical.not_imp]
  generalize input.chunks.flatten = s at h hnext
  cases h with
  | notRequest hfive hread =>
      use hread
      rw [if_pos (headValue_ne_five hfive)]
      apply not_raisesOr_pure
  | @undecodable s hundecodable hread hreply =>
      constructor
      · intro hraising
        exact Nat.succ_le_succ (hread hraising)
      · rw [if_neg (headValue_five s), List.tail_cons, readAddress_of_undecodable hundecodable hnext]
        dsimp only
        rw [raisesOr_write, not_not]
        apply hreply
  | @cutPort addr s cmd rsv atyp dest haddr hlen hread =>
      constructor
      · intro hraising
        rw [hread] at hraising
        cases hraising
      · obtain ⟨rest, haddress, hrest⟩ := readAddress_of_addressField haddr hnext
        rw [List.append_assoc, List.cons_append, if_neg (headValue_five _)]
        change ¬ Emit.RaisesOr .closed
          (match readAddress env.getByName next.chunks (atyp.toNat : ℤ) with
            | none => write env.addressReply (reply 0x08 InetAddress.any 0)
            | some (dest, chunks) => dispatch env (cmd.toNat : ℤ) dest { next with chunks := chunks })
        rw [haddress]
        dsimp only
        rw [raisesOr_dispatch, hrest, hraises, hread]
        intro hraising
        cases hraising hlen

theorem raisesOr_of_not_leavesRequest
    (h : ¬ LeavesRequest env input.raises input.chunks.flatten) :
  (handleRequest env input).RaisesOr .closed
  := by
  obtain ⟨next, hraises, hnext, hiff⟩ := raisesOr_handleRequest env input
  rw [hiff]
  intro hread
  generalize input.chunks.flatten = s at h hnext hread
  by_cases hfive : s.head? = some 5
  · obtain ⟨s, rfl⟩ := List.head?_eq_some_iff.mp hfive
    rw [if_neg (headValue_five s)]
    by_cases hundecodable : Undecodable env.getByName s
    · rw [List.tail_cons, readAddress_of_undecodable hundecodable hnext]
      dsimp only
      rw [raisesOr_write]
      intro hreply
      apply h
      apply LeavesRequest.undecodable hundecodable _ hreply
      intro hraising
      apply Nat.le_of_succ_le_succ (hread hraising)
    · unfold Undecodable at hundecodable
      push Not at hundecodable
      obtain ⟨cmd, rsv, atyp, addr, dest, rest, rfl, haddr⟩ := hundecodable
      obtain ⟨last, haddress, hlast⟩ := readAddress_of_addressField haddr
        (hnext.trans (List.append_assoc [] addr rest))
      change Emit.RaisesOr .closed
        (match readAddress env.getByName next.chunks (atyp.toNat : ℤ) with
          | none => write env.addressReply (reply 0x08 InetAddress.any 0)
          | some (dest, chunks) => dispatch env (cmd.toNat : ℤ) dest { next with chunks := chunks })
      rw [haddress]
      dsimp only
      rw [raisesOr_dispatch, hlast, hraises]
      intro hlen
      by_contra hraising
      apply h
      have hcut : LeavesRequest env input.raises ([5, cmd, rsv, atyp] ++ addr ++ rest) :=
        LeavesRequest.cutPort haddr hlen (Bool.eq_false_iff.mpr hraising)
      apply hcut
  · exfalso
    apply h
    exact LeavesRequest.notRequest hfive hread

/-! ### The whole stream -/

/-- A stream that does not start with a 5 is read no further. -/
theorem raisesOr_serve_of_not_five (hfive : input.chunks.flatten.head? ≠ some 5) :
  (serve env input).RaisesOr .closed ↔
    ∀ a, env.streams = .ok a → ¬ (input.raises = true → input.chunks.flatten ≠ [])
  := by
  obtain ⟨next, -, -, hread⟩ := raisesOr_read input
  rw [serve, raisesOr_answer_bind, hread]
  dsimp only
  rw [if_pos (headValue_ne_five hfive)]
  simp only [not_raisesOr_pure, imp_false]

/-- After a 5 the number of methods is read. -/
theorem raisesOr_serve_of_five (env : Environment) {s : Bytes} (h : input.chunks.flatten = 5 :: s) :
  ∃ next : Stream, next.raises = input.raises ∧ next.chunks.flatten = s.tail ∧
    ((serve env input).RaisesOr .closed ↔
      ∀ a, env.streams = .ok a → (input.raises = true → s ≠ []) →
        Emit.RaisesOr .closed
          (if headValue s ≤ 0 then pure ()
          else do
            let input ← next.readFully (headValue s).toNat
            write env.methodReply methodReply
            handleRequest env input))
  := by
  obtain ⟨i1, hraises1, hi1, hread1⟩ := raisesOr_read input
  obtain ⟨i2, hraises2, hi2, hread2⟩ := raisesOr_read i1
  rw [h, List.tail_cons] at hi1
  rw [hi1] at hi2 hread2
  rw [hraises1] at hraises2 hread2
  refine ⟨i2, hraises2, hi2, ?_⟩
  have hne : input.raises = true → 5 :: s ≠ [] := by
    intro _
    apply List.cons_ne_nil
  rw [serve, raisesOr_answer_bind]
  apply forall_congr'
  intro a
  apply imp_congr_right
  intro _
  rw [hread1]
  dsimp only
  rw [h, if_neg (headValue_five s), hread2]
  apply imp_iff_right hne

/-- After a greeting the request is handled, if the reply to the greeting is written. -/
theorem raisesOr_serve_of_greeting (env : Environment) {greeting s : Bytes}
    (hgreeting : Greeting greeting) (h : input.chunks.flatten = greeting ++ s) :
  ∃ next : Stream, next.raises = input.raises ∧ next.chunks.flatten = s ∧
    ((serve env input).RaisesOr .closed ↔
      ∀ a, env.streams = .ok a → env.methodReply = .ok () →
        (handleRequest env next).RaisesOr .closed)
  := by
  obtain ⟨n, methods, rfl, hlen, hn⟩ := hgreeting
  obtain ⟨mid, hraises, hmid, hserve⟩ := raisesOr_serve_of_five env h
  obtain ⟨next, hraises', hnext, hread⟩ := raisesOr_readFully hmid
  refine ⟨next, hraises'.trans hraises, hnext, ?_⟩
  have hpos : ¬ headValue (n :: (methods ++ s)) ≤ 0 := not_headValue_nonpos hn _
  have hcount : (headValue (n :: (methods ++ s))).toNat = methods.length :=
    (Int.toNat_natCast _).trans hlen.symm
  have hne : input.raises = true → n :: (methods ++ s) ≠ [] := by
    intro _
    apply List.cons_ne_nil
  rw [hserve]
  apply forall_congr'
  intro a
  apply imp_congr_right
  intro _
  rw [List.append_eq, List.cons_append, if_neg hpos, hcount, hread, raisesOr_write_bind]
  apply imp_iff_right hne

theorem not_raisesOr_of_leaves (hstreams : env.streams = .ok ())
    (h : Leaves env input.raises input.chunks.flatten) :
  ¬ (serve env input).RaisesOr .closed
  := by
  generalize hs : input.chunks.flatten = s at h
  cases h with
  | notSocks hfive hread =>
      subst hs
      rw [raisesOr_serve_of_not_five hfive]
      intro hcut
      exact hcut () hstreams hread
  | @noMethods s hzero hread =>
      obtain ⟨next, -, -, hserve⟩ := raisesOr_serve_of_five env hs
      rw [hserve]
      intro hclosed
      have hpure := hclosed () hstreams hread
      rw [if_pos (headValue_nonpos_iff.mpr hzero)] at hpure
      exact not_raisesOr_pure _ _ hpure
  | @request greeting s hgreeting hreply hrequest =>
      obtain ⟨next, hraises, hnext, hserve⟩ := raisesOr_serve_of_greeting env hgreeting hs
      rw [hserve]
      intro hclosed
      rw [← hraises, ← hnext] at hrequest
      exact not_raisesOr_of_leavesRequest hrequest (hclosed () hstreams hreply)

theorem raisesOr_of_not_leaves (h : ¬ Leaves env input.raises input.chunks.flatten) :
  (serve env input).RaisesOr .closed
  := by
  by_cases hfive : input.chunks.flatten.head? = some 5
  · obtain ⟨s, hs⟩ := List.head?_eq_some_iff.mp hfive
    obtain ⟨mid, hraises, hmid, hserve⟩ := raisesOr_serve_of_five env hs
    rw [hs] at h
    rcases s with _ | ⟨n, s⟩
    · rw [hserve]
      intro _ _ hread
      exfalso
      apply h (Leaves.noMethods (Or.inl rfl) hread)
    · by_cases hn : n = 0
      · exfalso
        apply h
        refine Leaves.noMethods (Or.inr ?_) ?_
        · exact congrArg some hn
        · intro _
          apply List.cons_ne_nil
      · by_cases hlen : s.length < n.toNat
        · have hpos : ¬ headValue (n :: s) ≤ 0 := not_headValue_nonpos hn s
          have hcut : mid.chunks.flatten.length < (headValue (n :: s)).toNat := by
            rw [hmid]
            apply hlen
          rw [hserve]
          intro _ _ _
          rw [if_neg hpos]
          apply raisesOr_readFully_of_lt hcut
        · have hgreeting : Greeting (5 :: n :: s.take n.toNat) := by
            refine ⟨n, s.take n.toNat, rfl, ?_, hn⟩
            rw [List.length_take]
            omega
          have hparts : 5 :: n :: s = (5 :: n :: s.take n.toNat) ++ s.drop n.toNat := by
            rw [List.cons_append, List.cons_append, List.take_append_drop]
          obtain ⟨next, hraises', hnext, hserve'⟩ :=
            raisesOr_serve_of_greeting env hgreeting (hs.trans hparts)
          rw [hserve']
          intro _ _ hreply
          apply raisesOr_of_not_leavesRequest
          rw [hraises', hnext]
          intro hrequest
          apply h
          rw [hparts]
          apply Leaves.request hgreeting hreply hrequest
  · rw [raisesOr_serve_of_not_five hfive]
    intro _ _ hread
    apply h (Leaves.notSocks hfive hread)

/-- The socket is closed exactly if the body of `handleClient` closes it, or raises. -/
theorem closed_mem_handleClient (env : Environment) (input : Stream) :
  Effect.closed ∈ (handleClient env input).writes ↔ (serve env input).RaisesOr .closed
  := by
  rw [handleClient, bind_of_ok (result_runCatching _), RaisesOr, List.mem_append]
  rw [writes_runCatching, or_comm]
  apply or_congr_left
  cases (serve env input).result with
  | ok a => simp
  | error e => simp

/-- When `handleClient` returns, the socket of the client is closed exactly if the streams of the
socket cannot be had, or the stream of the client is none of those that leave the socket open. -/
theorem closed_iff (env : Environment) (input : Stream) :
  Effect.closed ∈ (handleClient env input).writes ↔
    ¬ (env.streams = .ok () ∧ Leaves env input.raises input.chunks.flatten)
  := by
  rw [closed_mem_handleClient]
  constructor
  · rintro hclosed ⟨hstreams, hleaves⟩
    exact not_raisesOr_of_leaves hstreams hleaves hclosed
  · intro hnot
    by_cases hleaves : Leaves env input.raises input.chunks.flatten
    · rw [serve, raisesOr_answer_bind]
      intro a ha
      exact absurd ⟨ha, hleaves⟩ hnot
    · apply raisesOr_of_not_leaves hleaves

/-- A run of `doConnect` that fails at its first call. -/
def failedConnect (unread : Bytes) : ConnectRun unread where
  request := ⟨false, true, true, none⟩
  remoteStream := []
  events := [.handler (.raised 0), .handler (.returned 0), .handler (.returned 0),
    .handler (.returned 0)]
  final := {
    handler := .ended
    client := {
      socket := .closed
      pending := unread
      received := reply 0x05 InetAddress.any 0 }
    remote := { socket := .closed, pending := [] }
    verdicts := [0x05]
    tcpConnectFail := 1 }
  exec_eq := rfl
  ended := rfl

/-- A handler none of whose calls raises before it connects. -/
def calm : Environment where
  getByName := fun _ => none
  streams := .ok ()
  methodReply := .ok ()
  unsupportedReply := .ok ()
  addressReply := .ok ()
  close := .ok ()
  connect := fun _ _ unread => failedConnect unread
  datagramSocket := .ok ()
  protect := .ok true
  protectReply := .ok ()
  relayTimeout := .ok ()
  localPort := 40000
  associateReply := .ok ()
  clientTimeout := .ok ()
  drain := .ok ()
  join := .ok ()

/-- A client that ends its stream without a byte leaves an open socket behind. -/
theorem not_closed_emptyStream :
  Effect.closed ∉ (handleClient calm ⟨[], false⟩).writes
  := List.not_mem_nil

end Socks.ClientSocket
