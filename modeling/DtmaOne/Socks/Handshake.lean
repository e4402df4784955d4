import DtmaOne.Library.InputStream
import DtmaOne.Socks.Address

/-!
# The handshake of the SOCKS5 server

`LocalSocks5Server.handleClient` up to the call of `doConnect` or `doUdpAssociate`: the greeting
with the methods of the client, the request with its command, address and port, and the replies.
The client's stream arrives in chunks; what the platform resolves is a parameter, and writing to
the client succeeds.

A value of -1 at the end of the stream is taken for a byte: a missing address type is an unknown
one.  What the function does is a function of the bytes of the stream, however they are split,
and the relation `Handles` says which.
-/

namespace Socks.Handshake

open InputStream

/-! ### The server -/

/-- How `handleClient` ends: it goes on with a connection or an association and what is unread,
it closes the client's socket, or it returns and leaves it. -/
inductive Outcome (ρ : Type) where
  | connect (dest : InetAddress) (port : ℕ) (unread : ρ)
  | udpAssociate (unread : ρ)
  | closed
  | left
  deriving DecidableEq

/-- What is written to the client, and how `handleClient` ends. -/
structure Handled (ρ : Type) where
  written : Bytes
  outcome : Outcome ρ
  deriving DecidableEq

/-- `readAddress`: null or an address, and what is unread after it. -/
def readAddress (getByName : String → Option InetAddress) (input : Source) (atyp : ℤ) :
    Option (InetAddress × Source) :=
  if atyp = 0x01 then do
    let (b, input) ← readFully 4 input
    let a ← InetAddress.getByAddress b
    return (a, input)
  else if atyp = 0x04 then do
    let (b, input) ← readFully 16 input
    let a ← InetAddress.getByAddress b
    return (a, input)
  else if atyp = 0x03 then
    let (len, input) := read input
    if len ≤ 0 then none
    else do
      let (b, input) ← readFully len.toNat input
      let a ← getByName (asciiString b)
      return (a, input)
  else none

/-- The answer to the methods of the client. -/
def methodReply : Bytes := [0x05, 0x00]

/-- The end of `handleClient`, after the address. -/
def dispatch (cmd : ℤ) (dest : InetAddress) (input : Source) : Handled Source :=
  let (portHi, input) := read input
  let (portLo, input) := read input
  if portHi < 0 ∨ portLo < 0 then ⟨methodReply, .left⟩
  else
    let port := (portHi.toNat <<< 8) ||| portLo.toNat
    if cmd = 0x01 then ⟨methodReply, .connect dest port input⟩
    else if cmd = 0x03 then ⟨methodReply, .udpAssociate input⟩
    else ⟨methodReply ++ reply 0x07 InetAddress.any 0, .closed⟩

/-- `handleClient` after the greeting. -/
def handleRequest (getByName : String → Option InetAddress) (input : Source) : Handled Source :=
  let (ver, input) := read input
  let (cmd, input) := read input
  let (_, input) := read input
  let (atyp, input) := read input
  if ver ≠ 0x05 then ⟨methodReply, .left⟩
  else
    match readAddress getByName input atyp with
    | none => ⟨methodReply ++ reply 0x08 InetAddress.any 0, .left⟩
    | some (dest, input) => dispatch cmd dest input

/-- `handleClient` -/
def handleClient (getByName : String → Option InetAddress) (input : Source) : Handled Source :=
  let (b, input) := read input
  if b ≠ 0x05 then ⟨[], .left⟩
  else
    let (nMethods, input) := read input
    if nMethods ≤ 0 then ⟨[], .left⟩
    else
      match readFully nMethods.toNat input with
      | none => ⟨[], .closed⟩
      | some (_, input) => handleRequest getByName input

/-- What is unread, whatever its chunks are. -/
def Outcome.flat : Outcome Source → Outcome Bytes
  | .connect dest port unread => .connect dest port unread.flatten
  | .udpAssociate unread => .udpAssociate unread.flatten
  | .closed => .closed
  | .left => .left

def Handled.flat (h : Handled Source) : Handled Bytes :=
  ⟨h.written, h.outcome.flat⟩

/-! ### The streams -/

/-- An address field of a request: a host name has a length of at least one. -/
def AddressField (getByName : String → Option InetAddress) (atyp : UInt8) (addr : Bytes)
    (dest : InetAddress) : Prop :=
  AddressBytes getByName atyp addr dest ∧ addr ≠ [0]

/-- The bytes after the version of a request have no address field: they end before it, or its
type is unknown, or it is cut off, or it is a host name that does not resolve. -/
def Undecodable (getByName : String → Option InetAddress) (tail : Bytes) : Prop :=
  ∀ cmd rsv atyp addr dest rest, tail = [cmd, rsv, atyp] ++ addr ++ rest →
    ¬ AddressField getByName atyp addr dest

/-- The greeting of a client: the version and at least one method. -/
def Greeting (b : Bytes) : Prop :=
  ∃ n methods, b = 5 :: n :: methods ∧ methods.length = n.toNat ∧ n ≠ 0

/-- The stream starts with a greeting and a complete request, and goes on with `rest`. -/
def IsRequest (getByName : String → Option InetAddress) (s : Bytes) (cmd : UInt8)
    (dest : InetAddress) (port : ℕ) (rest : Bytes) : Prop :=
  ∃ greeting addr rsv atyp hi lo, Greeting greeting ∧ AddressField getByName atyp addr dest ∧
    s = greeting ++ [5, cmd, rsv, atyp] ++ addr ++ [hi, lo] ++ rest ∧ port = portOf hi lo

/-- What is done with a stream. -/
inductive Handles (getByName : String → Option InetAddress) : Bytes → Handled Bytes → Prop where
  | notSocks {s : Bytes} (h : s.head? ≠ some 5) : Handles getByName s ⟨[], .left⟩
  | noMethods {s : Bytes} (h : s.head? = none ∨ s.head? = some 0) :
      Handles getByName (5 :: s) ⟨[], .left⟩
  | cutMethods {n : UInt8} {s : Bytes} (h : s.length < n.toNat) :
      Handles getByName (5 :: n :: s) ⟨[], .closed⟩
  | notRequest {greeting s : Bytes} (hgreeting : Greeting greeting) (h : s.head? ≠ some 5) :
      Handles getByName (greeting ++ s) ⟨methodReply, .left⟩
  | undecodable {greeting s : Bytes} (hgreeting : Greeting greeting)
      (h : Undecodable getByName s) :
      Handles getByName (greeting ++ 5 :: s)
        ⟨methodReply ++ reply 0x08 InetAddress.any 0, .left⟩
  | cutPort {greeting addr s : Bytes} {cmd rsv atyp : UInt8} {dest : InetAddress}
      (hgreeting : Greeting greeting) (haddr : AddressField getByName atyp addr dest)
      (h : s.length < 2) :
      Handles getByName (greeting ++ [5, cmd, rsv, atyp] ++ addr ++ s) ⟨methodReply, .left⟩
  | connect {s rest : Bytes} {dest : InetAddress} {port : ℕ}
      (h : IsRequest getByName s 1 dest port rest) :
      Handles getByName s ⟨methodReply, .connect dest port rest⟩
  | udpAssociate {s rest : Bytes} {dest : InetAddress} {port : ℕ}
      (h : IsRequest getByName s 3 dest port rest) :
      Handles getByName s ⟨methodReply, .udpAssociate rest⟩
  | unsupported {s rest : Bytes} {cmd : UInt8} {dest : InetAddress} {port : ℕ}
      (h : IsRequest getByName s cmd dest port rest) (h1 : cmd ≠ 1) (h3 : cmd ≠ 3) :
      Handles getByName s ⟨methodReply ++ reply 0x07 InetAddress.any 0, .closed⟩

variable {getByName : String → Option InetAddress}

/-- Something is done with every stream that starts with a greeting. -/
theorem exists_handles_request {greeting : Bytes} (hgreeting : Greeting greeting) (s : Bytes) :
  ∃ r, Handles getByName (greeting ++ s) r
  := by
  by_cases hfive : s.head? = some 5
  · obtain ⟨s, rfl⟩ := List.head?_eq_some_iff.mp hfive
    by_cases hundecodable : Undecodable getByName s
    · exact ⟨_, Handles.undecodable hgreeting hundecodable⟩
    · unfold Undecodable at hundecodable
      push Not at hundecodable
      obtain ⟨cmd, rsv, atyp, addr, dest, rest, rfl, haddr⟩ := hundecodable
      have hs : greeting ++ 5 :: ([cmd, rsv, atyp] ++ addr ++ rest)
          = greeting ++ [5, cmd, rsv, atyp] ++ addr ++ rest := by
        simp
      rw [hs]
      rcases rest with _ | ⟨hi, _ | ⟨lo, rest⟩⟩
      · exact ⟨_, Handles.cutPort hgreeting haddr (Nat.succ_pos 1)⟩
      · exact ⟨_, Handles.cutPort hgreeting haddr (Nat.lt_succ_self 1)⟩
      · have hrequest : IsRequest getByName
            (greeting ++ [5, cmd, rsv, atyp] ++ addr ++ hi :: lo :: rest) cmd dest
            (portOf hi lo) rest := by
          refine ⟨greeting, addr, rsv, atyp, hi, lo, hgreeting, haddr, ?_, rfl⟩
          simp
        by_cases h1 : cmd = 1
        · subst h1
          exact ⟨_, Handles.connect hrequest⟩
        · by_cases h3 : cmd = 3
          · subst h3
            exact ⟨_, Handles.udpAssociate hrequest⟩
          · exact ⟨_, Handles.unsupported hrequest h1 h3⟩
  · exact ⟨_, Handles.notRequest hgreeting hfive⟩

/-- Something is done with every stream. -/
theorem exists_handles (getByName : String → Option InetAddress) (s : Bytes) :
  ∃ r, Handles getByName s r
  := by
  by_cases hfive : s.head? = some 5
  · obtain ⟨s, rfl⟩ := List.head?_eq_some_iff.mp hfive
    rcases s with _ | ⟨n, s⟩
    · exact ⟨_, Handles.noMethods (Or.inl rfl)⟩
    · by_cases hn : n = 0
      · exact ⟨_, Handles.noMethods (Or.inr (congrArg some hn))⟩
      · by_cases hlen : s.length < n.toNat
        · exact ⟨_, Handles.cutMethods hlen⟩
        · have hgreeting : Greeting (5 :: n :: s.take n.toNat) := by
            refine ⟨n, s.take n.toNat, rfl, ?_, hn⟩
            rw [List.length_take]
            omega
          have hs : 5 :: n :: s = (5 :: n :: s.take n.toNat) ++ s.drop n.toNat := by
            rw [List.cons_append, List.cons_append, List.take_append_drop]
          rw [hs]
          apply exists_handles_request hgreeting
  · exact ⟨_, Handles.notSocks hfive⟩

/-! ### Reading a stream -/

/-- An address field is read. -/
theorem readAddress_of_addressField {atyp : UInt8} {addr rest : Bytes} {dest : InetAddress}
    (haddr : AddressField getByName atyp addr dest) {input : Source}
    (h : input.flatten = addr ++ rest) :
  ∃ next, readAddress getByName input atyp.toNat = some (dest, next) ∧ next.flatten = rest
  := by
  obtain ⟨hfield, hne⟩ := haddr
  cases hfield with
  | ipv4 hlen ha =>
      obtain ⟨next, hread, hnext⟩ := readFully_of_flatten_eq_append h
      rw [hlen] at hread
      use next
      rw [readAddress, if_pos (by decide), hread]
      simp only [Option.bind_eq_bind, Option.bind_some, ha]
      exact ⟨rfl, hnext⟩
  | ipv6 hlen ha =>
      obtain ⟨next, hread, hnext⟩ := readFully_of_flatten_eq_append h
      rw [hlen] at hread
      use next
      rw [readAddress, if_neg (by decide), if_pos (by decide), hread]
      simp only [Option.bind_eq_bind, Option.bind_some, ha]
      exact ⟨rfl, hnext⟩
  | @name len raw dest hlen ha =>
      obtain ⟨mid, hfirst, hmid⟩ := read_spec input
      rw [h] at hfirst hmid
      obtain ⟨next, hread, hnext⟩ := readFully_of_flatten_eq_append hmid
      rw [hlen] at hread
      have hpos : ¬ (len.toNat : ℤ) ≤ 0 := by
        intro hzero
        apply hne
        have hlen0 : len.toNat = 0 := by
          omega
        have hraw : raw = [] := List.eq_nil_of_length_eq_zero (hlen.trans hlen0)
        have hlen' : len = 0 := UInt8.toNat_inj.mp hlen0
        rw [hraw, hlen']
      use next
      rw [readAddress, if_neg (by decide), if_neg (by decide), if_pos (by decide), hfirst]
      simp only [List.cons_append, headValue, if_neg hpos, Int.toNat_natCast, hread,
        Option.bind_eq_bind, Option.bind_some, ha]
      exact ⟨rfl, hnext⟩

/-- Where there is no name that resolves, null is returned. -/
theorem readAddress_of_not_name {input : Source}
    (h : ∀ addr dest rest, input.flatten = addr ++ rest →
      ¬ AddressField getByName 0x03 addr dest) :
  readAddress getByName input 0x03 = none
  := by
  obtain ⟨mid, hfirst, hmid⟩ := read_spec input
  rw [readAddress, if_neg (by decide), if_neg (by decide), if_pos rfl, hfirst]
  cases hflat : input.flatten with
  | nil => rfl
  | cons len t =>
      rw [hflat] at hmid h
      dsimp only [headValue]
      split_ifs with hzero
      · rfl
      · rw [Int.toNat_natCast]
        by_cases hlen : mid.flatten.length < len.toNat
        · rw [readFully_of_lt hlen]
          rfl
        · have hsize : (mid.flatten.take len.toNat).length = len.toNat := by
            rw [List.length_take]
            omega
          obtain ⟨next, hread, -⟩ :=
            readFully_of_flatten_eq_append (List.take_append_drop len.toNat mid.flatten).symm
          rw [hsize] at hread
          rw [hread]
          cases hname : getByName (asciiString (mid.flatten.take len.toNat)) with
          | none =>
              simp only [Option.bind_eq_bind, Option.bind_some, hname]
              rfl
          | some a =>
              exfalso
              apply h (len :: mid.flatten.take len.toNat) a (mid.flatten.drop len.toNat)
              · rw [List.cons_append, List.take_append_drop, hmid]
                rfl
              · use AddressBytes.name hsize hname
                intro heq
                rw [List.cons.injEq] at heq
                apply hzero
                rw [heq.1]
                rfl

/-- Where there is no address field, null is returned. -/
theorem readAddress_of_not {atyp : UInt8} {input : Source}
    (h : ∀ addr dest rest, input.flatten = addr ++ rest →
      ¬ AddressField getByName atyp addr dest) :
  readAddress getByName input atyp.toNat = none
  := by
  have hvalue : ∀ c : UInt8, (atyp.toNat : ℤ) = c.toNat → atyp = c := by
    intro c hc
    apply UInt8.toNat_inj.mp
    omega
  by_cases h3 : (atyp.toNat : ℤ) = 0x03
  · obtain rfl := hvalue 3 h3
    apply readAddress_of_not_name h
  · rw [readAddress]
    split_ifs with h1 h4
    · obtain rfl := hvalue 1 h1
      rw [readFully_of_not]
      · rfl
      · intro addr rest haddr hsize
        apply h addr _ rest haddr
        use AddressBytes.ipv4 hsize (InetAddress.getByAddress_of_length_four hsize)
        rintro rfl
        cases hsize
    · obtain rfl := hvalue 4 h4
      rw [readFully_of_not]
      · rfl
      · intro addr rest haddr hsize
        obtain ⟨a, ha⟩ := InetAddress.getByAddress_of_length_sixteen hsize
        apply h addr a rest haddr
        use AddressBytes.ipv6 hsize ha
        rintro rfl
        cases hsize
    · rfl

theorem readAddress_of_missing (input : Source) :
  readAddress getByName input (-1) = none
  := rfl

/-- After the version the methods are read. -/
theorem handleClient_of_five (getByName : String → Option InetAddress) {input : Source} {s : Bytes}
    (h : input.flatten = 5 :: s) :
  ∃ next, next.flatten = s.tail ∧
    handleClient getByName input
      = if headValue s ≤ 0 then ⟨[], .left⟩
        else
          match readFully (headValue s).toNat next with
          | none => ⟨[], .closed⟩
          | some (_, input) => handleRequest getByName input
  := by
  obtain ⟨i1, h1, hi1⟩ := read_spec input
  obtain ⟨i2, h2, hi2⟩ := read_spec i1
  rw [h] at h1 hi1
  rw [hi1, List.tail_cons] at h2 hi2
  have hversion : read input = (5, i1) := h1
  use i2, hi2
  rw [handleClient, hversion]
  dsimp only
  rw [if_neg (by decide), h2]

/-- After a greeting the request is handled. -/
theorem handleClient_of_greeting (getByName : String → Option InetAddress) {greeting s : Bytes}
    (hgreeting : Greeting greeting) {input : Source} (h : input.flatten = greeting ++ s) :
  ∃ next, next.flatten = s ∧ handleClient getByName input = handleRequest getByName next
  := by
  obtain ⟨n, methods, rfl, hlen, hn⟩ := hgreeting
  obtain ⟨mid, hmid, hclient⟩ := handleClient_of_five getByName h
  obtain ⟨next, hread, hnext⟩ := readFully_of_flatten_eq_append hmid
  rw [hlen] at hread
  have hpos : ¬ headValue (n :: (methods ++ s)) ≤ 0 := not_headValue_nonpos hn _
  have hcount : (headValue (n :: (methods ++ s))).toNat = n.toNat := Int.toNat_natCast _
  use next, hnext
  rw [hclient]
  change (if headValue (n :: (methods ++ s)) ≤ 0 then _ else
    match readFully (headValue (n :: (methods ++ s))).toNat mid with
    | none => _
    | some (_, input) => _) = _
  rw [if_neg hpos, hcount, hread]

/-- A request with a wrong version is left. -/
theorem handleRequest_of_not_five {input : Source} (h : input.flatten.head? ≠ some 5) :
  handleRequest getByName input = ⟨methodReply, .left⟩
  := by
  obtain ⟨next, hfirst, -⟩ := read_spec input
  have hne : headValue input.flatten ≠ 5 := headValue_ne h
  rw [handleRequest, hfirst]
  simp only [if_pos hne]

/-- The bytes of a request before its address are read one by one. -/
theorem handleRequest_of_five (getByName : String → Option InetAddress) {input : Source}
    {s : Bytes} (h : input.flatten = 5 :: s) :
  ∃ next, next.flatten = s.tail.tail.tail ∧
    handleRequest getByName input
      = match readAddress getByName next (headValue s.tail.tail) with
        | none => ⟨methodReply ++ reply 0x08 InetAddress.any 0, .left⟩
        | some (dest, input) => dispatch (headValue s) dest input
  := by
  obtain ⟨i1, h1, hi1⟩ := read_spec input
  obtain ⟨i2, h2, hi2⟩ := read_spec i1
  obtain ⟨i3, h3, hi3⟩ := read_spec i2
  obtain ⟨i4, h4, hi4⟩ := read_spec i3
  rw [h] at h1 hi1
  rw [hi1, List.tail_cons] at h2 hi2
  rw [hi2] at h3 hi3
  rw [hi3] at h4 hi4
  use i4, hi4
  have hversion : read input = (5, i1) := h1
  rw [handleRequest, hversion]
  dsimp only
  rw [h2]
  dsimp only
  rw [h3]
  dsimp only
  rw [h4]
  dsimp only
  rw [if_neg (by decide)]

/-- Where there is no address field after the version, null is returned. -/
theorem readAddress_of_undecodable {input : Source} {s : Bytes} (hs : Undecodable getByName s)
    (h : input.flatten = s.tail.tail.tail) :
  readAddress getByName input (headValue s.tail.tail) = none
  := by
  rcases s with _ | ⟨cmd, _ | ⟨rsv, _ | ⟨atyp, t⟩⟩⟩
  · apply readAddress_of_missing
  · apply readAddress_of_missing
  · apply readAddress_of_missing
  · apply readAddress_of_not
    intro addr dest rest hflat
    apply hs cmd rsv atyp addr dest rest
    rw [List.append_assoc, ← h.symm.trans hflat]
    rfl

/-- A request without an address field is refused. -/
theorem handleRequest_of_undecodable {input : Source} {s : Bytes} (h : input.flatten = 5 :: s)
    (hs : Undecodable getByName s) :
  handleRequest getByName input = ⟨methodReply ++ reply 0x08 InetAddress.any 0, .left⟩
  := by
  obtain ⟨next, hnext, heq⟩ := handleRequest_of_five getByName h
  rw [heq, readAddress_of_undecodable hs hnext]

/-- What follows a complete address is dispatched. -/
theorem handleRequest_of_addressField {input : Source} {cmd rsv atyp : UInt8} {addr s : Bytes}
    {dest : InetAddress} (haddr : AddressField getByName atyp addr dest)
    (h : input.flatten = [5, cmd, rsv, atyp] ++ addr ++ s) :
  ∃ next, next.flatten = s ∧ handleRequest getByName input = dispatch cmd.toNat dest next
  := by
  obtain ⟨mid, hmid, heq⟩ := handleRequest_of_five getByName
    (s := cmd :: rsv :: atyp :: (addr ++ s)) h
  obtain ⟨next, hread, hnext⟩ := readAddress_of_addressField haddr hmid
  use next, hnext
  have hread' : readAddress getByName mid (headValue (atyp :: (addr ++ s))) = some (dest, next) :=
    hread
  rw [heq]
  simp only [List.tail_cons, hread']
  rfl

theorem dispatch_of_cut {cmd : ℤ} {dest : InetAddress} {input : Source}
    (h : input.flatten.length < 2) :
  dispatch cmd dest input = ⟨methodReply, .left⟩
  := by
  obtain ⟨i1, h1, hi1⟩ := read_spec input
  obtain ⟨i2, h2, hi2⟩ := read_spec i1
  have hend : headValue input.flatten < 0 ∨ headValue i1.flatten < 0 := by
    rw [hi1]
    rcases hflat : input.flatten with _ | ⟨hi, _ | ⟨lo, rest⟩⟩
    · left
      decide
    · right
      apply Int.negSucc_lt_zero
    · rw [hflat, List.length_cons, List.length_cons] at h
      omega
  rw [dispatch, h1]
  dsimp only
  rw [h2]
  dsimp only
  rw [if_pos hend]

theorem dispatch_of_port {cmd : ℤ} {dest : InetAddress} {input : Source} {hi lo : UInt8}
    {rest : Bytes} (h : input.flatten = [hi, lo] ++ rest) :
  ∃ next, next.flatten = rest ∧
    dispatch cmd dest input
      = if cmd = 0x01 then ⟨methodReply, .connect dest (portOf hi lo) next⟩
        else if cmd = 0x03 then ⟨methodReply, .udpAssociate next⟩
        else ⟨methodReply ++ reply 0x07 InetAddress.any 0, .closed⟩
  := by
  obtain ⟨i1, h1, hi1⟩ := read_spec input
  obtain ⟨i2, h2, hi2⟩ := read_spec i1
  rw [h] at h1 hi1
  rw [hi1] at h2 hi2
  have hhi : read input = ((hi.toNat : ℤ), i1) := h1
  have hlo : read i1 = ((lo.toNat : ℤ), i2) := h2
  use i2, hi2
  rw [dispatch, hhi]
  dsimp only
  rw [hlo]
  dsimp only
  rw [if_neg (by omega), Int.toNat_natCast, Int.toNat_natCast, shiftLeft_or_eq_portOf]

/-- A complete request is dispatched by its command. -/
theorem handleClient_of_isRequest {input : Source} {cmd : UInt8} {dest : InetAddress} {port : ℕ}
    {rest : Bytes} (h : IsRequest getByName input.flatten cmd dest port rest) :
  ∃ next, next.flatten = rest ∧
    handleClient getByName input
      = if (cmd.toNat : ℤ) = 0x01 then ⟨methodReply, .connect dest port next⟩
        else if (cmd.toNat : ℤ) = 0x03 then ⟨methodReply, .udpAssociate next⟩
        else ⟨methodReply ++ reply 0x07 InetAddress.any 0, .closed⟩
  := by
  obtain ⟨greeting, addr, rsv, atyp, hi, lo, hgreeting, haddr, hs, rfl⟩ := h
  have hparts : input.flatten
      = greeting ++ ([5, cmd, rsv, atyp] ++ addr ++ ([hi, lo] ++ rest)) := by
    rw [hs]
    simp
  obtain ⟨i1, hi1, hclient⟩ := handleClient_of_greeting getByName hgreeting hparts
  obtain ⟨i2, hi2, hrequest⟩ := handleRequest_of_addressField haddr hi1
  obtain ⟨i3, hi3, hdispatch⟩ := dispatch_of_port hi2
  use i3, hi3
  rw [hclient, hrequest, hdispatch]

/-- What is done with a stream is what should be done, however it is split. -/
theorem flat_handleClient {input : Source} {r : Handled Bytes}
    (h : Handles getByName input.flatten r) :
  (handleClient getByName input).flat = r
  := by
  generalize hs : input.flatten = s at h
  cases h with
  | notSocks hfive =>
      obtain ⟨next, hfirst, -⟩ := read_spec input
      have hne : headValue input.flatten ≠ 5 := by
        rw [hs]
        exact headValue_ne hfive
      rw [handleClient, hfirst]
      dsimp only
      rw [if_pos hne]
      rfl
  | @noMethods t hzero =>
      obtain ⟨next, -, hclient⟩ := handleClient_of_five getByName hs
      rw [hclient, if_pos (headValue_nonpos_iff.mpr hzero)]
      rfl
  | @cutMethods n t hlen =>
      obtain ⟨next, hnext, hclient⟩ := handleClient_of_five getByName hs
      have hpos : ¬ headValue (n :: t) ≤ 0 := by
        apply not_headValue_nonpos
        rintro rfl
        exact Nat.not_lt_zero _ hlen
      have hcut : next.flatten.length < (headValue (n :: t)).toNat := by
        rw [hnext]
        apply hlen
      rw [hclient, if_neg hpos, readFully_of_lt hcut]
      rfl
  | notRequest hgreeting hfive =>
      obtain ⟨next, hnext, hclient⟩ := handleClient_of_greeting getByName hgreeting hs
      rw [hclient, handleRequest_of_not_five]
      · rfl
      · rw [hnext]
        apply hfive
  | undecodable hgreeting hundecodable =>
      obtain ⟨next, hnext, hclient⟩ := handleClient_of_greeting getByName hgreeting hs
      rw [hclient, handleRequest_of_undecodable hnext hundecodable]
      rfl
  | @cutPort greeting addr t cmd rsv atyp dest hgreeting haddr hlen =>
      have hparts : input.flatten = greeting ++ ([5, cmd, rsv, atyp] ++ addr ++ t) := by
        rw [hs]
        simp
      obtain ⟨i1, hi1, hclient⟩ := handleClient_of_greeting getByName hgreeting hparts
      obtain ⟨i2, hi2, hrequest⟩ := handleRequest_of_addressField haddr hi1
      rw [hclient, hrequest, dispatch_of_cut]
      · rfl
      · rw [hi2]
        apply hlen
  | connect hrequest =>
      obtain ⟨next, rfl, hclient⟩ := handleClient_of_isRequest (hs.symm ▸ hrequest)
      rw [hclient, if_pos (by decide)]
      rfl
  | udpAssociate hrequest =>
      obtain ⟨next, rfl, hclient⟩ := handleClient_of_isRequest (hs.symm ▸ hrequest)
      rw [hclient, if_neg (by decide), if_pos (by decide)]
      rfl
  | @unsupported _ rest cmd dest port hrequest h1 h3 =>
      obtain ⟨next, rfl, hclient⟩ := handleClient_of_isRequest (hs.symm ▸ hrequest)
      have hne1 : ¬ (cmd.toNat : ℤ) = 0x01 := by
        intro heq
        apply h1 (UInt8.toNat_inj.mp (Int.ofNat_inj.mp heq))
      have hne3 : ¬ (cmd.toNat : ℤ) = 0x03 := by
        intro heq
        apply h3 (UInt8.toNat_inj.mp (Int.ofNat_inj.mp heq))
      rw [hclient, if_neg hne1, if_neg hne3]
      rfl

/-! ### Exactness -/

/-- The decoder is exact, however the stream is split.  It goes on to connect exactly for a
complete request with the command 1, with the destination and port of the request and what
follows the request unread, and to associate exactly for one with the command 3.  A complete
request with another command is answered with 7, and one whose address cannot be decoded with 8,
whatever its command is; neither of them connects. -/
theorem handshake_exact (getByName : String → Option InetAddress) (input : Source) :
  (∀ dest port rest,
    (handleClient getByName input).flat.outcome = .connect dest port rest ↔
      IsRequest getByName input.flatten 1 dest port rest) ∧
  (∀ rest,
    (handleClient getByName input).flat.outcome = .udpAssociate rest ↔
      ∃ dest port, IsRequest getByName input.flatten 3 dest port rest) ∧
  (∀ cmd dest port rest, IsRequest getByName input.flatten cmd dest port rest →
    cmd ≠ 1 → cmd ≠ 3 →
    (handleClient getByName input).flat
      = ⟨methodReply ++ reply 0x07 InetAddress.any 0, .closed⟩) ∧
  ∀ greeting tail, Greeting greeting → input.flatten = greeting ++ 5 :: tail →
    Undecodable getByName tail →
    (handleClient getByName input).flat
      = ⟨methodReply ++ reply 0x08 InetAddress.any 0, .left⟩
  := by
  refine ⟨?_, ?_, ?_, ?_⟩
  · intro dest port rest
    constructor
    · intro houtcome
      obtain ⟨r, hr⟩ := exists_handles getByName input.flatten
      rw [flat_handleClient hr] at houtcome
      generalize input.flatten = s at hr ⊢
      cases hr with
      | connect hrequest =>
          cases houtcome
          apply hrequest
      | _ => cases houtcome
    · intro hrequest
      rw [flat_handleClient (Handles.connect hrequest)]
  · intro rest
    constructor
    · intro houtcome
      obtain ⟨r, hr⟩ := exists_handles getByName input.flatten
      rw [flat_handleClient hr] at houtcome
      generalize input.flatten = s at hr ⊢
      cases hr with
      | udpAssociate hrequest =>
          cases houtcome
          exact ⟨_, _, hrequest⟩
      | _ => cases houtcome
    · rintro ⟨dest, port, hrequest⟩
      rw [flat_handleClient (Handles.udpAssociate hrequest)]
  · intro cmd dest port rest hrequest h1 h3
    apply flat_handleClient (Handles.unsupported hrequest h1 h3)
  · intro greeting tail hgreeting hs hundecodable
    apply flat_handleClient
    rw [hs]
    apply Handles.undecodable hgreeting hundecodable

/-- A request to connect to `1.2.3.4`, port 443, in chunks, with a byte after it. -/
def chunkedConnect : Source := [[5], [], [2, 0, 2, 5, 1, 0], [1, 1, 2], [3, 4, 1], [0xbb, 0x16]]

theorem handshake_exact_chunkedConnect :
  (handleClient (fun _ => none) chunkedConnect).flat.outcome
    = .connect ⟨[1, 2, 3, 4], Or.inl rfl⟩ 443 [0x16]
  := by
  apply ((handshake_exact (fun _ => none) chunkedConnect).1 _ _ _).mpr
  exact ⟨[5, 2, 0, 2], [1, 2, 3, 4], 0, 1, 1, 0xbb, ⟨2, [0, 2], rfl, rfl, by decide⟩,
    ⟨AddressBytes.ipv4 rfl rfl, by decide⟩, rfl, rfl⟩

end Socks.Handshake
