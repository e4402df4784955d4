import DtmaOne.Socks.UdpRelay

/-!
# Failures of single datagrams

One catch-all surrounds the body of the relay loop, and its handler leaves the loop.  The
loop survives a list of datagrams, and relays what comes later as if they had not arrived,
exactly when none of them is a datagram of the client with a host name that does not
resolve, or a datagram whose packet is refused.
-/

namespace Socks.UdpRelay

/-! ### When a datagram ends the loop -/

theorem byteAt_append {b stale : Bytes} {i : ℕ} (hi : i < b.length) :
  byteAt (b ++ stale) i = .ok b[i]
  := by
  rw [byteAt, List.getElem?_append_left hi, List.getElem?_eq_getElem hi]
  rfl

theorem copyOfRange_append {b stale : Bytes} {p q : ℕ} (hp : p ≤ q) (hq : q ≤ b.length) :
  copyOfRange (b ++ stale) p q = .ok ((b.drop p).take (q - p))
  := by
  have hlen : q ≤ (b ++ stale).length := by
    rw [List.length_append]
    omega
  rw [copyOfRange, if_pos ⟨hp, hlen⟩, List.drop_append_of_le_length (by omega),
    List.take_append_of_le_length (by rw [List.length_drop]; omega)]

/-- The received bytes are copied from the buffer. -/
theorem copyOfRange_data (d : Datagram) :
  copyOfRange d.data 0 d.bytes.length = .ok d.bytes
  := by
  rw [Datagram.data, copyOfRange_append (Nat.zero_le _) (Nat.le_refl _), List.drop_zero,
    Nat.sub_zero, List.take_length]

/-- The host name at the offset `p` of the received bytes, if it is complete. -/
def nameAt (b : Bytes) (p : ℕ) : Option String :=
  match b[p]? with
  | none => none
  | some dlen =>
      if p + 1 + dlen.toNat ≤ b.length then
        some (asciiString ((b.drop (p + 1)).take dlen.toNat))
      else none

/-- The host name of a datagram: its header is well formed up to a complete host name. -/
def hostName (b : Bytes) : Option String :=
  if b.take 4 = [0, 0, 0, 3] then nameAt b 4 else none

/-- The three ways the decoding of an address ends.  It never looks behind the received
bytes, and it raises only for a host name that does not resolve. -/
inductive AddressOutcome (getByName : String → Option InetAddress) (b : Bytes) (atyp : UInt8)
    (p : ℕ) : Except Exit (InetAddress × ℕ) → Prop where
  | skip (h : atyp = 3 → nameAt b p = none) : AddressOutcome getByName b atyp p (.error .skip)
  | unresolved (h : atyp = 3) {host : String} (hname : nameAt b p = some host)
      (hfail : getByName host = none) : AddressOutcome getByName b atyp p (.error .raised)
  | decoded {a : InetAddress} {q : ℕ} (hq : q ≤ b.length)
      (h : atyp = 3 → ∃ host, nameAt b p = some host ∧ getByName host = some a) :
      AddressOutcome getByName b atyp p (.ok (a, q))

/-- An address of a fixed size is decoded within the received bytes. -/
theorem decodeFixed_eq (b stale : Bytes) (p size : ℕ) :
  (do
    skipIf (p + size > b.length)
    let a ← orRaise (InetAddress.getByAddress (← copyOfRange (b ++ stale) p (p + size)))
    return (a, p + size) : Except Exit (InetAddress × ℕ))
    = if b.length < p + size then .error .skip
      else (InetAddress.getByAddress ((b.drop p).take size)).elim (.error .raised)
        fun a => .ok (a, p + size)
  := by
  split_ifs with hp
  · rw [skipIf, if_pos hp]
    rfl
  · rw [skipIf, if_neg hp, copyOfRange_append (by omega) (by omega), Nat.add_sub_cancel_left]
    simp only [bind, Except.bind]
    cases InetAddress.getByAddress ((b.drop p).take size) <;> rfl

/-- A name is decoded within the received bytes. -/
theorem decodeAddress_name (getByName : String → Option InetAddress) (b stale : Bytes) (p : ℕ) :
  decodeAddress getByName (b ++ stale) b.length 0x03 p
    = (b[p]?).elim (.error .skip) fun dlen =>
      if b.length < p + 1 + dlen.toNat then .error .skip
      else (getByName (asciiString ((b.drop (p + 1)).take dlen.toNat))).elim (.error .raised)
        fun a => .ok (a, p + 1 + dlen.toNat)
  := by
  rw [decodeAddress, if_neg (by decide), if_neg (by decide), if_pos rfl]
  by_cases hp : p ≥ b.length
  · rw [skipIf, if_pos hp, List.getElem?_eq_none hp]
    rfl
  · rw [skipIf, if_neg hp, byteAt_append (by omega), List.getElem?_eq_getElem (by omega)]
    simp only [bind, Except.bind, Option.elim_some]
    split_ifs with hq
    · rw [skipIf, if_pos hq]
    · rw [skipIf, if_neg hq, copyOfRange_append (by omega) (by omega), Nat.add_sub_cancel_left]
      dsimp only
      cases getByName (asciiString ((b.drop (p + 1)).take b[p].toNat)) <;> rfl

theorem length_take_drop {b : Bytes} {p size : ℕ} (h : ¬ b.length < p + size) :
  ((b.drop p).take size).length = size
  := by
  rw [List.length_take, List.length_drop]
  omega

theorem decodeAddress_outcome (getByName : String → Option InetAddress) (b stale : Bytes)
    (atyp : UInt8) (p : ℕ) :
  AddressOutcome getByName b atyp p (decodeAddress getByName (b ++ stale) b.length atyp p)
  := by
  by_cases h3 : atyp = 0x03
  · subst h3
    rw [decodeAddress_name]
    cases hget : b[p]? with
    | none =>
        apply AddressOutcome.skip
        intro _
        rw [nameAt, hget]
    | some dlen =>
        rw [Option.elim_some]
        split_ifs with hq
        · apply AddressOutcome.skip
          intro _
          rw [nameAt, hget]
          simp only
          rw [if_neg (by omega)]
        · have hname : nameAt b p = some (asciiString ((b.drop (p + 1)).take dlen.toNat)) := by
            rw [nameAt, hget]
            simp only
            rw [if_pos (by omega)]
          cases hres : getByName (asciiString ((b.drop (p + 1)).take dlen.toNat)) with
          | none => apply AddressOutcome.unresolved rfl hname hres
          | some a =>
              apply AddressOutcome.decoded (by omega)
              intro _
              exact ⟨_, hname, hres⟩
  · rw [decodeAddress]
    split_ifs
    · rw [decodeFixed_eq]
      split_ifs with hp
      · apply AddressOutcome.skip
        intro h
        exact absurd h h3
      · rw [InetAddress.getByAddress_of_length_four (length_take_drop hp)]
        apply AddressOutcome.decoded (by omega)
        intro h
        exact absurd h h3
    · rw [decodeFixed_eq]
      split_ifs with hp
      · apply AddressOutcome.skip
        intro h
        exact absurd h h3
      · obtain ⟨a, ha⟩ := InetAddress.getByAddress_of_length_sixteen (length_take_drop hp)
        rw [ha]
        apply AddressOutcome.decoded (by omega)
        intro h
        exact absurd h h3
    · apply AddressOutcome.skip
      intro h
      exact absurd h h3

/-- After the address, the rest of a request never raises. -/
theorem decodePayload_ne_raised (b stale : Bytes) (destAddr : InetAddress) (p : ℕ) :
  decodePayload (b ++ stale) b.length destAddr p ≠ .error .raised
  := by
  rw [decodePayload]
  by_cases hp : p + 2 > b.length
  · rw [skipIf, if_pos hp]
    intro h
    cases h
  · rw [skipIf, if_neg hp, byteAt_append (by omega), byteAt_append (by omega),
      copyOfRange_append (by omega) (by omega)]
    intro h
    cases h

/-- A request of at least four bytes is skipped unless it starts with three zero bytes, and
else is decoded from its address on. -/
theorem decodeRequest_cons (getByName : String → Option InetAddress) (b0 b1 b2 b3 : UInt8)
    (rest stale : Bytes) :
  decodeRequest getByName ((b0 :: b1 :: b2 :: b3 :: rest) ++ stale) 0 (rest.length + 4)
    = if b0 = 0 ∧ b1 = 0 ∧ b2 = 0 then
        decodeAddress getByName ((b0 :: b1 :: b2 :: b3 :: rest) ++ stale) (rest.length + 4) b3 4
          >>= fun ap => decodePayload ((b0 :: b1 :: b2 :: b3 :: rest) ++ stale)
            (rest.length + 4) ap.1 ap.2
      else .error .skip
  := by
  have h0 : byteAt ((b0 :: b1 :: b2 :: b3 :: rest) ++ stale) 0 = .ok b0 := rfl
  have h1 : byteAt ((b0 :: b1 :: b2 :: b3 :: rest) ++ stale) (0 + 1) = .ok b1 := rfl
  have h2 : byteAt ((b0 :: b1 :: b2 :: b3 :: rest) ++ stale) (0 + 2) = .ok b2 := rfl
  have h3 : byteAt ((b0 :: b1 :: b2 :: b3 :: rest) ++ stale) (0 + 3) = .ok b3 := rfl
  rw [decodeRequest, h0, h1, h2, h3, skipIf, if_neg (by omega)]
  by_cases h01 : b0 ≠ 0 ∨ b1 ≠ 0
  · rw [if_neg (by tauto)]
    simp only [bind, Except.bind, skipIf, if_pos h01]
  · by_cases h2' : b2 ≠ 0
    · rw [if_neg (by tauto)]
      simp only [bind, Except.bind, skipIf, if_neg h01, if_pos h2']
    · rw [if_pos (by tauto)]
      simp only [bind, Except.bind, skipIf, if_neg h01, if_neg h2', Nat.zero_add]

/-- A request raises exactly when its header is well formed up to a complete host name that
does not resolve. -/
theorem decodeRequest_raised_iff (getByName : String → Option InetAddress) (b stale : Bytes) :
  decodeRequest getByName (b ++ stale) 0 b.length = .error .raised
    ↔ ∃ host, hostName b = some host ∧ getByName host = none
  := by
  rcases b with _ | ⟨b0, _ | ⟨b1, _ | ⟨b2, _ | ⟨b3, rest⟩⟩⟩⟩
  · simp [decodeRequest, skipIf, bind, Except.bind, hostName]
  · simp [decodeRequest, skipIf, bind, Except.bind, hostName]
  · simp [decodeRequest, skipIf, bind, Except.bind, hostName]
  · simp [decodeRequest, skipIf, bind, Except.bind, hostName]
  · have hlen : (b0 :: b1 :: b2 :: b3 :: rest).length = rest.length + 4 := rfl
    rw [hlen, decodeRequest_cons]
    split_ifs with hzero
    · obtain ⟨rfl, rfl, rfl⟩ := hzero
      have hhost : hostName (0 :: 0 :: 0 :: b3 :: rest)
          = if b3 = 3 then nameAt (0 :: 0 :: 0 :: b3 :: rest) 4 else none := by
        simp [hostName]
      rw [hhost, ← hlen]
      have hout := decodeAddress_outcome getByName (0 :: 0 :: 0 :: b3 :: rest) stale b3 4
      generalize decodeAddress getByName ((0 :: 0 :: 0 :: b3 :: rest) ++ stale)
        (0 :: 0 :: 0 :: b3 :: rest).length b3 4 = r at hout
      cases hout with
      | skip h =>
          constructor
          · intro h'
            cases h'
          · rintro ⟨host, hname, -⟩
            split_ifs at hname with h3
            rw [h h3] at hname
            cases hname
      | unresolved h hname hfail =>
          constructor
          · intro _
            rw [if_pos h]
            exact ⟨_, hname, hfail⟩
          · intro _
            rfl
      | decoded hq h =>
          constructor
          · intro h'
            exact absurd h' (decodePayload_ne_raised _ stale _ _)
          · rintro ⟨host, hname, hfail⟩
            split_ifs at hname with h3
            obtain ⟨host', hname', hres⟩ := h h3
            obtain rfl := Option.some.inj (hname.symm.trans hname')
            rw [hres] at hfail
            cases hfail
    · constructor
      · intro h
        cases h
      · rintro ⟨host, hname, -⟩
        have hhead : (b0 :: b1 :: b2 :: b3 :: rest).take 4 ≠ [0, 0, 0, 3] := by
          intro h
          injection h with h0 h
          injection h with h1 h
          injection h with h2 h
          exact hzero ⟨h0, h1, h2⟩
        rw [hostName, if_neg hhead] at hname
        cases hname

/-- The event brings a datagram or a timeout: the association is open and `receive` does not
fail. -/
def Event.isOpen : Event → Prop
  | .received _ _ => True
  | .timedOut => True
  | .receiveFailed => False
  | .closed => False

/-- The datagram ends the loop of the client `c`: it is one of the client whose host name does
not resolve, or the packet made of it is refused. -/
def Raises (c : InetSocketAddress) : Event → Prop
  | .received d env =>
      if d.sender = c then
        (∃ host, hostName d.bytes = some host ∧ env.getByName host = none) ∨
          (∃ r, decodeRequest env.getByName d.data 0 d.bytes.length = .ok r) ∧
            env.sendAccepted = false
      else env.sendAccepted = false
  | _ => False

theorem send_raised_iff (env : Env) (packet : Sent) :
  send env packet = .error .raised ↔ env.sendAccepted = false
  := by
  cases h : env.sendAccepted <;> simp [send, h]

/-- Once the client is known, the handling of a datagram raises exactly when `Raises` says
so. -/
theorem handle_raised_iff (dohDns : Bool) (c : InetSocketAddress) (d : Datagram) (env : Env) :
  handle dohDns (some c) d env = .error .raised ↔ Raises c (.received d env)
  := by
  by_cases hc : d.sender = c
  · have hdec := decodeRequest_raised_iff env.getByName d.bytes d.stale
    rw [handle, if_pos ((takenAsClient_some c d).mpr hc), Raises, if_pos hc, fromClient, ← hdec]
    change _ ↔ decodeRequest env.getByName d.data 0 d.bytes.length = _ ∨ _
    cases decodeRequest env.getByName d.data 0 d.bytes.length with
    | error e => simp [bind, Except.bind]
    | ok r => simp [bind, Except.bind, send_raised_iff]
  · rw [handle, if_neg (mt (takenAsClient_some c d).mp hc), Raises, if_neg hc, fromRemote,
      copyOfRange_data]
    apply send_raised_iff

/-! ### The loop as a whole -/

/-- The packets one event makes the relay of the client `c` send. -/
def output (dohDns : Bool) (c : InetSocketAddress) : Event → List Sent
  | .received d env =>
      match handle dohDns (some c) d env with
      | .ok packet => [packet]
      | .error _ => []
  | _ => []

/-- A running loop that knows its client. -/
def started (c : InetSocketAddress) : Assoc := { clientEp := some c }

/-- A round that does not raise keeps the loop running with the same client. -/
theorem iterate_of_not_raises (dohDns : Bool) (c : InetSocketAddress) (sent : List Sent)
    (e : Event) (hopen : e.isOpen) (he : ¬ Raises c e) :
  iterate dohDns ⟨some c, true, sent⟩ e = ⟨some c, true, sent ++ output dohDns c e⟩
  := by
  cases e with
  | received d env =>
      rw [← handle_raised_iff dohDns] at he
      simp only [iterate, recordClient, Option.getD_some, output]
      cases h : handle dohDns (some c) d env with
      | ok packet => rfl
      | error x =>
          cases x with
          | skip => simp
          | raised => exact absurd h he
  | timedOut => simp [iterate, output]
  | receiveFailed => exact absurd hopen id
  | closed => exact absurd hopen id

/-- A round that raises ends the loop. -/
theorem iterate_of_raises (dohDns : Bool) (c : InetSocketAddress) (sent : List Sent)
    (e : Event) (he : Raises c e) :
  (iterate dohDns ⟨some c, true, sent⟩ e).alive = false
  := by
  cases e with
  | received d env =>
      rw [← handle_raised_iff dohDns] at he
      simp [iterate, he]
  | timedOut => exact absurd he id
  | receiveFailed => rfl
  | closed => rfl

/-- A list of events none of which raises is relayed event by event. -/
theorem relay_of_not_raises (dohDns : Bool) (c : InetSocketAddress) (sent : List Sent)
    (es : List Event) (hopen : ∀ e ∈ es, e.isOpen) (hes : ∀ e ∈ es, ¬ Raises c e) :
  relay dohDns ⟨some c, true, sent⟩ es = ⟨some c, true, sent ++ es.flatMap (output dohDns c)⟩
  := by
  induction es generalizing sent with
  | nil => simp [relay]
  | cons e es ih =>
      have hstep := iterate_of_not_raises dohDns c sent e (hopen e List.mem_cons_self)
        (hes e List.mem_cons_self)
      rw [relay, List.foldl_cons, hstep]
      apply Eq.trans (ih _ (fun x hx => hopen x (List.mem_cons_of_mem e hx))
        (fun x hx => hes x (List.mem_cons_of_mem e hx)))
      simp [List.append_assoc]

/-- A list of events one of which raises ends the loop. -/
theorem relay_of_raises (dohDns : Bool) (c : InetSocketAddress) (sent : List Sent)
    (es : List Event) (hopen : ∀ e ∈ es, e.isOpen) (hes : ∃ e ∈ es, Raises c e) :
  (relay dohDns ⟨some c, true, sent⟩ es).alive = false
  := by
  induction es generalizing sent with
  | nil =>
      obtain ⟨e, he, -⟩ := hes
      cases he
  | cons e es ih =>
      rw [relay, List.foldl_cons]
      by_cases he : Raises c e
      · have hdead := iterate_of_raises dohDns c sent e he
        have hstay := relay_of_not_alive dohDns _ hdead es
        rw [relay] at hstay
        rw [hstay]
        apply hdead
      · rw [iterate_of_not_raises dohDns c sent e (hopen e List.mem_cons_self) he]
        apply ih
        · intro x hx
          apply hopen x (List.mem_cons_of_mem e hx)
        · obtain ⟨x, hx, hraise⟩ := hes
          rcases List.mem_cons.mp hx with rfl | hx'
          · exact absurd hraise he
          · exact ⟨x, hx', hraise⟩

/-- What a round does depends on the client and on whether the loop runs; it adds to the
packets sent so far. -/
theorem iterate_frame (dohDns : Bool) (clientEp : Option InetSocketAddress) (alive : Bool)
    (e : Event) :
  ∃ ep al out, ∀ sent,
    iterate dohDns ⟨clientEp, alive, sent⟩ e = ⟨ep, al, sent ++ out⟩
  := by
  cases alive with
  | false =>
      use clientEp, false, []
      simp [iterate]
  | true =>
      cases e with
      | received d env =>
          use some (recordClient clientEp d)
          cases h : handle dohDns clientEp d env with
          | ok packet =>
              use true, [packet]
              simp [iterate, h]
          | error x =>
              cases x with
              | skip =>
                  use true, []
                  simp [iterate, h]
              | raised =>
                  use false, []
                  simp [iterate, h]
      | timedOut =>
          use clientEp, true, []
          simp [iterate]
      | receiveFailed =>
          use clientEp, false, []
          simp [iterate]
      | closed =>
          use clientEp, false, []
          simp [iterate]

/-- What is sent before a list of events stays in front of what they add. -/
theorem sent_relay (dohDns : Bool) (clientEp : Option InetSocketAddress) (alive : Bool)
    (sent : List Sent) (es : List Event) :
  (relay dohDns ⟨clientEp, alive, sent⟩ es).sent
    = sent ++ (relay dohDns ⟨clientEp, alive, []⟩ es).sent
  := by
  induction es generalizing clientEp alive sent with
  | nil => simp [relay]
  | cons e es ih =>
      obtain ⟨ep, al, out, hout⟩ := iterate_frame dohDns clientEp alive e
      simp only [relay, List.foldl_cons, hout, List.nil_append] at ih ⊢
      rw [ih ep al (sent ++ out), ih ep al out, List.append_assoc]

/-- The association survives the events `es`: afterwards the loop still runs with the same
client, and whatever comes later is relayed as if `es` had not arrived. -/
def Survives (dohDns : Bool) (c : InetSocketAddress) (es : List Event) : Prop :=
  (relay dohDns (started c) es).alive = true ∧
  (relay dohDns (started c) es).clientEp = some c ∧
  ∀ later, (relay dohDns (started c) (es ++ later)).sent
    = (relay dohDns (started c) es).sent ++ (relay dohDns (started c) later).sent

/-- The association survives the events of an open socket exactly when none of them is a
datagram of the client with a host name that does not resolve, or a datagram whose packet is
refused. -/
theorem survives_iff (dohDns : Bool) (c : InetSocketAddress) (es : List Event)
    (hopen : ∀ e ∈ es, e.isOpen) :
  Survives dohDns c es ↔ ∀ e ∈ es, ¬ Raises c e
  := by
  constructor
  · rintro ⟨halive, -, -⟩ e he hraise
    have hdead := relay_of_raises dohDns c [] es hopen ⟨e, he, hraise⟩
    rw [started, hdead] at halive
    cases halive
  · intro hes
    have hrelay := relay_of_not_raises dohDns c [] es hopen hes
    refine ⟨?_, ?_, ?_⟩
    · rw [started, hrelay]
    · rw [started, hrelay]
    · intro later
      rw [relay_append, started, hrelay]
      apply sent_relay

/-- A datagram of the client `127.0.0.1:5000` for the host name `x`, port 53. -/
def unresolvable : Datagram where
  sender := ⟨⟨[127, 0, 0, 1], Or.inl rfl⟩, 5000⟩
  bytes := [0, 0, 0, 3, 1, 0x78, 0, 53]

/-- A platform on which no host name resolves and every send is accepted. -/
def offline : Env where
  getByName _ := none
  resolveWire _ := .error ()
  sendAccepted := true

/-- One datagram of the client with a host name that does not resolve ends the
association. -/
theorem not_survives_unresolvable :
  (∀ e ∈ [Event.received unresolvable offline], e.isOpen) ∧
    ¬ Survives true unresolvable.sender [.received unresolvable offline]
  := by
  constructor
  · intro e he
    rw [List.mem_singleton.mp he]
    trivial
  · rintro ⟨halive, -, -⟩
    exact absurd halive (by decide)

/-- A datagram of the client for the address `1.2.3.4`, port 80, with an empty payload. -/
def wellFormed : Datagram where
  sender := ⟨⟨[127, 0, 0, 1], Or.inl rfl⟩, 5000⟩
  bytes := [0, 0, 0, 1, 1, 2, 3, 4, 0, 80]

/-- The association survives a well-formed datagram that is sent on. -/
theorem survives_wellFormed :
  (∀ e ∈ [Event.received wellFormed offline], e.isOpen) ∧
    Survives true wellFormed.sender [.received wellFormed offline]
  := by
  have hopen : ∀ e ∈ [Event.received wellFormed offline], e.isOpen := by
    intro e he
    rw [List.mem_singleton.mp he]
    trivial
  use hopen
  apply (survives_iff true wellFormed.sender _ hopen).mpr
  intro e he
  rw [List.mem_singleton.mp he, ← handle_raised_iff true]
  decide

end Socks.UdpRelay
