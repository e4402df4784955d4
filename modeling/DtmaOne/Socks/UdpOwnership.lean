import DtmaOne.Socks.UdpSurvival
import Mathlib.Data.List.Induction

/-!
# The owner of an association

The client endpoint is recorded once, from the first datagram, whoever sent it.  The
association belongs to the host at the other end of the control connection exactly when the
first datagram comes from that host.
-/

namespace Socks.UdpRelay

/-! ### The client endpoint -/

/-- The first datagram the loop receives. -/
def firstDatagram : List Event → Option Datagram
  | [] => none
  | .received d _ :: _ => some d
  | .timedOut :: es => firstDatagram es
  | .receiveFailed :: _ => none
  | .closed :: _ => none

/-- The association belongs to the host `peer` along the events `es`: the client endpoint is
only ever an endpoint of `peer`, a datagram of another host is never taken as one of the
client, and encapsulated packets go to `peer` only. -/
def Owned (dohDns : Bool) (peer : InetAddress) (es : List Event) : Prop :=
  (∀ pre, pre <+: es → ∀ ep, (relay dohDns {} pre).clientEp = some ep → ep.address = peer) ∧
  (∀ pre d env, pre ++ [.received d env] <+: es → (relay dohDns {} pre).alive = true →
    takenAsClient (relay dohDns {} pre).clientEp d = true → d.sender.address = peer) ∧
  (∀ c bytes, .toClient c bytes ∈ (relay dohDns {} es).sent → c.address = peer)

/-- A recorded client endpoint is never replaced. -/
theorem clientEp_iterate (dohDns : Bool) (s : Assoc) (e : Event) {c : InetSocketAddress}
    (hs : s.clientEp = some c) :
  (iterate dohDns s e).clientEp = some c
  := by
  cases hal : s.alive with
  | false => simp [iterate, hal, hs]
  | true =>
      cases e with
      | received d env =>
          simp only [iterate, hal, if_true, recordClient, hs, Option.getD_some]
          split <;> rfl
      | timedOut => simp [iterate, hs]
      | receiveFailed => simp [iterate, hal, hs]
      | closed => simp [iterate, hal, hs]

theorem clientEp_relay (dohDns : Bool) (s : Assoc) (es : List Event) {c : InetSocketAddress}
    (hs : s.clientEp = some c) :
  (relay dohDns s es).clientEp = some c
  := by
  induction es generalizing s with
  | nil => apply hs
  | cons e es ih =>
      apply ih
      apply clientEp_iterate dohDns s e hs

/-- The first datagram records its sender. -/
theorem clientEp_iterate_none (dohDns : Bool) (d : Datagram) (env : Env) :
  (iterate dohDns {} (.received d env)).clientEp = some d.sender
  := by
  simp only [iterate, if_true, recordClient, Option.getD_none]
  split <;> rfl

/-- While the loop runs without a client, it has received nothing. -/
theorem firstDatagram_append (dohDns : Bool) (pre post : List Event)
    (hep : (relay dohDns {} pre).clientEp = none) (halive : (relay dohDns {} pre).alive = true) :
  firstDatagram (pre ++ post) = firstDatagram post
  := by
  induction pre with
  | nil => rfl
  | cons e pre ih =>
      cases e with
      | received d env =>
          have hsome := clientEp_relay dohDns _ pre (clientEp_iterate_none dohDns d env)
          rw [relay, List.foldl_cons] at hep
          rw [relay, hep] at hsome
          cases hsome
      | timedOut => apply ih hep halive
      | receiveFailed =>
          have hdead := relay_of_not_alive dohDns ⟨none, false, []⟩ rfl pre
          have halive' : (relay dohDns ⟨none, false, []⟩ pre).alive = true := halive
          rw [hdead] at halive'
          cases halive'
      | closed =>
          have hdead := relay_of_not_alive dohDns ⟨none, false, []⟩ rfl pre
          have halive' : (relay dohDns ⟨none, false, []⟩ pre).alive = true := halive
          rw [hdead] at halive'
          cases halive'

/-- If the loop receives anything, the sender of the first datagram is its client. -/
theorem clientEp_of_firstDatagram (dohDns : Bool) (es : List Event) {d : Datagram}
    (hd : firstDatagram es = some d) :
  (relay dohDns {} es).clientEp = some d.sender
  := by
  induction es with
  | nil => cases hd
  | cons e es ih =>
      cases e with
      | received d' env =>
          obtain rfl := Option.some.inj hd
          apply clientEp_relay dohDns _ es (clientEp_iterate_none dohDns d' env)
      | timedOut => apply ih hd
      | receiveFailed => cases hd
      | closed => cases hd

/-- The client endpoint and the recipients of encapsulated packets are endpoints of
`peer`. -/
def OwnedBy (peer : InetAddress) (s : Assoc) : Prop :=
  (∀ ep, s.clientEp = some ep → ep.address = peer) ∧
  ∀ c bytes, .toClient c bytes ∈ s.sent → c.address = peer

theorem eq_of_send_eq_ok {env : Env} {packet sent : Sent} (h : send env packet = .ok sent) :
  sent = packet
  := by
  rw [send] at h
  split_ifs at h
  injection h with h
  exact h.symm

/-- An encapsulated packet goes to the client endpoint. -/
theorem handle_toClient (dohDns : Bool) (clientEp : Option InetSocketAddress) (d : Datagram)
    (env : Env) {c : InetSocketAddress} {bytes : Bytes}
    (h : handle dohDns clientEp d env = .ok (.toClient c bytes)) :
  c = recordClient clientEp d
  := by
  rw [handle] at h
  split_ifs at h
  · rw [fromClient] at h
    cases hdec : decodeRequest env.getByName d.data 0 d.bytes.length with
    | error x =>
        rw [hdec] at h
        cases h
    | ok r =>
        rw [hdec] at h
        have hsent := eq_of_send_eq_ok h
        rw [requestPacket] at hsent
        split at hsent
        · injection hsent
        · cases hsent
  · rw [fromRemote] at h
    cases hcopy : copyOfRange d.data 0 d.bytes.length with
    | error x =>
        rw [hcopy] at h
        cases h
    | ok b =>
        rw [hcopy] at h
        injection eq_of_send_eq_ok h

/-- A round keeps the association with its owner, if a first datagram comes from the
owner. -/
theorem ownedBy_iterate (dohDns : Bool) (peer : InetAddress) (s : Assoc) (e : Event)
    (hs : OwnedBy peer s)
    (he : ∀ d env, e = .received d env → s.alive = true → s.clientEp = none →
      d.sender.address = peer) :
  OwnedBy peer (iterate dohDns s e)
  := by
  obtain ⟨hep, hsent⟩ := hs
  cases hal : s.alive with
  | false =>
      have hsame : iterate dohDns s e = s := by simp [iterate, hal]
      rw [hsame]
      exact ⟨hep, hsent⟩
  | true =>
      cases e with
      | received d env =>
          have hc : (recordClient s.clientEp d).address = peer := by
            cases hnone : s.clientEp with
            | none => apply he d env rfl hal hnone
            | some ep => apply hep ep hnone
          have hc' : ∀ ep, some (recordClient s.clientEp d) = some ep → ep.address = peer := by
            intro ep h
            obtain rfl := Option.some.inj h
            apply hc
          simp only [iterate, hal, if_true]
          cases hout : handle dohDns s.clientEp d env with
          | error x =>
              cases x with
              | skip => exact ⟨hc', hsent⟩
              | raised => exact ⟨hc', hsent⟩
          | ok packet =>
              use hc'
              intro c bytes hmem
              rcases List.mem_append.mp hmem with hold | hnew
              · apply hsent c bytes hold
              · rw [← List.mem_singleton.mp hnew] at hout
                rw [handle_toClient dohDns _ d env hout]
                apply hc
      | timedOut => simpa [iterate] using ⟨hep, hsent⟩
      | receiveFailed => simpa [iterate, hal] using ⟨hep, hsent⟩
      | closed => simpa [iterate, hal] using ⟨hep, hsent⟩

/-- If the first datagram comes from `peer`, so does every datagram received before a client
is known. -/
theorem sender_of_prefix (dohDns : Bool) (peer : InetAddress) {es pre : List Event}
    {d : Datagram} {env : Env}
    (hfirst : ∀ d, firstDatagram es = some d → d.sender.address = peer)
    (hpre : pre ++ [.received d env] <+: es) (halive : (relay dohDns {} pre).alive = true)
    (hnone : (relay dohDns {} pre).clientEp = none) :
  d.sender.address = peer
  := by
  obtain ⟨post, rfl⟩ := hpre
  apply hfirst
  rw [List.append_assoc, firstDatagram_append dohDns pre _ hnone halive]
  rfl

/-- If the first datagram comes from `peer`, the association belongs to `peer` at every
point. -/
theorem ownedBy_relay (dohDns : Bool) (peer : InetAddress) (es : List Event)
    (hfirst : ∀ d, firstDatagram es = some d → d.sender.address = peer) (pre : List Event)
    (hpre : pre <+: es) :
  OwnedBy peer (relay dohDns {} pre)
  := by
  induction pre using List.reverseRecOn with
  | nil =>
      constructor
      · intro ep h
        cases h
      · intro c bytes h
        cases h
  | append_singleton pre e ih =>
      rw [relay_append]
      apply ownedBy_iterate dohDns peer _ e (ih ((List.prefix_append pre [e]).trans hpre))
      rintro d env rfl halive hnone
      apply sender_of_prefix dohDns peer hfirst hpre halive hnone

/-- The association belongs to the host that opened it exactly when the first datagram the
relay socket receives comes from that host. -/
theorem owned_iff (dohDns : Bool) (peer : InetAddress) (es : List Event) :
  Owned dohDns peer es ↔ ∀ d, firstDatagram es = some d → d.sender.address = peer
  := by
  constructor
  · rintro ⟨hep, -, -⟩ d hd
    apply hep es List.prefix_rfl _ (clientEp_of_firstDatagram dohDns es hd)
  · intro hfirst
    refine ⟨?_, ?_, ?_⟩
    · intro pre hpre
      apply (ownedBy_relay dohDns peer es hfirst pre hpre).1
    · intro pre d env hpre halive htaken
      cases hep : (relay dohDns {} pre).clientEp with
      | none => apply sender_of_prefix dohDns peer hfirst hpre halive hep
      | some ep =>
          rw [hep, takenAsClient_some] at htaken
          rw [htaken]
          apply (ownedBy_relay dohDns peer es hfirst pre
            ((List.prefix_append pre _).trans hpre)).1 ep hep
    · apply (ownedBy_relay dohDns peer es hfirst es List.prefix_rfl).2

/-- A datagram of the host `10.0.0.7`, which did not open the association. -/
def foreign : Datagram where
  sender := ⟨⟨[10, 0, 0, 7], Or.inl rfl⟩, 40000⟩
  bytes := []

/-- An empty datagram of another host, received first, takes the association over. -/
theorem not_owned_foreign :
  (relay true {} [.received foreign offline]).clientEp = some foreign.sender ∧
    ¬ Owned true ⟨[127, 0, 0, 1], Or.inl rfl⟩ [.received foreign offline]
  := by
  constructor
  · decide
  · rintro ⟨hep, -, -⟩
    exact absurd (hep _ List.prefix_rfl foreign.sender (by decide)) (by decide)

end Socks.UdpRelay
