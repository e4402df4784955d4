import DtmaOne.Library.Run

/-!
# The accept loop

The thread that `LocalSocks5Server.start` starts accepts clients and hands each to the pool, as long
as `running` is set.  An exception of `accept`, or of the hand-off of a client, is caught in the loop;
`stop` clears `running`, closes the server socket and shuts the pool down, at any time.

The handler of the exceptions leaves the loop if `running` is still set, and goes on if it is not.  So
the first exception of a running server ends the loop, and only one after `stop` does not.
-/

namespace Socks.AcceptLoop

variable {Client : Type}

/-- Where the thread of the loop is. -/
inductive Loop (Client : Type) where
  | checking
  | accepting
  | settingTimeout (client : Client)
  | executing (client : Client)
  | catching
  | ended
  deriving DecidableEq, Repr

/-- The client at hand: it is accepted, and not handed over yet. -/
def Loop.atHand : Loop Client → List Client
  | .settingTimeout client => [client]
  | .executing client => [client]
  | _ => []

/-- How far `stop` has come. -/
inductive Stop where
  | notCalled
  | flagCleared
  | serverClosed
  | poolShutDown
  deriving DecidableEq, Repr

/-- The server after `start`, with the clients that were accepted and those that were handed to
`handleClient`. -/
structure Server (Client : Type) where
  running : Bool := true
  stop : Stop := .notCalled
  loop : Loop Client := .checking
  accepted : List Client := []
  handed : List Client := []
  deriving DecidableEq, Repr

/-- A step: the test of `running`, a call of the loop with its outcome, where none is an exception, the
handler of the exceptions, or the next statement of `stop`. -/
inductive Event (Client : Type) where
  | check
  | accept (outcome : Option Client)
  | setTimeout (accepted : Bool)
  | execute (accepted : Bool)
  | caught
  | stop
  deriving DecidableEq, Repr

/-- The next statement of `stop`. -/
def Server.stepStop (s : Server Client) : Option (Server Client) :=
  match s.stop with
  | .notCalled => some { s with running := false, stop := .flagCleared }
  | .flagCleared => some { s with stop := .serverClosed }
  | .serverClosed => some { s with stop := .poolShutDown }
  | .poolShutDown => none

/-- One step of the server.  A closed server socket accepts no client, and a pool that is shut down no
task. -/
def step (s : Server Client) : Event Client → Option (Server Client)
  | .check =>
      match s.loop with
      | .checking => some { s with loop := if s.running then .accepting else .ended }
      | _ => none
  | .accept outcome =>
      match s.loop, outcome with
      | .accepting, some client =>
          if s.stop = .notCalled ∨ s.stop = .flagCleared then
            some { s with loop := .settingTimeout client, accepted := s.accepted ++ [client] }
          else none
      | .accepting, none => some { s with loop := .catching }
      | _, _ => none
  | .setTimeout accepted =>
      match s.loop with
      | .settingTimeout client =>
          some { s with loop := if accepted then .executing client else .catching }
      | _ => none
  | .execute accepted =>
      match s.loop with
      | .executing client =>
          if accepted then
            if s.stop = .poolShutDown then none
            else some { s with loop := .checking, handed := s.handed ++ [client] }
          else some { s with loop := .catching }
      | _ => none
  | .caught =>
      match s.loop with
      | .catching => some { s with loop := if s.running then .ended else .checking }
      | _ => none
  | .stop => s.stepStop

/-- The cases of a step. -/
inductive Steps (s : Server Client) : Event Client → Server Client → Prop where
  | checked (hloop : s.loop = .checking) :
      Steps s .check { s with loop := if s.running then .accepting else .ended }
  | accepted (client : Client) (hloop : s.loop = .accepting) :
      Steps s (.accept (some client))
        { s with loop := .settingTimeout client, accepted := s.accepted ++ [client] }
  | acceptFailed (hloop : s.loop = .accepting) :
      Steps s (.accept none) { s with loop := .catching }
  | timeoutSet (client : Client) (hloop : s.loop = .settingTimeout client) :
      Steps s (.setTimeout true) { s with loop := .executing client }
  | timeoutFailed (client : Client) (hloop : s.loop = .settingTimeout client) :
      Steps s (.setTimeout false) { s with loop := .catching }
  | executed (client : Client) (hloop : s.loop = .executing client) :
      Steps s (.execute true) { s with loop := .checking, handed := s.handed ++ [client] }
  | rejected (client : Client) (hloop : s.loop = .executing client) :
      Steps s (.execute false) { s with loop := .catching }
  | caught (hloop : s.loop = .catching) :
      Steps s .caught { s with loop := if s.running then .ended else .checking }
  | stopped (t : Server Client) (hstop : s.stepStop = some t) :
      Steps s .stop t

variable {s t : Server Client} {e : Event Client}

theorem steps_of_step (h : step s e = some t) :
  Steps s e t
  := by
  cases e with
  | check =>
      simp only [step] at h
      split at h
      case h_1 hloop =>
        obtain rfl := Option.some.inj h
        apply Steps.checked hloop
      case h_2 => cases h
  | accept outcome =>
      simp only [step] at h
      split at h
      case h_1 client hloop =>
        split_ifs at h
        obtain rfl := Option.some.inj h
        apply Steps.accepted client hloop
      case h_2 hloop =>
        obtain rfl := Option.some.inj h
        apply Steps.acceptFailed hloop
      case h_3 => cases h
  | setTimeout accepted =>
      simp only [step] at h
      split at h
      case h_1 client hloop =>
        obtain rfl := Option.some.inj h
        cases accepted with
        | true => apply Steps.timeoutSet client hloop
        | false => apply Steps.timeoutFailed client hloop
      case h_2 => cases h
  | execute accepted =>
      simp only [step] at h
      split at h
      case h_1 client hloop =>
        cases accepted with
        | true =>
            simp only [if_true] at h
            split_ifs at h
            obtain rfl := Option.some.inj h
            apply Steps.executed client hloop
        | false =>
            obtain rfl := Option.some.inj h
            apply Steps.rejected client hloop
      case h_2 => cases h
  | caught =>
      simp only [step] at h
      split at h
      case h_1 hloop =>
        obtain rfl := Option.some.inj h
        apply Steps.caught hloop
      case h_2 => cases h
  | stop => apply Steps.stopped t h

/-! ### The clients of a running server -/

/-- The loop has ended only after `stop` has cleared `running`, and as long as `running` is set every
accepted client is handed to `handleClient`, but for the one at hand. -/
structure Server.Serves (s : Server Client) : Prop where
  ended : s.loop = .ended → s.stop ≠ .notCalled ∧ s.running = false
  handed : s.running = true → s.accepted = s.handed ++ s.loop.atHand

/-- While `running` is set, no call for an accepted client raises, and no exception is handled. -/
def Server.Undisturbed (s : Server Client) : Event Client → Prop
  | .setTimeout false => s.running = false
  | .execute false => s.running = false
  | .caught => s.running = false
  | _ => True

instance (s : Server Client) : (e : Event Client) → Decidable (s.Undisturbed e)
  | .check => isTrue trivial
  | .accept _ => isTrue trivial
  | .setTimeout true => isTrue trivial
  | .setTimeout false => inferInstanceAs (Decidable (_ = _))
  | .execute true => isTrue trivial
  | .execute false => inferInstanceAs (Decidable (_ = _))
  | .caught => inferInstanceAs (Decidable (_ = _))
  | .stop => isTrue trivial

/-- Only `stop` clears the flag. -/
def Server.Flagged (s : Server Client) : Prop :=
  s.running = true ↔ s.stop = .notCalled

/-- A call of `stop` leaves the thread of the loop where it is, with the flag cleared. -/
theorem stepStop_eq_some (hflagged : s.Flagged) (h : s.stepStop = some t) :
  t.running = false ∧ t.stop ≠ .notCalled ∧ t.loop = s.loop
  := by
  have hcleared : s.stop ≠ .notCalled → s.running = false := by
    intro hstop
    apply Bool.eq_false_iff.mpr
    intro hrunning
    exact hstop (hflagged.mp hrunning)
  unfold Server.stepStop at h
  split at h
  case h_1 =>
    have hcalled : Stop.flagCleared ≠ .notCalled := by decide
    obtain rfl := Option.some.inj h
    exact ⟨rfl, hcalled, rfl⟩
  case h_2 hstop =>
    have hrunning : s.running = false := hcleared (by rw [hstop]; decide)
    have hcalled : Stop.serverClosed ≠ .notCalled := by decide
    obtain rfl := Option.some.inj h
    exact ⟨hrunning, hcalled, rfl⟩
  case h_3 hstop =>
    have hrunning : s.running = false := hcleared (by rw [hstop]; decide)
    have hcalled : Stop.poolShutDown ≠ .notCalled := by decide
    obtain rfl := Option.some.inj h
    exact ⟨hrunning, hcalled, rfl⟩
  case h_4 => cases h

theorem flagged_step (hflagged : s.Flagged) (h : step s e = some t) :
  t.Flagged
  := by
  cases steps_of_step h with
  | stopped t hstop =>
      obtain ⟨hrunning, hcalled, -⟩ := stepStop_eq_some hflagged hstop
      apply iff_of_false
      · rw [hrunning]
        decide
      · apply hcalled
  | _ => apply hflagged

/-- The clients that are accepted and handed over do not change with the place of the thread, if no
client is at hand before or after. -/
theorem Server.Serves.move (hserves : s.Serves) {l : Loop Client}
    (hatHand : l.atHand = s.loop.atHand)
    (hended : l = .ended → s.stop ≠ .notCalled ∧ s.running = false) :
  { s with loop := l }.Serves
  := by
  use hended
  intro hrunning
  change s.accepted = s.handed ++ l.atHand
  rw [hatHand]
  apply hserves.handed hrunning

/-- An exception of a call for a client loses the client. -/
theorem serves_catching_iff {client : Client} (hserves : s.Serves)
    (hatHand : s.loop.atHand = [client]) :
  { s with loop := .catching }.Serves ↔ s.running = false
  := by
  constructor
  · intro hcatching
    apply Bool.eq_false_iff.mpr
    intro hrunning
    have hhanded := hserves.handed hrunning
    have hlost : s.accepted = s.handed ++ [] := hcatching.handed hrunning
    rw [hlost, hatHand] at hhanded
    cases List.append_cancel_left hhanded
  · intro hrunning
    constructor
    · intro hended
      cases hended
    · intro hset
      rw [hrunning] at hset
      cases hset

theorem serves_step_iff (hflagged : s.Flagged) (hserves : s.Serves) (h : step s e = some t) :
  t.Serves ↔ s.Undisturbed e
  := by
  cases steps_of_step h with
  | checked hloop =>
      apply iff_of_true _ trivial
      apply hserves.move
      · rw [hloop]
        split <;> rfl
      · intro hended
        have hunset : ¬ s.running = true := by
          intro hrunning
          rw [if_pos hrunning] at hended
          cases hended
        exact ⟨mt hflagged.mpr hunset, Bool.eq_false_iff.mpr hunset⟩
  | accepted client hloop =>
      apply iff_of_true _ trivial
      constructor
      · intro hended
        cases hended
      · intro hrunning
        have hhanded := hserves.handed hrunning
        rw [hloop] at hhanded
        change s.accepted ++ [client] = s.handed ++ [client]
        rw [hhanded]
        exact congrArg (· ++ [client]) (List.append_nil s.handed)
  | acceptFailed hloop =>
      apply iff_of_true _ trivial
      apply hserves.move (by rw [hloop]; rfl)
      intro hended
      cases hended
  | timeoutSet client hloop =>
      apply iff_of_true _ trivial
      apply hserves.move (by rw [hloop]; rfl)
      intro hended
      cases hended
  | timeoutFailed client hloop =>
      have hatHand : s.loop.atHand = [client] := by
        rw [hloop]
        rfl
      apply serves_catching_iff hserves hatHand
  | executed client hloop =>
      apply iff_of_true _ trivial
      constructor
      · intro hended
        cases hended
      · intro hrunning
        have hhanded := hserves.handed hrunning
        rw [hloop] at hhanded
        change s.accepted = (s.handed ++ [client]) ++ []
        rw [hhanded, List.append_nil]
        rfl
  | rejected client hloop =>
      have hatHand : s.loop.atHand = [client] := by
        rw [hloop]
        rfl
      apply serves_catching_iff hserves hatHand
  | caught hloop =>
      constructor
      · intro hcaught
        apply Bool.eq_false_iff.mpr
        intro hrunning
        have hunset := (hcaught.ended (if_pos hrunning)).2
        exact Bool.eq_false_iff.mp hunset hrunning
      · intro hunset
        apply hserves.move
        · rw [hloop]
          split <;> rfl
        · intro hended
          rw [if_neg (Bool.eq_false_iff.mp hunset)] at hended
          cases hended
  | stopped t hstop =>
      apply iff_of_true _ trivial
      obtain ⟨hrunning, hcalled, hloop⟩ := stepStop_eq_some hflagged hstop
      constructor
      · intro _
        exact ⟨hcalled, hrunning⟩
      · intro hset
        rw [hrunning] at hset
        cases hset

/-- The server serves in every state of a run exactly if in the run no call for an accepted client
raises while `running` is set, and no exception is handled then. -/
theorem forall_serves_iff (es : List (Event Client)) (hrun : (Run.exec step {} es).isSome) :
  (∀ pre, pre <+: es → ∀ t, Run.exec step {} pre = some t → t.Serves) ↔
    Run.Meets step Server.Undisturbed {} es
  := by
  apply Run.forall_prefix_iff_meets _ _ _ _ hrun
  · exact Server.Flagged
  · intro s e t hflagged h
    apply flagged_step hflagged h
  · intro s e t hflagged hserves h
    apply serves_step_iff hflagged hserves h
  · exact iff_of_true rfl rfl
  · constructor
    · intro hended
      cases hended
    · intro _
      rfl

/-- A client is served, and then `stop` makes the call of `accept` raise. -/
def serveAndStop (client : Client) : List (Event Client) :=
  [.check, .accept (some client), .setTimeout true, .execute true, .check, .stop, .stop,
    .accept none, .caught, .check]

theorem forall_serves_serveAndStop :
  (Run.exec step {} (serveAndStop ())).isSome ∧
    ∀ pre, pre <+: serveAndStop () → ∀ t, Run.exec step {} pre = some t → t.Serves
  := by
  have hrun : (Run.exec step {} (serveAndStop ())).isSome := by decide
  exact ⟨hrun, (forall_serves_iff _ hrun).mpr (by decide)⟩

/-- A call of `accept` raises once, in a running server. -/
def acceptFails : List (Event Client) :=
  [.check, .accept none, .caught]

/-- The loop has ended, and `stop` has not been called. -/
theorem not_serves_acceptFails :
  ∃ t : Server Unit, Run.exec step {} acceptFails = some t ∧ ¬ t.Serves
  := by
  refine ⟨_, rfl, ?_⟩
  intro hserves
  exact (hserves.ended rfl).1 rfl

end Socks.AcceptLoop
