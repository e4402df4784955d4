import DtmaOne.Library.Run
import DtmaOne.Warp.Controller

/-!
# The controller and the service

`WarpController` and `WarpVpnService` act on each other: a stop posts an intent for the
service, and the service answers the intent `ACTION_STOP` with a stop.  The commands ask for a
mutex and run one at a time in the order in which they ask, while the health checks of the
monitor read and publish without it.

A state of the system has, besides the controller,

* the command that holds the mutex, with the effects it still has to make,
* the commands that wait for the mutex, in order,
* the intents in flight, which are delivered once and in any order,
* the health checks that are due, and the ones that have read and not yet published,
* the coroutines that reconnect, before they ask for the mutex and after they have released it.

The last fields record what has happened and have no influence on the steps.
-/

namespace Warp.WarpController

/-- A command that asks for the mutex. -/
inductive Request where
  | start (forceNewAccount : Bool)
  | startFromConf (confText : String)
  | stop (echo : Echo)
  /-- The `start` of a coroutine that `refreshHealth` has launched. -/
  | reconnect
  deriving DecidableEq, Repr

/-- The command comes from the user and is a start. -/
def Request.isUserStart : Request → Bool
  | .start _ | .startFromConf _ => true
  | .stop _ | .reconnect => false

def Request.isStop : Request → Bool
  | .stop _ => true
  | .start _ | .startFromConf _ | .reconnect => false

/-- The command is the echo of a stop that was requested before the last of `startsRun`
starts. -/
def Request.overruns (startsRun : ℕ) : Request → Bool
  | .stop echo => 0 < echo.hops && echo.startsBefore < startsRun
  | .start _ | .startFromConf _ | .reconnect => false

/-- The answers of the platform to a command. -/
structure Answers where
  start : StartAnswers
  conf : ConfAnswers
  stop : StopAnswers

/-- The command that holds the mutex, and the effects it still has to make. -/
structure Holder where
  request : Request
  remaining : List Effect
  deriving DecidableEq, Repr

structure System where
  controller : Controller := {}
  holder : Option Holder := none
  waiting : List Request := []
  intents : List Intent := []
  /-- Checks of the monitor after their `delay`, which have not read yet. -/
  due : ℕ := 0
  checks : List Reading := []
  /-- Reconnects that have not asked for the mutex yet. -/
  launched : ℕ := 0
  /-- Reconnects whose `start` has returned. -/
  returned : ℕ := 0
  /-- The stops requested in the application, in the notification and by the system. -/
  externalStops : ℕ := 0
  /-- The executions of the body of `stop`. -/
  stopRuns : ℕ := 0
  startsIssued : ℕ := 0
  startsRun : ℕ := 0
  /-- Whether an echo of a stop has run after a start issued later than the stop. -/
  overrun : Bool := false
  /-- Whether a stop has returned, and no start was issued since it was requested. -/
  quiet : Bool := false
  /-- Whether the tunnel was set up while the system was quiet. -/
  raised : Bool := false
  deriving DecidableEq, Repr

inductive Event where
  | userStart (forceNewAccount : Bool)
  | userStartFromConf (confText : String)
  | userStop
  /-- The action of the notification posts an intent for the service. -/
  | notificationStop
  /-- `onRevoke` -/
  | revoke
  /-- The intent with index `i` comes to `onStartCommand`. -/
  | deliver (i : ℕ)
  /-- The first waiting command takes the mutex. -/
  | acquire (answers : Answers)
  /-- The command that holds the mutex makes its next effect. -/
  | effect
  /-- The command that holds the mutex returns. -/
  | release
  /-- A reconnect asks for the mutex. -/
  | requestReconnect
  /-- A reconnect sets `reconnecting` to false after its `start`. -/
  | resetReconnecting
  /-- A `delay` of the monitor is over. -/
  | wake
  /-- A check that is due reads. -/
  | beginCheck (state : Option TunnelState) (statistics : Option (ℤ × ℤ))
  /-- The check with index `i` publishes. -/
  | endCheck (i : ℕ) (autoReconnect : Bool) (clock : Clock)

/-! ### The steps -/

/-- A command asks for the mutex. -/
def System.ask (s : System) (r : Request) : System :=
  { s with waiting := s.waiting ++ [r] }

/-- The user issues a start. -/
def System.issueStart (s : System) (r : Request) : System :=
  { s.ask r with startsIssued := s.startsIssued + 1, quiet := false }

/-- A stop that is requested now. -/
def System.newEcho (s : System) : Echo := { hops := 0, startsBefore := s.startsIssued }

/-- A stop is requested in the application or by the system. -/
def System.issueStop (s : System) : System :=
  { s.ask (.stop s.newEcho) with externalStops := s.externalStops + 1 }

/-- A stop is requested in the notification. -/
def System.postStop (s : System) : System :=
  { s with
    intents := s.intents ++ [.stop s.newEcho]
    externalStops := s.externalStops + 1 }

/-- `WarpVpnService.onStartCommand` -/
def System.onStartCommand (s : System) : Intent → System
  | .start => s
  | .stop echo => s.ask (.stop echo)

variable (platform : Platform)

/-- The effects of a command that takes the mutex now. -/
def bodyOf (c : Controller) (answers : Answers) : Request → List Effect
  | .start forceNewAccount => (start platform answers.start c.confCache forceNewAccount).writes
  | .startFromConf confText => (startFromConf platform answers.conf confText).writes
  | .stop echo => stop answers.stop echo
  | .reconnect => (start platform answers.start c.confCache true).writes

/-- The command `r` takes the mutex. -/
def System.enter (s : System) (answers : Answers) (r : Request) (rest : List Request) : System :=
  { s with
    holder := some ⟨r, bodyOf platform s.controller answers r⟩
    waiting := rest
    stopRuns := s.stopRuns + r.isStop.toNat
    startsRun := s.startsRun + r.isUserStart.toNat
    overrun := s.overrun || r.overruns s.startsRun }

/-- The intents an effect posts. -/
def Effect.posted : Effect → List Intent
  | .postIntent intent => [intent]
  | _ => []

/-- The command `r` makes the effect `w`. -/
def System.perform (s : System) (r : Request) (w : Effect) (ws : List Effect) : System :=
  { s with
    holder := some ⟨r, ws⟩
    controller := s.controller.apply w
    intents := s.intents ++ w.posted
    raised := s.raised || (s.quiet && w = .setState .up) }

/-- The command `r` releases the mutex and returns. -/
def System.leave (s : System) (r : Request) : System :=
  { s with
    holder := none
    returned := s.returned + (r = .reconnect : Bool).toNat
    quiet := if r.isStop then s.waiting.all fun r => !r.isUserStart else s.quiet }

/-- The check that has read `r` publishes. -/
def System.finishCheck (s : System) (i : ℕ) (r : Reading) (autoReconnect : Bool) (clock : Clock) :
    System :=
  let noted := noteGrowth s.controller r clock
  { s with
    controller := publishHealth platform s.controller r false autoReconnect clock
    checks := s.checks.eraseIdx i
    launched := s.launched + (launches noted autoReconnect (verdict noted r clock)).toNat }

def step (s : System) : Event → Option System
  | .userStart forceNewAccount => some (s.issueStart (.start forceNewAccount))
  | .userStartFromConf confText => some (s.issueStart (.startFromConf confText))
  | .userStop => some s.issueStop
  | .notificationStop => some s.postStop
  | .revoke => some s.issueStop
  | .deliver i => do
      let intent ← s.intents[i]?
      return { s with intents := s.intents.eraseIdx i }.onStartCommand intent
  | .acquire answers =>
      match s.holder, s.waiting with
      | none, r :: rest => some (s.enter platform answers r rest)
      | _, _ => none
  | .effect =>
      match s.holder with
      | some ⟨r, w :: ws⟩ => some (s.perform r w ws)
      | _ => none
  | .release =>
      match s.holder with
      | some ⟨r, []⟩ => some (s.leave r)
      | _ => none
  | .requestReconnect =>
      if 0 < s.launched then some { s.ask .reconnect with launched := s.launched - 1 } else none
  | .resetReconnecting =>
      if 0 < s.returned then
        some
          { s with
            returned := s.returned - 1
            controller := { s.controller with reconnecting := false } }
      else none
  | .wake => if s.controller.monitor then some { s with due := s.due + 1 } else none
  | .beginCheck state statistics =>
      if 0 < s.due then
        some
          { s with
            due := s.due - 1
            checks := s.checks ++ (readHealth s.controller false state statistics).toList }
      else none
  | .endCheck i autoReconnect clock => do
      let r ← s.checks[i]?
      return s.finishCheck platform i r autoReconnect clock

/-- The first waiting command runs to its end with `n` effects. -/
def runFirst (answers : Answers) (n : ℕ) : List Event :=
  .acquire answers :: List.replicate n .effect ++ [.release]

/-! ### Inversion -/

variable {platform} {s t : System}

theorem step_deliver {i : ℕ} (h : step platform s (.deliver i) = some t) :
  ∃ intent, s.intents[i]? = some intent ∧
    t = { s with intents := s.intents.eraseIdx i }.onStartCommand intent
  := by
  obtain ⟨intent, hi, ht⟩ := Option.bind_eq_some_iff.mp h
  exact ⟨intent, hi, (Option.some.inj ht).symm⟩

theorem step_acquire {answers : Answers} (h : step platform s (.acquire answers) = some t) :
  ∃ r rest, s.holder = none ∧ s.waiting = r :: rest ∧ t = s.enter platform answers r rest
  := by
  simp only [step] at h
  split at h
  · next r rest hholder hwaiting => exact ⟨r, rest, hholder, hwaiting, (Option.some.inj h).symm⟩
  · cases h

theorem step_effect (h : step platform s .effect = some t) :
  ∃ r w ws, s.holder = some ⟨r, w :: ws⟩ ∧ t = s.perform r w ws
  := by
  simp only [step] at h
  split at h
  · next r w ws hholder => exact ⟨r, w, ws, hholder, (Option.some.inj h).symm⟩
  · cases h

theorem step_release (h : step platform s .release = some t) :
  ∃ r, s.holder = some ⟨r, []⟩ ∧ t = s.leave r
  := by
  simp only [step] at h
  split at h
  · next r hholder => exact ⟨r, hholder, (Option.some.inj h).symm⟩
  · cases h

theorem step_endCheck {i : ℕ} {autoReconnect : Bool} {clock : Clock}
    (h : step platform s (.endCheck i autoReconnect clock) = some t) :
  ∃ r, s.checks[i]? = some r ∧ t = s.finishCheck platform i r autoReconnect clock
  := by
  obtain ⟨r, hi, ht⟩ := Option.bind_eq_some_iff.mp h
  exact ⟨r, hi, (Option.some.inj ht).symm⟩

end Warp.WarpController
