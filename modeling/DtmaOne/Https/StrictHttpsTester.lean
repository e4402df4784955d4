import DtmaOne.Library.Emit
import DtmaOne.Library.Run
import DtmaOne.Storage.ConnectionTest

/-!
# The strict HTTPS tester

`StrictHttpsTester.test` runs one task for every scheduled candidate.  A task waits for its delay,
looks whether there is a winner, probes its candidate, and after a success tries to become the
winner by a `compareAndSet`.  When all tasks have ended, the result is taken from their outcomes in
the order of the schedule, and one application request is sent to the candidate it names.

A step is one access of a task to what the tasks share.  The answers of the servers are given, and
the list of the steps is the interleaving.
-/

namespace Https

open Paer Paer.RaceCoordinatorLogic

/-! ### A probe -/

/-- `ProbeOutcome` -/
structure ProbeOutcome (S : Type) where
  candidate : EndpointCandidate S
  ok : Bool
  stage : Option FailureStage
  transportMs : Option ℤ
  secureMs : Option ℤ
  alpn : Option String
  deriving DecidableEq

/-- How the connection and the handshake of a probe end: they are completed, or the exception that
is caught. -/
inductive ChannelEnd where
  | completed (transportMs secureMs : ℤ) (alpn : Option String)
  | certificateException
  | sslHandshakeException
  | socketTimeoutException
  | connectException
  | socketException (message : Option String)
  | exception
  deriving DecidableEq

/-- How the application request ends: with a status, or with an exception. -/
inductive HttpEnd where
  | response (code : ℤ)
  | certificateException
  | sslHandshakeException (message : Option String)
  | ioException (message : Option String)
  | exception
  deriving DecidableEq

/-- What the platform and the servers answer during a race. -/
structure Answers where
  /-- The comparison of characters that ignores the case. -/
  sameIgnoringCase : Char → Char → Bool
  /-- The end of the probe of the task with an index. -/
  channel : ℕ → ChannelEnd
  /-- The end of the application request. -/
  http : HttpEnd

/-- The outcome of a probe that has failed. -/
def failedProbe {S : Type} (candidate : EndpointCandidate S) (stage : FailureStage) :
    ProbeOutcome S :=
  ⟨candidate, false, some stage, none, none, none⟩

/-- `StrictHttpsTester.probeSecureChannel`, for the task with the index `i`. -/
def probeSecureChannel {S : Type} (a : Answers) (i : ℕ) (candidate : EndpointCandidate S) :
    ProbeOutcome S :=
  match a.channel i with
  | .completed transportMs secureMs alpn =>
      ⟨candidate, true, none, some transportMs, some secureMs, alpn⟩
  | .certificateException => failedProbe candidate .tlsValidationFailed
  | .sslHandshakeException => failedProbe candidate .tlsValidationFailed
  | .socketTimeoutException => failedProbe candidate .transportTimeout
  | .connectException => failedProbe candidate .transportRefused
  | .socketException message =>
      failedProbe candidate
        (if Text.contains a.sameIgnoringCase "reset" (message.getD "") then .transportReset
        else .transportRefused)
  | .exception => failedProbe candidate .unknownFailure

/-- The outcome of a task that finds a winner. -/
def cancelledProbe {S : Type} (item : ScheduledCandidate S) : ProbeOutcome S :=
  failedProbe { item.candidate with currentState := .cancelled } .cancelledByRace

/-! ### The race -/

/-- Where a task is. -/
inductive Phase (S : Type) where
  /-- The delay is ahead. -/
  | delayed
  /-- The look at `winnerHolder` is ahead. -/
  | ready
  | probing
  /-- The probe has ended; the `compareAndSet` is ahead, if it has succeeded. -/
  | probed (result : ProbeOutcome S)
  /-- The task has ended, and its `compareAndSet` has set the winner or not. -/
  | finished (result : ProbeOutcome S) (swapped : Bool)

/-- The tasks by their index, and what they share. -/
structure Race (S : Type) where
  tasks : ℕ → Phase S
  winnerHolder : Option (EndpointCandidate S)

/-- A step of a task. -/
inductive Event where
  /-- `delay` returns. -/
  | elapse (i : ℕ)
  /-- `winnerHolder.get()` -/
  | check (i : ℕ)
  /-- `probeSecureChannel` returns. -/
  | probe (i : ℕ)
  /-- `winnerHolder.compareAndSet` after a success, and the end of the task. -/
  | settle (i : ℕ)
  deriving DecidableEq

section Race

variable {S : Type}

/-- The race with the task `i` in another phase. -/
def Race.setTask (s : Race S) (i : ℕ) (phase : Phase S) : Race S :=
  { s with tasks := Function.update s.tasks i phase }

@[simp, grind =]
theorem Race.setTask_tasks (s : Race S) (i j : ℕ) (phase : Phase S) :
  (s.setTask i phase).tasks j = if j = i then phase else s.tasks j
  := by
  simp [setTask, Function.update_apply]

@[simp, grind =]
theorem Race.setTask_winnerHolder (s : Race S) (i : ℕ) (phase : Phase S) :
  (s.setTask i phase).winnerHolder = s.winnerHolder
  := rfl

/-- The race when the tasks are created. -/
def start (scheduled : List (ScheduledCandidate S)) : Race S where
  tasks i := if (scheduled[i]?.any fun item => 0 < item.startDelayMs) then .delayed else .ready
  winnerHolder := none

/-- A step of the race of the scheduled candidates. -/
def step (a : Answers) (scheduled : List (ScheduledCandidate S)) (s : Race S) :
    Event → Option (Race S)
  | .elapse i =>
      match s.tasks i with
      | .delayed => some (s.setTask i .ready)
      | _ => none
  | .check i =>
      match scheduled[i]?, s.tasks i with
      | some item, .ready =>
          match s.winnerHolder with
          | some _ => some (s.setTask i (.finished (cancelledProbe item) false))
          | none => some (s.setTask i .probing)
      | _, _ => none
  | .probe i =>
      match scheduled[i]?, s.tasks i with
      | some item, .probing => some (s.setTask i (.probed (probeSecureChannel a i item.candidate)))
      | _, _ => none
  | .settle i =>
      match scheduled[i]?, s.tasks i with
      | some item, .probed result =>
          if result.ok then
            match s.winnerHolder with
            | none =>
                some { s.setTask i (.finished result true) with
                  winnerHolder := some item.candidate }
            | some _ => some (s.setTask i (.finished result false))
          else some (s.setTask i (.finished result false))
      | _, _ => none

/-- The outcome of a task that has ended. -/
def Phase.outcome : Phase S → Option (ProbeOutcome S)
  | .finished result _ => some result
  | _ => none

/-- `awaitAll`: the outcomes in the order of the schedule, as soon as all tasks have ended. -/
def awaitAll (scheduled : List (ScheduledCandidate S)) (s : Race S) :
    Option (List (ProbeOutcome S)) :=
  (List.range scheduled.length).mapM fun i => (s.tasks i).outcome

end Race

/-! ### The application request -/

/-- `StrictHttpsTester.TestResult` without the metrics and the events. -/
structure TestResult (S : Type) where
  success : Bool
  urlHost : String
  statusCode : Option ℤ
  winner : Option (EndpointCandidate S)
  failureStage : Option FailureStage
  message : String
  deriving DecidableEq

/-- A run of the body of the application request: the address and the server it goes to. -/
structure Request where
  url : String
  ipAddress : String
  deriving DecidableEq

/-- What the body of the application request leaves behind. -/
structure Application where
  status : Option ℤ := none
  appError : Option FailureStage := none
  appMessage : String := "OK"
  deriving DecidableEq

/-- `HttpStatusPolicy.isNetworkSuccess` -/
def isNetworkSuccess (statusCode : ℤ) : Bool :=
  100 ≤ statusCode && statusCode ≤ 599

/-- The body of the application request; an exception that it does not catch leaves `test`. -/
def sendRequest (http : HttpEnd) (request : Request) : Emit Request Unit Application := do
  Emit.tell request
  match http with
  | .response code =>
      return {
        status := some code
        appMessage :=
          if isNetworkSuccess code then
            "HTTP " ++ toString code ++ " (network success; 4xx/5xx do not lower endpoint score)"
          else "Unexpected status " ++ toString code }
  | .certificateException =>
      return {
        appError := some .tlsValidationFailed
        appMessage := "Certificate validation failed" }
  | .sslHandshakeException message =>
      return {
        appError := some .tlsValidationFailed
        appMessage := "TLS validation failed: " ++ message.getD "null" }
  | .ioException message =>
      return {
        appError := some .applicationTimeout
        appMessage := "Application I/O: " ++ message.getD "null" }
  | .exception => Emit.raise ()

/-- `ApplicationRequestGuard` -/
structure ApplicationRequestGuard where
  sent : Bool := false
  deriving DecidableEq

/-- `ApplicationRequestGuard.trySendOnce`: the guard afterwards, and what the block returns if it is
run. -/
def trySendOnce {α : Type} (guard : ApplicationRequestGuard) (block : Emit Request Unit α) :
    Emit Request Unit (ApplicationRequestGuard × Option α) :=
  if guard.sent then return (guard, none)
  else do
    let value ← block
    return ({ sent := true }, some value)

section Report

variable {S : Type}

/-- The part of `StrictHttpsTester.test` after the race. -/
def report (a : Answers) (host url : String) (outcomes : List (ProbeOutcome S)) :
    Emit Request Unit (TestResult S) :=
  match outcomes.find? ProbeOutcome.ok with
  | none =>
      return {
        success := false
        urlHost := host
        statusCode := none
        winner := none
        failureStage := some ((outcomes.head?.bind ProbeOutcome.stage).getD .transportTimeout)
        message := "No candidate completed secure channel" }
  | some best => do
      let winner := { best.candidate with currentState := .selected }
      let (_, application) ← trySendOnce {} (sendRequest a.http ⟨url, winner.ipAddress⟩)
      let application := application.getD {}
      return {
        success := application.status.isSome && application.appError ≠ some .tlsValidationFailed
        urlHost := host
        statusCode := application.status
        winner := some winner
        failureStage := application.appError
        message := application.appMessage }

/-- The part of `StrictHttpsTester.test` from the race on, for an interleaving of the tasks; `none`
if the list of steps is no interleaving up to the end of all tasks. -/
def race (a : Answers) (host url : String) (scheduled : List (ScheduledCandidate S))
    (events : List Event) : Option (Emit Request Unit (TestResult S)) :=
  (Run.exec (step a scheduled) (start scheduled) events).bind fun s =>
    (awaitAll scheduled s).map (report a host url)

/-- The result of a test that ends before the race. -/
def refused (host : String) (stage : FailureStage) (message : String) : TestResult S :=
  ⟨false, host, none, none, some stage, message⟩

/-- `StrictHttpsTester.test`, for an interleaving of the tasks. -/
def test (platform : Storage.ConnectionTest.Platform) (a : Answers) (config : RaceConfig)
    (url : String) (candidates : List (EndpointCandidate S)) (events : List Event) :
    Option (Emit Request Unit (TestResult S)) :=
  let normalized := Storage.ConnectionTest.normalized url
  let host := ((platform.uriHost normalized).map fun h => h.text).getD ""
  if host.toList.all platform.isWhitespace then
    some (return refused "" .unknownFailure "Invalid URL host")
  else if ¬ normalized.startsWith "https://" then
    some (return refused host .unknownFailure "Only HTTPS is supported for strict TLS test")
  else
    match buildPlan config {} candidates with
    | .error _ => some (Emit.raise ())
    | .ok plan =>
        if plan.scheduled.isEmpty then
          some (return refused host .dnsEmpty "No candidates to race")
        else race a host normalized plan.scheduled events

end Report

end Https
