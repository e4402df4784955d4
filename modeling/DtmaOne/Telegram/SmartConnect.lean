import DtmaOne.Library.Run
import Mathlib.Logic.Function.Basic

/-!
# The race of `TelegramSmartConnect.connect`

Each job of the race creates a socket, connects it, and tries to become the winner by a
`compareAndSet`; the socket of a job that comes too late goes to the queue of losers.  The
caller waits for the latch or a timeout, drains the queue once, and returns the winner.

A step is one access of a job or of the caller to what they share.  The socket of a job is
named by the index of the job.

The single drain closes the sockets of the losers that are in the queue by then.  When the
call has returned and all jobs have finished, every socket but the one of the result is
closed exactly when no job joined the losers after the drain and no job won after the call
had returned.
-/

namespace Telegram.SmartConnect

/-- `Job`: the network a socket is bound to, the port, and a label. -/
structure Job where
  network : Option String
  port : ℤ
  label : String
  deriving DecidableEq, Repr

/-- `TelegramSmartConnect.Result`; the socket is that of the job with index `socket`. -/
structure Result where
  socket : ℕ
  connectedPort : ℤ
  via : String
  remappedPort : Bool
  deriving DecidableEq, Repr

/-- Where a job is. -/
inductive Phase where
  /-- The job has been handed to the pool. -/
  | ready
  /-- The socket is created; `protect` and `connect` are ahead. -/
  | created
  /-- `connect` has returned; the `compareAndSet` is ahead. -/
  | connected
  /-- The `compareAndSet` succeeded; `countDown` is ahead. -/
  | won
  /-- The `compareAndSet` failed; `losers.add` is ahead. -/
  | lost
  | finished
  deriving DecidableEq, Repr

/-- The socket of a job. -/
inductive Socket where
  | absent
  | opened
  | closed
  deriving DecidableEq, Repr

/-- A job in the race. -/
structure JobState where
  phase : Phase := .ready
  socket : Socket := .absent
  deriving DecidableEq, Repr

/-- Where the caller is. -/
inductive Caller where
  | waiting
  | draining
  | drained
  | returned (r : Option Result)
  deriving DecidableEq, Repr

/-- What the jobs and the caller share, and where they are. -/
structure Race where
  jobs : ℕ → JobState := fun _ => {}
  winner : Option Result := none
  losers : List ℕ := []
  latch : Bool := false
  caller : Caller := .waiting

/-- A step of the race. -/
inductive Event where
  /-- `if (winner.get() != null) return@execute; val sock = Socket()` -/
  | begin (i : ℕ)
  /-- `protect` returns false: the socket is closed. -/
  | protectRefused (i : ℕ)
  /-- A call on the socket throws: the socket is closed. -/
  | connectFailed (i : ℕ)
  /-- `connect` returns. -/
  | connectReturned (i : ℕ)
  /-- `winner.compareAndSet(null, result)` -/
  | compareAndSet (i : ℕ)
  /-- `latch.countDown()` -/
  | countDown (i : ℕ)
  /-- `losers.add(sock)` -/
  | addLoser (i : ℕ)
  /-- `latch.await` returns, because the latch is down or the time is up. -/
  | awake (timedOut : Bool)
  /-- `losers.poll()`, and the close of the socket it gives. -/
  | poll
  /-- `winner.get()`, and the return. -/
  | readWinner
  deriving DecidableEq, Repr

/-- The state with the job `i` replaced. -/
def Race.setJob (s : Race) (i : ℕ) (j : JobState) : Race :=
  { s with jobs := Function.update s.jobs i j }

@[simp, grind =]
theorem Race.setJob_jobs (s : Race) (i k : ℕ) (j : JobState) :
  (s.setJob i j).jobs k = if k = i then j else s.jobs k
  := by
  simp [setJob, Function.update_apply]

@[simp, grind =]
theorem Race.setJob_winner (s : Race) (i : ℕ) (j : JobState) :
  (s.setJob i j).winner = s.winner
  := rfl

@[simp, grind =]
theorem Race.setJob_losers (s : Race) (i : ℕ) (j : JobState) :
  (s.setJob i j).losers = s.losers
  := rfl

@[simp, grind =]
theorem Race.setJob_caller (s : Race) (i : ℕ) (j : JobState) :
  (s.setJob i j).caller = s.caller
  := rfl

/-- The result of a job whose `connect` has returned. -/
def resultOf (requestedPort : ℤ) (i : ℕ) (job : Job) : Result where
  socket := i
  connectedPort := job.port
  via := job.label
  remappedPort := job.port ≠ requestedPort

/-- One step of the race of `jobs` for the requested port. -/
def step (jobs : List Job) (requestedPort : ℤ) (s : Race) : Event → Option Race
  | .begin i =>
      if i < jobs.length ∧ (s.jobs i).phase = .ready then
        if s.winner.isSome then some (s.setJob i ⟨.finished, .absent⟩)
        else some (s.setJob i ⟨.created, .opened⟩)
      else none
  | .protectRefused i =>
      if (s.jobs i).phase = .created then some (s.setJob i ⟨.finished, .closed⟩) else none
  | .connectFailed i =>
      if (s.jobs i).phase = .created then some (s.setJob i ⟨.finished, .closed⟩) else none
  | .connectReturned i =>
      if (s.jobs i).phase = .created then some (s.setJob i ⟨.connected, .opened⟩) else none
  | .compareAndSet i =>
      match jobs[i]? with
      | none => none
      | some job =>
          if (s.jobs i).phase = .connected then
            if s.winner = none then
              some { s.setJob i ⟨.won, .opened⟩ with winner := some (resultOf requestedPort i job) }
            else some (s.setJob i ⟨.lost, .opened⟩)
          else none
  | .countDown i =>
      if (s.jobs i).phase = .won then
        some { s.setJob i ⟨.finished, .opened⟩ with latch := true }
      else none
  | .addLoser i =>
      if (s.jobs i).phase = .lost then
        some { s.setJob i ⟨.finished, .opened⟩ with losers := s.losers ++ [i] }
      else none
  | .awake timedOut =>
      if s.caller = .waiting ∧ (s.latch ∨ timedOut) then some { s with caller := .draining }
      else none
  | .poll =>
      if s.caller = .draining then
        match s.losers with
        | [] => some { s with caller := .drained }
        | i :: rest => some { s.setJob i ⟨(s.jobs i).phase, .closed⟩ with losers := rest }
      else none
  | .readWinner =>
      if s.caller = .drained then some { s with caller := .returned s.winner } else none

/-- The cases of a step. -/
inductive Steps (jobs : List Job) (requestedPort : ℤ) (s : Race) : Event → Race → Prop where
  | beginLate (i : ℕ) (hi : i < jobs.length) (hready : (s.jobs i).phase = .ready)
      (hwon : s.winner ≠ none) :
      Steps jobs requestedPort s (.begin i) (s.setJob i ⟨.finished, .absent⟩)
  | begin (i : ℕ) (hi : i < jobs.length) (hready : (s.jobs i).phase = .ready)
      (hopen : s.winner = none) :
      Steps jobs requestedPort s (.begin i) (s.setJob i ⟨.created, .opened⟩)
  | protectRefused (i : ℕ) (hcreated : (s.jobs i).phase = .created) :
      Steps jobs requestedPort s (.protectRefused i) (s.setJob i ⟨.finished, .closed⟩)
  | connectFailed (i : ℕ) (hcreated : (s.jobs i).phase = .created) :
      Steps jobs requestedPort s (.connectFailed i) (s.setJob i ⟨.finished, .closed⟩)
  | connectReturned (i : ℕ) (hcreated : (s.jobs i).phase = .created) :
      Steps jobs requestedPort s (.connectReturned i) (s.setJob i ⟨.connected, .opened⟩)
  | win (i : ℕ) (r : Result) (hr : r.socket = i) (hconnected : (s.jobs i).phase = .connected)
      (hopen : s.winner = none) :
      Steps jobs requestedPort s (.compareAndSet i)
        { s.setJob i ⟨.won, .opened⟩ with winner := some r }
  | lose (i : ℕ) (hconnected : (s.jobs i).phase = .connected) (hwon : s.winner ≠ none) :
      Steps jobs requestedPort s (.compareAndSet i) (s.setJob i ⟨.lost, .opened⟩)
  | countDown (i : ℕ) (hwon : (s.jobs i).phase = .won) :
      Steps jobs requestedPort s (.countDown i)
        { s.setJob i ⟨.finished, .opened⟩ with latch := true }
  | addLoser (i : ℕ) (hlost : (s.jobs i).phase = .lost) :
      Steps jobs requestedPort s (.addLoser i)
        { s.setJob i ⟨.finished, .opened⟩ with losers := s.losers ++ [i] }
  | awake (timedOut : Bool) (hwaiting : s.caller = .waiting) :
      Steps jobs requestedPort s (.awake timedOut) { s with caller := .draining }
  | drained (hdraining : s.caller = .draining) (hnil : s.losers = []) :
      Steps jobs requestedPort s .poll { s with caller := .drained }
  | poll (i : ℕ) (rest : List ℕ) (hdraining : s.caller = .draining)
      (hcons : s.losers = i :: rest) :
      Steps jobs requestedPort s .poll
        { s.setJob i ⟨(s.jobs i).phase, .closed⟩ with losers := rest }
  | readWinner (hdrained : s.caller = .drained) :
      Steps jobs requestedPort s .readWinner { s with caller := .returned s.winner }

variable {jobs : List Job} {requestedPort : ℤ}

theorem steps_of_step {s t : Race} {e : Event} (h : step jobs requestedPort s e = some t) :
  Steps jobs requestedPort s e t
  := by
  cases e with
  | begin i =>
      simp only [step] at h
      split_ifs at h with hi hwon
      · obtain rfl := Option.some.inj h
        apply Steps.beginLate i hi.1 hi.2 (Option.isSome_iff_ne_none.mp hwon)
      · obtain rfl := Option.some.inj h
        apply Steps.begin i hi.1 hi.2 (Option.not_isSome_iff_eq_none.mp hwon)
  | protectRefused i =>
      simp only [step] at h
      split_ifs at h with hi
      obtain rfl := Option.some.inj h
      apply Steps.protectRefused i hi
  | connectFailed i =>
      simp only [step] at h
      split_ifs at h with hi
      obtain rfl := Option.some.inj h
      apply Steps.connectFailed i hi
  | connectReturned i =>
      simp only [step] at h
      split_ifs at h with hi
      obtain rfl := Option.some.inj h
      apply Steps.connectReturned i hi
  | compareAndSet i =>
      simp only [step] at h
      split at h
      · cases h
      · split_ifs at h with hi hopen
        · obtain rfl := Option.some.inj h
          apply Steps.win i _ rfl hi hopen
        · obtain rfl := Option.some.inj h
          apply Steps.lose i hi hopen
  | countDown i =>
      simp only [step] at h
      split_ifs at h with hi
      obtain rfl := Option.some.inj h
      apply Steps.countDown i hi
  | addLoser i =>
      simp only [step] at h
      split_ifs at h with hi
      obtain rfl := Option.some.inj h
      apply Steps.addLoser i hi
  | awake timedOut =>
      simp only [step] at h
      split_ifs at h with hwait
      obtain rfl := Option.some.inj h
      apply Steps.awake timedOut hwait.1
  | poll =>
      simp only [step] at h
      split_ifs at h with hdraining
      split at h
      · obtain rfl := Option.some.inj h
        apply Steps.drained hdraining (by assumption)
      · obtain rfl := Option.some.inj h
        apply Steps.poll _ _ hdraining (by assumption)
  | readWinner =>
      simp only [step] at h
      split_ifs at h with hdrained
      obtain rfl := Option.some.inj h
      apply Steps.readWinner hdrained

/-! ### What every run of the race keeps -/

/-- The caller is past the drain of the losers. -/
def Caller.pastDrain : Caller → Prop
  | .drained => True
  | .returned _ => True
  | _ => False

/-- The job has won, or has nothing left to do. -/
def Phase.settled : Phase → Prop
  | .won => True
  | .finished => True
  | _ => False

/-- What holds in every state of the race. -/
structure Sound (jobs : List Job) (s : Race) : Prop where
  outside : ∀ i, jobs.length ≤ i → (s.jobs i).phase = .ready
  opened : ∀ i, (s.jobs i).phase ≠ .ready → (s.jobs i).phase ≠ .finished →
    (s.jobs i).socket = .opened
  absent : ∀ i, (s.jobs i).phase = .ready → (s.jobs i).socket = .absent
  queued : ∀ i ∈ s.losers, (s.jobs i).phase = .finished
  winner : ∀ w, s.winner = some w → (s.jobs w.socket).phase.settled
  lost : ∀ i, (s.jobs i).phase = .lost → ∃ w, s.winner = some w ∧ w.socket ≠ i
  result : ∀ r, s.caller = .returned (some r) → s.winner = some r

theorem sound_init (jobs : List Job) :
  Sound jobs {}
  := by
  constructor <;> simp

theorem sound_step {s t : Race} {e : Event} (hs : Sound jobs s)
    (h : step jobs requestedPort s e = some t) :
  Sound jobs t
  := by
  obtain ⟨houtside, hopened, habsent, hqueued, hwinner, hloser, hresult⟩ := hs
  cases steps_of_step h with
  | beginLate i hi hready hwon =>
      constructor <;> grind [Phase.settled]
  | begin i hi hready hopen =>
      constructor <;> grind [Phase.settled]
  | protectRefused i hc =>
      constructor <;> grind [Phase.settled]
  | connectFailed i hc =>
      constructor <;> grind [Phase.settled]
  | connectReturned i hc =>
      constructor <;> grind [Phase.settled]
  | win i r hr hc hopen =>
      constructor <;> grind [Phase.settled]
  | lose i hc hwon =>
      obtain ⟨w, hw⟩ := Option.ne_none_iff_exists'.mp hwon
      have hother : w.socket ≠ i := by
        rintro rfl
        have hsettled := hwinner w hw
        rw [hc] at hsettled
        apply hsettled
      constructor <;> grind [Phase.settled]
  | countDown i hwon =>
      constructor <;> grind [Phase.settled]
  | addLoser i hlost =>
      constructor <;> grind [Phase.settled]
  | awake b hw =>
      constructor <;> grind [Phase.settled]
  | drained hd hn =>
      constructor <;> grind [Phase.settled]
  | poll i rest hd hcons =>
      constructor <;> grind [Phase.settled]
  | readWinner hd =>
      constructor <;> grind [Phase.settled]

theorem sound_run {es : List Event} {t : Race}
    (hrun : Run.exec (step jobs requestedPort) {} es = some t) :
  Sound jobs t
  := by
  apply Run.invariant (fun s e t hs h => sound_step hs h) (sound_init jobs) hrun

/-! ### The sockets that stay open -/

/-- The step does not come too late for the drain: `losers.add` is made before the drain has
found the queue empty, and no job wins after the call has returned. -/
def InTime (s : Race) : Event → Prop
  | .addLoser _ => ¬ s.caller.pastDrain
  | .compareAndSet _ => s.winner = none → ∀ r, s.caller ≠ .returned r
  | _ => True

/-- Every open socket still has someone who answers for it: its job, the winner, or the queue
of losers, which is empty after the drain. -/
structure Tidy (s : Race) : Prop where
  owned : ∀ i, (s.jobs i).socket = .opened → (s.jobs i).phase = .finished →
    (∃ w, s.winner = some w ∧ w.socket = i) ∨ i ∈ s.losers
  won : ∀ i, (s.jobs i).phase = .won → ∃ w, s.winner = some w ∧ w.socket = i
  drained : s.caller.pastDrain → s.losers = []
  returned : ∀ r, s.caller = .returned r → r = s.winner

theorem tidy_init :
  Tidy {}
  := by
  constructor <;> simp [Caller.pastDrain]

theorem tidy_step {s t : Race} {e : Event} (hs : Sound jobs s) (ht : Tidy s) (hok : InTime s e)
    (h : step jobs requestedPort s e = some t) :
  Tidy t
  := by
  obtain ⟨-, -, -, hqueued, -, -, -⟩ := hs
  obtain ⟨howned, hwonBy, hdrained, hreturned⟩ := ht
  cases steps_of_step h with
  | beginLate i hi hready hwon =>
      constructor <;> grind
  | begin i hi hready hopen =>
      constructor <;> grind
  | protectRefused i hc =>
      constructor <;> grind
  | connectFailed i hc =>
      constructor <;> grind
  | connectReturned i hc =>
      constructor <;> grind
  | win i r hr hc hopen =>
      have hnot := hok hopen
      constructor <;> grind
  | lose i hc hwon =>
      constructor <;> grind
  | countDown i hwon =>
      constructor <;> grind
  | addLoser i hlost =>
      have hnot : ¬ s.caller.pastDrain := hok
      constructor <;> grind
  | awake b hw =>
      constructor <;> grind [Caller.pastDrain]
  | drained hd hn =>
      constructor <;> grind [Caller.pastDrain]
  | poll i rest hd hcons =>
      constructor <;> grind [Caller.pastDrain]
  | readWinner hd =>
      constructor <;> grind [Caller.pastDrain]

/-- A socket nobody will close: it is open, its job is through with it, the drain is over, and
it is not the one the call returns. -/
def Leaked (s : Race) : Prop :=
  ∃ i, (s.jobs i).socket = .opened ∧ (s.jobs i).phase.settled ∧
    ((s.caller.pastDrain ∧ ∃ w, s.winner = some w ∧ w.socket ≠ i) ∨ s.caller = .returned none)

theorem leaked_step {s t : Race} {e : Event} (hs : Sound jobs s) (hleak : Leaked s)
    (h : step jobs requestedPort s e = some t) :
  Leaked t
  := by
  obtain ⟨i, hi, hphase, hpast⟩ := hleak
  obtain ⟨-, -, -, hqueued, -, -, -⟩ := hs
  use i
  cases steps_of_step h <;> grind [Phase.settled, Caller.pastDrain]

theorem leaked_of_not_inTime {s t : Race} {e : Event} (hs : Sound jobs s) (hok : ¬ InTime s e)
    (h : step jobs requestedPort s e = some t) :
  Leaked t
  := by
  obtain ⟨-, -, -, -, -, hlost, hresult⟩ := hs
  cases steps_of_step h with
  | win i r hr hc hopen =>
      have hnone : s.caller = .returned none := by
        simp only [InTime, hopen, forall_const, not_forall, not_not] at hok
        obtain ⟨q, hq⟩ := hok
        rcases q with _ | q
        · apply hq
        · have hwon := hresult q hq
          rw [hopen] at hwon
          cases hwon
      use i
      simp [Phase.settled, hnone]
  | addLoser i hl =>
      use i
      grind [Phase.settled, InTime]
  | _ => grind [InTime]

/-- The call has returned `r` and every job has finished. -/
def Over (jobs : List Job) (r : Option Result) (s : Race) : Prop :=
  s.caller = .returned r ∧ ∀ i < jobs.length, (s.jobs i).phase = .finished

/-- Every socket but the one of the result is closed, if it was ever created. -/
def AllClosedBut (r : Option Result) (s : Race) : Prop :=
  ∀ i, (s.jobs i).socket = .opened → ∃ w, r = some w ∧ w.socket = i

theorem allClosedBut_of_tidy {s : Race} {r : Option Result} (hs : Sound jobs s) (ht : Tidy s)
    (hover : Over jobs r s) :
  AllClosedBut r s
  := by
  obtain ⟨hret, hfin⟩ := hover
  intro i hi
  have hlt : i < jobs.length := by
    by_contra hge
    have habsent := hs.absent i (hs.outside i (by omega))
    rw [hi] at habsent
    cases habsent
  obtain ⟨w, hw, rfl⟩ | hmem := ht.owned i hi (hfin i hlt)
  · use w
    rw [ht.returned r hret]
    exact ⟨hw, rfl⟩
  · have hnil : s.losers = [] := by
      apply ht.drained
      rw [hret]
      trivial
    rw [hnil] at hmem
    cases hmem

theorem not_allClosedBut_of_leaked {s : Race} {r : Option Result} (hs : Sound jobs s)
    (hleak : Leaked s) (hover : Over jobs r s) :
  ¬ AllClosedBut r s
  := by
  obtain ⟨i, hi, -, hpast⟩ := hleak
  intro hclosed
  obtain ⟨w, rfl, rfl⟩ := hclosed i hi
  obtain ⟨-, w', hw', hne⟩ | hnone := hpast
  · have hw := hs.result w hover.1
    obtain rfl := Option.some.inj (hw.symm.trans hw')
    apply hne rfl
  · rw [hover.1] at hnone
    cases hnone

/-- In every state where the call has returned and all jobs have finished, every socket is
closed except the one of the returned result, exactly when no step of the run came too late
for the drain. -/
theorem allClosedBut_iff (jobs : List Job) (requestedPort : ℤ) (es : List Event) (s : Race)
    (r : Option Result) (hrun : Run.exec (step jobs requestedPort) {} es = some s)
    (hover : Over jobs r s) :
  AllClosedBut r s ↔ Run.Meets (step jobs requestedPort) InTime {} es
  := by
  have hsound := sound_run hrun
  constructor
  · intro hclosed
    by_contra hnot
    apply not_allClosedBut_of_leaked hsound _ hover hclosed
    apply Run.bad_of_not_meets (fun _ _ _ hs h => sound_step hs h)
      (fun _ _ _ hs hok h => leaked_of_not_inTime hs hok h)
      (fun _ _ _ hs hb h => leaked_step hs hb h) (sound_init jobs) hrun hnot
  · intro hmeets
    have hboth : Sound jobs s ∧ Tidy s := by
      apply Run.invariant_of_meets _ ⟨sound_init jobs, tidy_init⟩ hmeets hrun
      rintro q e q' ⟨hq, hq'⟩ hok h
      exact ⟨sound_step hq h, tidy_step hq hq' hok h⟩
    apply allClosedBut_of_tidy hboth.1 hboth.2 hover

/-- The jobs of a race for port 443 over the default network and over `cellular`. -/
def twoJobs : List Job :=
  [⟨some "100", 443, "cellular"⟩, ⟨none, 443, "default"⟩]

/-- The second job has connected when the first one wins, and adds its socket to the losers
after the drain. -/
def lateLoser : List Event :=
  [.begin 0, .begin 1, .connectReturned 0, .connectReturned 1, .compareAndSet 0, .countDown 0,
    .awake false, .poll, .readWinner, .compareAndSet 1, .addLoser 1]

/-- The socket of a late loser is never closed. -/
theorem not_allClosedBut_lateLoser :
  ¬ ∀ (jobs : List Job) (requestedPort : ℤ) (es : List Event) (s : Race) (r : Option Result),
    Run.exec (step jobs requestedPort) {} es = some s → Over jobs r s → AllClosedBut r s
  := by
  intro h
  have hclosed := h twoJobs 443 lateLoser _ (some ⟨0, 443, "cellular", false⟩) rfl
    ⟨rfl, by decide⟩ 1 rfl
  obtain ⟨w, hw, hsocket⟩ := hclosed
  obtain rfl := Option.some.inj hw
  cases hsocket

/-- The second job adds its socket to the losers before the drain. -/
def promptLoser : List Event :=
  [.begin 0, .begin 1, .connectReturned 0, .connectReturned 1, .compareAndSet 0, .countDown 0,
    .compareAndSet 1, .addLoser 1, .awake false, .poll, .poll, .readWinner]

/-- When the second job adds its socket before the drain, only the winner's stays open. -/
theorem allClosedBut_promptLoser :
  ∃ s r, Run.exec (step twoJobs 443) {} promptLoser = some s ∧ Over twoJobs r s ∧
    AllClosedBut r s
  := by
  refine ⟨_, some ⟨0, 443, "cellular", false⟩, rfl, ⟨rfl, by decide⟩, ?_⟩
  apply (allClosedBut_iff twoJobs 443 promptLoser _ _ rfl ⟨rfl, by decide⟩).mpr
  simp [promptLoser, Run.Meets, InTime, step, twoJobs, Race.setJob, Caller.pastDrain]

end Telegram.SmartConnect
