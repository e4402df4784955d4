import DtmaOne.Warp.Failover
import DtmaOne.Warp.System

/-!
# After a stop

A stop cancels the monitor and tears the tunnel down under the mutex.  A health check that has
already read the tunnel as up is outside the mutex and publishes `ON` after the stop has
published `OFF`, and a reconnect that was launched before the stop takes the mutex after it and
sets the tunnel up again.

Without these two, nothing is on after a stop until the user issues the next start.
-/

namespace Warp.WarpController

/-- The command is a stop that has published `OFF`. -/
def Holder.hasStopped (h : Holder) : Bool :=
  h.request.isStop && !h.remaining.contains (.publish stopped)

/-- A stop has published `OFF`, and no start was issued since it was requested. -/
def System.afterStop (s : System) : Bool :=
  s.quiet || s.holder.any Holder.hasStopped

/-- While the system is quiet, the mode is not `ON`, and the tunnel was never set up. -/
def Quiescent (s : System) : Prop :=
  (s.quiet = true → s.controller.status.mode ≠ .on) ∧ s.raised = false

/-- After a stop no check that has read the tunnel as up publishes, and no reconnect takes the
mutex. -/
def Unspoiled (s : System) : Event → Prop
  | .endCheck i _ _ => s.afterStop → ∀ r ∈ s.checks[i]?, r.tunnelState ≠ .up
  | .acquire _ => s.quiet → s.waiting.head? ≠ some .reconnect
  | _ => True

/-! ### The effects of a stop -/

/-- The effect neither sets the tunnel up nor publishes anything but `OFF`. -/
def Effect.Calming (w : Effect) : Prop :=
  w ≠ .setState .up ∧ ∀ p, w = .publish p → p = stopped

theorem calming_stop {answers : StopAnswers} {echo : Echo} {w : Effect}
    (hw : w ∈ stop answers echo) :
  w.Calming
  := by
  simp only [stop, stopInternal] at hw
  split_ifs at hw <;> simp at hw
  · obtain rfl | rfl | rfl | rfl | rfl | rfl := hw <;> simp [Effect.Calming]
  · obtain rfl | rfl | rfl | rfl | rfl := hw <;> simp [Effect.Calming]

theorem publish_stopped_mem_stop (answers : StopAnswers) (echo : Echo) :
  .publish stopped ∈ stop answers echo
  := by
  simp [stop]

/-- An effect that publishes nothing keeps the mode. -/
theorem mode_apply (c : Controller) {w : Effect} (hw : ∀ p, w ≠ .publish p) :
  (c.apply w).status.mode = c.status.mode
  := by
  cases w with
  | publish p => exact absurd rfl (hw p)
  | tearDown ok =>
      simp only [Controller.apply]
      split_ifs <;> rfl
  | _ => rfl

/-- A calming effect keeps the mode or publishes `OFF`. -/
theorem Effect.Calming.mode_apply {w : Effect} (hw : w.Calming) (c : Controller)
    (hc : w ≠ .publish stopped → c.status.mode = .off) :
  (c.apply w).status.mode = .off
  := by
  by_cases hpublish : w = .publish stopped
  · rw [hpublish]
    rfl
  · rw [WarpController.mode_apply]
    · apply hc hpublish
    · intro p hp
      obtain rfl := hw.2 p hp
      apply hpublish hp

/-! ### The invariant -/

structure Still (s : System) : Prop where
  off : s.afterStop → s.controller.status.mode = .off
  nobody : s.quiet → ∀ r ∈ s.waiting, r.isUserStart = false
  holder : s.quiet → ∀ h ∈ s.holder, h.request.isStop
  calming : ∀ h ∈ s.holder, h.request.isStop → ∀ w ∈ h.remaining, w.Calming
  lowered : s.raised = false

theorem still_init :
  Still {}
  := by
  constructor
  · intro _
    rfl
  · intro h
    cases h
  · intro h
    cases h
  · intro h hh
    cases hh
  · rfl

variable {platform : Platform} {s t : System}

/-- The invariant is kept when a command that is no start of the user asks for the mutex. -/
theorem Still.ask (h : Still s) {r : Request} (hr : r.isUserStart = false) :
  Still (s.ask r)
  := by
  refine ⟨h.off, ?_, h.holder, h.calming, h.lowered⟩
  intro hquiet q hq
  rw [System.ask, List.mem_append, List.mem_singleton] at hq
  obtain hq | rfl := hq
  · apply h.nobody hquiet q hq
  · apply hr

/-- A start of the user ends the quiet. -/
theorem still_issueStart (h : Still s) (r : Request) :
  Still (s.issueStart r)
  := by
  refine ⟨?_, ?_, ?_, h.calming, h.lowered⟩
  · intro hafter
    apply h.off
    rw [System.afterStop, Bool.or_eq_true]
    apply Or.inr
    simpa [System.afterStop, System.issueStart, System.ask] using hafter
  · intro hquiet
    cases hquiet
  · intro hquiet
    cases hquiet

theorem still_deliver (h : Still s) {i : ℕ} (hstep : step platform s (.deliver i) = some t) :
  Still t
  := by
  obtain ⟨intent, -, rfl⟩ := step_deliver hstep
  have herase : Still { s with intents := s.intents.eraseIdx i } :=
    ⟨h.off, h.nobody, h.holder, h.calming, h.lowered⟩
  cases intent with
  | start => apply herase
  | stop echo => apply herase.ask rfl

theorem still_acquire (h : Still s) {answers : Answers} (hok : Unspoiled s (.acquire answers))
    (hstep : step platform s (.acquire answers) = some t) :
  Still t
  := by
  obtain ⟨r, rest, hholder, hwaiting, rfl⟩ := step_acquire hstep
  have hstop : s.quiet → r.isStop := by
    intro hquiet
    have hnobody := h.nobody hquiet r (by rw [hwaiting]; apply List.mem_cons_self)
    have hreconnect := hok hquiet
    rw [hwaiting, List.head?_cons] at hreconnect
    cases r with
    | start forceNewAccount => cases hnobody
    | startFromConf confText => cases hnobody
    | stop echo => rfl
    | reconnect => exact absurd rfl hreconnect
  constructor
  · intro hafter
    apply h.off
    rw [System.afterStop, Bool.or_eq_true] at hafter ⊢
    obtain hquiet | hstopped := hafter
    · exact Or.inl hquiet
    · cases r with
      | stop echo =>
          simp [System.enter, Holder.hasStopped, bodyOf, publish_stopped_mem_stop] at hstopped
      | _ => cases hstopped
  · intro hquiet q hq
    apply h.nobody hquiet q
    rw [hwaiting]
    apply List.mem_cons_of_mem r hq
  · intro hquiet g hg
    obtain rfl := Option.some.inj hg
    apply hstop hquiet
  · intro g hg hg' w hw
    obtain rfl := Option.some.inj hg
    cases r with
    | stop echo => apply calming_stop hw
    | _ => cases hg'
  · apply h.lowered

theorem still_effect (h : Still s) (hstep : step platform s .effect = some t) :
  Still t
  := by
  obtain ⟨r, w, ws, hholder, rfl⟩ := step_effect hstep
  have hcalming := h.calming ⟨r, w :: ws⟩ hholder
  have hrequest : s.quiet → r.isStop := fun hquiet => h.holder hquiet ⟨r, w :: ws⟩ hholder
  constructor
  · intro hafter
    have hstop : r.isStop := by
      rw [System.afterStop, Bool.or_eq_true] at hafter
      obtain hquiet | hstopped := hafter
      · apply hrequest hquiet
      · exact (Bool.and_eq_true_iff.mp hstopped).1
    apply (hcalming hstop w List.mem_cons_self).mode_apply
    intro hpublish
    apply h.off
    rw [System.afterStop, Bool.or_eq_true] at hafter ⊢
    obtain hquiet | hstopped := hafter
    · exact Or.inl hquiet
    · apply Or.inr
      simp [System.perform, Holder.hasStopped] at hstopped
      simp [hholder, Holder.hasStopped, hstopped, Ne.symm hpublish]
  · apply h.nobody
  · intro hquiet g hg
    obtain rfl := Option.some.inj hg
    apply hrequest hquiet
  · intro g hg hg' v hv
    obtain rfl := Option.some.inj hg
    apply hcalming hg' v (List.mem_cons_of_mem w hv)
  · simp only [System.perform, h.lowered, Bool.false_or, Bool.and_eq_false_iff,
      decide_eq_false_iff_not]
    by_cases hquiet : s.quiet
    · exact Or.inr (hcalming (hrequest hquiet) w List.mem_cons_self).1
    · exact Or.inl (Bool.eq_false_iff.mpr hquiet)

theorem still_release (h : Still s) (hstep : step platform s .release = some t) :
  Still t
  := by
  obtain ⟨r, hholder, rfl⟩ := step_release hstep
  constructor
  · intro hafter
    apply h.off
    rw [System.afterStop, Bool.or_eq_true]
    by_cases hstop : r.isStop
    · apply Or.inr
      simp [hholder, Holder.hasStopped, hstop]
    · apply Or.inl
      simpa [System.afterStop, System.leave, hstop] using hafter
  · intro hquiet
    by_cases hstop : r.isStop
    · simpa [System.leave, hstop] using hquiet
    · apply h.nobody
      simpa [System.leave, hstop] using hquiet
  · intro _ g hg
    cases hg
  · intro g hg
    cases hg
  · apply h.lowered

theorem still_endCheck (h : Still s) {i : ℕ} {autoReconnect : Bool} {clock : Clock}
    (hok : Unspoiled s (.endCheck i autoReconnect clock))
    (hstep : step platform s (.endCheck i autoReconnect clock) = some t) :
  Still t
  := by
  obtain ⟨r, hi, rfl⟩ := step_endCheck hstep
  refine ⟨?_, h.nobody, h.holder, h.calming, h.lowered⟩
  intro hafter
  have hdown := hok hafter r hi
  simp only [System.finishCheck, publishHealth, publishVerdict_mode, verdict, if_pos hdown]
  rfl

/-- A step that does not disturb the quiet keeps the invariant. -/
theorem still_step (h : Still s) {e : Event} (hok : Unspoiled s e)
    (hstep : step platform s e = some t) :
  Still t
  := by
  cases e with
  | userStart forceNewAccount =>
      obtain rfl := Option.some.inj hstep
      apply still_issueStart h
  | userStartFromConf confText =>
      obtain rfl := Option.some.inj hstep
      apply still_issueStart h
  | userStop =>
      obtain rfl := Option.some.inj hstep
      have hask := h.ask (r := .stop s.newEcho) rfl
      exact ⟨hask.off, hask.nobody, hask.holder, hask.calming, hask.lowered⟩
  | notificationStop =>
      obtain rfl := Option.some.inj hstep
      exact ⟨h.off, h.nobody, h.holder, h.calming, h.lowered⟩
  | revoke =>
      obtain rfl := Option.some.inj hstep
      have hask := h.ask (r := .stop s.newEcho) rfl
      exact ⟨hask.off, hask.nobody, hask.holder, hask.calming, hask.lowered⟩
  | deliver i => apply still_deliver h hstep
  | acquire answers => apply still_acquire h hok hstep
  | effect => apply still_effect h hstep
  | release => apply still_release h hstep
  | requestReconnect =>
      simp only [step] at hstep
      split_ifs at hstep
      obtain rfl := Option.some.inj hstep
      have hask := h.ask (r := .reconnect) rfl
      exact ⟨hask.off, hask.nobody, hask.holder, hask.calming, hask.lowered⟩
  | resetReconnecting =>
      simp only [step] at hstep
      split_ifs at hstep
      obtain rfl := Option.some.inj hstep
      exact ⟨h.off, h.nobody, h.holder, h.calming, h.lowered⟩
  | wake =>
      simp only [step] at hstep
      split_ifs at hstep
      obtain rfl := Option.some.inj hstep
      exact ⟨h.off, h.nobody, h.holder, h.calming, h.lowered⟩
  | beginCheck state statistics =>
      simp only [step] at hstep
      split_ifs at hstep
      obtain rfl := Option.some.inj hstep
      exact ⟨h.off, h.nobody, h.holder, h.calming, h.lowered⟩
  | endCheck i autoReconnect clock => apply still_endCheck h hok hstep

/-- In every run in which, after a stop, no check that has read the tunnel as up publishes and
no reconnect takes the mutex, every state reached is quiescent. -/
theorem quiescent_run (platform : Platform) (es : List Event)
    (hmeets : Run.Meets (step platform) Unspoiled {} es) (pre : List Event) (hpre : pre <+: es)
    (t : System) (hrun : Run.exec (step platform) {} pre = some t) :
  Quiescent t
  := by
  have hstill : Still t := Run.invariant_of_meets_prefix
    (fun _ _ _ hs hok hstep => still_step hs hok hstep) still_init hmeets hpre hrun
  refine ⟨?_, hstill.lowered⟩
  intro hquiet
  rw [hstill.off (by rw [System.afterStop, hquiet, Bool.true_or])]
  decide

/-! ### A check that publishes late -/

instance (s : System) : ∀ e : Event, Decidable (Unspoiled s e)
  | .endCheck i _ _ =>
      inferInstanceAs (Decidable (s.afterStop → ∀ r ∈ s.checks[i]?, r.tunnelState ≠ .up))
  | .acquire _ =>
      inferInstanceAs (Decidable (s.quiet → s.waiting.head? ≠ some .reconnect))
  | .userStart _ | .userStartFromConf _ | .userStop | .notificationStop | .revoke | .deliver _
  | .effect | .release | .requestReconnect | .resetReconnecting | .wake | .beginCheck _ _ =>
      isTrue trivial

/-- The first endpoint of an imported configuration answers at once. -/
def promptAnswers : Answers where
  start := ⟨none, fun _ => true, fun _ => firstSilent⟩
  conf :=
    { fromConfText := fun _ => .ok sampleConf
      tearDown := true
      bringUp :=
        { firstSilent with
          attempts := fun _ _ => ⟨.ok (), true, .ok (), [some ⟨92, 148, 1000⟩]⟩ } }
  stop := ⟨true, true⟩

/-- A check begins, a stop runs to its end, and the check ends; `state` is what the check
reads. -/
def checkAroundStop (state : TunnelState) : List Event :=
  .userStartFromConf "" :: runFirst promptAnswers 18 ++
    [.wake, .beginCheck (some state) (some (92, 148))] ++
    .userStop :: runFirst promptAnswers 6 ++ [.endCheck 0 true ⟨4000, 4000, 4000⟩]

/-- A check that has read the tunnel as up publishes `ON` after the stop. -/
theorem not_quiescent_lateCheck :
  ¬ ∀ (es : List Event) (t : System), Run.exec (step Platform.ascii) {} es = some t → Quiescent t
  := by
  intro h
  have hlate : (Run.exec (step Platform.ascii) {} (checkAroundStop .up)).any
      (fun t => t.quiet ∧ t.controller.status.mode = .on) := by
    decide +kernel
  cases hrun : Run.exec (step Platform.ascii) {} (checkAroundStop .up) with
  | none =>
      rw [hrun] at hlate
      cases hlate
  | some t =>
      rw [hrun, Option.any_some, decide_eq_true_eq] at hlate
      apply (h (checkAroundStop .up) t hrun).1 hlate.1 hlate.2

/-- A check that has read the tunnel as down may publish after the stop. -/
theorem quiescent_checkAroundStop :
  ∃ t, Run.exec (step Platform.ascii) {} (checkAroundStop .down) = some t ∧ t.quiet = true ∧
    Quiescent t
  := by
  have hquiet : (Run.exec (step Platform.ascii) {} (checkAroundStop .down)).any System.quiet := by
    decide +kernel
  cases hrun : Run.exec (step Platform.ascii) {} (checkAroundStop .down) with
  | none =>
      rw [hrun] at hquiet
      cases hquiet
  | some t =>
      rw [hrun, Option.any_some] at hquiet
      refine ⟨t, rfl, hquiet, ?_⟩
      apply quiescent_run Platform.ascii (checkAroundStop .down) (by decide +kernel)
        (checkAroundStop .down) List.prefix_rfl t hrun

end Warp.WarpController
