import Mathlib.Data.List.Basic
import Mathlib.Data.List.Induction
import Mathlib.Data.List.Infix

/-!
# Runs of a partial step function

A system is given by a step function `step : σ → ε → Option σ`: an event either is not
enabled in a state, or leads to one successor.  All the choices of the scheduler and of the
environment are in the events, so that a run is a list of events.

* `exec step s es` is the state the run `es` reaches from `s`, if every event is enabled.
* `Meets step ok s es` says that every step of the run satisfies `ok`, a condition on the
  event and the state before it.

Every state reached along a run is the end of a prefix of it, hence the end of a run, so the
rules below are stated for the last state only.
-/

universe u v

namespace Run

variable {σ : Type u} {ε : Type v} (step : σ → ε → Option σ)

/-- The state reached from `s` by the events `es`, if all of them are enabled. -/
def exec : σ → List ε → Option σ
  | s, [] => some s
  | s, e :: es => (step s e).bind fun t => exec t es

/-- Every step of the run `es` from `s` satisfies `ok`; nothing is asked after an event that
is not enabled. -/
def Meets (ok : σ → ε → Prop) : σ → List ε → Prop
  | _, [] => True
  | s, e :: es => ok s e ∧ ∀ t, step s e = some t → Meets ok t es

instance Meets.decidable {ok : σ → ε → Prop} [∀ s e, Decidable (ok s e)] :
    ∀ (s : σ) (es : List ε), Decidable (Meets step ok s es)
  | _, [] => isTrue trivial
  | s, e :: es =>
      match h : step s e with
      | none => decidable_of_iff (ok s e) (by simp [Meets, h])
      | some t =>
          have : Decidable (Meets step ok t es) := Meets.decidable t es
          decidable_of_iff (ok s e ∧ Meets step ok t es) (by simp [Meets, h])

@[simp]
theorem exec_nil (s : σ) :
  exec step s [] = some s
  := rfl

theorem exec_cons_eq_some {s t : σ} {e : ε} {es : List ε} :
  exec step s (e :: es) = some t ↔ ∃ r, step s e = some r ∧ exec step r es = some t
  := by
  simp only [exec, Option.bind_eq_some_iff]

/-- A run splits at every point into two runs. -/
theorem exec_append (s : σ) (es es' : List ε) :
  exec step s (es ++ es') = (exec step s es).bind fun t => exec step t es'
  := by
  induction es generalizing s with
  | nil => rfl
  | cons e es ih =>
      simp only [List.cons_append, exec]
      cases step s e with
      | none => rfl
      | some t => apply ih

/-- A run with one more step. -/
theorem exec_concat_eq_some {s t : σ} {es : List ε} {e : ε} :
  exec step s (es ++ [e]) = some t ↔ ∃ r, exec step s es = some r ∧ step r e = some t
  := by
  rw [exec_append, Option.bind_eq_some_iff]
  simp only [exec_cons_eq_some, exec_nil, Option.some_inj, exists_eq_right]

/-- A condition on a run splits with the run. -/
theorem meets_append {ok : σ → ε → Prop} {s t : σ} {es es' : List ε}
    (hok : Meets step ok s (es ++ es')) (hrun : exec step s es = some t) :
  Meets step ok s es ∧ Meets step ok t es'
  := by
  induction es generalizing s with
  | nil =>
      obtain rfl := Option.some.inj hrun
      exact ⟨trivial, hok⟩
  | cons e es ih =>
      obtain ⟨r, hr, hrun'⟩ := (exec_cons_eq_some step).mp hrun
      obtain ⟨hes, hes'⟩ := ih (hok.2 r hr) hrun'
      refine ⟨⟨hok.1, ?_⟩, hes'⟩
      intro q hq
      obtain rfl := Option.some.inj (hr.symm.trans hq)
      apply hes

/-- A run satisfies `ok` if and only if every event of it does in the state before it. -/
theorem meets_iff {ok : σ → ε → Prop} {s : σ} {es : List ε} :
  Meets step ok s es ↔
    ∀ pre e post t, es = pre ++ e :: post → exec step s pre = some t → ok t e
  := by
  constructor
  · rintro hok pre e post t rfl hrun
    exact (meets_append step hok hrun).2.1
  · intro h
    induction es generalizing s with
    | nil => trivial
    | cons e es ih =>
        constructor
        · apply h [] e es s rfl rfl
        · intro t ht
          apply ih
          rintro pre d post q rfl hrun
          apply h (e :: pre) d post q rfl
          exact (exec_cons_eq_some step).mpr ⟨t, ht, hrun⟩

variable {step}

/-- The event after a prefix of a run that satisfies `ok` satisfies it in the state reached. -/
theorem ok_of_meets {ok : σ → ε → Prop} {s t : σ} {es pre : List ε} {e : ε}
    (hok : Meets step ok s es) (hpre : pre ++ [e] <+: es) (hrun : exec step s pre = some t) :
  ok t e
  := by
  obtain ⟨post, rfl⟩ := hpre
  rw [List.append_assoc] at hok
  exact (meets_append step hok hrun).2.1

/-- The invariant rule: what holds at the start of a run and is preserved by every step that
satisfies `ok` holds at the end of a run all of whose steps satisfy `ok`. -/
theorem invariant_of_meets
    {ok : σ → ε → Prop} {Inv : σ → Prop}
    (hstep : ∀ s e t, Inv s → ok s e → step s e = some t → Inv t)
    {s t : σ} {es : List ε} (hs : Inv s) (hok : Meets step ok s es)
    (hrun : exec step s es = some t) :
  Inv t
  := by
  induction es generalizing s with
  | nil =>
      obtain rfl := Option.some.inj hrun
      apply hs
  | cons e es ih =>
      obtain ⟨r, hr, hrun'⟩ := (exec_cons_eq_some step).mp hrun
      apply ih (hstep s e r hs hok.1 hr) (hok.2 r hr) hrun'

/-- The invariant rule for every state reached along a run. -/
theorem invariant_of_meets_prefix
    {ok : σ → ε → Prop} {Inv : σ → Prop}
    (hstep : ∀ s e t, Inv s → ok s e → step s e = some t → Inv t)
    {s t : σ} {es pre : List ε} (hs : Inv s) (hok : Meets step ok s es) (hpre : pre <+: es)
    (hrun : exec step s pre = some t) :
  Inv t
  := by
  obtain ⟨post, rfl⟩ := hpre
  apply invariant_of_meets hstep hs (meets_append step hok hrun).1 hrun

/-- The invariant rule for an invariant that is about the events so far as well. -/
theorem invariant_of_events
    {ok : σ → ε → Prop} {Inv : List ε → σ → Prop}
    (hstep : ∀ pre s e t, Inv pre s → ok s e → step s e = some t → Inv (pre ++ [e]) t)
    {s t : σ} {es pre : List ε} (hs : Inv [] s) (hok : Meets step ok s es) (hpre : pre <+: es)
    (hrun : exec step s pre = some t) :
  Inv pre t
  := by
  induction pre using List.reverseRecOn generalizing t with
  | nil =>
      obtain rfl := Option.some.inj hrun
      apply hs
  | append_singleton pre e ih =>
      obtain ⟨r, hrun', hlast⟩ := (exec_concat_eq_some step).mp hrun
      have hr : Inv pre r := ih ((List.prefix_append pre [e]).trans hpre) hrun'
      exact hstep pre r e t hr (ok_of_meets hok hpre hrun') hlast

/-- Every run meets a condition every step meets. -/
theorem meets_of_forall {ok : σ → ε → Prop} (hok : ∀ s e, ok s e) (s : σ) (es : List ε) :
  Meets step ok s es
  := by
  induction es generalizing s with
  | nil => trivial
  | cons e es ih => exact ⟨hok s e, fun t _ => ih t⟩

/-- The invariant rule for unconditional invariants. -/
theorem invariant
    {Inv : σ → Prop} (hstep : ∀ s e t, Inv s → step s e = some t → Inv t)
    {s t : σ} {es : List ε} (hs : Inv s) (hrun : exec step s es = some t) :
  Inv t
  := by
  have hok : Meets step (fun _ _ => True) s es := meets_of_forall (fun _ _ => trivial) s es
  apply invariant_of_meets (fun s e t hs _ h => hstep s e t hs h) hs hok hrun

/-- The violation rule: if every step that breaks `ok` leads into `Bad`, and `Bad` is never
left, then a run with a step that breaks `ok` ends in `Bad`. -/
theorem bad_of_not_meets
    {ok : σ → ε → Prop} {Inv Bad : σ → Prop}
    (hinv : ∀ s e t, Inv s → step s e = some t → Inv t)
    (hbreak : ∀ s e t, Inv s → ¬ ok s e → step s e = some t → Bad t)
    (hbad : ∀ s e t, Inv s → Bad s → step s e = some t → Bad t)
    {s t : σ} {es : List ε} (hs : Inv s) (hrun : exec step s es = some t)
    (hnot : ¬ Meets step ok s es) :
  Bad t
  := by
  induction es generalizing s with
  | nil => exact absurd trivial hnot
  | cons e es ih =>
      obtain ⟨r, hr, hrun'⟩ := (exec_cons_eq_some step).mp hrun
      by_cases hok : ok s e
      · apply ih (hinv s e r hs hr) hrun'
        intro hmeets
        apply hnot
        use hok
        intro t' ht'
        obtain rfl := Option.some.inj (hr.symm.trans ht')
        apply hmeets
      · have hclosed : ∀ q d q', Inv q ∧ Bad q → step q d = some q' → Inv q' ∧ Bad q' := by
          rintro q d q' ⟨hq, hqb⟩ hd
          exact ⟨hinv q d q' hq hd, hbad q d q' hq hqb hd⟩
        exact (invariant hclosed ⟨hinv s e r hs hr, hbreak s e r hs hok hr⟩ hrun').2

/-- The exactness rule: if a step from a good state leads to a good state exactly if it satisfies
`ok`, then all states along a run from a good state are good exactly if all its steps satisfy
`ok`. -/
theorem forall_prefix_iff_meets
    {ok : σ → ε → Prop} {Inv Good : σ → Prop}
    (hinv : ∀ s e t, Inv s → step s e = some t → Inv t)
    (hgood : ∀ s e t, Inv s → Good s → step s e = some t → (Good t ↔ ok s e))
    {s : σ} {es : List ε} (hs : Inv s) (hsgood : Good s) (hrun : (exec step s es).isSome) :
  (∀ pre, pre <+: es → ∀ t, exec step s pre = some t → Good t) ↔ Meets step ok s es
  := by
  induction es generalizing s with
  | nil =>
      apply iff_of_true _ trivial
      intro pre hpre t ht
      obtain rfl := List.prefix_nil.mp hpre
      obtain rfl := Option.some.inj ht
      apply hsgood
  | cons e es ih =>
      obtain ⟨u, hu⟩ := Option.isSome_iff_exists.mp hrun
      obtain ⟨r, hr, hrun'⟩ := (exec_cons_eq_some step).mp hu
      have hrgood := hgood s e r hs hsgood hr
      constructor
      · intro h
        have hr' : Good r := by
          apply h [e] (List.prefix_append [e] es) r
          exact (exec_cons_eq_some step).mpr ⟨r, hr, rfl⟩
        refine ⟨hrgood.mp hr', ?_⟩
        intro r' hr''
        obtain rfl := Option.some.inj (hr.symm.trans hr'')
        apply (ih (hinv s e r hs hr) hr' (hrun' ▸ rfl)).mp
        intro pre hpre t ht
        apply h (e :: pre) ((List.prefix_cons_inj e).mpr hpre) t
        exact (exec_cons_eq_some step).mpr ⟨r, hr, ht⟩
      · rintro ⟨hok, hmeets⟩ pre hpre t ht
        have hr' := hrgood.mpr hok
        cases pre with
        | nil =>
            obtain rfl := Option.some.inj ht
            apply hsgood
        | cons d pre =>
            obtain ⟨rfl, hpre'⟩ := List.cons_prefix_cons.mp hpre
            obtain ⟨r', hr'', ht'⟩ := (exec_cons_eq_some step).mp ht
            obtain rfl := Option.some.inj (hr.symm.trans hr'')
            apply (ih (hinv s d r hs hr) hr' (hrun' ▸ rfl)).mpr (hmeets r hr) pre hpre' t ht'

/-- If every step decreases a measure, then no run is longer than the measure of its first
state. -/
theorem length_le_measure
    {μ : σ → ℕ} (hdec : ∀ s e t, step s e = some t → μ t < μ s)
    {s t : σ} {es : List ε} (hrun : exec step s es = some t) :
  es.length + μ t ≤ μ s
  := by
  induction es generalizing s with
  | nil =>
      obtain rfl := Option.some.inj hrun
      simp
  | cons e es ih =>
      obtain ⟨r, hr, hrun'⟩ := (exec_cons_eq_some step).mp hrun
      have hlt := hdec s e r hr
      have hle := ih hrun'
      rw [List.length_cons]
      omega

/-- A system that is never stuck before `Done`, and whose steps decrease a measure, has a run
into `Done` from every state. -/
theorem exists_exec_done
    {μ : σ → ℕ} {Done : σ → Prop} (hdec : ∀ s e t, step s e = some t → μ t < μ s)
    (henabled : ∀ s, ¬ Done s → ∃ e t, step s e = some t) (s : σ) :
  ∃ es t, exec step s es = some t ∧ Done t
  := by
  induction hn : μ s using Nat.strong_induction_on generalizing s with
  | _ n ih =>
      by_cases hdone : Done s
      · exact ⟨[], s, rfl, hdone⟩
      · obtain ⟨e, r, hr⟩ := henabled s hdone
        obtain ⟨es, t, ht, htd⟩ := ih (μ r) (hn ▸ hdec s e r hr) r rfl
        exact ⟨e :: es, t, (exec_cons_eq_some step).mpr ⟨r, hr, ht⟩, htd⟩

end Run
