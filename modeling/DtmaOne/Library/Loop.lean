import Mathlib.Data.List.Basic

/-!
# Loops whose body may fail

The body of a loop takes a state to the next state, or leaves the loop with a result, or fails.
`Loop.run body fuel s` makes at most `fuel` rounds.  The rules reduce a property of a whole loop to
an invariant and a measure of one round.
-/

universe u v

namespace Loop

variable {σ : Type u} {ρ : Type v}

/-- The loop with the body `body`, started in `s`, cut off after `fuel` rounds. -/
def run (body : σ → Option (σ ⊕ ρ)) : ℕ → σ → Option ρ
  | 0, _ => none
  | fuel + 1, s => (body s).bind fun
      | .inl t => run body fuel t
      | .inr r => some r

/-- What a round may end in: a state that satisfies `again`, or a result that satisfies `done`. -/
def Round (again : σ → Prop) (done : ρ → Prop) (o : Option (σ ⊕ ρ)) : Prop :=
  (∃ t, o = some (.inl t) ∧ again t) ∨ ∃ r, o = some (.inr r) ∧ done r

/-- The invariant carries a bound on the rounds to come.  If every round ends in a result or lowers
the bound, then the loop ends in a result. -/
theorem total
    {body : σ → Option (σ ⊕ ρ)} {inv : ℕ → σ → Prop} {post : ρ → Prop}
    (hround : ∀ k s, inv k s → Round (fun t => ∃ j < k, inv j t) post (body s))
    {k : ℕ} {s : σ} (hs : inv k s) {fuel : ℕ} (hfuel : k < fuel) :
  ∃ r, run body fuel s = some r ∧ post r
  := by
  induction fuel generalizing k s with
  | zero => exact absurd hfuel (Nat.not_lt_zero _)
  | succ fuel ih =>
      obtain ⟨t, ht, j, hj, hinv⟩ | ⟨r, hr, hpost⟩ := hround k s hs
      · obtain ⟨r, hr, hpost⟩ := ih hinv (by omega)
        use r
        simp [run, ht, hr, hpost]
      · use r
        simp [run, hr, hpost]

end Loop
