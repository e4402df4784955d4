import Mathlib.Data.List.Basic

/-!
# Computations with effects

A sequential body that acts on a state it shares with others is a list of effects, in the
order in which they happen, and an outcome: a value, or an exception that ends the body.  What
the body reads from its environment are its arguments, so the effects are known as soon as the
body starts, while they happen one at a time.

`Emit ω ε α` is the type of such bodies.  They compose in order, and an exception drops what
would follow.
-/

/-- A body with effects in `ω`, exceptions in `ε` and values in `α`. -/
structure Emit (ω ε α : Type) where
  writes : List ω
  result : Except ε α

namespace Emit

variable {ω ε α β : Type}

instance : Monad (Emit ω ε) where
  pure a := ⟨[], .ok a⟩
  bind m f :=
    match m.result with
    | .ok a => ⟨m.writes ++ (f a).writes, (f a).result⟩
    | .error e => ⟨m.writes, .error e⟩

/-- A single effect. -/
def tell (w : ω) : Emit ω ε Unit := ⟨[w], .ok ()⟩

/-- The effects of a list, in order. -/
def tellAll (ws : List ω) : Emit ω ε Unit := ⟨ws, .ok ()⟩

/-- An exception. -/
def raise (e : ε) : Emit ω ε α := ⟨[], .error e⟩

/-- A call that answers with a value or an exception, and has no effect. -/
def answer (r : Except ε α) : Emit ω ε α := ⟨[], r⟩

/-- `runCatching`: the outcome of a body as a value. -/
def runCatching (m : Emit ω ε α) : Emit ω ε (Except ε α) := ⟨m.writes, .ok m.result⟩

@[simp]
theorem writes_pure (a : α) :
  (pure a : Emit ω ε α).writes = []
  := rfl

@[simp]
theorem result_pure (a : α) :
  (pure a : Emit ω ε α).result = .ok a
  := rfl

@[simp]
theorem writes_tell (w : ω) :
  (tell w : Emit ω ε Unit).writes = [w]
  := rfl

@[simp]
theorem result_tell (w : ω) :
  (tell w : Emit ω ε Unit).result = .ok ()
  := rfl

@[simp]
theorem writes_tellAll (ws : List ω) :
  (tellAll ws : Emit ω ε Unit).writes = ws
  := rfl

@[simp]
theorem result_tellAll (ws : List ω) :
  (tellAll ws : Emit ω ε Unit).result = .ok ()
  := rfl

@[simp]
theorem writes_raise (e : ε) :
  (raise e : Emit ω ε α).writes = []
  := rfl

@[simp]
theorem result_raise (e : ε) :
  (raise e : Emit ω ε α).result = .error e
  := rfl

@[simp]
theorem writes_answer (r : Except ε α) :
  (answer r : Emit ω ε α).writes = []
  := rfl

@[simp]
theorem result_answer (r : Except ε α) :
  (answer r : Emit ω ε α).result = r
  := rfl

@[simp]
theorem writes_runCatching (m : Emit ω ε α) :
  m.runCatching.writes = m.writes
  := rfl

@[simp]
theorem result_runCatching (m : Emit ω ε α) :
  m.runCatching.result = .ok m.result
  := rfl

/-- After a value the body goes on. -/
theorem bind_of_ok {m : Emit ω ε α} {a : α} (h : m.result = .ok a) (f : α → Emit ω ε β) :
  m >>= f = ⟨m.writes ++ (f a).writes, (f a).result⟩
  := by
  change (match m.result with
    | .ok a => (⟨m.writes ++ (f a).writes, (f a).result⟩ : Emit ω ε β)
    | .error e => ⟨m.writes, .error e⟩) = _
  rw [h]

/-- After an exception nothing follows. -/
theorem bind_of_error {m : Emit ω ε α} {e : ε} (h : m.result = .error e) (f : α → Emit ω ε β) :
  m >>= f = ⟨m.writes, .error e⟩
  := by
  change (match m.result with
    | .ok a => (⟨m.writes ++ (f a).writes, (f a).result⟩ : Emit ω ε β)
    | .error e => ⟨m.writes, .error e⟩) = _
  rw [h]

/-- A composition comes to a value exactly if both parts do. -/
theorem result_bind_eq_ok {m : Emit ω ε α} {f : α → Emit ω ε β} {b : β} :
  (m >>= f).result = .ok b ↔ ∃ a, m.result = .ok a ∧ (f a).result = .ok b
  := by
  cases hr : m.result with
  | ok a =>
      rw [bind_of_ok hr]
      simp
  | error e =>
      rw [bind_of_error hr]
      simp

/-- A composition after a part without a value of its own. -/
theorem result_andThen_eq_ok {m : Emit ω ε Unit} {f : Unit → Emit ω ε β} {b : β} :
  (m >>= f).result = .ok b ↔ m.result = .ok () ∧ (f ()).result = .ok b
  := by
  rw [result_bind_eq_ok]
  constructor
  · rintro ⟨⟨⟩, h⟩
    apply h
  · intro h
    exact ⟨(), h⟩

/-- The body ends as `m'` does, after effects of its own. -/
def EndsAs (m m' : Emit ω ε α) : Prop :=
  ∃ ws, m.writes = ws ++ m'.writes ∧ m.result = m'.result

theorem EndsAs.trans {m m' m'' : Emit ω ε α} (h : m.EndsAs m') (h' : m'.EndsAs m'') :
  m.EndsAs m''
  := by
  obtain ⟨ws, hwrites, hresult⟩ := h
  obtain ⟨ws', hwrites', hresult'⟩ := h'
  use ws ++ ws'
  rw [hwrites, hwrites', hresult, hresult', List.append_assoc]
  exact ⟨rfl, rfl⟩

/-- A body that has come to a value ends as what follows. -/
theorem endsAs_bind {m : Emit ω ε α} {a : α} (h : m.result = .ok a) (f : α → Emit ω ε β) :
  (m >>= f).EndsAs (f a)
  := by
  rw [bind_of_ok h]
  exact ⟨m.writes, rfl, rfl⟩

/-- What every effect of two bodies satisfies, every effect of their composition satisfies. -/
theorem forall_writes_bind {p : ω → Prop} {m : Emit ω ε α} {f : α → Emit ω ε β}
    (hm : ∀ w ∈ m.writes, p w) (hf : ∀ a, ∀ w ∈ (f a).writes, p w) :
  ∀ w ∈ (m >>= f).writes, p w
  := by
  cases hr : m.result with
  | ok a =>
      rw [bind_of_ok hr]
      intro w hw
      rw [List.mem_append] at hw
      obtain hw | hw := hw
      · apply hm w hw
      · apply hf a w hw
  | error e =>
      rw [bind_of_error hr]
      apply hm

/-- The body raises, or has the effect `w`. -/
def RaisesOr (w : ω) (m : Emit ω ε α) : Prop :=
  (∃ e, m.result = .error e) ∨ w ∈ m.writes

theorem not_raisesOr_pure (w : ω) (a : α) :
  ¬ (pure a : Emit ω ε α).RaisesOr w
  := by
  rintro (⟨e, he⟩ | hw)
  · cases he
  · cases hw

theorem raisesOr_tell {w w' : ω} :
  (tell w' : Emit ω ε Unit).RaisesOr w ↔ w = w'
  := by
  constructor
  · rintro (⟨e, he⟩ | hw)
    · cases he
    · apply List.mem_singleton.mp hw
  · intro hw
    exact Or.inr (List.mem_singleton.mpr hw)

/-- A body without the effect raises, or has what follows do the rest. -/
theorem raisesOr_bind {w : ω} {m : Emit ω ε α} {f : α → Emit ω ε β} (hw : w ∉ m.writes) :
  (m >>= f).RaisesOr w ↔ ∀ a, m.result = .ok a → (f a).RaisesOr w
  := by
  cases hr : m.result with
  | ok a =>
      rw [bind_of_ok hr, RaisesOr, List.mem_append, or_iff_right hw]
      constructor
      · rintro hf b ⟨⟩
        apply hf
      · intro hf
        apply hf a rfl
  | error e =>
      rw [bind_of_error hr]
      apply iff_of_true (Or.inl ⟨e, rfl⟩)
      rintro a ⟨⟩

theorem raisesOr_answer_bind {w : ω} {r : Except ε α} {f : α → Emit ω ε β} :
  (answer r >>= f).RaisesOr w ↔ ∀ a, r = .ok a → (f a).RaisesOr w
  := raisesOr_bind List.not_mem_nil

/-- After the effect it does not matter what follows. -/
theorem raisesOr_tell_bind (w : ω) (f : Unit → Emit ω ε β) :
  (tell w >>= f).RaisesOr w
  := by
  rw [bind_of_ok (result_tell w)]
  exact Or.inr (List.mem_append_left _ (List.mem_singleton.mpr rfl))

end Emit
