import Mathlib.Data.List.Induction

/-!
# Conditions along a log

A log lists what has happened, the oldest first.  `Log.Along P l` says that every entry of the log
`l` satisfies `P` after the entries before it.
-/

namespace Log

variable {α : Type} {P : List α → α → Prop}

/-- Every entry of the log satisfies `P`, after `base` and the entries before it. -/
def AlongFrom (P : List α → α → Prop) : List α → List α → Prop
  | _, [] => True
  | base, a :: l => P base a ∧ AlongFrom P (base ++ [a]) l

/-- Every entry of the log satisfies `P`, after the entries before it. -/
def Along (P : List α → α → Prop) (l : List α) : Prop :=
  AlongFrom P [] l

theorem alongFrom_append (base l l' : List α) :
  AlongFrom P base (l ++ l') ↔ AlongFrom P base l ∧ AlongFrom P (base ++ l) l'
  := by
  induction l generalizing base with
  | nil => simp [AlongFrom]
  | cons a l ih => simp [AlongFrom, ih, and_assoc]

theorem alongFrom_of_forall {l : List α} (h : ∀ a ∈ l, ∀ base, P base a) (base : List α) :
  AlongFrom P base l
  := by
  induction l generalizing base with
  | nil => trivial
  | cons a l ih =>
      constructor
      · apply h a List.mem_cons_self
      · apply ih
        intro b hb
        apply h b (List.mem_cons_of_mem a hb)

/-- A log splits at every point. -/
theorem along_append (l l' : List α) :
  Along P (l ++ l') ↔ Along P l ∧ AlongFrom P l l'
  := alongFrom_append [] l l'

/-- One more entry. -/
theorem along_concat (l : List α) (a : α) :
  Along P (l ++ [a]) ↔ Along P l ∧ P l a
  := by
  rw [along_append, AlongFrom, AlongFrom, and_true]

/-- The condition on an entry in the middle. -/
theorem Along.at {pre post : List α} {a : α} (h : Along P (pre ++ a :: post)) :
  P pre a
  := ((along_append _ _).mp h).2.1

/-- The condition along a log is the condition on each of its entries. -/
theorem along_iff {l : List α} :
  Along P l ↔ ∀ pre a post, l = pre ++ a :: post → P pre a
  := by
  constructor
  · rintro h pre a post rfl
    apply h.at
  · intro h
    induction l using List.reverseRecOn with
    | nil => trivial
    | append_singleton l a ih =>
        rw [along_concat]
        constructor
        · apply ih
          rintro pre b post rfl
          apply h pre b (post ++ [a])
          simp
        · apply h l a [] rfl

end Log
