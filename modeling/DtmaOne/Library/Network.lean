import DtmaOne.Library.Run

/-!
# Two programs over a connection

A program sends blocks, waits for blocks of a given size, and ends with a result or fails.  Two
programs are joined by a connection that keeps the order of the bytes in both directions; a party
that has failed has closed its end, and then a block is cut off where the bytes end.

Which party takes the next step is open.  The steps of the two parties can be exchanged, so that all
schedules lead to the same end in the same number of steps.
-/

universe u v w

namespace Network

/-! ### Steps that can be exchanged -/

section Diamond

variable {σ : Type u} {ε : Type v} {step : σ → ε → Option σ}

/-- Two different events that are both enabled can follow each other in both orders, with the same
result. -/
def Diamond (step : σ → ε → Option σ) : Prop :=
  ∀ s e d t u, e ≠ d → step s e = some t → step s d = some u →
    ∃ r, step t d = some r ∧ step u e = some r

/-- No event is enabled. -/
def Terminal (step : σ → ε → Option σ) (s : σ) : Prop :=
  ∀ e, step s e = none

/-- Every run from `s` can be completed to a run that ends in `t`, and all of these have the same
length: no schedule gets stuck before `t`, ends elsewhere or goes on for ever. -/
def Settles (step : σ → ε → Option σ) (s t : σ) : Prop :=
  Terminal step t ∧ ∃ n, ∀ es u, Run.exec step s es = some u →
    ∃ es', Run.exec step u es' = some t ∧ es.length + es'.length = n

/-- Some run leads from `s` to `t`. -/
def Reaches (step : σ → ε → Option σ) (s t : σ) : Prop :=
  ∃ es, Run.exec step s es = some t

theorem Reaches.refl (s : σ) : Reaches step s s
  := ⟨[], rfl⟩

theorem Reaches.trans {s t r : σ} (h : Reaches step s t) (h' : Reaches step t r) :
  Reaches step s r
  := by
  obtain ⟨es, hes⟩ := h
  obtain ⟨es', hes'⟩ := h'
  use es ++ es'
  rw [Run.exec_append, hes]
  apply hes'

theorem Reaches.of_step {s t : σ} {e : ε} (h : step s e = some t) : Reaches step s t
  := ⟨[e], (Run.exec_cons_eq_some step).mpr ⟨t, h, rfl⟩⟩

/-- After a first step, a run that is one step shorter leads to the end of a complete run. -/
theorem Diamond.strip
    (hdiamond : Diamond step) {t : σ} (ht : Terminal step t) {s r : σ} {e : ε} {es : List ε}
    (he : step s e = some r) (hes : Run.exec step s es = some t) :
  ∃ es', Run.exec step r es' = some t ∧ es'.length + 1 = es.length
  := by
  induction es generalizing s r with
  | nil =>
      obtain rfl := Option.some.inj hes
      rw [ht e] at he
      cases he
  | cons d es ih =>
      obtain ⟨q, hd, hrest⟩ := (Run.exec_cons_eq_some step).mp hes
      by_cases hed : e = d
      · subst hed
        obtain rfl := Option.some.inj (hd.symm.trans he)
        exact ⟨es, hrest, rfl⟩
      · obtain ⟨p, hrp, hqp⟩ := hdiamond s e d r q hed he hd
        obtain ⟨es', hes', hlength⟩ := ih hqp hrest
        refine ⟨d :: es', (Run.exec_cons_eq_some step).mpr ⟨p, hrp, hes'⟩, ?_⟩
        rw [List.length_cons, List.length_cons, hlength]

/-- One complete run decides all of them. -/
theorem Diamond.settles
    (hdiamond : Diamond step) {s t : σ} (ht : Terminal step t) (hreach : Reaches step s t) :
  Settles step s t
  := by
  obtain ⟨ds, hds⟩ := hreach
  refine ⟨ht, ds.length, ?_⟩
  intro es
  induction es generalizing s ds with
  | nil =>
      intro u hu
      obtain rfl := Option.some.inj hu
      exact ⟨ds, hds, Nat.zero_add _⟩
  | cons e es ih =>
      intro u hu
      obtain ⟨r, hr, hrest⟩ := (Run.exec_cons_eq_some step).mp hu
      obtain ⟨ds', hds', hlength⟩ := hdiamond.strip ht hr hds
      obtain ⟨es', hes', hlength'⟩ := ih ds' hds' u hrest
      refine ⟨es', hes', ?_⟩
      rw [List.length_cons]
      omega

end Diamond

/-! ### The programs -/

/-- A program of one party: `recv` waits for a block of a given size and goes on with what has
arrived, which is less only if the connection was closed. -/
inductive Proc (β : Type u) (ρ : Type v) where
  | done (result : ρ)
  | fail
  | send (bytes : List β) (next : Proc β ρ)
  | recv (size : ℕ) (next : List β → Proc β ρ)

namespace Proc

variable {β : Type u} {ρ : Type v}

/-- The program has closed its end of the connection. -/
def failed : Proc β ρ → Bool
  | fail => true
  | _ => false

/-- The program has ended. -/
def ended : Proc β ρ → Bool
  | done _ => true
  | fail => true
  | _ => false

/-- One step of a program: the program after it, what remains of the bytes that have arrived, and
what is written. -/
def act (closed : Bool) : Proc β ρ → List β → Option (Proc β ρ × List β × List β)
  | done _, _ => none
  | fail, _ => none
  | send bytes next, inbox => some (next, inbox, bytes)
  | recv size next, inbox =>
      if size ≤ inbox.length ∨ closed then some (next (inbox.take size), inbox.drop size, [])
      else none

/-- What a program writes, how it ends and what it leaves unread, if it is alone with the bytes of
a connection that is then closed. -/
def feed : Proc β ρ → List β → List β × Option ρ × List β
  | done result, inbox => ([], some result, inbox)
  | fail, inbox => ([], none, inbox)
  | send bytes next, inbox =>
      let (written, last) := next.feed inbox
      (bytes ++ written, last)
  | recv size next, inbox => (next (inbox.take size)).feed (inbox.drop size)

theorem act_of_ended {p : Proc β ρ} (h : p.ended) (closed : Bool) (inbox : List β) :
  p.act closed inbox = none
  := by
  cases p with
  | done => rfl
  | fail => rfl
  | send => cases h
  | recv => cases h

theorem not_failed_of_act
    {p : Proc β ρ} {closed : Bool} {inbox : List β} {r : Proc β ρ × List β × List β}
    (h : p.act closed inbox = some r) :
  p.failed = false
  := by
  cases p with
  | fail => cases h
  | _ => rfl

/-- A step of a program remains the same one when more arrives from a peer that was not closed. -/
theorem act_append
    {p next : Proc β ρ} {inbox rest written : List β}
    (h : p.act false inbox = some (next, rest, written)) (closed : Bool) (more : List β) :
  p.act closed (inbox ++ more) = some (next, rest ++ more, written)
  := by
  cases p with
  | done => cases h
  | fail => cases h
  | send bytes next =>
      cases h
      rfl
  | recv size next =>
      rw [act, ite_eq_iff] at h
      obtain ⟨hsize, h⟩ | ⟨-, h⟩ := h
      · have hle : size ≤ inbox.length := by
          simpa using hsize
        cases h
        have hle' : size ≤ (inbox ++ more).length := by
          rw [List.length_append]
          omega
        rw [act, if_pos (Or.inl hle'), List.take_append_of_le_length hle,
          List.drop_append_of_le_length hle]
      · cases h

end Proc

/-! ### The connection -/

/-- Two programs, and the bytes under way to each of them. -/
structure Net (β : Type u) (ρ : Type v) (τ : Type w) where
  left : Proc β ρ
  right : Proc β τ
  toLeft : List β
  toRight : List β

/-- The parties of a connection. -/
inductive Party where
  | left
  | right
  deriving DecidableEq

namespace Net

variable {β : Type u} {ρ : Type v} {τ : Type w}

/-- A step of one of the parties. -/
def step (net : Net β ρ τ) : Party → Option (Net β ρ τ)
  | .left => (net.left.act net.right.failed net.toLeft).map fun (next, inbox, written) =>
      { net with left := next, toLeft := inbox, toRight := net.toRight ++ written }
  | .right => (net.right.act net.left.failed net.toRight).map fun (next, inbox, written) =>
      { net with right := next, toRight := inbox, toLeft := net.toLeft ++ written }

theorem step_left_eq_some {net after : Net β ρ τ} :
  net.step .left = some after ↔ ∃ next inbox written,
    net.left.act net.right.failed net.toLeft = some (next, inbox, written)
      ∧ after = ⟨next, net.right, inbox, net.toRight ++ written⟩
  := by
  simp only [step, Option.map_eq_some_iff, Prod.exists, eq_comm (a := after)]

theorem step_right_eq_some {net after : Net β ρ τ} :
  net.step .right = some after ↔ ∃ next inbox written,
    net.right.act net.left.failed net.toRight = some (next, inbox, written)
      ∧ after = ⟨net.left, next, net.toLeft ++ written, inbox⟩
  := by
  simp only [step, Option.map_eq_some_iff, Prod.exists, eq_comm (a := after)]

/-- The steps of the two parties can be exchanged. -/
theorem exchange
    {net l r : Net β ρ τ} (hl : net.step .left = some l) (hr : net.step .right = some r) :
  ∃ both, l.step .right = some both ∧ r.step .left = some both
  := by
  obtain ⟨p, inbox, written, hp, rfl⟩ := step_left_eq_some.mp hl
  obtain ⟨q, inbox', written', hq, rfl⟩ := step_right_eq_some.mp hr
  rw [Proc.not_failed_of_act hq] at hp
  rw [Proc.not_failed_of_act hp] at hq
  use ⟨p, q, inbox ++ written', inbox' ++ written⟩
  constructor
  · apply step_right_eq_some.mpr
    exact ⟨q, inbox' ++ written, written', Proc.act_append hq p.failed written, rfl⟩
  · apply step_left_eq_some.mpr
    exact ⟨p, inbox ++ written', written, Proc.act_append hp q.failed written', rfl⟩

theorem diamond : Diamond (step (β := β) (ρ := ρ) (τ := τ))
  := by
  intro s e d t u hne ht hu
  cases e with
  | left =>
      cases d with
      | left => exact absurd rfl hne
      | right => exact exchange ht hu
  | right =>
      cases d with
      | left =>
          obtain ⟨both, hboth, hboth'⟩ := exchange hu ht
          exact ⟨both, hboth', hboth⟩
      | right => exact absurd rfl hne

theorem terminal_of_ended {net : Net β ρ τ} (hl : net.left.ended) (hr : net.right.ended) :
  Terminal step net
  := by
  intro e
  cases e with
  | left => rw [step, Proc.act_of_ended hl, Option.map_none]
  | right => rw [step, Proc.act_of_ended hr, Option.map_none]

/-! ### The steps of a complete run -/

variable {p p' : Proc β ρ} {q q' : Proc β τ} {l r : List β}

theorem reaches_send_left (bytes : List β) :
  Reaches step ⟨.send bytes p, q, l, r⟩ ⟨p, q, l, r ++ bytes⟩
  := Reaches.of_step (e := Party.left) rfl

theorem reaches_send_right (bytes : List β) :
  Reaches step ⟨p, .send bytes q, l, r⟩ ⟨p, q, l ++ bytes, r⟩
  := Reaches.of_step (e := Party.right) rfl

/-- A block that has arrived is read. -/
theorem reaches_recv_left
    {size : ℕ} {next : List β → Proc β ρ} {inbox block rest : List β}
    (hinbox : inbox = block ++ rest) (hsize : block.length = size) :
  Reaches step ⟨.recv size next, q, inbox, r⟩ ⟨next block, q, rest, r⟩
  := by
  subst hinbox hsize
  apply Reaches.of_step (e := Party.left)
  apply step_left_eq_some.mpr
  refine ⟨next block, rest, [], ?_, by rw [List.append_nil]⟩
  rw [Proc.act, List.take_left, List.drop_left, if_pos]
  left
  rw [List.length_append]
  apply Nat.le_add_right

theorem reaches_recv_right
    {size : ℕ} {next : List β → Proc β τ} {inbox block rest : List β}
    (hinbox : inbox = block ++ rest) (hsize : block.length = size) :
  Reaches step ⟨p, .recv size next, l, inbox⟩ ⟨p, next block, l, rest⟩
  := by
  subst hinbox hsize
  apply Reaches.of_step (e := Party.right)
  apply step_right_eq_some.mpr
  refine ⟨next block, rest, [], ?_, by rw [List.append_nil]⟩
  rw [Proc.act, List.take_left, List.drop_left, if_pos]
  left
  rw [List.length_append]
  apply Nat.le_add_right

/-- A block that is cut off is read when the peer has closed its end. -/
theorem reaches_recv_left_closed {size : ℕ} {next : List β → Proc β ρ} (hsize : l.length ≤ size) :
  Reaches step ⟨.recv size next, (.fail : Proc β τ), l, r⟩ ⟨next l, .fail, [], r⟩
  := by
  apply Reaches.of_step (e := Party.left)
  apply step_left_eq_some.mpr
  refine ⟨next l, [], [], ?_, by rw [List.append_nil]⟩
  rw [Proc.act, List.take_of_length_le hsize, List.drop_of_length_le hsize]
  exact if_pos (Or.inr rfl)

theorem reaches_recv_right_closed {size : ℕ} {next : List β → Proc β τ} (hsize : r.length ≤ size) :
  Reaches step ⟨(.fail : Proc β ρ), .recv size next, l, r⟩ ⟨.fail, next r, l, []⟩
  := by
  apply Reaches.of_step (e := Party.right)
  apply step_right_eq_some.mpr
  refine ⟨next r, [], [], ?_, by rw [List.append_nil]⟩
  rw [Proc.act, List.take_of_length_le hsize, List.drop_of_length_le hsize]
  exact if_pos (Or.inr rfl)

end Net

end Network
