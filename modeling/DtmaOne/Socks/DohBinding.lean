import DtmaOne.Library.Run
import Mathlib.Data.List.Basic

/-!
# The client of the DoH resolver

`DohResolver` has one client for the whole process.  `bind` replaces it, unless it is already bound
to the same `VpnService`; its sockets are given to `protect` of the service it is bound to.
Three callers work on it at the same time:

* the constructor of `LocalSocks5Server` binds it to the service of the server;
* the relays of a server call `resolveWire`, which takes the client that is there, or binds one
  without service;
* the diagnostics of the connection test bind it to no service and then call `resolveWire`.

The reads and writes of `boundVpn` and `client` are single steps.  The services are of an arbitrary
type `V`.

Neither does anyone look at what `protect` returns, nor does the diagnostics restore the client.
-/

namespace Socks.DohClient

variable {V : Type*} [DecidableEq V]

/-! ### Binding the client -/

/-- The fields `boundVpn` and `client`; a client is given by the service of its socket factory. -/
structure Binding (V : Type*) where
  boundVpn : Option V := none
  client : Option (Option V) := none
  deriving DecidableEq

/-- The next access in `bind`. -/
inductive BindPc where
  | readVpn
  | readClient
  | writeVpn
  | writeClient
  deriving DecidableEq, Repr

/-- One access of `bind(vpn)`, and the next one unless `bind` returns. -/
def Binding.bind (b : Binding V) (vpn : Option V) : BindPc → Binding V × Option BindPc
  | .readVpn => (b, some (if b.boundVpn = vpn then .readClient else .writeVpn))
  | .readClient => (b, if b.client.isSome then none else some .writeVpn)
  | .writeVpn => ({ b with boundVpn := vpn }, some .writeClient)
  | .writeClient => ({ b with client := some vpn }, none)

/-! ### The calls -/

/-- Who calls the resolver. -/
inductive Caller (V : Type*) where
  /-- The constructor of `LocalSocks5Server` -/
  | server (vpn : V)
  /-- A relay of a server with the service -/
  | relay (vpn : V)
  /-- The connection test -/
  | diagnostics
  deriving DecidableEq

/-- The service a caller binds. -/
def Caller.vpn : Caller V → Option V
  | .server vpn => some vpn
  | .relay _ | .diagnostics => none

/-- How far a call is. -/
inductive Pc (V : Type*) where
  /-- The caller is in `bind`. -/
  | bind (pc : BindPc)
  /-- `resolveWire` is about to read `client`. -/
  | readClient
  /-- `resolveWire` has found no client and is in `bind(null)`. -/
  | rebind (pc : BindPc)
  /-- `client!!` -/
  | rereadClient
  /-- `resolveWire` uses a client. -/
  | resolve (http : Option V)
  /-- The constructor has returned. -/
  | constructed
  | done
  deriving DecidableEq

/-- A call. -/
structure Call (V : Type*) where
  caller : Caller V
  pc : Pc V
  deriving DecidableEq

namespace Call

/-- Where a caller goes on after its own `bind`. -/
def afterBind (c : Call V) : Pc V :=
  match c.caller with
  | .server _ => .constructed
  | .relay _ | .diagnostics => .readClient

/-- The next access of a call to the fields. -/
def advance (c : Call V) (b : Binding V) : Option (Binding V × Pc V) :=
  match c.pc with
  | .bind pc => some ((b.bind c.caller.vpn pc).map id fun next => next.elim c.afterBind .bind)
  | .readClient => some (b, b.client.elim (.rebind .readVpn) .resolve)
  | .rebind pc => some ((b.bind none pc).map id fun next => next.elim .rereadClient .rebind)
  | .rereadClient => some (b, b.client.elim .done .resolve)
  | .resolve _ | .constructed | .done => none

/-- A server is being created. -/
def Creates (c : Call V) : Prop :=
  c.pc ≠ .done ∧ ∃ vpn, c.caller = .server vpn

instance : (c : Call V) → Decidable c.Creates
  | ⟨.server vpn, pc⟩ => decidable_of_iff (pc ≠ .done) ⟨fun h => ⟨h, vpn, rfl⟩, fun h => h.1⟩
  | ⟨.relay _, _⟩ => isFalse (by rintro ⟨-, vpn, ⟨⟩⟩)
  | ⟨.diagnostics, _⟩ => isFalse (by rintro ⟨-, vpn, ⟨⟩⟩)

end Call

/-! ### The process -/

/-- A socket the client has opened. -/
structure Opened (V : Type*) where
  /-- The services of the servers that are running at this time. -/
  during : List V
  /-- The service whose `protect` has been called successfully. -/
  protectedBy : Option V
  deriving DecidableEq

/-- The process. -/
structure Process (V : Type*) where
  binding : Binding V := {}
  /-- All calls in the order in which they began. -/
  calls : List (Call V) := []
  /-- The services of the servers that are running. -/
  running : List V := []
  opened : List (Opened V) := []

/-- A step of the process. -/
inductive DohEvent (V : Type*) where
  | call (caller : Caller V)
  /-- A call makes its next access. -/
  | advance (i : ℕ)
  /-- A server that has been created is started, or its port cannot be bound. -/
  | start (i : ℕ) (succeeds : Bool)
  /-- The client of a call opens a socket, and `protect`, if it is called, returns `protects`. -/
  | openSocket (i : ℕ) (protects : Bool)
  /-- `resolveWire` returns, from the cache or after its requests. -/
  | finish (i : ℕ)
  | stop (vpn : V)
  deriving DecidableEq

namespace Process

/-- A call goes on. -/
def setPc (s : Process V) (i : ℕ) (c : Call V) (pc : Pc V) : Process V :=
  { s with calls := s.calls.set i { c with pc := pc } }

/-- A call begins. -/
def begins (s : Process V) (caller : Caller V) (pc : Pc V) : Process V :=
  { s with calls := s.calls ++ [⟨caller, pc⟩] }

/-- One step. -/
def step (s : Process V) : DohEvent V → Option (Process V)
  | .call (.server vpn) => some (s.begins (.server vpn) (.bind .readVpn))
  | .call (.relay vpn) =>
      if vpn ∈ s.running then some (s.begins (.relay vpn) .readClient) else none
  | .call .diagnostics => some (s.begins .diagnostics (.bind .readVpn))
  | .advance i =>
      s.calls[i]?.bind fun c =>
        (c.advance s.binding).map fun (b, pc) => { s.setPc i c pc with binding := b }
  | .start i succeeds =>
      s.calls[i]?.bind fun c =>
        match c with
        | ⟨.server vpn, .constructed⟩ =>
            some
              { s.setPc i c .done with
                running := if succeeds then vpn :: s.running else s.running }
        | _ => none
  | .openSocket i protects =>
      s.calls[i]?.bind fun c =>
        match c.pc with
        | .resolve http =>
            some
              { s with
                opened := s.opened ++ [⟨s.running, if protects then http else none⟩] }
        | _ => none
  | .finish i =>
      s.calls[i]?.bind fun c =>
        match c.pc with
        | .readClient | .resolve _ => some (s.setPc i c .done)
        | _ => none
  | .stop vpn => if vpn ∈ s.running then some { s with running := s.running.erase vpn } else none

/-- While a server is running, every socket the client opens is protected by its service. -/
def Protected (s : Process V) : Prop :=
  ∀ o ∈ s.opened, ∀ vpn ∈ o.during, o.protectedBy = some vpn

/-- A server is created when no other one is being created, and all running servers have the same
service or, if there are none, no call is left; the diagnostics is called when no server is running
or being created; and `protect` succeeds while a server is running. -/
def Undisturbed (s : Process V) : DohEvent V → Prop
  | .call (.server vpn) =>
      (∀ w ∈ s.running, w = vpn) ∧ (∀ c ∈ s.calls, ¬ c.Creates) ∧
        (s.running = [] → ∀ c ∈ s.calls, c.pc = .done)
  | .call .diagnostics => s.running = [] ∧ ∀ c ∈ s.calls, ¬ c.Creates
  | .openSocket _ protects => s.running ≠ [] → protects = true
  | _ => True

instance (s : Process V) : (e : DohEvent V) → Decidable (s.Undisturbed e)
  | .call (.server vpn) =>
      inferInstanceAs (Decidable ((∀ w ∈ s.running, w = vpn) ∧ (∀ c ∈ s.calls, ¬ c.Creates) ∧
        (s.running = [] → ∀ c ∈ s.calls, c.pc = .done)))
  | .call .diagnostics =>
      inferInstanceAs (Decidable (s.running = [] ∧ ∀ c ∈ s.calls, ¬ c.Creates))
  | .openSocket _ protects =>
      inferInstanceAs (Decidable (s.running ≠ [] → protects = true))
  | .call (.relay _) | .advance _ | .start _ _ | .finish _ | .stop _ => isTrue trivial

end Process

/-! ### The client between the steps -/

/-- The client is the one of the service that is noted. -/
def Binding.Consistent (b : Binding V) : Prop :=
  ∀ vpn, b.client = some vpn → b.boundVpn = vpn

/-- A call is about to replace the client. -/
def Call.Writes (c : Call V) : Prop :=
  c.pc = .bind .writeClient ∨ c.pc = .rebind .writeClient

/-- A call that neither leaves the client of a service nor uses another one. -/
def Call.Keeps (vpn : V) : Call V → Prop
  | ⟨.server w, .bind .readVpn⟩ | ⟨.server w, .bind .readClient⟩ | ⟨.server w, .constructed⟩ =>
      w = vpn
  | ⟨_, .readClient⟩ | ⟨_, .done⟩ => True
  | ⟨_, .resolve http⟩ => http = some vpn
  | _ => False

/-- What is known about the fields while the client is being bound to a service. -/
def Binding.Stage (b : Binding V) (vpn : V) : BindPc → Prop
  | .readVpn => b.Consistent
  | .readClient => b.boundVpn = some vpn ∧ b.Consistent
  | .writeVpn => True
  | .writeClient => b.boundVpn = some vpn

namespace Process

/-- No server is running or being created. -/
structure Free (s : Process V) : Prop where
  running : s.running = []
  creates : ∀ c ∈ s.calls, ¬ c.Creates
  writes : ∀ c ∈ s.calls, c.Writes → s.binding.boundVpn = none
  consistent : s.binding.Consistent ∨ ∃ c ∈ s.calls, c.Writes

/-- The first server of a service is being created. -/
structure Creating (s : Process V) (vpn : V) : Prop where
  running : s.running = []
  only : ∃ (i : ℕ) (pc : BindPc), s.calls[i]? = some ⟨.server vpn, .bind pc⟩ ∧
    s.binding.Stage vpn pc ∧ ∀ j c, s.calls[j]? = some c → j ≠ i → c.pc = .done

/-- The client is the one of a service. -/
structure Bound (s : Process V) (vpn : V) : Prop where
  running : ∀ w ∈ s.running, w = vpn
  binding : s.binding = ⟨some vpn, some (some vpn)⟩
  keeps : ∀ c ∈ s.calls, c.Keeps vpn

/-- What holds between the steps of an undisturbed run. -/
def Sound (s : Process V) : Prop :=
  s.Protected ∧ (s.Free ∨ (∃ vpn, s.Creating vpn) ∨ ∃ vpn, s.Bound vpn)

end Process

/-! ### One access -/

theorem mem_set_of_ne {α : Type*} {l : List α} {i : ℕ} {a b d : α} (ha : l[i]? = some a)
    (hd : d ∈ l) (hne : d ≠ a) :
  d ∈ l.set i b
  := by
  obtain ⟨j, hj⟩ := List.mem_iff_getElem?.mp hd
  apply List.mem_iff_getElem?.mpr
  use j
  rw [List.getElem?_set_ne, hj]
  rintro rfl
  exact hne (Option.some.inj (hj.symm.trans ha))

/-- An access of `bind` is a read, or a write of one of the fields. -/
theorem Binding.bind_cases (b : Binding V) (vpn : Option V) (pc : BindPc) :
  (∃ next, b.bind vpn pc = (b, next) ∧ pc ≠ .writeClient ∧ next ≠ some .writeClient) ∨
    (b.bind vpn pc = ({ b with boundVpn := vpn }, some .writeClient) ∧ pc ≠ .writeClient) ∨
    (b.bind vpn pc = ({ b with client := some vpn }, none) ∧ pc = .writeClient)
  := by
  cases pc with
  | readVpn =>
      left
      use if b.boundVpn = vpn then some .readClient else some .writeVpn
      split_ifs with heq
      · simp [Binding.bind, heq]
      · simp [Binding.bind, heq]
  | readClient =>
      left
      use if b.client.isSome then none else some .writeVpn
      split_ifs with heq
      · simp [Binding.bind, heq]
      · simp [Binding.bind, heq]
  | writeVpn => exact .inr (.inl ⟨rfl, by decide⟩)
  | writeClient => exact .inr (.inr ⟨rfl, rfl⟩)

/-- What an access of a call does to the fields, if it binds no service. -/
def Call.Unbinds (c : Call V) (b b' : Binding V) (pc : Pc V) : Prop :=
  (b' = b ∧ ¬ c.Writes ∧ ¬ (⟨c.caller, pc⟩ : Call V).Writes) ∨
    (b' = { b with boundVpn := none } ∧ ¬ c.Writes ∧ (⟨c.caller, pc⟩ : Call V).Writes) ∨
    (b' = { b with client := some none } ∧ c.Writes ∧ ¬ (⟨c.caller, pc⟩ : Call V).Writes)

/-- `bind(null)`, where `wrap` says that the call is in it, and the call goes on at `after`. -/
theorem Call.unbinds_bind {caller : Caller V} {b b' : Binding V} {p : BindPc} {after pc : Pc V}
    (wrap : BindPc → Pc V)
    (hwrap : ∀ q, (⟨caller, wrap q⟩ : Call V).Writes ↔ q = .writeClient)
    (hafter : ¬ (⟨caller, after⟩ : Call V).Writes)
    (h : (b.bind none p).map id (fun next => next.elim after wrap) = (b', pc)) :
  Call.Unbinds ⟨caller, wrap p⟩ b b' pc
  := by
  obtain ⟨next, heq, hp, hnext⟩ | ⟨heq, hp⟩ | ⟨heq, rfl⟩ := b.bind_cases none p
  · rw [heq] at h
    obtain ⟨rfl, rfl⟩ := Prod.mk.inj h
    refine .inl ⟨rfl, fun hwrites => hp ((hwrap p).mp hwrites), ?_⟩
    cases next with
    | none => exact hafter
    | some q =>
        intro hwrites
        apply hnext
        rw [(hwrap q).mp hwrites]
  · rw [heq] at h
    obtain ⟨rfl, rfl⟩ := Prod.mk.inj h
    exact .inr (.inl ⟨rfl, fun hwrites => hp ((hwrap p).mp hwrites), (hwrap _).mpr rfl⟩)
  · rw [heq] at h
    obtain ⟨rfl, rfl⟩ := Prod.mk.inj h
    exact .inr (.inr ⟨rfl, (hwrap _).mpr rfl, hafter⟩)

/-- A call that does not create a server binds no service. -/
theorem Call.unbinds_of_advance {c : Call V} {b b' : Binding V} {pc : Pc V} (hc : ¬ c.Creates)
    (h : c.advance b = some (b', pc)) :
  c.Unbinds b b' pc
  := by
  obtain ⟨caller, old⟩ := c
  cases old with
  | bind p =>
      have hserver : ∀ vpn, caller ≠ .server vpn := by
        rintro vpn rfl
        exact hc ⟨by simp, vpn, rfl⟩
      have hvpn : caller.vpn = none := by
        cases caller with
        | server vpn => exact absurd rfl (hserver vpn)
        | relay vpn => rfl
        | diagnostics => rfl
      have hafter : (⟨caller, .bind p⟩ : Call V).afterBind = .readClient := by
        cases caller with
        | server vpn => exact absurd rfl (hserver vpn)
        | relay vpn => rfl
        | diagnostics => rfl
      simp only [advance, hvpn, hafter, Option.some.injEq] at h
      apply unbinds_bind .bind _ _ h
      · simp [Writes]
      · simp [Writes]
  | rebind p =>
      simp only [advance, Option.some.injEq] at h
      apply unbinds_bind .rebind _ _ h
      · simp [Writes]
      · simp [Writes]
  | readClient =>
      obtain ⟨rfl, rfl⟩ := Prod.mk.inj (Option.some.inj h)
      left
      cases b.client <;> simp [Writes]
  | rereadClient =>
      obtain ⟨rfl, rfl⟩ := Prod.mk.inj (Option.some.inj h)
      left
      cases b.client <;> simp [Writes]
  | resolve http => cases h
  | constructed => cases h
  | done => cases h

omit [DecidableEq V] in
theorem Call.keeps_of_done {c : Call V} {vpn : V} (h : c.pc = .done) :
  c.Keeps vpn
  := by
  obtain ⟨caller, pc⟩ := c
  obtain rfl : pc = .done := h
  cases caller <;> trivial

/-- A call that keeps the client of a service goes on so. -/
theorem Call.keeps_advance {c : Call V} {vpn : V} {b : Binding V} {pc : Pc V}
    (hkeeps : c.Keeps vpn) (h : c.advance ⟨some vpn, some (some vpn)⟩ = some (b, pc)) :
  b = ⟨some vpn, some (some vpn)⟩ ∧ (⟨c.caller, pc⟩ : Call V).Keeps vpn
  := by
  obtain ⟨caller, old⟩ := c
  cases old with
  | bind p =>
      obtain ⟨rfl, hp⟩ : caller = .server vpn ∧ (p = .readVpn ∨ p = .readClient) := by
        cases caller <;> cases p <;> simp_all [Keeps]
      obtain rfl | rfl := hp
      · simp only [advance, Binding.bind, Caller.vpn, if_true, Option.some.injEq] at h
        obtain ⟨rfl, rfl⟩ := Prod.mk.inj h
        exact ⟨rfl, rfl⟩
      · obtain ⟨rfl, rfl⟩ := Prod.mk.inj (Option.some.inj h)
        exact ⟨rfl, rfl⟩
  | readClient =>
      obtain ⟨rfl, rfl⟩ := Prod.mk.inj (Option.some.inj h)
      refine ⟨rfl, ?_⟩
      cases caller <;> rfl
  | rebind p => cases caller <;> cases hkeeps
  | rereadClient => cases caller <;> cases hkeeps
  | resolve http => cases h
  | constructed => cases h
  | done => cases h

omit [DecidableEq V] in
theorem Call.Keeps.not_writes {c : Call V} {vpn : V} (hkeeps : c.Keeps vpn) :
  ¬ c.Writes
  := by
  obtain ⟨caller, pc⟩ := c
  rintro (hpc | hpc)
  · obtain rfl : pc = .bind .writeClient := hpc
    cases caller <;> cases hkeeps
  · obtain rfl : pc = .rebind .writeClient := hpc
    cases caller <;> cases hkeeps

omit [DecidableEq V] in
theorem Call.Keeps.resolve {c : Call V} {vpn : V} {http : Option V} (hkeeps : c.Keeps vpn)
    (hpc : c.pc = .resolve http) :
  http = some vpn
  := by
  obtain ⟨caller, pc⟩ := c
  obtain rfl : pc = .resolve http := hpc
  cases caller <;> exact hkeeps

theorem Call.pc_ne_done_of_advance {c : Call V} {b : Binding V} {r : Binding V × Pc V}
    (h : c.advance b = some r) :
  c.pc ≠ .done
  := by
  intro hdone
  simp [advance, hdone] at h

/-- An access of the `bind` of the first server of a service. -/
theorem Binding.stage_bind {b : Binding V} {vpn : V} {p : BindPc} (hstage : b.Stage vpn p) :
  (∃ b' q, b.bind (some vpn) p = (b', some q) ∧ b'.Stage vpn q) ∨
    b.bind (some vpn) p = (⟨some vpn, some (some vpn)⟩, none)
  := by
  obtain ⟨bound, client⟩ := b
  cases p with
  | readVpn =>
      left
      by_cases hbound : bound = some vpn
      · exact ⟨⟨bound, client⟩, .readClient, by simp [Binding.bind, hbound], hbound, hstage⟩
      · exact ⟨⟨bound, client⟩, .writeVpn, by simp [Binding.bind, hbound], trivial⟩
  | readClient =>
      obtain ⟨hbound, hcons⟩ := hstage
      cases client with
      | none => exact .inl ⟨_, .writeVpn, rfl, trivial⟩
      | some w =>
          right
          have hw := hcons w rfl
          simp only at hbound hw
          rw [← hw, hbound]
          rfl
  | writeVpn => exact .inl ⟨_, .writeClient, rfl, rfl⟩
  | writeClient =>
      right
      simp only [Binding.Stage] at hstage
      rw [hstage]
      rfl

/-! ### One step -/

namespace Process

variable {s t : Process V} {e : DohEvent V} {vpn : V}

/-- What a step does. -/
inductive Steps (s : Process V) : DohEvent V → Process V → Prop where
  | server (vpn : V) : Steps s (.call (.server vpn)) (s.begins (.server vpn) (.bind .readVpn))
  | relay (vpn : V) (hrunning : vpn ∈ s.running) :
      Steps s (.call (.relay vpn)) (s.begins (.relay vpn) .readClient)
  | diagnostics : Steps s (.call .diagnostics) (s.begins .diagnostics (.bind .readVpn))
  | advance (i : ℕ) (c : Call V) (b : Binding V) (pc : Pc V) (hc : s.calls[i]? = some c)
      (hadvance : c.advance s.binding = some (b, pc)) :
      Steps s (.advance i) { s.setPc i c pc with binding := b }
  | start (i : ℕ) (vpn : V) (succeeds : Bool)
      (hc : s.calls[i]? = some ⟨.server vpn, .constructed⟩) :
      Steps s (.start i succeeds)
        { s.setPc i ⟨.server vpn, .constructed⟩ .done with
          running := if succeeds then vpn :: s.running else s.running }
  | openSocket (i : ℕ) (c : Call V) (http : Option V) (protects : Bool)
      (hc : s.calls[i]? = some c) (hpc : c.pc = .resolve http) :
      Steps s (.openSocket i protects)
        { s with opened := s.opened ++ [⟨s.running, if protects then http else none⟩] }
  | finish (i : ℕ) (c : Call V) (hc : s.calls[i]? = some c)
      (hpc : c.pc = .readClient ∨ ∃ http, c.pc = .resolve http) :
      Steps s (.finish i) (s.setPc i c .done)
  | stop (vpn : V) : Steps s (.stop vpn) { s with running := s.running.erase vpn }

theorem steps_of_step (h : s.step e = some t) :
  s.Steps e t
  := by
  cases e with
  | call caller =>
      cases caller with
      | server vpn =>
          obtain rfl := Option.some.inj h
          apply Steps.server
      | relay vpn =>
          rw [step] at h
          split_ifs at h with hrunning
          obtain rfl := Option.some.inj h
          apply Steps.relay vpn hrunning
      | diagnostics =>
          obtain rfl := Option.some.inj h
          apply Steps.diagnostics
  | advance i =>
      obtain ⟨c, hc, hmap⟩ := Option.bind_eq_some_iff.mp h
      obtain ⟨⟨b, pc⟩, hadvance, rfl⟩ := Option.map_eq_some_iff.mp hmap
      apply Steps.advance i c b pc hc hadvance
  | start i succeeds =>
      obtain ⟨c, hc, hstart⟩ := Option.bind_eq_some_iff.mp h
      split at hstart
      · obtain rfl := Option.some.inj hstart
        apply Steps.start i _ succeeds hc
      · cases hstart
  | openSocket i protects =>
      obtain ⟨c, hc, hopen⟩ := Option.bind_eq_some_iff.mp h
      split at hopen
      · rename_i http hpc
        obtain rfl := Option.some.inj hopen
        apply Steps.openSocket i c http protects hc hpc
      · cases hopen
  | finish i =>
      obtain ⟨c, hc, hfinish⟩ := Option.bind_eq_some_iff.mp h
      split at hfinish
      · rename_i hpc
        obtain rfl := Option.some.inj hfinish
        apply Steps.finish i c hc (.inl hpc)
      · rename_i http hpc
        obtain rfl := Option.some.inj hfinish
        apply Steps.finish i c hc (.inr ⟨http, hpc⟩)
      · cases hfinish
  | stop vpn =>
      rw [step] at h
      split_ifs at h
      obtain rfl := Option.some.inj h
      apply Steps.stop

/-- The sockets are protected if all calls use the client of the running servers. -/
theorem protected_step (hprot : s.Protected)
    (hresolve : ∀ c ∈ s.calls, ∀ http, c.pc = .resolve http → ∀ w ∈ s.running, http = some w)
    (hok : s.Undisturbed e) (h : s.Steps e t) :
  t.Protected
  := by
  cases h with
  | openSocket i c http protects hc hpc =>
      intro o ho w hw
      obtain ho | ho := List.mem_append.mp ho
      · exact hprot o ho w hw
      · obtain rfl := List.mem_singleton.mp ho
        have hprotects := hok (List.ne_nil_of_mem hw)
        rw [if_pos hprotects]
        exact hresolve c (List.mem_of_getElem? hc) http hpc w hw
  | _ => exact hprot

omit [DecidableEq V] in
theorem creates_setPc (hcreates : ∀ c ∈ s.calls, ¬ c.Creates) {i : ℕ} {c : Call V} {pc : Pc V}
    (hc : s.calls[i]? = some c) (hpc : c.pc = .done → pc = .done) :
  ∀ d ∈ (s.setPc i c pc).calls, ¬ d.Creates
  := by
  intro d hd
  obtain hd | rfl := List.mem_or_eq_of_mem_set hd
  · exact hcreates d hd
  · rintro ⟨hnew, vpn, hvpn⟩
    exact hcreates c (List.mem_of_getElem? hc) ⟨fun hdone => hnew (hpc hdone), vpn, hvpn⟩

omit [DecidableEq V] in
/-- A call that does not touch the fields goes on. -/
theorem Free.setPc (hfree : s.Free) {i : ℕ} {c : Call V} {pc : Pc V}
    (hc : s.calls[i]? = some c) (hpc : c.pc = .done → pc = .done) (hold : ¬ c.Writes)
    (hnew : ¬ (⟨c.caller, pc⟩ : Call V).Writes) :
  (s.setPc i c pc).Free
  := by
  constructor
  · exact hfree.running
  · apply creates_setPc hfree.creates hc hpc
  · intro d hd hwrites
    obtain hd | rfl := List.mem_or_eq_of_mem_set hd
    · exact hfree.writes d hd hwrites
    · exact absurd hwrites hnew
  · obtain hcons | ⟨d, hd, hwrites⟩ := hfree.consistent
    · exact .inl hcons
    · refine .inr ⟨d, mem_set_of_ne hc hd ?_, hwrites⟩
      rintro rfl
      exact hold hwrites

theorem Free.advance (hfree : s.Free) {i : ℕ} {c : Call V} {b : Binding V} {pc : Pc V}
    (hc : s.calls[i]? = some c) (hadvance : c.advance s.binding = some (b, pc)) :
  Free { s.setPc i c pc with binding := b }
  := by
  have hmem := List.mem_of_getElem? hc
  have hcreates := hfree.creates c hmem
  have hpc : c.pc = .done → pc = .done := by
    intro hdone
    exact absurd hdone (Call.pc_ne_done_of_advance hadvance)
  obtain ⟨rfl, hold, hnew⟩ | ⟨rfl, hold, hnew⟩ | ⟨rfl, hold, hnew⟩ :=
    Call.unbinds_of_advance hcreates hadvance
  · exact hfree.setPc hc hpc hold hnew
  · constructor
    · exact hfree.running
    · apply creates_setPc hfree.creates hc hpc
    · intro d hd hwrites
      rfl
    · right
      exact ⟨_, List.mem_set (List.getElem?_eq_some_iff.mp hc).1 _, hnew⟩
  · have hvpn := hfree.writes c hmem hold
    constructor
    · exact hfree.running
    · apply creates_setPc hfree.creates hc hpc
    · intro d hd hwrites
      exact hvpn
    · left
      rintro vpn ⟨⟩
      exact hvpn

/-- Without a server the client is bound to no service, or the first server is created. -/
theorem Free.step (hfree : s.Free) (hok : s.Undisturbed e) (h : s.Steps e t) :
  t.Free ∨ ∃ vpn, t.Creating vpn
  := by
  cases h with
  | server vpn =>
      right
      have hdone := hok.2.2 hfree.running
      use vpn
      constructor
      · exact hfree.running
      · refine ⟨s.calls.length, .readVpn, by simp [begins], ?_, ?_⟩
        · obtain hcons | ⟨c, hc, hwrites⟩ := hfree.consistent
          · exact hcons
          · simp [Call.Writes, hdone c hc] at hwrites
        · intro j c hc hne
          rw [begins, List.getElem?_append_left] at hc
          · exact hdone c (List.mem_of_getElem? hc)
          · have hlt := (List.getElem?_eq_some_iff.mp hc).1
            rw [List.length_append, List.length_singleton] at hlt
            omega
  | relay vpn hrunning =>
      rw [hfree.running] at hrunning
      cases hrunning
  | diagnostics =>
      left
      constructor
      · exact hfree.running
      · intro c hc
        obtain hc | hc := List.mem_append.mp hc
        · exact hfree.creates c hc
        · obtain rfl := List.mem_singleton.mp hc
          rintro ⟨-, vpn, ⟨⟩⟩
      · intro c hc hwrites
        obtain hc | hc := List.mem_append.mp hc
        · exact hfree.writes c hc hwrites
        · obtain rfl := List.mem_singleton.mp hc
          simp [Call.Writes] at hwrites
      · obtain hcons | ⟨c, hc, hwrites⟩ := hfree.consistent
        · exact .inl hcons
        · exact .inr ⟨c, List.mem_append_left _ hc, hwrites⟩
  | advance i c b pc hc hadvance => exact .inl (hfree.advance hc hadvance)
  | start i vpn succeeds hc =>
      exact absurd ⟨by simp, vpn, rfl⟩ (hfree.creates _ (List.mem_of_getElem? hc))
  | openSocket i c http protects hc hpc =>
      exact .inl ⟨hfree.running, hfree.creates, hfree.writes, hfree.consistent⟩
  | finish i c hc hpc =>
      left
      apply hfree.setPc hc (fun _ => rfl)
      · obtain hpc | ⟨http, hpc⟩ := hpc
        · simp [Call.Writes, hpc]
        · simp [Call.Writes, hpc]
      · simp [Call.Writes]
  | stop vpn =>
      left
      refine ⟨?_, hfree.creates, hfree.writes, hfree.consistent⟩
      rw [hfree.running]
      rfl

/-- Nothing but the creation of the first server of a service goes on until the client is bound to
it. -/
theorem Creating.step (hcreating : s.Creating vpn) (hok : s.Undisturbed e) (h : s.Steps e t) :
  t.Creating vpn ∨ t.Bound vpn
  := by
  obtain ⟨hrunning, i, p, hi, hstage, hothers⟩ := hcreating
  have hcreates : (⟨.server vpn, .bind p⟩ : Call V).Creates := ⟨by simp, vpn, rfl⟩
  have hown : ∀ j c, s.calls[j]? = some c → c.pc ≠ .done → j = i ∧ c = ⟨.server vpn, .bind p⟩ := by
    intro j c hc hpc
    have hji : j = i := by
      by_contra hne
      exact hpc (hothers j c hc hne)
    subst hji
    exact ⟨rfl, Option.some.inj (hc.symm.trans hi)⟩
  cases h with
  | server w => exact absurd hcreates (hok.2.1 _ (List.mem_of_getElem? hi))
  | relay w hw =>
      rw [hrunning] at hw
      cases hw
  | diagnostics => exact absurd hcreates (hok.2 _ (List.mem_of_getElem? hi))
  | advance j c b pc hc hadvance =>
      obtain ⟨rfl, rfl⟩ := hown j c hc (Call.pc_ne_done_of_advance hadvance)
      simp only [Call.advance, Caller.vpn, Option.some.injEq] at hadvance
      obtain ⟨b', q, heq, hstage'⟩ | heq := Binding.stage_bind hstage
      · rw [heq] at hadvance
        obtain ⟨rfl, rfl⟩ := Prod.mk.inj hadvance
        left
        refine ⟨hrunning, j, q, ?_, hstage', ?_⟩
        · exact List.getElem?_set_self (List.getElem?_eq_some_iff.mp hc).1
        · intro k d hd hne
          rw [setPc, List.getElem?_set_ne (Ne.symm hne)] at hd
          exact hothers k d hd hne
      · rw [heq] at hadvance
        obtain ⟨rfl, rfl⟩ := Prod.mk.inj hadvance
        right
        constructor
        · intro w hw
          rw [setPc, hrunning] at hw
          cases hw
        · rfl
        · intro d hd
          obtain ⟨k, hk⟩ := List.mem_iff_getElem?.mp hd
          by_cases hkj : k = j
          · subst hkj
            rw [setPc, List.getElem?_set_self (List.getElem?_eq_some_iff.mp hc).1] at hk
            obtain rfl := Option.some.inj hk
            rfl
          · rw [setPc, List.getElem?_set_ne (Ne.symm hkj)] at hk
            apply Call.keeps_of_done (hothers k d hk hkj)
  | start j w succeeds hc =>
      obtain ⟨-, hcall⟩ := hown j _ hc (by simp)
      cases hcall
  | openSocket j c http protects hc hpc =>
      obtain ⟨-, rfl⟩ := hown j c hc (by simp [hpc])
      cases hpc
  | finish j c hc hpc =>
      obtain hpc | ⟨http, hpc⟩ := hpc
      · obtain ⟨-, rfl⟩ := hown j c hc (by simp [hpc])
        cases hpc
      · obtain ⟨-, rfl⟩ := hown j c hc (by simp [hpc])
        cases hpc
  | stop w =>
      left
      refine ⟨?_, i, p, hi, hstage, hothers⟩
      rw [hrunning]
      rfl

omit [DecidableEq V] in
theorem Bound.free (hbound : s.Bound vpn) (hrunning : s.running = [])
    (hcreates : ∀ c ∈ s.calls, ¬ c.Creates) :
  s.Free
  := by
  constructor
  · exact hrunning
  · exact hcreates
  · intro c hc hwrites
    exact absurd hwrites (hbound.keeps c hc).not_writes
  · left
    rw [hbound.binding]
    rintro w ⟨⟩
    rfl

omit [DecidableEq V] in
theorem keeps_begins (hkeeps : ∀ c ∈ s.calls, c.Keeps vpn) {caller : Caller V} {pc : Pc V}
    (hnew : (⟨caller, pc⟩ : Call V).Keeps vpn) :
  ∀ c ∈ (s.begins caller pc).calls, c.Keeps vpn
  := by
  intro c hc
  obtain hc | hc := List.mem_append.mp hc
  · exact hkeeps c hc
  · obtain rfl := List.mem_singleton.mp hc
    exact hnew

omit [DecidableEq V] in
theorem keeps_setPc (hkeeps : ∀ c ∈ s.calls, c.Keeps vpn) {i : ℕ} {c : Call V} {pc : Pc V}
    (hnew : (⟨c.caller, pc⟩ : Call V).Keeps vpn) :
  ∀ d ∈ (s.setPc i c pc).calls, d.Keeps vpn
  := by
  intro d hd
  obtain hd | rfl := List.mem_or_eq_of_mem_set hd
  · exact hkeeps d hd
  · exact hnew

/-- A client that is bound to a service remains so until all servers have stopped and another call
is made. -/
theorem Bound.step (hbound : s.Bound vpn) (hok : s.Undisturbed e) (h : s.Steps e t) :
  t.Free ∨ (∃ w, t.Creating w) ∨ t.Bound vpn
  := by
  cases h with
  | server w =>
      by_cases hempty : s.running = []
      · have hfree := hbound.free hempty hok.2.1
        exact (hfree.step hok (.server w)).imp_right .inl
      · obtain ⟨u, hu⟩ := List.exists_mem_of_ne_nil _ hempty
        obtain rfl : w = vpn := (hok.1 u hu).symm.trans (hbound.running u hu)
        right
        right
        exact ⟨hbound.running, hbound.binding, keeps_begins hbound.keeps rfl⟩
  | relay w hw =>
      right
      right
      exact ⟨hbound.running, hbound.binding, keeps_begins hbound.keeps trivial⟩
  | diagnostics =>
      have hfree := hbound.free hok.1 hok.2
      exact (hfree.step hok .diagnostics).imp_right .inl
  | advance i c b pc hc hadvance =>
      have hkeeps := hbound.keeps c (List.mem_of_getElem? hc)
      rw [hbound.binding] at hadvance
      obtain ⟨rfl, hnew⟩ := Call.keeps_advance hkeeps hadvance
      right
      right
      exact ⟨hbound.running, rfl, keeps_setPc hbound.keeps hnew⟩
  | start i w succeeds hc =>
      obtain rfl : w = vpn := hbound.keeps _ (List.mem_of_getElem? hc)
      right
      right
      refine ⟨?_, hbound.binding, keeps_setPc hbound.keeps trivial⟩
      intro u hu
      split_ifs at hu
      · obtain rfl | hu := List.mem_cons.mp hu
        · rfl
        · exact hbound.running u hu
      · exact hbound.running u hu
  | openSocket i c http protects hc hpc =>
      right
      right
      exact ⟨hbound.running, hbound.binding, hbound.keeps⟩
  | finish i c hc hpc =>
      right
      right
      exact ⟨hbound.running, hbound.binding, keeps_setPc hbound.keeps (Call.keeps_of_done rfl)⟩
  | stop w =>
      right
      right
      refine ⟨?_, hbound.binding, hbound.keeps⟩
      intro u hu
      exact hbound.running u (List.mem_of_mem_erase hu)

theorem Sound.step (hsound : s.Sound) (hok : s.Undisturbed e) (h : s.Steps e t) :
  t.Sound
  := by
  obtain ⟨hprot, hfree | ⟨vpn, hcreating⟩ | ⟨vpn, hbound⟩⟩ := hsound
  · have hresolve : ∀ c ∈ s.calls, ∀ http, c.pc = .resolve http → ∀ w ∈ s.running, http = some w := by
      intro c hc http hpc w hw
      rw [hfree.running] at hw
      cases hw
    exact ⟨protected_step hprot hresolve hok h, (hfree.step hok h).imp_right .inl⟩
  · have hresolve : ∀ c ∈ s.calls, ∀ http, c.pc = .resolve http → ∀ w ∈ s.running, http = some w := by
      intro c hc http hpc w hw
      rw [hcreating.running] at hw
      cases hw
    refine ⟨protected_step hprot hresolve hok h, .inr ?_⟩
    obtain ht | ht := hcreating.step hok h
    · exact .inl ⟨vpn, ht⟩
    · exact .inr ⟨vpn, ht⟩
  · have hresolve : ∀ c ∈ s.calls, ∀ http, c.pc = .resolve http → ∀ w ∈ s.running, http = some w := by
      intro c hc http hpc w hw
      rw [hbound.running w hw]
      exact (hbound.keeps c hc).resolve hpc
    refine ⟨protected_step hprot hresolve hok h, ?_⟩
    obtain ht | ht | ht := hbound.step hok h
    · exact .inl ht
    · exact .inr (.inl ht)
    · exact .inr (.inr ⟨vpn, ht⟩)

omit [DecidableEq V] in
theorem sound_init :
  ({} : Process V).Sound
  := by
  refine ⟨?_, .inl ?_⟩
  · intro o ho
    cases ho
  · constructor
    · rfl
    · intro c hc
      cases hc
    · intro c hc
      cases hc
    · left
      intro w hw
      cases hw

/-! ### Runs -/

/-- In an undisturbed run every socket the client opens while a server is running is protected by
its service. -/
theorem protected_of_undisturbed (es : List (DohEvent V)) (hmeets : Run.Meets step Undisturbed {} es)
    (pre : List (DohEvent V)) (hpre : pre <+: es) {t : Process V}
    (hrun : Run.exec step {} pre = some t) :
  t.Protected
  := by
  have hstep : ∀ (s : Process V) e t, s.Sound → s.Undisturbed e → step s e = some t → t.Sound := by
    intro s e t hsound hok h
    apply hsound.step hok (steps_of_step h)
  exact (Run.invariant_of_meets_prefix hstep sound_init hmeets hpre hrun).1

/-- A server is created and started. -/
def startServer (vpn : ℕ) : List (DohEvent ℕ) :=
  [.call (.server vpn), .advance 0, .advance 0, .advance 0, .start 0 true]

/-- A relay resolves a query. -/
def relayed (vpn : ℕ) : List (DohEvent ℕ) :=
  startServer vpn ++ [.call (.relay vpn), .advance 1, .openSocket 1 true, .finish 1]

theorem protected_relayed :
  Run.Meets step Undisturbed {} (relayed 1) ∧
    ∃ t, Run.exec step {} (relayed 1) = some t ∧ t.opened = [⟨[1], some 1⟩] ∧ t.Protected
  := by
  have hmeets : Run.Meets step Undisturbed {} (relayed 1) := by
    decide +kernel
  refine ⟨hmeets, _, rfl, rfl, ?_⟩
  apply protected_of_undisturbed (relayed 1) hmeets (relayed 1) List.prefix_rfl rfl

/-- A relay resolves a query after the diagnostics has bound the client. -/
def disturbed (vpn : ℕ) : List (DohEvent ℕ) :=
  startServer vpn ++
    [.call .diagnostics, .advance 1, .advance 1, .advance 1, .call (.relay vpn), .advance 2,
      .openSocket 2 true]

theorem not_protected_disturbed :
  ∃ t, Run.exec step {} (disturbed 1) = some t ∧ ¬ t.Protected
  := by
  refine ⟨_, rfl, ?_⟩
  intro hprot
  exact absurd (hprot ⟨[1], none⟩ (List.mem_singleton.mpr rfl) 1 (List.mem_singleton.mpr rfl))
    (by decide)

end Process

end Socks.DohClient
