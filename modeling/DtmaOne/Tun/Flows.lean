import DtmaOne.Library.Run
import Mathlib.Data.Finset.Card
import Mathlib.Data.List.AList

/-!
# The flows of the dataplane

`TunDataplane` keeps a table of the TCP bridges and one of the UDP bridges, and counts the entries
of both.  Several threads change them:

* the reader opens flows, and removes a TCP flow at a `RST`;
* the connector thread of every TCP bridge removes the flow of its key when it fails, and again
  when it ends;
* the cleaner removes idle flows, and the UDP pump the ones that cannot be read.

The counter is changed by `bump` after the table, and is never negative.  A map operation is one
step, a removal together with the closing of the bridge in the same branch is one step, and a
`bump` is one step.

The connector threads remove whatever is registered under the key of their bridge.  After a `RST`
this may be the bridge of the next connection, which is then open and no longer registered.
-/

namespace Tun

/-- `FlowKey` -/
structure FlowKey where
  srcIp : String
  srcPort : ℕ
  dstIp : String
  dstPort : ℕ
  protocol : ℕ
  deriving DecidableEq, Repr

/-! ### The table of the TCP bridges -/

/-- How far the connector thread of a bridge is. -/
inductive Phase where
  /-- The thread is not started yet. -/
  | queued
  /-- `openTcp` -/
  | running
  /-- `failTcp` has returned, and the `finally` of `openTcp` is next. -/
  | failed
  | done
  deriving DecidableEq, Repr

/-- A `TcpBridge`, as far as the tables are concerned. -/
structure Bridge where
  key : FlowKey
  closed : Bool := false
  phase : Phase := .queued
  deriving DecidableEq, Repr

/-- All bridges in the order of their creation, and `tcpFlows`. -/
structure Registry where
  bridges : List Bridge := []
  tcpFlows : AList (fun _ : FlowKey => ℕ) := ∅

namespace Registry

/-- The bridge `i` is closed, and what is registered under `key` is removed. -/
def drop (r : Registry) (i : ℕ) (key : FlowKey) : Registry where
  bridges := r.bridges.modify i ({ · with closed := true })
  tcpFlows := r.tcpFlows.erase key

/-- A new bridge for `key`. -/
def add (r : Registry) (key : FlowKey) : Registry where
  bridges := r.bridges ++ [{ key := key }]
  tcpFlows := r.tcpFlows.insert key r.bridges.length

/-- The connector thread of the bridge `i` goes on. -/
def setPhase (r : Registry) (i : ℕ) (phase : Phase) : Registry :=
  { r with bridges := r.bridges.modify i ({ · with phase := phase }) }

/-- Every bridge that is not closed is registered under its key. -/
def Registered (r : Registry) : Prop :=
  ∀ i b, r.bridges[i]? = some b → b.closed = false → r.tcpFlows.lookup b.key = some i

/-- What is registered under a key is a bridge with this key that is not closed. -/
def Keyed (r : Registry) : Prop :=
  ∀ key i, r.tcpFlows.lookup key = some i →
    ∃ b, r.bridges[i]? = some b ∧ b.key = key ∧ b.closed = false

end Registry

/-! ### The threads -/

/-- A `bump` the reader thread still has to call, and the connector thread it starts then. -/
structure ReaderBump where
  d : ℤ
  start : Option ℕ := none
  deriving DecidableEq, Repr

/-- The dataplane while it is running. -/
structure Dataplane where
  registry : Registry := {}
  /-- The keys of `udpFlows`. -/
  udpFlows : Finset FlowKey := ∅
  activeFlows : ℕ := 0
  reader : Option ReaderBump := none
  /-- The connector threads that have to call `bump(-1)`. -/
  connectors : List ℕ := []
  /-- Whether the cleaner has to call `bump(-1)`. -/
  cleaner : Bool := false
  /-- Whether the UDP pump has to call `bump(-1)`. -/
  pump : Bool := false

/-- A step of a thread. -/
inductive FlowEvent where
  /-- The reader gets a `RST`. -/
  | rst (key : FlowKey)
  /-- The reader gets a `SYN` without `ACK`. -/
  | syn (key : FlowKey)
  /-- The reader gets another TCP segment. -/
  | segment (key : FlowKey)
  /-- The reader gets a datagram for a channel that can be opened. -/
  | udpOpen (key : FlowKey)
  /-- The reader cannot write a datagram. -/
  | udpWriteFails (key : FlowKey)
  | readerBump
  /-- `failTcp` in the connector thread of a bridge. -/
  | failTcp (i : ℕ)
  /-- The `finally` of `openTcp` in the connector thread of a bridge. -/
  | finishTcp (i : ℕ)
  | connectorBump (i : ℕ)
  /-- The cleaner finds an idle TCP flow. -/
  | cleanTcp (key : FlowKey)
  /-- The cleaner finds an idle UDP flow. -/
  | cleanUdp (key : FlowKey)
  | cleanerBump
  /-- The UDP pump cannot read from a bridge with the key. -/
  | pumpFails (key : FlowKey)
  | pumpBump
  deriving DecidableEq, Repr

namespace Dataplane

/-- `bump` -/
def bump (s : Dataplane) (d : ℤ) : Dataplane :=
  { s with activeFlows := (s.activeFlows + d).toNat }

/-- The connector thread of the bridge `i` closes it and removes what is registered under its
key. -/
def dropOwn (s : Dataplane) (i : ℕ) (b : Bridge) (phase : Phase) : Dataplane :=
  { s with
    registry := (s.registry.drop i b.key).setPhase i phase
    connectors :=
      if (s.registry.tcpFlows.lookup b.key).isSome then i :: s.connectors else s.connectors }

/-- One step. -/
def step (s : Dataplane) : FlowEvent → Option Dataplane
  | .rst key =>
      if s.reader.isSome then none
      else
        match s.registry.tcpFlows.lookup key with
        | some i => some { s with registry := s.registry.drop i key, reader := some ⟨-1, none⟩ }
        | none => some s
  | .syn key =>
      if s.reader.isSome then none
      else
        match s.registry.tcpFlows.lookup key with
        | some _ => some s
        | none =>
            some
              { s with
                registry := s.registry.add key
                reader := some ⟨1, some s.registry.bridges.length⟩ }
  | .segment _ => if s.reader.isSome then none else some s
  | .udpOpen key =>
      if s.reader.isSome then none
      else if key ∈ s.udpFlows then some s
      else some { s with udpFlows := insert key s.udpFlows, reader := some ⟨1, none⟩ }
  | .udpWriteFails key =>
      if s.reader.isSome then none
      else if key ∈ s.udpFlows then
        some { s with udpFlows := s.udpFlows.erase key, reader := some ⟨-1, none⟩ }
      else some s
  | .readerBump =>
      s.reader.map fun r =>
        { s.bump r.d with
          reader := none
          registry := r.start.elim s.registry fun i => s.registry.setPhase i .running }
  | .failTcp i =>
      match s.registry.bridges[i]? with
      | some b =>
          if b.phase = .running ∧ i ∉ s.connectors then some (s.dropOwn i b .failed) else none
      | none => none
  | .finishTcp i =>
      match s.registry.bridges[i]? with
      | some b =>
          if (b.phase = .running ∨ b.phase = .failed) ∧ i ∉ s.connectors then
            some (s.dropOwn i b .done)
          else none
      | none => none
  | .connectorBump i =>
      if i ∈ s.connectors then some { s.bump (-1) with connectors := s.connectors.erase i }
      else none
  | .cleanTcp key =>
      if s.cleaner then none
      else
        (s.registry.tcpFlows.lookup key).map fun i =>
          { s with registry := s.registry.drop i key, cleaner := true }
  | .cleanUdp key =>
      if s.cleaner then none
      else if key ∈ s.udpFlows then some { s with udpFlows := s.udpFlows.erase key, cleaner := true }
      else none
  | .cleanerBump => if s.cleaner then some { s.bump (-1) with cleaner := false } else none
  | .pumpFails key =>
      if s.pump then none
      else if key ∈ s.udpFlows then some { s with udpFlows := s.udpFlows.erase key, pump := true }
      else some s
  | .pumpBump => if s.pump then some { s.bump (-1) with pump := false } else none

/-- The number of entries in both tables. -/
def entries (s : Dataplane) : ℕ :=
  s.registry.tcpFlows.keys.length + s.udpFlows.card

/-- The sum of the arguments of the calls of `bump` that are pending. -/
def pending (s : Dataplane) : ℤ :=
  s.reader.elim 0 (·.d) - s.connectors.length - s.cleaner.toNat - s.pump.toNat

/-- By how much the counter with the pending calls of `bump` differs from the number of entries. -/
def drift (s : Dataplane) : ℤ :=
  s.activeFlows + s.pending - s.entries

/-- No call of `bump` is pending. -/
def Settled (s : Dataplane) : Prop :=
  s.reader = none ∧ s.connectors = [] ∧ s.cleaner = false ∧ s.pump = false

/-- Every bridge that is not closed is registered, and the counter with the pending calls of `bump`
is the number of entries. -/
structure Lawful (s : Dataplane) : Prop where
  registered : s.registry.Registered
  counted : s.activeFlows + s.pending = s.entries

/-- The connector thread of the bridge `i` finds its own bridge under its key, or none. -/
def FindsOwn (s : Dataplane) (i : ℕ) : Prop :=
  ∀ b ∈ s.registry.bridges[i]?, ∀ j ∈ s.registry.tcpFlows.lookup b.key, j = i

instance (s : Dataplane) (i : ℕ) : Decidable (s.FindsOwn i) :=
  inferInstanceAs (Decidable (∀ b ∈ s.registry.bridges[i]?, ∀ j ∈ s.registry.tcpFlows.lookup b.key,
    j = i))

/-- A connector thread removes no other bridge than its own. -/
def RemovesOwn (s : Dataplane) : FlowEvent → Prop
  | .failTcp i | .finishTcp i => s.FindsOwn i
  | _ => True

instance (s : Dataplane) : (e : FlowEvent) → Decidable (s.RemovesOwn e)
  | .failTcp i | .finishTcp i => inferInstanceAs (Decidable (s.FindsOwn i))
  | .rst _ | .syn _ | .segment _ | .udpOpen _ | .udpWriteFails _ | .readerBump | .connectorBump _
  | .cleanTcp _ | .cleanUdp _ | .cleanerBump | .pumpFails _ | .pumpBump => isTrue trivial

/-- The counter is not zero when it is decreased. -/
def NotClamped (s : Dataplane) : FlowEvent → Prop
  | .readerBump => ∀ r ∈ s.reader, 0 ≤ s.activeFlows + r.d
  | .connectorBump _ | .cleanerBump | .pumpBump => 0 < s.activeFlows
  | _ => True

instance (s : Dataplane) : (e : FlowEvent) → Decidable (s.NotClamped e)
  | .readerBump => inferInstanceAs (Decidable (∀ r ∈ s.reader, 0 ≤ s.activeFlows + r.d))
  | .connectorBump _ | .cleanerBump | .pumpBump => inferInstanceAs (Decidable (0 < s.activeFlows))
  | .rst _ | .syn _ | .segment _ | .udpOpen _ | .udpWriteFails _ | .failTcp _ | .finishTcp _
  | .cleanTcp _ | .cleanUdp _ | .pumpFails _ => isTrue trivial

end Dataplane

/-! ### Changes of the table -/

namespace Registry

variable {r : Registry} {i : ℕ} {key : FlowKey}

theorem bridges_modify {f : Bridge → Bridge} {j : ℕ} {c : Bridge}
    (h : (r.bridges.modify i f)[j]? = some c) :
  ∃ b, r.bridges[j]? = some b ∧ c = if i = j then f b else b
  := by
  rw [List.getElem?_modify] at h
  obtain ⟨b, hb, rfl⟩ := Option.map_eq_some_iff.mp h
  exact ⟨b, hb, rfl⟩

/-- A dropped flow leaves all open bridges registered exactly if it is the own one of the bridge, or
none. -/
theorem registered_drop_iff (hreg : r.Registered) (hkeyed : r.Keyed) :
  (r.drop i key).Registered ↔ ∀ j ∈ r.tcpFlows.lookup key, j = i
  := by
  constructor
  · intro hdrop j hj
    by_contra hne
    obtain ⟨c, hc, hkey, hopen⟩ := hkeyed key j hj
    have hc' : (r.drop i key).bridges[j]? = some c := by
      rw [drop, List.getElem?_modify_ne _ _ (Ne.symm hne), hc]
    have hlookup := hdrop j c hc' hopen
    rw [hkey, drop, AList.lookup_erase] at hlookup
    cases hlookup
  · intro hown j c hc hopen
    obtain ⟨c', hc', rfl⟩ := bridges_modify hc
    by_cases hij : i = j
    · rw [if_pos hij] at hopen
      cases hopen
    · rw [if_neg hij] at hopen ⊢
      have hlookup := hreg j c' hc' hopen
      have hne : c'.key ≠ key := by
        intro hkey
        rw [hkey] at hlookup
        exact hij (hown j hlookup).symm
      rw [drop, AList.lookup_erase_ne hne, hlookup]

theorem keyed_drop (hkeyed : r.Keyed) {b : Bridge} (hb : r.bridges[i]? = some b) :
  (r.drop i b.key).Keyed
  := by
  intro key' j hj
  have hne : key' ≠ b.key := by
    rintro rfl
    rw [drop, AList.lookup_erase] at hj
    cases hj
  rw [drop, AList.lookup_erase_ne hne] at hj
  obtain ⟨c, hc, hkey, hopen⟩ := hkeyed key' j hj
  have hij : i ≠ j := by
    rintro rfl
    obtain rfl := Option.some.inj (hb.symm.trans hc)
    exact hne hkey.symm
  refine ⟨c, ?_, hkey, hopen⟩
  rw [drop, List.getElem?_modify_ne _ _ hij, hc]

theorem registered_add (hreg : r.Registered) (hkey : r.tcpFlows.lookup key = none) :
  (r.add key).Registered
  := by
  intro j c hc hopen
  rw [add, List.getElem?_append] at hc
  split_ifs at hc with hj
  · have hlookup := hreg j c hc hopen
    have hne : c.key ≠ key := by
      rintro rfl
      rw [hkey] at hlookup
      cases hlookup
    rw [add, AList.lookup_insert_ne hne, hlookup]
  · obtain ⟨hzero, rfl⟩ : j - r.bridges.length = 0 ∧ ({ key := key } : Bridge) = c := by
      cases hindex : j - r.bridges.length with
      | zero =>
          rw [hindex] at hc
          exact ⟨rfl, Option.some.inj hc⟩
      | succ n =>
          rw [hindex] at hc
          cases hc
    rw [add, AList.lookup_insert]
    congr 1
    omega

theorem keyed_add (hkeyed : r.Keyed) :
  (r.add key).Keyed
  := by
  intro key' j hj
  by_cases hsame : key' = key
  · rw [hsame, add, AList.lookup_insert] at hj
    obtain rfl := Option.some.inj hj
    refine ⟨{ key := key }, ?_, hsame.symm, rfl⟩
    simp [add]
  · rw [add, AList.lookup_insert_ne hsame] at hj
    obtain ⟨c, hc, hkey, hopen⟩ := hkeyed key' j hj
    refine ⟨c, ?_, hkey, hopen⟩
    rw [add, List.getElem?_append_left (List.getElem?_eq_some_iff.mp hc).1, hc]

theorem registered_setPhase_iff (phase : Phase) :
  (r.setPhase i phase).Registered ↔ r.Registered
  := by
  constructor
  · intro h j c hc hopen
    have hlookup := h j (if i = j then { c with phase := phase } else c) (by
      rw [setPhase, List.getElem?_modify, hc]
      rfl)
    by_cases hij : i = j
    · rw [if_pos hij] at hlookup
      exact hlookup hopen
    · rw [if_neg hij] at hlookup
      exact hlookup hopen
  · intro h j c hc hopen
    obtain ⟨c', hc', rfl⟩ := bridges_modify hc
    by_cases hij : i = j
    · rw [if_pos hij] at hopen ⊢
      exact h j c' hc' hopen
    · rw [if_neg hij] at hopen ⊢
      exact h j c' hc' hopen

theorem keyed_setPhase (hkeyed : r.Keyed) (phase : Phase) :
  (r.setPhase i phase).Keyed
  := by
  intro key' j hj
  obtain ⟨c, hc, hkey, hopen⟩ := hkeyed key' j hj
  refine ⟨if i = j then { c with phase := phase } else c, ?_, ?_, ?_⟩
  · rw [setPhase, List.getElem?_modify, hc]
    rfl
  · split_ifs <;> exact hkey
  · split_ifs <;> exact hopen

theorem length_keys_drop_of_some {j : ℕ} (h : r.tcpFlows.lookup key = some j) :
  (r.drop i key).tcpFlows.keys.length + 1 = r.tcpFlows.keys.length
  := by
  have hmem : key ∈ r.tcpFlows.keys := by
    rw [← AList.mem_keys, ← AList.lookup_isSome, h]
    rfl
  rw [drop, AList.keys_erase, List.length_erase_of_mem hmem]
  have hpos := List.length_pos_of_mem hmem
  omega

theorem length_keys_drop_of_none (h : r.tcpFlows.lookup key = none) :
  (r.drop i key).tcpFlows.keys.length = r.tcpFlows.keys.length
  := by
  rw [drop, AList.keys_erase, List.erase_of_not_mem]
  rw [← AList.mem_keys, ← AList.lookup_eq_none, h]

theorem length_keys_add (h : r.tcpFlows.lookup key = none) :
  (r.add key).tcpFlows.keys.length = r.tcpFlows.keys.length + 1
  := by
  rw [add, AList.keys_insert, List.length_cons, List.erase_of_not_mem]
  rw [← AList.mem_keys, ← AList.lookup_eq_none, h]

end Registry

/-! ### One step -/

namespace Dataplane

variable {s t : Dataplane} {e : FlowEvent}

/-- A connector thread that ends removes what is found under its key. -/
theorem eq_dropOwn_of_step {i : ℕ} (he : e = .failTcp i ∨ e = .finishTcp i)
    (h : s.step e = some t) :
  ∃ b phase, s.registry.bridges[i]? = some b ∧ t = s.dropOwn i b phase
  := by
  obtain rfl | rfl := he
  · cases hb : s.registry.bridges[i]? with
    | none => simp [step, hb] at h
    | some b =>
        simp only [step, hb] at h
        split_ifs at h
        exact ⟨b, .failed, rfl, (Option.some.inj h).symm⟩
  · cases hb : s.registry.bridges[i]? with
    | none => simp [step, hb] at h
    | some b =>
        simp only [step, hb] at h
        split_ifs at h
        exact ⟨b, .done, rfl, (Option.some.inj h).symm⟩

/-- What a step does to the TCP flows. -/
theorem step_registry (h : s.step e = some t) :
  (s.RemovesOwn e ∧
    (t.registry = s.registry ∨
      (∃ i phase, t.registry = s.registry.setPhase i phase) ∨
      (∃ key, s.registry.tcpFlows.lookup key = none ∧ t.registry = s.registry.add key) ∨
      ∃ key i, s.registry.tcpFlows.lookup key = some i ∧ t.registry = s.registry.drop i key)) ∨
    ∃ i b phase, (s.RemovesOwn e ↔ s.FindsOwn i) ∧ s.registry.bridges[i]? = some b ∧
      t.registry = (s.registry.drop i b.key).setPhase i phase
  := by
  cases e with
  | rst key =>
      rw [step] at h
      split_ifs at h
      cases hlookup : s.registry.tcpFlows.lookup key with
      | none =>
          simp only [hlookup, Option.some.injEq] at h
          exact .inl ⟨trivial, .inl (h ▸ rfl)⟩
      | some i =>
          simp only [hlookup, Option.some.injEq] at h
          exact .inl ⟨trivial, .inr (.inr (.inr ⟨key, i, hlookup, h ▸ rfl⟩))⟩
  | syn key =>
      rw [step] at h
      split_ifs at h
      cases hlookup : s.registry.tcpFlows.lookup key with
      | none =>
          simp only [hlookup, Option.some.injEq] at h
          exact .inl ⟨trivial, .inr (.inr (.inl ⟨key, hlookup, h ▸ rfl⟩))⟩
      | some i =>
          simp only [hlookup, Option.some.injEq] at h
          exact .inl ⟨trivial, .inl (h ▸ rfl)⟩
  | readerBump =>
      obtain ⟨⟨d, start⟩, -, rfl⟩ := Option.map_eq_some_iff.mp h
      cases start with
      | none => exact .inl ⟨trivial, .inl rfl⟩
      | some i => exact .inl ⟨trivial, .inr (.inl ⟨i, .running, rfl⟩)⟩
  | failTcp i =>
      obtain ⟨b, phase, hb, rfl⟩ := eq_dropOwn_of_step (Or.inl rfl) h
      exact .inr ⟨i, b, phase, Iff.rfl, hb, rfl⟩
  | finishTcp i =>
      obtain ⟨b, phase, hb, rfl⟩ := eq_dropOwn_of_step (Or.inr rfl) h
      exact .inr ⟨i, b, phase, Iff.rfl, hb, rfl⟩
  | cleanTcp key =>
      rw [step] at h
      split_ifs at h
      obtain ⟨i, hlookup, rfl⟩ := Option.map_eq_some_iff.mp h
      exact .inl ⟨trivial, .inr (.inr (.inr ⟨key, i, hlookup, rfl⟩))⟩
  | segment key | udpOpen key | udpWriteFails key | connectorBump i | cleanUdp key | cleanerBump
  | pumpFails key | pumpBump =>
      rw [step] at h
      split_ifs at h
      all_goals
        obtain rfl := Option.some.inj h
        exact .inl ⟨trivial, .inl rfl⟩

theorem keyed_step (hkeyed : s.registry.Keyed) (h : s.step e = some t) :
  t.registry.Keyed
  := by
  obtain ⟨-, heq | ⟨i, phase, heq⟩ | ⟨key, -, heq⟩ | ⟨key, i, hlookup, heq⟩⟩ |
    ⟨i, b, phase, -, hb, heq⟩ := step_registry h
  · rw [heq]
    apply hkeyed
  · rw [heq]
    apply Registry.keyed_setPhase hkeyed
  · rw [heq]
    apply Registry.keyed_add hkeyed
  · obtain ⟨b, hb, rfl, -⟩ := hkeyed key i hlookup
    rw [heq]
    apply Registry.keyed_drop hkeyed hb
  · rw [heq]
    apply Registry.keyed_setPhase (Registry.keyed_drop hkeyed hb)

/-- A step leaves all open bridges registered exactly if it removes no other bridge than the own
one. -/
theorem registered_step_iff (hreg : s.registry.Registered) (hkeyed : s.registry.Keyed)
    (h : s.step e = some t) :
  t.registry.Registered ↔ s.RemovesOwn e
  := by
  obtain ⟨hown, heq | ⟨i, phase, heq⟩ | ⟨key, hlookup, heq⟩ | ⟨key, i, hlookup, heq⟩⟩ |
    ⟨i, b, phase, hown, hb, heq⟩ := step_registry h
  · rw [heq]
    exact iff_of_true hreg hown
  · rw [heq, Registry.registered_setPhase_iff]
    exact iff_of_true hreg hown
  · rw [heq]
    exact iff_of_true (Registry.registered_add hreg hlookup) hown
  · rw [heq, Registry.registered_drop_iff hreg hkeyed]
    apply iff_of_true _ hown
    intro j hj
    exact Option.some.inj (hj.symm.trans hlookup)
  · rw [heq, Registry.registered_setPhase_iff, Registry.registered_drop_iff hreg hkeyed, hown,
      FindsOwn, hb]
    constructor
    · rintro hall c ⟨⟩
      exact hall
    · intro hall
      exact hall b rfl

/-- The terms of the drift. -/
theorem drift_eq (s : Dataplane) :
  s.drift = s.activeFlows + s.reader.elim 0 (·.d) - s.connectors.length - s.cleaner.toNat -
    s.pump.toNat - s.registry.tcpFlows.keys.length - s.udpFlows.card
  := by
  rw [drift, pending, entries]
  omega

/-- The removal by a connector thread is deferred. -/
theorem drift_dropOwn (i : ℕ) (b : Bridge) (phase : Phase) :
  (s.dropOwn i b phase).drift = s.drift
  := by
  rw [drift_eq, drift_eq]
  cases hlookup : s.registry.tcpFlows.lookup b.key with
  | none =>
      have hlength := Registry.length_keys_drop_of_none (i := i) hlookup
      simp only [dropOwn, hlookup, Registry.setPhase, Option.isSome_none, Bool.false_eq_true,
        if_false]
      omega
  | some j =>
      have hlength := Registry.length_keys_drop_of_some (i := i) hlookup
      simp only [dropOwn, hlookup, Registry.setPhase, Option.isSome_some, if_true,
        List.length_cons]
      omega

/-- A step does not drift exactly if it is not clamped. -/
theorem drift_step_iff (h : s.step e = some t) :
  t.drift = s.drift ↔ s.NotClamped e
  := by
  cases e with
  | rst key =>
      rw [step] at h
      split_ifs at h with hreader
      apply iff_of_true _ trivial
      cases hlookup : s.registry.tcpFlows.lookup key with
      | none =>
          simp only [hlookup, Option.some.injEq] at h
          rw [h]
      | some i =>
          simp only [hlookup, Option.some.injEq] at h
          have hlength := Registry.length_keys_drop_of_some (i := i) hlookup
          rw [← h, drift_eq, drift_eq, Option.not_isSome_iff_eq_none.mp hreader]
          simp only [Option.elim_none, Option.elim_some]
          omega
  | syn key =>
      rw [step] at h
      split_ifs at h with hreader
      apply iff_of_true _ trivial
      cases hlookup : s.registry.tcpFlows.lookup key with
      | none =>
          simp only [hlookup, Option.some.injEq] at h
          have hlength := Registry.length_keys_add hlookup
          rw [← h, drift_eq, drift_eq, Option.not_isSome_iff_eq_none.mp hreader]
          simp only [Option.elim_none, Option.elim_some]
          omega
      | some i =>
          simp only [hlookup, Option.some.injEq] at h
          rw [h]
  | segment key =>
      rw [step] at h
      split_ifs at h
      rw [Option.some.inj h]
      exact iff_of_true rfl trivial
  | udpOpen key =>
      rw [step] at h
      split_ifs at h with hreader hmem
      · rw [Option.some.inj h]
        exact iff_of_true rfl trivial
      · apply iff_of_true _ trivial
        have hcard := Finset.card_insert_of_notMem hmem
        rw [← Option.some.inj h, drift_eq, drift_eq, Option.not_isSome_iff_eq_none.mp hreader]
        simp only [Option.elim_none, Option.elim_some]
        omega
  | udpWriteFails key =>
      rw [step] at h
      split_ifs at h with hreader hmem
      · apply iff_of_true _ trivial
        have hcard := Finset.card_erase_add_one hmem
        rw [← Option.some.inj h, drift_eq, drift_eq, Option.not_isSome_iff_eq_none.mp hreader]
        simp only [Option.elim_none, Option.elim_some]
        omega
      · rw [Option.some.inj h]
        exact iff_of_true rfl trivial
  | readerBump =>
      obtain ⟨r, hreader, rfl⟩ := Option.map_eq_some_iff.mp h
      have hlength : (r.start.elim s.registry fun i => s.registry.setPhase i .running).tcpFlows =
          s.registry.tcpFlows := by
        cases r.start <;> rfl
      rw [drift_eq, drift_eq, NotClamped, hreader]
      simp only [bump, hlength, Option.elim_none, Option.elim_some, Option.mem_def,
        Option.some.injEq, forall_eq']
      omega
  | failTcp i =>
      apply iff_of_true _ trivial
      obtain ⟨b, phase, -, rfl⟩ := eq_dropOwn_of_step (Or.inl rfl) h
      exact drift_dropOwn i b phase
  | finishTcp i =>
      apply iff_of_true _ trivial
      obtain ⟨b, phase, -, rfl⟩ := eq_dropOwn_of_step (Or.inr rfl) h
      exact drift_dropOwn i b phase
  | connectorBump i =>
      rw [step] at h
      split_ifs at h with hmem
      have hlength := List.length_erase_of_mem hmem
      have hpos := List.length_pos_of_mem hmem
      rw [← Option.some.inj h, drift_eq, drift_eq, NotClamped]
      simp only [bump]
      omega
  | cleanTcp key =>
      rw [step] at h
      split_ifs at h with hcleaner
      apply iff_of_true _ trivial
      obtain ⟨i, hlookup, rfl⟩ := Option.map_eq_some_iff.mp h
      have hlength := Registry.length_keys_drop_of_some (i := i) hlookup
      rw [drift_eq, drift_eq, Bool.eq_false_of_not_eq_true hcleaner]
      simp only [Bool.toNat_true, Bool.toNat_false]
      omega
  | cleanUdp key =>
      rw [step] at h
      split_ifs at h with hcleaner hmem
      apply iff_of_true _ trivial
      have hcard := Finset.card_erase_add_one hmem
      rw [← Option.some.inj h, drift_eq, drift_eq, Bool.eq_false_of_not_eq_true hcleaner]
      simp only [Bool.toNat_true, Bool.toNat_false]
      omega
  | pumpFails key =>
      rw [step] at h
      split_ifs at h with hpump hmem
      · apply iff_of_true _ trivial
        have hcard := Finset.card_erase_add_one hmem
        rw [← Option.some.inj h, drift_eq, drift_eq, Bool.eq_false_of_not_eq_true hpump]
        simp only [Bool.toNat_true, Bool.toNat_false]
        omega
      · rw [Option.some.inj h]
        exact iff_of_true rfl trivial
  | cleanerBump =>
      rw [step] at h
      split_ifs at h with hcleaner
      rw [← Option.some.inj h, drift_eq, drift_eq, NotClamped, hcleaner]
      simp only [bump, Bool.toNat_true, Bool.toNat_false]
      omega
  | pumpBump =>
      rw [step] at h
      split_ifs at h with hpump
      rw [← Option.some.inj h, drift_eq, drift_eq, NotClamped, hpump]
      simp only [bump, Bool.toNat_true, Bool.toNat_false]
      omega

theorem lawful_step_iff (hlawful : s.Lawful) (hkeyed : s.registry.Keyed) (h : s.step e = some t) :
  t.Lawful ↔ s.RemovesOwn e ∧ s.NotClamped e
  := by
  have hzero : s.drift = 0 := Int.sub_eq_zero.mpr hlawful.counted
  rw [← registered_step_iff hlawful.registered hkeyed h, ← drift_step_iff h, hzero]
  constructor
  · intro ht
    exact ⟨ht.registered, Int.sub_eq_zero.mpr ht.counted⟩
  · rintro ⟨hreg, hdrift⟩
    exact ⟨hreg, Int.sub_eq_zero.mp hdrift⟩

/-- When no call of `bump` is pending, the counter is the number of entries. -/
theorem Lawful.activeFlows_eq (hlawful : s.Lawful) (hsettled : s.Settled) :
  s.activeFlows = s.entries
  := by
  obtain ⟨hreader, hconnectors, hcleaner, hpump⟩ := hsettled
  have hcounted := hlawful.counted
  rw [pending, hreader, hconnectors, hcleaner, hpump] at hcounted
  simp only [Option.elim_none, List.length_nil, Bool.toNat_false] at hcounted
  omega

/-! ### Runs -/

theorem keyed_init :
  ({} : Dataplane).registry.Keyed
  := by
  intro key i h
  rw [AList.lookup_empty] at h
  cases h

theorem lawful_init :
  ({} : Dataplane).Lawful
  := by
  constructor
  · intro i b hb
    cases hb
  · rfl

/-- All states along a run are lawful exactly if no connector thread removes another bridge than its
own and no call of `bump` is clamped. -/
theorem forall_lawful_iff (es : List FlowEvent) (hrun : (Run.exec step {} es).isSome) :
  (∀ pre, pre <+: es → ∀ t, Run.exec step {} pre = some t → t.Lawful) ↔
    Run.Meets step (fun s e => s.RemovesOwn e ∧ s.NotClamped e) {} es
  := by
  have hinv : ∀ s e t, s.registry.Keyed → step s e = some t → t.registry.Keyed := by
    intro s e t hkeyed h
    apply keyed_step hkeyed h
  apply Run.forall_prefix_iff_meets hinv _ keyed_init lawful_init hrun
  intro s e t hkeyed hlawful h
  apply lawful_step_iff hlawful hkeyed h

/-- A flow that is opened, and ends. -/
def openAndEnd (key : FlowKey) : List FlowEvent :=
  [.syn key, .readerBump, .segment key, .finishTcp 0, .connectorBump 0]

theorem forall_lawful_openAndEnd :
  (Run.exec step {} (openAndEnd ⟨"10.0.0.2", 40000, "1.1.1.1", 443, 6⟩)).isSome ∧
    ∀ pre, pre <+: openAndEnd ⟨"10.0.0.2", 40000, "1.1.1.1", 443, 6⟩ →
      ∀ t, Run.exec step {} pre = some t → t.Lawful
  := by
  have hrun : (Run.exec step {} (openAndEnd ⟨"10.0.0.2", 40000, "1.1.1.1", 443, 6⟩)).isSome := by
    decide +kernel
  exact ⟨hrun, (forall_lawful_iff _ hrun).mpr (by decide +kernel)⟩

/-- A client resets its connection and opens the next one from the same port, before the connector
thread of the first one ends. -/
def reusePort (key : FlowKey) : List FlowEvent :=
  [.syn key, .readerBump, .rst key, .readerBump, .syn key, .readerBump, .finishTcp 0,
    .connectorBump 0]

/-- The second bridge is open, and no longer registered. -/
theorem not_lawful_reusePort :
  ∃ t, Run.exec step {} (reusePort ⟨"10.0.0.2", 40000, "1.1.1.1", 443, 6⟩) = some t ∧ ¬ t.Lawful
  := by
  refine ⟨_, rfl, ?_⟩
  intro hlawful
  exact absurd (hlawful.registered 1 _ rfl rfl) (by decide +kernel)

end Dataplane

end Tun
