import DtmaOne.Library.Collections
import DtmaOne.Library.Text
import Mathlib.Logic.Function.Basic

/-!
# The path cache

`TelegramPathCache` remembers which ports of which hosts have accepted a connection.  It keeps
three structures: for every host the ports that have worked, for every host and port the time of
the last failure, and one list of all the endpoints that have worked.  They are updated separately,
and the first and the last of them are cut.

What the cache prefers is a function of the events since the last `clear`: the ports of the host in
the order of their last success, then the requested port and the defaults, with those at the end
whose latest event is a recent failure.

A call comes with the readings of the clock.  `lowercase` is that of the platform.
-/

namespace Telegram.PathCache

/-! ### The cache -/

/-- `WorkingEndpoint` -/
structure WorkingEndpoint where
  host : String
  port : ℤ
  via : String
  rttMs : ℤ
  atMs : ℤ
  deriving DecidableEq

/-- `TelegramDcProbe.Result`, as far as `ingestProbe` reads it. -/
structure ProbeResult where
  host : String
  port : ℤ
  ok : Bool
  ms : ℤ
  deriving DecidableEq

/-- The fields of `TelegramPathCache`. -/
structure Cache where
  goodPorts : String → Option (List ℤ)
  recentFail : String → Option ℤ
  working : List WorkingEndpoint
  lastProbeOk : ℕ
  lastProbeTotal : ℕ

/-- `TelegramPathCache.clear`, and the cache at the start. -/
def clear : Cache :=
  ⟨fun _ => none, fun _ => none, [], 0, 0⟩

/-- `key` -/
def key (host : String) (port : ℤ) : String :=
  host ++ ":" ++ toString port

/-- `s.removePrefix("/")` -/
def removeSlash (s : String) : String :=
  match s.toList with
  | '/' :: cs => String.ofList cs
  | _ => s

/-- The number of ports that are kept for a host. -/
def maxPorts : ℕ := 6

/-- The number of endpoints in `working`. -/
def maxWorking : ℕ := 32

/-- The default ports. -/
def defaults : List ℤ := [443, 80, 5222, 5223]

/-- For how long a port is deferred after a failure. -/
def deferMs : ℤ := 120000

section Calls

variable (lowercase : String → String)

/-- `TelegramPathCache.normalizeHost` -/
def normalizeHost (host : String) : Option String :=
  let h := Text.substringBefore '%' (removeSlash (lowercase (Text.trim host)))
  if Text.isBlank h then none else some h

/-- `TelegramPathCache.rememberOk` -/
def rememberOk (s : Cache) (host : String) (port : ℤ) (via : String) (rttMs now : ℤ) : Cache :=
  match normalizeHost lowercase host with
  | none => s
  | some h =>
      let list := (s.goodPorts h).getD []
      let list := Collections.cutTo maxPorts (port :: list.erase port)
      let others := s.working.filter fun e => !(e.host = h && e.port = port)
      { s with
        goodPorts := Function.update s.goodPorts h (some list)
        recentFail := Function.update s.recentFail (key h port) none
        working := Collections.cutTo maxWorking (⟨h, port, via, rttMs, now⟩ :: others) }

/-- `TelegramPathCache.rememberFail` -/
def rememberFail (s : Cache) (host : String) (port : ℤ) (now : ℤ) : Cache :=
  match normalizeHost lowercase host with
  | none => s
  | some h => { s with recentFail := Function.update s.recentFail (key h port) (some now) }

/-- One result of a probe, and the clock when it is remembered. -/
def ingestResult (s : Cache) (r : ProbeResult × ℤ) : Cache :=
  if r.1.ok then rememberOk lowercase s r.1.host r.1.port "probe" r.1.ms r.2
  else rememberFail lowercase s r.1.host r.1.port r.2

/-- `TelegramPathCache.ingestProbe` -/
def ingestProbe (s : Cache) (results : List (ProbeResult × ℤ)) : Cache :=
  results.foldl (ingestResult lowercase)
    { s with
      lastProbeTotal := results.length
      lastProbeOk := results.countP fun r => r.1.ok }

/-- Put a port in front, or among the deferred ones. -/
def sortOut (isDeferred : ℤ → Bool) (lists : List ℤ × List ℤ) (p : ℤ) : List ℤ × List ℤ :=
  if isDeferred p then (lists.1, lists.2 ++ [p]) else (lists.1 ++ [p], lists.2)

/-- The port has failed in the last two minutes, and is neither requested nor known. -/
def isDeferred (s : Cache) (h : String) (known : List ℤ) (requestedPort now p : ℤ) : Bool :=
  ((s.recentFail (key h p)).any fun failedAt => now - failedAt < deferMs)
    && p != requestedPort && !known.contains p

/-- `TelegramPathCache.preferredPorts` -/
def preferredPorts (s : Cache) (host : String) (requestedPort : ℤ) (now : ℤ) : List ℤ :=
  match normalizeHost lowercase host with
  | none => [requestedPort]
  | some h =>
      let known := (s.goodPorts h).getD []
      let ordered := Collections.LinkedSet.addAll [] known
      let ordered := Collections.LinkedSet.add ordered requestedPort
      let ordered := Collections.LinkedSet.addAll ordered defaults
      let lists := ordered.foldl (sortOut (isDeferred s h known requestedPort now)) ([], [])
      lists.1 ++ lists.2

/-- A call that changes the cache, with the readings of the clock. -/
inductive Call where
  | rememberOk (host : String) (port : ℤ) (via : String) (rttMs now : ℤ)
  | rememberFail (host : String) (port : ℤ) (now : ℤ)
  | ingestProbe (results : List (ProbeResult × ℤ))
  | clear
  deriving DecidableEq

/-- The cache after a call. -/
def apply (s : Cache) : Call → Cache
  | .rememberOk host port via rttMs now => rememberOk lowercase s host port via rttMs now
  | .rememberFail host port now => rememberFail lowercase s host port now
  | .ingestProbe results => ingestProbe lowercase s results
  | .clear => clear

/-- The cache after calls, one at a time. -/
def run (calls : List Call) : Cache :=
  calls.foldl (apply lowercase) clear

/-! ### The history -/

/-- What is recorded. -/
inductive Event where
  | ok (host : String) (port : ℤ)
  | fail (host : String) (port : ℤ) (time : ℤ)
  | clear
  deriving DecidableEq

/-- The event of one result of a probe. -/
def resultEvent (r : ProbeResult × ℤ) : Event :=
  if r.1.ok then .ok r.1.host r.1.port else .fail r.1.host r.1.port r.2

/-- The events of a call, in order. -/
def Call.events : Call → List Event
  | .rememberOk host port _ _ _ => [.ok host port]
  | .rememberFail host port now => [.fail host port now]
  | .ingestProbe results => results.map resultEvent
  | .clear => [.clear]

/-- The events since the last `clear`, the latest one first. -/
def sinceClear (events : List Event) : List Event :=
  events.reverse.takeWhile fun e => e ≠ .clear

/-- The host, in its normal form, and the port that have worked. -/
def Event.success : Event → Option (String × ℤ)
  | .ok host port => (normalizeHost lowercase host).map fun h => (h, port)
  | .fail _ _ _ => none
  | .clear => none

/-- The host, in its normal form, and the port an event is about. -/
def Event.subject : Event → Option (String × ℤ)
  | .ok host port => (normalizeHost lowercase host).map fun h => (h, port)
  | .fail host port _ => (normalizeHost lowercase host).map fun h => (h, port)
  | .clear => none

/-- The time of a failure. -/
def Event.failedAt : Event → Option ℤ
  | .fail _ _ time => some time
  | .ok _ _ => none
  | .clear => none

/-- The ports of a host that have worked, the latest success first. -/
def successes (h : String) (log : List Event) : List ℤ :=
  ((log.filterMap (Event.success lowercase)).filter fun pair => pair.1 = h).map Prod.snd

/-- The time of the latest event for a host and a port, if that is a failure. -/
def lastFailure (h : String) (port : ℤ) (log : List Event) : Option ℤ :=
  (log.find? fun e => e.subject lowercase = some (h, port)).bind Event.failedAt

/-- The ports of a host that have worked most recently. -/
def knownPorts (h : String) (log : List Event) : List ℤ :=
  Collections.mostRecent 6 (successes lowercase h log)

/-- The default ports that come last: neither the requested one nor known, and the latest event is
a failure less than 120 s ago. -/
def deferredPorts (h : String) (requestedPort now : ℤ) (log : List Event) : List ℤ :=
  defaults.filter fun p =>
    p ≠ requestedPort ∧ p ∉ knownPorts lowercase h log
      ∧ ∃ time ∈ lastFailure lowercase h p log, now - time < 120000

/-- The requested port and the default ports, without those that are known or come last. -/
def primaryPorts (h : String) (requestedPort now : ℤ) (log : List Event) : List ℤ :=
  ((requestedPort :: defaults).eraseDups.filter fun p =>
    p ∉ knownPorts lowercase h log).filter fun p =>
      p ∉ deferredPorts lowercase h requestedPort now log

/-- Different hosts and ports have different keys. -/
theorem key_injective {h h' : String} {p p' : ℤ} (heq : key h p = key h' p') :
  h = h' ∧ p = p'
  := by
  have hcolon : ∀ q : ℤ, ':' ∉ (toString q).toList.reverse := by
    intro q
    rw [List.mem_reverse]
    apply Text.not_mem_toString (by decide) (by decide)
  have hlists : (toString p).toList.reverse ++ ':' :: h.toList.reverse
      = (toString p').toList.reverse ++ ':' :: h'.toList.reverse := by
    have := congrArg (fun s => s.toList.reverse) heq
    simpa [key] using this
  have htail := congrArg (List.dropWhile (· ≠ ':')) hlists
  have hhead := congrArg (List.takeWhile (· ≠ ':')) hlists
  have hall : ∀ q : ℤ, ∀ c ∈ (toString q).toList.reverse, decide (c ≠ ':') = true := by
    intro q c hc
    rw [decide_eq_true_iff]
    rintro rfl
    exact hcolon q hc
  rw [List.dropWhile_append_of_pos (hall p), List.dropWhile_append_of_pos (hall p')] at htail
  rw [List.takeWhile_append_of_pos (hall p), List.takeWhile_append_of_pos (hall p')] at hhead
  constructor
  · apply String.toList_injective
    simpa using htail
  · apply Text.toString_injective
    apply String.toList_injective
    simpa using hhead

/-! ### The cache represents the history -/

/-- The cache has what the events since the last `clear` say. -/
structure Represents (s : Cache) (log : List Event) : Prop where
  good : ∀ h, (s.goodPorts h).getD [] = knownPorts lowercase h log
  failed : ∀ h p, s.recentFail (key h p) = lastFailure lowercase h p log
  working : s.working.map (fun e => (e.host, e.port))
    = Collections.mostRecent 32 (log.filterMap (Event.success lowercase))

variable {lowercase}

theorem represents_clear :
  Represents lowercase clear []
  := by
  constructor
  · intro h
    rfl
  · intro h p
    rfl
  · rfl

/-- An event for a host without a normal form is not remembered. -/
theorem represents_cons_of_none {s : Cache} {log : List Event} {e : Event}
    (hs : Represents lowercase s log) (hsuccess : e.success lowercase = none)
    (hsubject : e.subject lowercase = none) :
  Represents lowercase s (e :: log)
  := by
  constructor
  · intro h
    rw [hs.good, knownPorts, knownPorts, successes, successes, List.filterMap_cons_none hsuccess]
  · intro h p
    rw [hs.failed, lastFailure, lastFailure, List.find?_cons_of_neg]
    rw [hsubject]
    simp
  · rw [hs.working, List.filterMap_cons_none hsuccess]

/-- The latest failure after an event for `h` and `p`. -/
theorem lastFailure_cons {h : String} {p : ℤ} {e : Event}
    (hsubject : e.subject lowercase = some (h, p)) (h' : String) (p' : ℤ) (log : List Event) :
  lastFailure lowercase h' p' (e :: log)
    = if h = h' ∧ p = p' then e.failedAt else lastFailure lowercase h' p' log
  := by
  rw [lastFailure, lastFailure]
  split_ifs with heq
  · obtain ⟨rfl, rfl⟩ := heq
    rw [List.find?_cons_of_pos (by simpa using hsubject)]
    rfl
  · rw [List.find?_cons_of_neg]
    rw [hsubject]
    simpa using heq

/-- The failures that are remembered after one is added or removed. -/
theorem recentFail_update {s : Cache} {log : List Event} (hs : Represents lowercase s log)
    {h : String} {p : ℤ} {e : Event} (hsubject : e.subject lowercase = some (h, p)) (h' : String)
    (p' : ℤ) :
  Function.update s.recentFail (key h p) e.failedAt (key h' p')
    = lastFailure lowercase h' p' (e :: log)
  := by
  rw [lastFailure_cons hsubject, Function.update_apply, hs.failed]
  by_cases heq : h = h' ∧ p = p'
  · obtain ⟨rfl, rfl⟩ := heq
    rw [if_pos rfl, if_pos ⟨rfl, rfl⟩]
  · rw [if_neg heq, if_neg]
    intro hkey
    obtain ⟨rfl, rfl⟩ := key_injective hkey
    exact heq ⟨rfl, rfl⟩

theorem represents_rememberFail {s : Cache} {log : List Event} (hs : Represents lowercase s log)
    (host : String) (port now : ℤ) :
  Represents lowercase (rememberFail lowercase s host port now) (.fail host port now :: log)
  := by
  delta rememberFail
  cases hhost : normalizeHost lowercase host with
  | none =>
      apply represents_cons_of_none hs rfl
      rw [Event.subject, hhost]
      rfl
  | some h =>
      have hsubject : (Event.fail host port now).subject lowercase = some (h, port) := by
        rw [Event.subject, hhost]
        rfl
      constructor
      · apply hs.good
      · apply recentFail_update hs hsubject
      · apply hs.working

theorem represents_rememberOk {s : Cache} {log : List Event} (hs : Represents lowercase s log)
    (host : String) (port : ℤ) (via : String) (rttMs now : ℤ) :
  Represents lowercase (rememberOk lowercase s host port via rttMs now) (.ok host port :: log)
  := by
  delta rememberOk
  cases hhost : normalizeHost lowercase host with
  | none =>
      apply represents_cons_of_none hs
      · rw [Event.success, hhost]
        rfl
      · rw [Event.subject, hhost]
        rfl
  | some h =>
      have hsuccess : (Event.ok host port).success lowercase = some (h, port) := by
        rw [Event.success, hhost]
        rfl
      have hsubject : (Event.ok host port).subject lowercase = some (h, port) := by
        rw [Event.subject, hhost]
        rfl
      constructor
      · intro h'
        dsimp only
        rw [Function.update_apply, knownPorts, successes, List.filterMap_cons_some hsuccess]
        split_ifs with heq
        · subst heq
          rw [Option.getD_some, Collections.cutTo_eq_take, hs.good,
            List.filter_cons_of_pos (by simp), List.map_cons, Collections.mostRecent_cons_eq_erase]
          rfl
        · rw [List.filter_cons_of_neg (by simpa using Ne.symm heq), hs.good]
          rfl
      · apply recentFail_update hs hsubject
      · have hothers : s.working.filter (fun e => !(e.host = h && e.port = port))
            = s.working.filter ((fun pair => pair ≠ (h, port)) ∘ fun e => (e.host, e.port)) := by
          apply List.filter_congr
          intro e _
          simp
        dsimp only
        rw [List.filterMap_cons_some hsuccess, Collections.mostRecent_cons, ← hs.working,
          Collections.cutTo_eq_take, List.map_take, List.map_cons, List.filter_map, hothers]
        rfl

theorem represents_ingestResult {s : Cache} {log : List Event} (hs : Represents lowercase s log)
    (r : ProbeResult × ℤ) :
  Represents lowercase (ingestResult lowercase s r) (resultEvent r :: log)
  := by
  rw [ingestResult, resultEvent]
  split_ifs
  · apply represents_rememberOk hs
  · apply represents_rememberFail hs

/-- An event that is no `clear` is added in front. -/
theorem sinceClear_append {events : List Event} {e : Event} (he : e ≠ .clear) :
  sinceClear (events ++ [e]) = e :: sinceClear events
  := by
  rw [sinceClear, List.reverse_append, List.reverse_singleton, List.singleton_append,
    List.takeWhile_cons_of_pos (by simpa using he)]
  rfl

theorem sinceClear_append_clear (events : List Event) :
  sinceClear (events ++ [.clear]) = []
  := by
  rw [sinceClear, List.reverse_append, List.reverse_singleton, List.singleton_append,
    List.takeWhile_cons_of_neg (by simp)]

theorem represents_ingest {s : Cache} {events : List Event}
    (hs : Represents lowercase s (sinceClear events)) (results : List (ProbeResult × ℤ)) :
  Represents lowercase (results.foldl (ingestResult lowercase) s)
    (sinceClear (events ++ results.map resultEvent))
  := by
  induction results generalizing s events with
  | nil => rwa [List.map_nil, List.append_nil]
  | cons r results ih =>
      have hevent : resultEvent r ≠ .clear := by
        rw [resultEvent]
        split_ifs
        · simp
        · simp
      rw [List.foldl_cons, List.map_cons, List.append_cons]
      apply ih
      rw [sinceClear_append hevent]
      apply represents_ingestResult hs

/-- A call adds its events to the history. -/
theorem represents_apply {s : Cache} {events : List Event}
    (hs : Represents lowercase s (sinceClear events)) (c : Call) :
  Represents lowercase (apply lowercase s c) (sinceClear (events ++ c.events))
  := by
  cases c with
  | rememberOk host port via rttMs now =>
      rw [Call.events, sinceClear_append (by simp), apply]
      apply represents_rememberOk hs
  | rememberFail host port now =>
      rw [Call.events, sinceClear_append (by simp), apply]
      apply represents_rememberFail hs
  | ingestProbe results =>
      rw [Call.events, apply, ingestProbe]
      apply represents_ingest
      exact ⟨hs.good, hs.failed, hs.working⟩
  | clear =>
      rw [Call.events, sinceClear_append_clear]
      apply represents_clear

/-- After every run the cache represents the history. -/
theorem represents_run (calls : List Call) :
  Represents lowercase (run lowercase calls) (sinceClear (calls.flatMap Call.events))
  := by
  have hall : ∀ (calls : List Call) (s : Cache) (events : List Event),
      Represents lowercase s (sinceClear events) →
      Represents lowercase (calls.foldl (apply lowercase) s)
        (sinceClear (events ++ calls.flatMap Call.events)) := by
    intro calls
    induction calls with
    | nil =>
        intro s events hs
        rwa [List.flatMap_nil, List.append_nil]
    | cons c calls ih =>
        intro s events hs
        rw [List.foldl_cons, List.flatMap_cons, ← List.append_assoc]
        apply ih
        apply represents_apply hs
  apply hall calls clear []
  apply represents_clear

/-! ### The preference -/

/-- The loop over the ports separates the deferred ones from the others. -/
theorem foldl_sortOut (isDeferred : ℤ → Bool) (ports : List ℤ) (lists : List ℤ × List ℤ) :
  ports.foldl (sortOut isDeferred) lists
    = (lists.1 ++ ports.filter (fun p => !isDeferred p), lists.2 ++ ports.filter isDeferred)
  := by
  induction ports generalizing lists with
  | nil => simp
  | cons p ports ih =>
      rw [List.foldl_cons, ih, sortOut]
      cases hp : isDeferred p with
      | false => simp [hp]
      | true => simp [hp]

/-- The ports in the order in which they are added to the set. -/
theorem addAll_ordered {known : List ℤ} (hknown : known.Nodup) (requestedPort : ℤ) :
  Collections.LinkedSet.addAll
      (Collections.LinkedSet.add (Collections.LinkedSet.addAll [] known) requestedPort) defaults
    = known ++ (requestedPort :: defaults).eraseDups.filter fun p => p ∉ known
  := by
  have hadd : ∀ (l : List ℤ) (p : ℤ),
      Collections.LinkedSet.add l p = Collections.LinkedSet.addAll l [p] := fun _ _ => rfl
  have hfirst : Collections.LinkedSet.addAll [] known = known.eraseDups :=
    Collections.LinkedSet.addAll_eraseDups [] known
  rw [hadd, hfirst, Collections.LinkedSet.addAll_eraseDups,
    Collections.LinkedSet.addAll_eraseDups, List.append_assoc, List.singleton_append,
    List.eraseDups_append, Collections.eraseDups_of_nodup hknown, Collections.filter_eraseDups]
  congr 2
  apply List.filter_congr
  intro p _
  simp

/-- The default ports in the order in which they are deferred. -/
theorem filter_ordered {known : List ℤ} {requestedPort : ℤ} {isDeferred : ℤ → Bool}
    (hrequested : isDeferred requestedPort = false) (hknown : ∀ p ∈ known, isDeferred p = false) :
  ((requestedPort :: defaults).eraseDups.filter fun p => p ∉ known).filter isDeferred
    = defaults.filter isDeferred
  := by
  have hdefaults : defaults.Nodup := by decide
  have hunknown : ∀ p ∈ defaults.filter isDeferred, decide (p ∉ known) = true := by
    intro p hp
    rw [decide_eq_true_iff]
    intro hmem
    rw [List.mem_filter, hknown p hmem] at hp
    cases hp.2
  rw [Collections.filter_eraseDups, Collections.filter_eraseDups, List.filter_comm,
    List.filter_cons_of_neg (by simp [hrequested]), List.filter_eq_self.mpr hunknown]
  apply Collections.eraseDups_of_nodup
  apply hdefaults.filter

section Represented

variable {s : Cache} {log : List Event}

theorem isDeferred_iff (hs : Represents lowercase s log) (h : String) (requestedPort now p : ℤ) :
  isDeferred s h (knownPorts lowercase h log) requestedPort now p = true
    ↔ p ≠ requestedPort ∧ p ∉ knownPorts lowercase h log
      ∧ ∃ time ∈ lastFailure lowercase h p log, now - time < 120000
  := by
  rw [isDeferred, hs.failed, deferMs]
  simp only [Bool.and_eq_true, Option.any_eq_true, decide_eq_true_iff, bne_iff_ne,
    Bool.not_eq_true', List.contains_eq_mem, decide_eq_false_iff_not]
  constructor
  · rintro ⟨⟨hfailed, hrequested⟩, hknown⟩
    exact ⟨hrequested, hknown, hfailed⟩
  · rintro ⟨hrequested, hknown, hfailed⟩
    exact ⟨⟨hfailed, hrequested⟩, hknown⟩

/-- The defaults that come last are those the loop defers. -/
theorem deferredPorts_eq (hs : Represents lowercase s log) (h : String) (requestedPort now : ℤ) :
  deferredPorts lowercase h requestedPort now log
    = defaults.filter (isDeferred s h (knownPorts lowercase h log) requestedPort now)
  := by
  apply List.filter_congr
  intro p _
  rw [Bool.eq_iff_iff, isDeferred_iff hs, decide_eq_true_iff]

/-- The ports before them are those the loop does not defer. -/
theorem primaryPorts_eq (hs : Represents lowercase s log) (h : String) (requestedPort now : ℤ) :
  primaryPorts lowercase h requestedPort now log
    = ((requestedPort :: defaults).eraseDups.filter fun p => p ∉ knownPorts lowercase h log).filter
        fun p => !isDeferred s h (knownPorts lowercase h log) requestedPort now p
  := by
  rw [primaryPorts, deferredPorts_eq hs]
  apply List.filter_congr
  intro p hp
  rw [List.mem_filter, List.mem_eraseDups, List.mem_cons] at hp
  rw [Bool.eq_iff_iff, decide_eq_true_iff, List.mem_filter, Bool.not_eq_true']
  obtain ⟨rfl | hdefault, -⟩ := hp
  · have hrequested : isDeferred s h (knownPorts lowercase h log) p now p = false := by
      simp [isDeferred]
    simp [hrequested]
  · simp [hdefault]

/-- The ports that a cache prefers, by what it represents. -/
theorem preferredPorts_eq (hs : Represents lowercase s log) {host h : String}
    (hhost : normalizeHost lowercase host = some h) (requestedPort now : ℤ) :
  preferredPorts lowercase s host requestedPort now
    = knownPorts lowercase h log ++ primaryPorts lowercase h requestedPort now log
      ++ deferredPorts lowercase h requestedPort now log
  := by
  have hnodup : (knownPorts lowercase h log).Nodup := Collections.nodup_mostRecent 6 _
  have hrequested :
      isDeferred s h (knownPorts lowercase h log) requestedPort now requestedPort = false := by
    simp [isDeferred]
  have hknown : ∀ p ∈ knownPorts lowercase h log,
      isDeferred s h (knownPorts lowercase h log) requestedPort now p = false := by
    intro p hp
    simp [isDeferred, hp]
  have hfront : (knownPorts lowercase h log).filter
      (fun p => !isDeferred s h (knownPorts lowercase h log) requestedPort now p)
        = knownPorts lowercase h log := by
    apply List.filter_eq_self.mpr
    intro p hp
    rw [hknown p hp]
    rfl
  have hback : (knownPorts lowercase h log).filter
      (isDeferred s h (knownPorts lowercase h log) requestedPort now) = [] := by
    apply List.filter_eq_nil_iff.mpr
    intro p hp
    rw [hknown p hp]
    simp
  delta preferredPorts
  rw [hhost]
  dsimp only
  rw [hs.good, addAll_ordered hnodup, foldl_sortOut, primaryPorts_eq hs, deferredPorts_eq hs]
  rw [List.filter_append, List.filter_append, hfront, hback, filter_ordered hrequested hknown]
  rfl

/-- The ports that the history prefers are without repetitions. -/
theorem nodup_preferred (h : String) (requestedPort now : ℤ) :
  (knownPorts lowercase h log ++ primaryPorts lowercase h requestedPort now log
    ++ deferredPorts lowercase h requestedPort now log).Nodup
  := by
  have hdefaults : defaults.Nodup := by decide
  rw [List.nodup_append, List.nodup_append]
  refine ⟨⟨?_, ?_, ?_⟩, ?_, ?_⟩
  · apply Collections.nodup_mostRecent
  · apply List.Nodup.filter
    apply List.Nodup.filter
    apply Collections.nodup_eraseDups
  · rintro p hknown q hprimary rfl
    have hunknown := (List.mem_filter.mp (List.mem_filter.mp hprimary).1).2
    exact of_decide_eq_true hunknown hknown
  · apply hdefaults.filter
  · rintro p hfront q hdeferred rfl
    rw [List.mem_append] at hfront
    obtain hknown | hprimary := hfront
    · have hunknown := of_decide_eq_true (List.mem_filter.mp hdeferred).2
      exact hunknown.2.1 hknown
    · have hnot := of_decide_eq_true (List.mem_filter.mp hprimary).2
      exact hnot hdeferred

end Represented

/-- After every sequence of calls, for every host with a normal form and every requested port, the
preferred ports are without repetitions: the ports that have worked most recently, then the
requested one and the defaults, and last the defaults that have failed recently.  The endpoints that
are listed are the ones that have worked most recently. -/
theorem preferredPorts_run (calls : List Call) :
  (∀ host h, normalizeHost lowercase host = some h → ∀ requestedPort now : ℤ,
    (preferredPorts lowercase (run lowercase calls) host requestedPort now).Nodup
    ∧ preferredPorts lowercase (run lowercase calls) host requestedPort now
      = knownPorts lowercase h (sinceClear (calls.flatMap Call.events))
        ++ primaryPorts lowercase h requestedPort now (sinceClear (calls.flatMap Call.events))
        ++ deferredPorts lowercase h requestedPort now (sinceClear (calls.flatMap Call.events)))
  ∧ (run lowercase calls).working.map (fun e => (e.host, e.port))
    = Collections.mostRecent 32
      ((sinceClear (calls.flatMap Call.events)).filterMap (Event.success lowercase))
  := by
  have hrun : Represents lowercase (run lowercase calls) _ := represents_run calls
  constructor
  · intro host h hhost requestedPort now
    rw [preferredPorts_eq hrun hhost]
    constructor
    · apply nodup_preferred
    · rfl
  · apply hrun.working

end Calls

example :
  preferredPorts id
      (run id [.rememberOk "10.0.0.1" 80 "direct" 5 1000, .rememberFail " /10.0.0.1" 5222 2000])
      "10.0.0.1%wlan0" 443 3000
    = [80, 443, 5223, 5222]
  := by decide +kernel

end Telegram.PathCache
