import DtmaOne.Library.Run
import DtmaOne.Library.Text

/-!
# Update checks

`UpdateNotifier` looks for a newer release, at most every twelve hours unless it is forced to, and
shows the one it finds.  The user may dismiss a release, whose tag is then stored with the
settings.

* Within the twelve hours a check shows the stored release, unless its tag is the dismissed one.
* Otherwise it queries the releases and shows the answer, whatever its tag is; only the
  notification is left out for the dismissed tag.

So a dismissed release is not shown by an automatic check exactly as long as no automatic check
is answered with it.
-/

namespace Update

/-! ### Versions -/

namespace VersionCompare

/-- `c.isDigit()` -/
def isDigit (c : Char) : Bool :=
  (Text.digit c).isSome

/-- A leading `v` before a digit is dropped. -/
def withoutV : List Char → List Char
  | v :: d :: cs => if (v = 'v' ∨ v = 'V') ∧ isDigit d then d :: cs else v :: d :: cs
  | cs => cs

/-- `VersionCompare.normalize` -/
def normalize (raw : String) : String :=
  let s := String.ofList (withoutV (Text.trim raw).toList)
  Text.substringBefore '+' (Text.substringBefore '-' s)

/-- `VersionCompare.parse` -/
def parse (raw : String) : List ℤ :=
  (Text.split '.' (normalize raw)).map fun part =>
    (Text.toIntOrNull (String.ofList (part.toList.takeWhile isDigit))).getD 0

/-- The loop of `VersionCompare.compare`; a missing number counts as zero. -/
def compareParts : List ℤ → List ℤ → Ordering
  | [], [] => .eq
  | x :: xs, [] => if x ≠ 0 then compare x 0 else compareParts xs []
  | [], y :: ys => if 0 ≠ y then compare 0 y else compareParts [] ys
  | x :: xs, y :: ys => if x ≠ y then compare x y else compareParts xs ys

/-- `VersionCompare.isNewer` -/
def isNewer (remote localName : String) : Bool :=
  compareParts (parse remote) (parse localName) = .gt

end VersionCompare

/-! ### The stored settings -/

/-- The settings of `UserSettings` that concern updates. -/
structure UserSettings where
  updateCheckEnabled : Bool := true
  lastUpdateCheckMs : ℤ := 0
  dismissedUpdateTag : String := ""
  lastKnownUpdateTag : String := ""
  lastKnownUpdateUrl : String := ""
  lastKnownApkUrl : String := ""
  lastKnownApkName : String := ""
  deriving DecidableEq, Repr

/-- The preferences under the keys that concern updates. -/
structure Preferences where
  updateCheck : Option Bool := none
  lastUpdateCheck : Option ℤ := none
  dismissedUpdate : Option String := none
  knownUpdateTag : Option String := none
  knownUpdateUrl : Option String := none
  knownApkUrl : Option String := none
  knownApkName : Option String := none
  deriving DecidableEq, Repr

namespace SettingsRepository

/-- `SettingsRepository.read` -/
def read (p : Preferences) : UserSettings where
  updateCheckEnabled := p.updateCheck.getD true
  lastUpdateCheckMs := p.lastUpdateCheck.getD 0
  dismissedUpdateTag := p.dismissedUpdate.getD ""
  lastKnownUpdateTag := p.knownUpdateTag.getD ""
  lastKnownUpdateUrl := p.knownUpdateUrl.getD ""
  lastKnownApkUrl := p.knownApkUrl.getD ""
  lastKnownApkName := p.knownApkName.getD ""

/-- `SettingsRepository.write` -/
def write (next : UserSettings) : Preferences where
  updateCheck := some next.updateCheckEnabled
  lastUpdateCheck := some next.lastUpdateCheckMs
  dismissedUpdate := some next.dismissedUpdateTag
  knownUpdateTag := some next.lastKnownUpdateTag
  knownUpdateUrl := some next.lastKnownUpdateUrl
  knownApkUrl := some next.lastKnownApkUrl
  knownApkName := some next.lastKnownApkName

/-- `SettingsRepository.update` -/
def update (transform : UserSettings → UserSettings) (p : Preferences) : Preferences :=
  write (transform (read p))

/-- `SettingsRepository.markUpdateChecked` -/
def markUpdateChecked (nowMs : ℤ) (p : Preferences) : Preferences :=
  { p with lastUpdateCheck := some nowMs }

/-- `SettingsRepository.setKnownUpdate` -/
def setKnownUpdate (tag url apkUrl apkName : String) (p : Preferences) : Preferences :=
  { p with
    knownUpdateTag := some tag
    knownUpdateUrl := some url
    knownApkUrl := some apkUrl
    knownApkName := some apkName }

/-- `SettingsRepository.clearKnownUpdate` -/
def clearKnownUpdate (p : Preferences) : Preferences :=
  setKnownUpdate "" "" "" "" p

/-- `SettingsRepository.dismissUpdate` -/
def dismissUpdate (tag : String) (p : Preferences) : Preferences :=
  { p with dismissedUpdate := some tag }

end SettingsRepository

/-! ### The notifier -/

/-- `AvailableUpdate` -/
structure AvailableUpdate where
  tag : String
  versionName : String
  releaseUrl : String
  notes : String
  apkUrl : Option String := none
  apkName : Option String := none
  apkSizeBytes : ℤ := 0
  deriving DecidableEq, Repr

/-- `UpdateCheckState` -/
inductive UpdateCheckState where
  | idle
  | checking
  | upToDate
  | available (update : AvailableUpdate)
  | error (message : String)
  deriving DecidableEq, Repr

/-- The stored settings, the state that is shown, and the notification. -/
structure State where
  prefs : Preferences
  state : UpdateCheckState
  notification : Option AvailableUpdate
  deriving DecidableEq, Repr

/-- The tag the user dismissed, as it is stored. -/
def State.dismissedTag (s : State) : String :=
  (SettingsRepository.read s.prefs).dismissedUpdateTag

namespace UpdateNotifier

/-- `UpdateNotifier.MIN_AUTO_INTERVAL_MS` -/
def minAutoIntervalMs : ℤ := 12 * 60 * 60 * 1000

/-- A call of `UpdateNotifier.check`: the clock, what `UpdateChecker.check` returns if it is
called, with the message of the exception for a failure, and whether notifications are
permitted. -/
structure Call where
  force : Bool
  now : ℤ
  answer : Except (Option String) (Option AvailableUpdate)
  mayNotify : Bool := true

/-- The last check is less than twelve hours ago. -/
def throttled (settings : UserSettings) (c : Call) : Bool :=
  !c.force && decide (settings.lastUpdateCheckMs > 0) &&
    decide ((c.now - settings.lastUpdateCheckMs).bmod (2 ^ 64) < minAutoIntervalMs)

/-- `s.ifBlank { null }` -/
def unlessBlank (s : String) : Option String :=
  if Text.isBlank s then none else some s

/-- The stored release a throttled check shows. -/
def cachedUpdate (versionName : String) (settings : UserSettings) : Option AvailableUpdate :=
  let cached := settings.lastKnownUpdateTag
  if !Text.isBlank cached && cached ≠ settings.dismissedUpdateTag &&
      VersionCompare.isNewer cached versionName then
    some
      { tag := cached
        versionName := VersionCompare.normalize cached
        releaseUrl := (unlessBlank settings.lastKnownUpdateUrl).getD
          "https://github.com/Kirillka645/dtma-one/releases"
        notes := ""
        apkUrl := unlessBlank settings.lastKnownApkUrl
        apkName := unlessBlank settings.lastKnownApkName }
  else none

/-- `UpdateNotifier.check` in a build of the given version, with the values it gives the shown state
one after the other. -/
def check (versionName : String) (s : State) (c : Call) : State × List UpdateCheckState :=
  let settings := SettingsRepository.read s.prefs
  if !settings.updateCheckEnabled then ({ s with state := .idle }, [.idle])
  else if throttled settings c then
    match cachedUpdate versionName settings with
    | some u => ({ s with state := .available u }, [.available u])
    | none => (s, [])
  else
    let prefs := SettingsRepository.markUpdateChecked c.now s.prefs
    match c.answer with
    | .ok none =>
        ({ s with prefs := SettingsRepository.clearKnownUpdate prefs, state := .upToDate },
          [.checking, .upToDate])
    | .ok (some u) =>
        ({ prefs := SettingsRepository.setKnownUpdate u.tag u.releaseUrl (u.apkUrl.getD "")
            (u.apkName.getD "") prefs
           state := .available u
           notification :=
            if u.tag ≠ settings.dismissedUpdateTag ∧ c.mayNotify then some u
            else s.notification },
          [.checking, .available u])
    | .error message =>
        ({ s with prefs := prefs, state := .error (message.getD "check failed") },
          [.checking, .error (message.getD "check failed")])

/-- `UpdateNotifier.dismiss` -/
def dismiss (s : State) : State where
  prefs :=
    match s.state with
    | .available u => SettingsRepository.dismissUpdate u.tag s.prefs
    | _ => s.prefs
  state := .idle
  notification := none

end UpdateNotifier

/-! ### Runs -/

/-- What may happen: a check, a dismissal, the switch of the update checks, a change of other
settings, or a new process, which keeps the settings and the notification. -/
inductive Event where
  | check (c : UpdateNotifier.Call)
  | dismiss
  | setUpdateCheckEnabled (v : Bool)
  | setOther
  | restart

/-- The state after an event, in a build of the given version. -/
def next (versionName : String) (s : State) : Event → State
  | .check c => (UpdateNotifier.check versionName s c).1
  | .dismiss => UpdateNotifier.dismiss s
  | .setUpdateCheckEnabled v =>
      { s with prefs := SettingsRepository.update ({ · with updateCheckEnabled := v }) s.prefs }
  | .setOther => { s with prefs := SettingsRepository.update id s.prefs }
  | .restart => { s with state := .idle }

/-- Every event is possible in every state. -/
def step (versionName : String) (s : State) (e : Event) : Option State :=
  some (next versionName s e)

/-- The tag dismissed last, before an event and after it. -/
def dismissedBy (s : State) (tag : String) : Event → String
  | .dismiss =>
      match s.state with
      | .available u => u.tag
      | _ => tag
  | _ => tag

/-- The tag the user dismissed last along a run from `s`, or before it. -/
def lastDismissed (versionName : String) (s : State) (tag : String) : List Event → String
  | [] => tag
  | e :: es => lastDismissed versionName (next versionName s e) (dismissedBy s tag e) es

/-! ### What is stored of a dismissal -/

/-- A check does not change the dismissed tag. -/
theorem dismissedTag_check (versionName : String) (s : State) (c : UpdateNotifier.Call) :
  (UpdateNotifier.check versionName s c).1.dismissedTag = s.dismissedTag
  := by
  fun_cases UpdateNotifier.check versionName s c <;> rfl

/-- The stored tag is the one dismissed last, through every event. -/
theorem dismissedTag_next (versionName : String) (s : State) (e : Event) :
  (next versionName s e).dismissedTag = dismissedBy s s.dismissedTag e
  := by
  cases e with
  | check c => apply dismissedTag_check
  | dismiss =>
      rw [next, UpdateNotifier.dismiss, dismissedBy, State.dismissedTag]
      cases s.state <;> rfl
  | setUpdateCheckEnabled v => rfl
  | setOther => rfl
  | restart => rfl

/-- After every run the stored tag is the one dismissed last. -/
theorem dismissedTag_of_exec {versionName : String} {s t : State} {es : List Event}
    (hrun : Run.exec (step versionName) s es = some t) :
  t.dismissedTag = lastDismissed versionName s s.dismissedTag es
  := by
  induction es generalizing s with
  | nil =>
      obtain rfl := Option.some.inj hrun
      rfl
  | cons e es ih =>
      obtain ⟨r, hr, hrun'⟩ := (Run.exec_cons_eq_some _).mp hrun
      obtain rfl := Option.some.inj hr
      rw [ih hrun', dismissedTag_next, lastDismissed]

/-! ### What a check shows -/

/-- The check is not throttled, and updates are looked for. -/
def Live (s : State) (c : UpdateNotifier.Call) : Prop :=
  (SettingsRepository.read s.prefs).updateCheckEnabled = true ∧
    UpdateNotifier.throttled (SettingsRepository.read s.prefs) c = false

instance (s : State) (c : UpdateNotifier.Call) : Decidable (Live s c) :=
  inferInstanceAs (Decidable (_ ∧ _))

/-- A stored release is not shown if its tag is the dismissed one. -/
theorem tag_cachedUpdate {versionName : String} {settings : UserSettings} {u : AvailableUpdate}
    (h : UpdateNotifier.cachedUpdate versionName settings = some u) :
  u.tag ≠ settings.dismissedUpdateTag
  := by
  rw [UpdateNotifier.cachedUpdate] at h
  split at h
  case isTrue hshown =>
    obtain rfl := Option.some.inj h
    simp only [Bool.and_eq_true, decide_eq_true_eq] at hshown
    exact hshown.1.2
  case isFalse => cases h

/-- A check shows a release with the dismissed tag if and only if it queries the releases and is
answered with it. -/
theorem shows_dismissed_iff (versionName : String) (s : State) (c : UpdateNotifier.Call) :
  (∃ u, .available u ∈ (UpdateNotifier.check versionName s c).2 ∧ u.tag = s.dismissedTag) ↔
    Live s c ∧ ∃ u, c.answer = .ok (some u) ∧ u.tag = s.dismissedTag
  := by
  fun_cases UpdateNotifier.check versionName s c
  case case1 settings hdisabled =>
    have hlive : ¬ Live s c := by
      rintro ⟨henabled, -⟩
      rw [henabled] at hdisabled
      cases hdisabled
    simp [hlive]
  case case2 settings _ hthrottled u hu =>
    have hlive : ¬ Live s c := by
      rintro ⟨-, hfree⟩
      rw [hfree] at hthrottled
      cases hthrottled
    have htag : u.tag ≠ s.dismissedTag := tag_cachedUpdate hu
    simp [hlive, htag]
  case case3 settings _ hthrottled hnone =>
    have hlive : ¬ Live s c := by
      rintro ⟨-, hfree⟩
      rw [hfree] at hthrottled
      cases hthrottled
    simp [hlive]
  case case4 settings henabled hfree prefs hanswer => simp [hanswer]
  case case5 settings henabled hfree prefs u hanswer =>
    have hlive : Live s c := by
      constructor
      · simpa using henabled
      · simpa using hfree
    simp [hlive, hanswer]
  case case6 settings henabled hfree prefs message hanswer => simp [hanswer]

/-! ### Dismissals along runs -/

/-- No automatic check of the run shows a release with the tag that was dismissed last. -/
def DismissalSticks (versionName : String) (s : State) (es : List Event) : Prop :=
  ∀ pre c post t, es = pre ++ .check c :: post → c.force = false →
    Run.exec (step versionName) s pre = some t →
    ∀ u, .available u ∈ (UpdateNotifier.check versionName t c).2 →
      u.tag ≠ lastDismissed versionName s s.dismissedTag pre

/-- An automatic check that queries the releases is not answered with the dismissed tag. -/
def NotAnsweredDismissed (s : State) : Event → Prop
  | .check c => c.force = false → Live s c → ∀ u, c.answer = .ok (some u) → u.tag ≠ s.dismissedTag
  | _ => True

/-- The dismissal of a release sticks in a run exactly if no automatic check that queries the
releases is answered with it. -/
theorem dismissalSticks_iff (versionName : String) (s : State) (es : List Event) :
  DismissalSticks versionName s es ↔ Run.Meets (step versionName) NotAnsweredDismissed s es
  := by
  rw [Run.meets_iff]
  constructor
  · intro h pre e post t hes hrun
    cases e with
    | check c =>
        intro hforce hlive u hanswer htag
        obtain ⟨v, hv, hvtag⟩ := (shows_dismissed_iff versionName t c).mpr ⟨hlive, u, hanswer, htag⟩
        apply h pre c post t hes hforce hrun v hv
        rw [hvtag, dismissedTag_of_exec hrun]
    | dismiss => trivial
    | setUpdateCheckEnabled v => trivial
    | setOther => trivial
    | restart => trivial
  · intro h pre c post t hes hforce hrun u hu htag
    rw [← dismissedTag_of_exec hrun] at htag
    obtain ⟨hlive, v, hanswer, hvtag⟩ := (shows_dismissed_iff versionName t c).mp ⟨u, hu, htag⟩
    apply h pre (.check c) post t hes hrun hforce hlive v hanswer hvtag

/-- A release newer than the build. -/
def sampleUpdate : AvailableUpdate where
  tag := "v9.9.9"
  versionName := "9.9.9"
  releaseUrl := "https://github.com/Kirillka645/dtma-one/releases/tag/v9.9.9"
  notes := ""

/-- A release is found, dismissed, and found again twelve hours later. -/
def sampleRun : List Event :=
  [.check { force := false, now := 1, answer := .ok (some sampleUpdate) },
    .dismiss,
    .check { force := false, now := 43200001, answer := .ok (some sampleUpdate) }]

/-- The automatic check after twelve hours shows the dismissed release again. -/
theorem not_dismissalSticks_sampleRun :
  ¬ DismissalSticks "0.3.7" ⟨{}, .idle, none⟩ sampleRun
  := by
  intro h
  have hrun : Run.exec (step "0.3.7") ⟨{}, .idle, none⟩ (sampleRun.take 2)
      = some ((sampleRun.take 2).foldl (next "0.3.7") ⟨{}, .idle, none⟩) := rfl
  apply h (sampleRun.take 2) _ [] _ rfl rfl hrun sampleUpdate
  · decide +kernel
  · rfl

end Update
