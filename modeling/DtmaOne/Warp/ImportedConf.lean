import DtmaOne.Warp.BringUp
import DtmaOne.Warp.ConfText

/-!
# Failed imports

A later `start` takes the configuration in memory, or else the one in the file.  `startFromConf`
puts the imported configuration in both places before it tries it, and takes it back from neither.
So a failed import keeps the configuration a later start loads exactly when the text is no
configuration, or has the configuration that would be loaded anyway.
-/

namespace Warp.WarpController

/-! ### The configuration a start loads -/

/-- `WarpInstaller.loadPersistentConf`, of the file. -/
def loadPersistentConf (platform : Platform) (file : Option String) : Option String :=
  file.filter fun text =>
    40 ≤ text.utf8ByteSize && Text.contains platform.sameIgnoringCase "[Interface]" text &&
      Text.contains (· == ·) "PrivateKey" text

/-- `WarpController.loadSaved`, with `WarpConfigGenerator.fromConfText` at the time of the call. -/
def loadSaved (platform : Platform) (fromConfText : String → Except (Option String) WarpConfig)
    (file : Option String) : Option WarpConfig :=
  (loadPersistentConf platform file).bind fun text => (fromConfText text).toOption

/-- The configuration `start` would load first. -/
def loadsFirst (platform : Platform) (fromConfText : String → Except (Option String) WarpConfig)
    (c : Controller) : Option WarpConfig :=
  c.confCache <|> loadSaved platform fromConfText c.savedConf

section Import

variable {platform : Platform} {answers : ConfAnswers} {confText : String}

theorem keepsConf_stopInternal (ok : Bool) :
  ∀ w ∈ stopInternal ok, w.keepsConf = true
  := by
  simp [stopInternal, Effect.keepsConf]

/-- A text that is no configuration is not imported, and leaves the configuration. -/
theorem startFromConf_of_unparsed {message : Option String}
    (h : answers.fromConfText confText = .error message) :
  (startFromConf platform answers confText).result = .ok false ∧
    ∀ w ∈ (startFromConf platform answers confText).writes, w.keepsConf = true
  := by
  have himport : importConf platform answers confText = ⟨[], .error message⟩ := by
    rw [importConf, h]
    rfl
  rw [startFromConf, himport, Emit.bind_of_ok (Emit.result_tellAll _)]
  refine ⟨rfl, ?_⟩
  intro w hw
  obtain hw | hw := List.mem_append.mp hw
  · apply keepsConf_stopInternal _ w hw
  · obtain rfl := List.mem_singleton.mp hw
    rfl

/-- The import of a configuration puts it in memory and in the file, and tries it. -/
theorem importConf_of_parsed {conf : WarpConfig} (h : answers.fromConfText confText = .ok conf) :
  importConf platform answers confText =
    Emit.tellAll [.setConfCache (some conf), .savePersistentConf conf.confText] >>= fun _ =>
      bringUpOnce platform answers.bringUp (some conf) 1 false >>= fun _ => Emit.tell .startMonitor
  := by
  rw [importConf, h, Emit.bind_of_ok rfl, Emit.bind_of_ok (Emit.result_tell _),
    Emit.bind_of_ok (Emit.result_tell _), Emit.bind_of_ok (Emit.result_tellAll _)]
  rfl

/-- An import of a configuration fails exactly if the configuration is not brought up. -/
theorem result_of_parsed {conf : WarpConfig} (h : answers.fromConfText confText = .ok conf) :
  (startFromConf platform answers confText).result = .ok false ↔
    (bringUpOnce platform answers.bringUp (some conf) 1 false).result ≠ .ok ()
  := by
  rw [startFromConf, Emit.bind_of_ok (Emit.result_tellAll _),
    Emit.bind_of_ok (Emit.result_runCatching _), importConf_of_parsed h,
    Emit.bind_of_ok (Emit.result_tellAll _)]
  cases hr : (bringUpOnce platform answers.bringUp (some conf) 1 false).result with
  | ok _ =>
      rw [Emit.bind_of_ok hr]
      apply iff_of_false
      · intro hfalse
        cases hfalse
      · intro hne
        exact hne rfl
  | error message =>
      rw [Emit.bind_of_error hr]
      apply iff_of_true rfl
      intro hok
      cases hok

/-- After a failed import of a configuration it is the one in memory. -/
theorem confCache_of_parsed {conf : WarpConfig} (h : answers.fromConfText confText = .ok conf)
    (hfail : (startFromConf platform answers confText).result = .ok false) (c : Controller) :
  (c.applyAll (startFromConf platform answers confText).writes).confCache = some conf
  := by
  have hthrown := (result_of_parsed h).mp hfail
  have hkeeps := keepsConf_bringUpOnce hthrown
  cases hr : (bringUpOnce platform answers.bringUp (some conf) 1 false).result with
  | ok _ => exact absurd hr hthrown
  | error message =>
      rw [startFromConf, Emit.bind_of_ok (Emit.result_tellAll _),
        Emit.bind_of_ok (Emit.result_runCatching _), importConf_of_parsed h,
        Emit.bind_of_ok (Emit.result_tellAll _), Emit.bind_of_error hr]
      simp only [Emit.writes_runCatching, applyAll_append]
      apply (applyAll_keepsConf hkeeps _).1

end Import

/-- A failed import keeps the configuration a later start loads first, exactly when the text is no
configuration or that configuration. -/
theorem loadsFirst_startFromConf_iff (platform : Platform) (answers : ConfAnswers)
    (confText : String) (c : Controller)
    (fromConfText : String → Except (Option String) WarpConfig)
    (hfail : (startFromConf platform answers confText).result = .ok false) :
  loadsFirst platform fromConfText (c.applyAll (startFromConf platform answers confText).writes) =
      loadsFirst platform fromConfText c ↔
    ∀ conf, answers.fromConfText confText = .ok conf →
      loadsFirst platform fromConfText c = some conf
  := by
  cases hparsed : answers.fromConfText confText with
  | error message =>
      obtain ⟨hcache, hfile⟩ :=
        applyAll_keepsConf (startFromConf_of_unparsed hparsed).2 c
      apply iff_of_true
      · rw [loadsFirst, hcache, hfile, loadsFirst]
      · intro conf hconf
        cases hconf
  | ok conf =>
      have hcache := confCache_of_parsed hparsed hfail c
      simp only [Except.ok.injEq, forall_eq']
      rw [loadsFirst, hcache]
      change some conf = _ ↔ _
      apply eq_comm

/-! ### Silent endpoints -/

/-- `WarpConfigGenerator.fromConfText`, with the message of the exception. -/
def readConf (platform : TextPlatform) (b : Bootstrap) (confText : String) :
    Except (Option String) WarpConfig :=
  match WarpConfigGenerator.fromConfText platform b confText with
  | .ok conf => .ok conf
  | .error (.illegalArgument message) => .error (some message)
  | .error .unknownHost => .error none

theorem readConf_of_ok {platform : TextPlatform} {b : Bootstrap} {confText : String}
    {conf : WarpConfig} (h : WarpConfigGenerator.fromConfText platform b confText = .ok conf) :
  readConf platform b confText = .ok conf
  := by
  rw [readConf, h]

theorem attempt_of_mem_endpointSlots {attempts : ℕ → Attempt} {idx : ℕ} {eps : List String}
    {s : Slot} (hs : s ∈ endpointSlots attempts idx eps) :
  ∃ k, s.attempt = attempts k
  := by
  induction eps generalizing idx with
  | nil => cases hs
  | cons ep eps ih =>
      obtain rfl | hs := List.mem_cons.mp hs
      · exact ⟨idx, rfl⟩
      · apply ih hs

theorem attempt_of_mem_slots {platform : Platform} {attempt : ℕ → Attempt} {cIdx : ℕ}
    {configs : List WarpConfig} {s : Slot}
    (hs : s ∈ slots platform (uniform attempt) cIdx configs) :
  ∃ k, s.attempt = attempt k
  := by
  induction configs generalizing cIdx with
  | nil => cases hs
  | cons conf configs ih =>
      obtain hs | hs := List.mem_append.mp hs
      · apply attempt_of_mem_endpointSlots hs
      · apply ih hs

/-- No configuration is brought up when all endpoints are silent. -/
theorem bringUpOnce_silent (platform : Platform) (conf : Option WarpConfig) (attempt : ℕ)
    (allowRegister : Bool) :
  (bringUpOnce platform (uniform fun _ => silent) conf attempt allowRegister).result ≠ .ok ()
  := by
  intro h
  obtain ⟨ws, -, ⟨-, ⟨e, he⟩, -⟩ | ⟨-, -, -, hresult⟩⟩ :=
    bringUpOnce_cases platform (uniform fun _ => silent) conf attempt allowRegister
  · rw [he] at h
    cases h
  · rw [hresult, result_raceEndpoints] at h
    obtain ⟨d, hd, -⟩ := h
    have hdecisive := List.find?_some hd
    obtain ⟨k, hk⟩ := attempt_of_mem_slots (List.mem_of_find?_eq_some hd)
    obtain ⟨ep, a⟩ := d
    obtain rfl : a = silent := hk
    cases hdecisive

/-- An import with endpoints that are all silent. -/
def silentImport (fromConfText : String → Except (Option String) WarpConfig) : ConfAnswers where
  fromConfText := fromConfText
  tearDown := true
  bringUp := uniform fun _ => silent

/-- A configuration that is imported with silent endpoints fails, and is the one in memory. -/
theorem silentImport_of_parsed {platform : Platform}
    {fromConfText : String → Except (Option String) WarpConfig} {confText : String}
    {conf : WarpConfig} (h : fromConfText confText = .ok conf) (c : Controller) :
  (startFromConf platform (silentImport fromConfText) confText).result = .ok false ∧
    (c.applyAll
      (startFromConf platform (silentImport fromConfText) confText).writes).confCache = some conf
  := by
  have hparsed : (silentImport fromConfText).fromConfText confText = .ok conf := h
  have hfail : (startFromConf platform (silentImport fromConfText) confText).result = .ok false := by
    rw [result_of_parsed hparsed]
    apply bringUpOnce_silent
  exact ⟨hfail, confCache_of_parsed hparsed hfail c⟩

/-- The reader of configurations for ASCII text, when no name server answers. -/
def asciiReader : String → Except (Option String) WarpConfig :=
  readConf WarpConfigGenerator.asciiPlatform WarpConfigGenerator.silentBootstrap

/-- The text of another account. -/
def otherText : String :=
  WarpConfigGenerator.confFor WarpConfigGenerator.sampleKey "172.16.0.2/32"
    WarpConfigGenerator.sampleKey WarpConfigGenerator.sampleEndpoint

/-- The text of the other account is read. -/
theorem exists_asciiReader_otherText :
  ∃ conf, asciiReader otherText = .ok conf ∧ conf.privateKey = WarpConfigGenerator.sampleKey
  := by
  obtain ⟨r, hr, hsample⟩ := WarpConfigGenerator.exists_registered
  have hwritable := hsample.writable (by decide +kernel) (by decide +kernel)
  have hstep := WarpConfigGenerator.inStep_of_obtained hr
  have hreloads := (WarpConfigGenerator.reloads_of_inStep WarpConfigGenerator.asciiPlatform
    WarpConfigGenerator.silentBootstrap hstep hwritable).mpr (by
      rw [hsample.2.2.2]
      apply WarpConfigGenerator.not_refused_sample)
  obtain ⟨conf, hconf, hprivate, -⟩ := hreloads
  have htext : r.confText = otherText := by
    delta otherText
    rw [hstep.text, hsample.1, hsample.2.1, hsample.2.2.1, hsample.2.2.2]
  rw [htext] at hconf
  delta asciiReader
  exact ⟨conf, readConf_of_ok hconf, hprivate.trans hsample.1⟩

/-- After a failed import of another account a later start loads that account. -/
theorem not_loadsFirst_silentImport :
  let saved : Controller := { confCache := some sampleConf }
  let body := startFromConf Platform.ascii (silentImport asciiReader) otherText
  body.result = .ok false ∧
    loadsFirst Platform.ascii asciiReader (saved.applyAll body.writes) ≠
      loadsFirst Platform.ascii asciiReader saved
  := by
  obtain ⟨conf, hconf, hkey⟩ := exists_asciiReader_otherText
  obtain ⟨hfail, hcache⟩ := silentImport_of_parsed hconf { confCache := some sampleConf }
  refine ⟨hfail, ?_⟩
  rw [loadsFirst, hcache]
  intro hsame
  have hprivate : conf.privateKey = sampleConf.privateKey := by
    rw [Option.some.inj hsame]
  rw [hkey] at hprivate
  revert hprivate
  decide +kernel

/-- The import of a text that is no configuration keeps the account. -/
theorem loadsFirst_unparsed :
  let saved : Controller := { confCache := some sampleConf }
  let body := startFromConf Platform.ascii (silentImport asciiReader) "[Peer]"
  body.result = .ok false ∧
    loadsFirst Platform.ascii asciiReader (saved.applyAll body.writes) =
      loadsFirst Platform.ascii asciiReader saved
  := by
  have hparsed : (silentImport asciiReader).fromConfText "[Peer]" =
      .error (some "Нет [Interface]") := rfl
  obtain ⟨hfail, -⟩ := startFromConf_of_unparsed hparsed
  refine ⟨hfail, ?_⟩
  apply (loadsFirst_startFromConf_iff Platform.ascii (silentImport asciiReader) "[Peer]" _
    asciiReader hfail).mpr
  intro conf hconf
  rw [hparsed] at hconf
  cases hconf

end Warp.WarpController
