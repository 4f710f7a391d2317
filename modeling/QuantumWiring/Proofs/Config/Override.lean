import QuantumWiring.Proofs.Config.Acceptance

/-!
# Environment before file

The environment takes the place of whatever a file says for the settings that it overrides: two
files that differ in nothing else make the same of an environment.  A file has to be acceptable by
itself, though, before the environment is looked at.  What it says for an overridden setting is
therefore seen in one way: a value that is not accepted there is refused, and the environment does
not help (`load_eq_of_hides`, `load_loudFiles`).
-/

namespace QuantumWiring

namespace Environment

/-- Two configurations differ at most in settings that the environment overrides. -/
structure Hides (env : Environment) (c c' : Config) : Prop where
  url : env.url? = none → c.engine.url = c'.engine.url
  timeout : env.timeout? = none → c.engine.timeout = c'.engine.timeout
  token : env.token? = none → c.engine.token = c'.engine.token
  mode : env.mode? = none → c.compile.mode = c'.compile.mode
  logLevel : env.logLevel? = none → c.logging.level = c'.logging.level
  paths : c.engine.paths = c'.engine.paths
  connectTimeout : c.engine.connectTimeout = c'.engine.connectTimeout

theorem getD_eq_getD_iff {α : Type} {o : Option α} {a b : α} :
    o.getD a = o.getD b ↔ (o = none → a = b) := by
  cases o <;> simp

theorem or_eq_or_iff {α : Type} {o p q : Option α} : o.or p = o.or q ↔ (o = none → p = q) := by
  cases o <;> simp

variable {env : Environment} {c c' : Config}

/-- Overriding makes one configuration of two exactly when their differences are hidden. -/
theorem override_eq_override_iff : env.override c = env.override c' ↔ env.Hides c c' := by
  simp only [override, Config.mk.injEq, EngineSection.mk.injEq, CompileSection.mk.injEq,
    LoggingSection.mk.injEq, getD_eq_getD_iff, or_eq_or_iff]
  constructor
  · rintro ⟨⟨hurl, hcircuit, hstabilizer, hcorrection, htimeout, hconnect, htoken⟩, hmode, hlevel⟩
    have hpaths : c.engine.paths = c'.engine.paths := by
      unfold EngineSection.paths
      rw [hcircuit, hstabilizer, hcorrection]
    exact ⟨hurl, htimeout, htoken, hmode, hlevel, hpaths, hconnect⟩
  · rintro ⟨hurl, htimeout, htoken, hmode, hlevel, hpaths, hconnect⟩
    obtain ⟨hcircuit, hstabilizer, hcorrection, -⟩ := by
      simpa only [EngineSection.paths, List.cons.injEq] using hpaths
    exact ⟨⟨hurl, hcircuit, hstabilizer, hcorrection, htimeout, hconnect, htoken⟩, hmode, hlevel⟩

theorem apply_eq_ok_iff {d : Config} :
    env.apply c = .ok d ↔ (env.override c).check = .ok () ∧ env.override c = d := by
  constructor
  · intro h
    obtain ⟨_, hcheck, hd⟩ := bind_eq_ok_iff.1 h
    exact ⟨hcheck, Except.ok.inj hd⟩
  · rintro ⟨hcheck, rfl⟩
    exact bind_eq_ok_iff.2 ⟨(), hcheck, rfl⟩

theorem apply_eq_of_hides (h : env.Hides c c') : env.apply c = env.apply c' := by
  unfold apply
  rw [override_eq_override_iff.2 h]

end Environment

namespace Config

variable {files files' : Files} {env : Environment} {named named' : Option String} {c c' : Config}

/-- The file that settings are read from spells out the configuration. -/
def Spelled (files : Files) (env : Environment) (named : Option String) (c : Config) : Prop :=
  ∃ path text, source? files env named = some path ∧ files.read path = .ok text ∧
    ofText? text = some c

/-- A file is checked, then the environment is applied and the outcome checked. -/
theorem load_of_spelled (h : Spelled files env named c) :
    load files env named = (c.check >>= fun _ => env.apply c).mapError .invalid := by
  obtain ⟨path, text, hsource, hread, hparse⟩ := h
  have hfile : ofFile files path = (c.check.mapError .invalid >>= fun _ => .ok c) := by
    unfold ofFile
    rw [hread]
    simp only [Except.mapError, bind, Except.bind, hparse]
  unfold load
  rw [hsource]
  simp only [hfile]
  cases c.check <;> rfl

/-- **What a file says for overridden settings is seen by the check of the file alone.**  Two files
whose settings differ at most in what the environment overrides are loaded alike if they fare alike
in that check: as the same configuration, or refused for the same reason.  A file that does not pass
is refused whatever the environment says, and what is loaded of one that does is the file with the
environment in its place, if that is accepted. -/
theorem load_eq_of_hides (h : Spelled files env named c) (h' : Spelled files' env named' c')
    (hsame : env.Hides c c') :
    (c.check = c'.check → load files env named = load files' env named') ∧
    (∀ v, c.check = .error v → load files env named = .error (.invalid v)) ∧
    ∀ d, load files env named = .ok d ↔
      c.check = .ok () ∧ (env.override c).check = .ok () ∧ env.override c = d := by
  rw [load_of_spelled h, load_of_spelled h']
  refine ⟨fun hcheck => ?alike, fun v hv => ?refused, fun d => ?loaded⟩
  case alike => rw [hcheck, Environment.apply_eq_of_hides hsame]
  case refused =>
    rw [hv]
    rfl
  case loaded =>
    rw [mapError_eq_ok_iff, bind_eq_ok_iff]
    constructor
    · rintro ⟨_, hcheck, happly⟩
      exact ⟨hcheck, Environment.apply_eq_ok_iff.1 happly⟩
    · rintro ⟨hcheck, happly⟩
      exact ⟨(), hcheck, Environment.apply_eq_ok_iff.2 happly⟩

/-- A file in the root, and nothing else. -/
def loneFile (text : String) : Files := ⟨[], [(["config.yaml"], .file text)]⟩

/-- The path of the file. -/
def loneName : Option String := some "/config.yaml"

/-- An environment that sets the time limit and the level of the log. -/
def hurriedEnvironment : Environment := fun name =>
  if name = "QWIRE_TIMEOUT" then some "+9" else if name = "QWIRE_LOG_LEVEL" then some "info"
  else none

/-- A file that sets time limits and the level of the log. -/
def patientText : String :=
  "engine:\n  timeout_seconds: 7\n  connect_timeout_seconds: 3\nlogging:\n  level: error\n"

/-- A file that sets another time limit and no level. -/
def otherText : String := "engine:\n  timeout_seconds: 0x10\n  connect_timeout_seconds: 3\n"

def patientConfig : Config :=
  { standard with
    engine := { EngineSection.standard with timeout := 7, connectTimeout := 3 }
    logging := ⟨"error"⟩ }

def otherConfig : Config :=
  { standard with engine := { EngineSection.standard with timeout := 16, connectTimeout := 3 } }

/-- Both files are loaded with the time limit and the level of the environment. -/
theorem load_patientFiles :
    Spelled (loneFile patientText) hurriedEnvironment loneName patientConfig ∧
    Spelled (loneFile otherText) hurriedEnvironment loneName otherConfig ∧
    hurriedEnvironment.Hides patientConfig otherConfig ∧
    load (loneFile patientText) hurriedEnvironment loneName =
      load (loneFile otherText) hurriedEnvironment loneName ∧
    load (loneFile patientText) hurriedEnvironment loneName =
      .ok ⟨{ EngineSection.standard with timeout := 9, connectTimeout := 3 }, .standard, ⟨"info"⟩⟩ := by
  have hpatient : Spelled (loneFile patientText) hurriedEnvironment loneName patientConfig :=
    ⟨"/config.yaml", patientText, rfl, by decide, by decide +kernel⟩
  have hother : Spelled (loneFile otherText) hurriedEnvironment loneName otherConfig :=
    ⟨"/config.yaml", otherText, rfl, by decide, by decide +kernel⟩
  have hhides : hurriedEnvironment.Hides patientConfig otherConfig :=
    Environment.override_eq_override_iff.1 (by decide)
  obtain ⟨halike, -, hloaded⟩ := load_eq_of_hides hpatient hother hhides
  exact ⟨hpatient, hother, hhides, halike (by decide), (hloaded _).2 ⟨by decide, by decide, by decide⟩⟩

/-- A file that asks for a level that does not exist. -/
def loudText : String := "logging:\n  level: loud\n"

/-- The same file with a level that exists. -/
def quietText : String := "logging:\n  level: warn\n"

/-- The environment sets the level in both cases, and one of the files is refused for its own. -/
theorem load_loudFiles :
    Spelled (loneFile loudText) hurriedEnvironment loneName { standard with logging := ⟨"loud"⟩ } ∧
    Spelled (loneFile quietText) hurriedEnvironment loneName standard ∧
    hurriedEnvironment.Hides { standard with logging := ⟨"loud"⟩ } standard ∧
    load (loneFile loudText) hurriedEnvironment loneName = .error (.invalid (.logLevel "loud")) ∧
    load (loneFile quietText) hurriedEnvironment loneName =
      .ok ⟨{ EngineSection.standard with timeout := 9 }, .standard, ⟨"info"⟩⟩ := by
  have hhides : hurriedEnvironment.Hides { standard with logging := ⟨"loud"⟩ } standard :=
    Environment.override_eq_override_iff.1 (by decide)
  exact ⟨⟨"/config.yaml", loudText, rfl, by decide, by decide +kernel⟩,
    ⟨"/config.yaml", quietText, rfl, by decide, by decide +kernel⟩, hhides, by decide +kernel,
    by decide +kernel⟩

end Config

end QuantumWiring
