import QuantumWiring.Config.File
import QuantumWiring.Engine.Exchange
import QuantumWiring.Proofs.Failure
import Mathlib.Data.List.DropRight

/-!
# From an accepted configuration to an engine

A configuration and the settings of an engine are checked apart, and between the two checks the
slashes at the end of the URL are dropped.  Paths and timeout pass both checks, and so does a URL
that has anything but slashes behind its scheme.  A URL without a host loses the slashes of its
scheme as well: such a configuration is accepted, and no engine can be made with its settings
(`engine_of_accepted`, `accepted_hostless`).
-/

namespace QuantumWiring

namespace Text

variable {c : Char} {start rest : List Char}

theorem beginsWith_iff {s start : String} : beginsWith s start ↔ start.toList <+: s.toList :=
  List.isPrefixOf_iff_prefix

theorem dropTrailing_append_of_forall (h : ∀ d ∈ rest, d = c) :
    dropTrailing c (start ++ rest) = dropTrailing c start := by
  unfold dropTrailing
  rw [List.reverse_append, List.dropWhile_append_of_pos]
  simpa using h

theorem dropTrailing_append_of_exists (h : ∃ d ∈ rest, d ≠ c) :
    dropTrailing c (start ++ rest) = start ++ dropTrailing c rest := by
  have hne : rest.reverse.dropWhile (· = c) ≠ [] := by simpa [List.dropWhile_eq_nil_iff] using h
  unfold dropTrailing
  rw [List.reverse_append, List.dropWhile_append, if_neg (by simpa using hne), List.reverse_append,
    List.reverse_reverse]

end Text

/-! ## URLs without a host -/

namespace EngineSettings

/-- The beginnings of the URLs that are accepted. -/
def schemes : List String := ["http://", "https://"]

/-- Nothing but slashes stands behind the scheme of a URL. -/
def IsHostless (url : String) : Prop :=
  ∃ scheme ∈ schemes, ∃ k, url.toList = scheme.toList ++ List.replicate k '/'

/-- The URL that is left of one without a host when the slashes at its end are dropped. -/
def bareSchemes : List String := ["http:", "https:"]

variable {url : String}

theorem isWebUrl_iff : isWebUrl url ↔ ∃ scheme ∈ schemes, scheme.toList <+: url.toList := by
  simp [isWebUrl, schemes, Text.beginsWith_iff]

theorem baseUrl_of_isHostless (h : IsHostless url) : (ofUrl url).baseUrl ∈ bareSchemes := by
  obtain ⟨scheme, hscheme, k, hurl⟩ := h
  have hslashes : ∀ d ∈ List.replicate k '/', d = '/' := fun d hd => List.eq_of_mem_replicate hd
  have hdrop : ∀ s ∈ schemes, String.ofList (Text.dropTrailing '/' s.toList) ∈ bareSchemes := by
    decide
  show String.ofList (Text.dropTrailing '/' url.toList) ∈ bareSchemes
  rw [hurl, Text.dropTrailing_append_of_forall hslashes]
  exact hdrop scheme hscheme

/-- Dropping the slashes at its end leaves a URL with its scheme, if there is a host. -/
theorem isWebUrl_baseUrl_iff (h : isWebUrl url) :
    isWebUrl (ofUrl url).baseUrl ↔ ¬ IsHostless url := by
  constructor
  · intro hweb hhostless
    have hnone : ∀ s ∈ bareSchemes, isWebUrl s = false := by decide
    rw [hnone _ (baseUrl_of_isHostless hhostless)] at hweb
    cases hweb
  · intro hhost
    obtain ⟨scheme, hscheme, rest, hurl⟩ := isWebUrl_iff.1 h
    have hrest : ∃ d ∈ rest, d ≠ '/' := by
      by_contra hall
      have hslashes : rest = List.replicate rest.length '/' :=
        List.eq_replicate_of_mem fun d hd => not_not.1 fun hne => hall ⟨d, hd, hne⟩
      exact hhost ⟨scheme, hscheme, rest.length, by rw [← hurl, ← hslashes]⟩
    refine isWebUrl_iff.2 ⟨scheme, hscheme, Text.dropTrailing '/' rest, ?_⟩
    show _ = (String.ofList (Text.dropTrailing '/' url.toList)).toList
    rw [String.toList_ofList, ← hurl, Text.dropTrailing_append_of_exists hrest]

theorem check_eq_ok_iff {s : EngineSettings} : s.check = .ok () ↔
    isWebUrl s.baseUrl ∧ s.timeout ≠ 0 ∧ relativePath? s.paths = none := by
  unfold check
  cases hurl : isWebUrl s.baseUrl
  · simp
  · by_cases htime : s.timeout = 0
    · simp [htime]
    · cases hpath : relativePath? s.paths <;> simp [htime]

end EngineSettings

theorem Engine.exists_ofSettings_eq_ok_iff {s : EngineSettings} :
    (∃ e, ofSettings s = .ok e) ↔ s.check = .ok () := by
  unfold ofSettings
  constructor
  · rintro ⟨e, he⟩
    split at he
    · next h => exact h
    · cases he
  · intro h
    split
    · exact ⟨_, rfl⟩
    · next h' =>
      rw [h] at h'
      cases h'

/-! ## Accepted configurations -/

namespace Config

open EngineSettings

theorem check_eq_ok_iff {c : Config} : c.check = .ok () ↔
    isWebUrl c.engine.url ∧ relativePath? c.engine.paths = none ∧ c.engine.timeout ≠ 0 ∧
      c.logging.level ∈ LoggingSection.levels ∧ c.engine.token ≠ some "" := by
  unfold check violation?
  cases hurl : isWebUrl c.engine.url
  · simp
  · cases hpath : relativePath? c.engine.paths with
    | some path => simp
    | none =>
      by_cases htime : c.engine.timeout = 0 <;>
        by_cases hlevel : c.logging.level ∈ LoggingSection.levels <;>
        by_cases htoken : c.engine.token = some "" <;> simp [htime, hlevel, htoken]

theorem check_of_apply {env : Environment} {c c' : Config} (h : env.apply c = .ok c') :
    c'.check = .ok () := by
  obtain ⟨_, hcheck, h⟩ := bind_eq_ok_iff.1 h
  cases h
  exact hcheck

/-- What is loaded has been accepted. -/
theorem check_of_load {files : Files} {env : Environment} {named : Option String} {c : Config}
    (h : load files env named = .ok c) : c.check = .ok () := by
  unfold load at h
  split at h
  · obtain ⟨c', -, h⟩ := bind_eq_ok_iff.1 h
    exact check_of_apply (mapError_eq_ok_iff.1 h)
  · exact check_of_apply (mapError_eq_ok_iff.1 h)

/-- **An engine can be made with what an accepted configuration says, unless its URL has no host.**
Then the URL that is left is refused; paths and timeout never are. -/
theorem engine_of_accepted {c : Config} (h : c.check = .ok ()) :
    (c.engineSettings.check = .ok () ↔ ¬ IsHostless c.engine.url) ∧
    ((∃ e, Engine.ofSettings c.engineSettings = .ok e) ↔ ¬ IsHostless c.engine.url) ∧
    ∀ fault, c.engineSettings.check = .error fault →
      fault = .url c.engineSettings.baseUrl ∧ c.engineSettings.baseUrl ∈ bareSchemes := by
  obtain ⟨hurl, hpath, htime, -, -⟩ := check_eq_ok_iff.1 h
  have hbase : c.engineSettings.baseUrl = (ofUrl c.engine.url).baseUrl := rfl
  have hpaths : relativePath? c.engineSettings.paths = none := hpath
  have htimeout : c.engineSettings.timeout ≠ 0 := Nat.mul_ne_zero htime (by decide)
  have haccepted : c.engineSettings.check = .ok () ↔ ¬ IsHostless c.engine.url := by
    rw [EngineSettings.check_eq_ok_iff, hbase, isWebUrl_baseUrl_iff hurl]
    exact and_iff_left ⟨htimeout, hpaths⟩
  refine ⟨haccepted, Engine.exists_ofSettings_eq_ok_iff.trans haccepted, fun fault hfault => ?_⟩
  have hhostless : IsHostless c.engine.url := by
    by_contra hhost
    rw [haccepted.2 hhost] at hfault
    cases hfault
  have hweb : isWebUrl c.engineSettings.baseUrl = false :=
    Bool.eq_false_iff.2 fun hweb => (isWebUrl_baseUrl_iff hurl).1 hweb hhostless
  unfold EngineSettings.check at hfault
  simp only [hweb, Bool.not_false, if_true] at hfault
  cases hfault
  exact ⟨rfl, baseUrl_of_isHostless hhostless⟩

/-- Slashes behind a host do no harm. -/
theorem engine_of_slashes :
    (standard.withUrl "https://engine//").check = .ok () ∧
    ¬ IsHostless "https://engine//" ∧
    ∃ e, Engine.ofSettings (standard.withUrl "https://engine//").engineSettings = .ok e := by
  have haccepted : (standard.withUrl "https://engine//").check = .ok () := by decide
  have hhost : ¬ IsHostless "https://engine//" :=
    (isWebUrl_baseUrl_iff (by decide)).1 (by decide)
  exact ⟨haccepted, hhost, (engine_of_accepted haccepted).2.1.2 hhost⟩

/-- No files, and an environment that sets the URL of the engine alone. -/
def hostlessEnvironment : Environment := fun name =>
  if name = "QWIRE_ENGINE_URL" then some "http://" else none

/-- The URL without a host is loaded and accepted, and no engine can be made with it. -/
theorem accepted_hostless :
    load ⟨[], []⟩ hostlessEnvironment none = .ok (standard.withUrl "http://") ∧
    (standard.withUrl "http://").check = .ok () ∧
    (standard.withUrl "http://").engineSettings.check = .error (.url "http:") ∧
    Engine.ofSettings (standard.withUrl "http://").engineSettings = .error (.url "http:") := by
  have hload : load ⟨[], []⟩ hostlessEnvironment none = .ok (standard.withUrl "http://") := by
    decide
  exact ⟨hload, check_of_load hload, by decide, rfl⟩

end Config

end QuantumWiring
