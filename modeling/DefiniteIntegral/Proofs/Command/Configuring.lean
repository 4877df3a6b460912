import DefiniteIntegral.Command.Run
import DefiniteIntegral.Proofs.Command.Action
import DefiniteIntegral.Proofs.Config.RoundTrip

/-! # The stored configuration

Commands about the configuration, run one after another where nothing is stored at first, against a
configuration that is only kept in memory. What is stored holds the configuration in memory after
every command, and it is what every command shows. -/

namespace DefiniteIntegral

open DefiniteIntegral.Action

/-! ## The configuration in memory -/

/-- The configuration with the entry of a name set from a text, if there is such an entry, the text
fits it, and the numbers of the result are small enough to be saved. -/
def Config.update? (config : Config) (key value : String) : Option Config :=
  match config.setNamed key value with
  | .ok next => if next.points.toNat < 2 ^ 63 ∧ next.seed.toNat < 2 ^ 63 then some next else none
  | .error _ => none

namespace ConfigOptions

/-- What becomes of a configuration in memory. -/
def applyTo (options : ConfigOptions) (config : Config) : Config :=
  if options.path then config
  else if options.reset then .standard
  else
    match options.key, options.value with
    | some key, some value => (config.update? key value).getD config
    | _, _ => config

/-- What is answered from a configuration in memory, and nothing if there is no answer. -/
def reply? (options : ConfigOptions) (configRoot : String) (config : Config) : Option String :=
  if options.path then some (configRoot ++ "/" ++ programName ++ "/config.toml\n")
  else if options.reset then some "Configuration reset to defaults\n"
  else
    match options.key, options.value with
    | none, none => config.toText.toOption
    | some key, none => (config.getNamed? key).map (· ++ "\n")
    | some key, some value =>
      (config.update? key value).map fun _ => key ++ " = " ++ value ++ "\n"
    | none, some _ => none

end ConfigOptions

/-- What becomes of a configuration in memory by a command line, given by the words after the name
of the command. One that is refused does nothing. -/
def Config.afterLine (config : Config) (words : List String) : Config :=
  match Command.ofLine ("config" :: words) with
  | .ok (.config options) => options.applyTo config
  | _ => config

/-- What becomes of a workplace by command lines about the configuration. -/
def Workplace.afterLines (place : Workplace) (lines : List (UInt64 × List String)) : Workplace :=
  lines.foldl (fun place line => (runLine line.1 ("config" :: line.2) place).2) place

/-! ## Stores that hold a configuration -/

/-- A store holds a configuration: as a file with its text, or as nothing if it is the standard
one. -/
inductive Store.Holds : Store → Config → Prop
  | unsaved : Holds .empty .standard
  | saved {config : Config} {text : String} (h : config.toText = .ok text) :
      Holds (.file (some text)) config

section

variable {store : Store} {config next : Config} {text key value : String}

theorem Config.exists_toText (hpoints : config.points.toNat < 2 ^ 63)
    (hseed : config.seed.toNat < 2 ^ 63) : ∃ text, config.toText = .ok text :=
  ⟨_, config.toText_eq_ok_iff.mpr ⟨hpoints, hseed, rfl⟩⟩

theorem Config.exists_toText_standard : ∃ text, Config.standard.toText = .ok text :=
  exists_toText (by decide) (by decide)

namespace Store.Holds

theorem exists_toText (h : store.Holds config) : ∃ text, config.toText = .ok text := by
  cases h with
  | unsaved => exact Config.exists_toText_standard
  | saved htext => exact ⟨_, htext⟩

theorem save_eq (h : store.Holds config) (htext : next.toText = .ok text) :
    store.save next = .ok (.file (some text)) := by
  cases h with
  | unsaved => exact save_of_toText (by simp) (by simp) htext
  | saved => exact save_of_toText (by simp) (by simp) htext

theorem eq_empty_or (h : store.Holds config) (htext : config.toText = .ok text) :
    store = .empty ∧ config = .standard ∨ store = .file (some text) := by
  cases h with
  | unsaved => exact .inl ⟨rfl, rfl⟩
  | saved hsaved => exact .inr (by rw [Except.ok.inj (hsaved.symm.trans htext)])

/-- A configuration that is held is loaded, and afterwards it is held by a file. -/
theorem load_eq (h : store.Holds config) (htext : config.toText = .ok text) :
    store.load = .ok (config, .file (some text)) := by
  cases h with
  | unsaved =>
      show (do
        let store ← Store.empty.save .standard
        return (Config.standard, store)) = _
      rw [save_eq .unsaved htext]
      rfl
  | saved hsaved =>
      obtain rfl := Except.ok.inj (hsaved.symm.trans htext)
      exact load_of_ofText (Config.ofText_toText _ hsaved)

end Store.Holds

theorem Config.setNamed_of_update?_eq_some (h : config.update? key value = some next) :
    config.setNamed key value = .ok next ∧ ∃ text, next.toText = .ok text := by
  unfold update? at h
  split at h
  · rename_i hset
    split at h
    · rename_i hsmall
      obtain rfl := Option.some.inj h
      exact ⟨hset, exists_toText hsmall.1 hsmall.2⟩
    · cases h
  · cases h

theorem Config.setNamed_of_update?_eq_none (h : config.update? key value = none) :
    (∃ fault, config.setNamed key value = .error fault) ∨
      ∃ next, config.setNamed key value = .ok next ∧ next.toText = .error .outOfRange := by
  unfold update? at h
  split at h
  · rename_i next hset
    split at h
    · cases h
    · rename_i hlarge
      exact .inr ⟨next, hset, next.toText_of_large (by omega)⟩
  · rename_i fault hset
    exact .inl ⟨fault, hset⟩

end

/-! ## One command -/

namespace ConfigOptions

/-- A run of a command agrees with the configuration in memory: it prints the answer, or it fails if
there is none, and then it has changed neither the configuration in memory nor a file. What it
leaves holds what becomes of the configuration. -/
structure Agrees (options : ConfigOptions) (config : Config) (place : Workplace)
    (outcome : Except (Error Float) Printed) (later : Workplace) : Prop where
  answered : ∀ out, options.reply? place.configRoot config = some out →
    outcome = .ok (.answer out)
  failed : options.reply? place.configRoot config = none →
    (∃ e, outcome = .error e) ∧ options.applyTo config = config ∧
      (place.store = .empty ∨ later = place)
  holds : later.store.Holds (options.applyTo config)
  configRoot : later.configRoot = place.configRoot

variable {options : ConfigOptions} {place later : Workplace} {config : Config}
  {text key value out : String} {e : Error Float}

theorem Agrees.of_answer (hreply : options.reply? place.configRoot config = some out)
    (hholds : later.store.Holds (options.applyTo config))
    (hroot : later.configRoot = place.configRoot) :
    options.Agrees config place (.ok (.answer out)) later where
  answered := by
    intro out' hreply'
    rw [Option.some.inj (hreply.symm.trans hreply')]
  failed hnone := nomatch hreply.symm.trans hnone
  holds := hholds
  configRoot := hroot

/-- A command that only loads the configuration and then fails. -/
theorem Agrees.of_failure (hreply : options.reply? place.configRoot config = none)
    (happly : options.applyTo config = config) (h : place.store.Holds config)
    (htext : config.toText = .ok text) :
    options.Agrees config place (.error e) { place with store := .file (some text) } where
  answered out hsome := nomatch hreply.symm.trans hsome
  failed _ := by
    refine ⟨⟨e, rfl⟩, happly, (h.eq_empty_or htext).imp And.left fun hstore => ?_⟩
    rw [← hstore]
  holds := by
    rw [happly]
    exact .saved htext
  configRoot := rfl

theorem run_path (hpath : options.path = true) :
    options.run.run place =
      (.ok (.answer (place.configRoot ++ "/" ++ programName ++ "/config.toml\n")), place) := by
  simp only [run, hpath, ↓reduceIte]
  rfl

theorem agrees_path (hpath : options.path = true) (h : place.store.Holds config) :
    options.Agrees config place (options.run.run place).1 (options.run.run place).2 := by
  rw [run_path hpath]
  refine .of_answer ?_ ?_ rfl
  · simp only [reply?, hpath, ↓reduceIte]
  · simpa only [applyTo, hpath, ↓reduceIte] using h

section Shapes

variable {shown given : Option String}

theorem agrees_reset (hoptions : options = ⟨shown, given, false, true⟩)
    (h : place.store.Holds config) :
    options.Agrees config place (options.run.run place).1 (options.run.run place).2 := by
  subst hoptions
  obtain ⟨text, htext⟩ := Config.exists_toText_standard
  have hrun : (⟨shown, given, false, true⟩ : ConfigOptions).run.run place =
      (.ok (.answer "Configuration reset to defaults\n"),
        { place with store := .file (some text) }) := by
    simp only [run, Bool.false_eq_true, ↓reduceIte, run_bind, run_saveConfig, h.save_eq htext]
    rfl
  rw [hrun]
  exact .of_answer rfl (.saved htext) rfl

theorem agrees_show_all (hoptions : options = ⟨none, none, false, false⟩)
    (h : place.store.Holds config) :
    options.Agrees config place (options.run.run place).1 (options.run.run place).2 := by
  subst hoptions
  obtain ⟨text, htext⟩ := h.exists_toText
  have hrun : (⟨none, none, false, false⟩ : ConfigOptions).run.run place =
      (.ok (.answer text), { place with store := .file (some text) }) := by
    simp only [run, Bool.false_eq_true, ↓reduceIte, run_bind, run_loadConfig, h.load_eq htext,
      run_settle, htext]
    rfl
  have hreply : (⟨none, none, false, false⟩ : ConfigOptions).reply? place.configRoot config =
      config.toText.toOption := rfl
  rw [hrun]
  exact .of_answer (by rw [hreply, htext]; rfl) (.saved htext) rfl

theorem agrees_show (hoptions : options = ⟨some key, none, false, false⟩)
    (h : place.store.Holds config) :
    options.Agrees config place (options.run.run place).1 (options.run.run place).2 := by
  subst hoptions
  obtain ⟨text, htext⟩ := h.exists_toText
  have hreply : (⟨some key, none, false, false⟩ : ConfigOptions).reply? place.configRoot config =
      (config.getNamed? key).map (· ++ "\n") := rfl
  simp only [run, Bool.false_eq_true, ↓reduceIte, run_bind, run_loadConfig, h.load_eq htext]
  cases hentry : config.getNamed? key with
  | some value => exact .of_answer (by rw [hreply, hentry]; rfl) (.saved htext) rfl
  | none => exact .of_failure (by rw [hreply, hentry]; rfl) rfl h htext

theorem agrees_set (hoptions : options = ⟨some key, some value, false, false⟩)
    (h : place.store.Holds config) :
    options.Agrees config place (options.run.run place).1 (options.run.run place).2 := by
  subst hoptions
  obtain ⟨text, htext⟩ := h.exists_toText
  have happly : (⟨some key, some value, false, false⟩ : ConfigOptions).applyTo config =
      (config.update? key value).getD config := rfl
  have hreply :
      (⟨some key, some value, false, false⟩ : ConfigOptions).reply? place.configRoot config =
        (config.update? key value).map fun _ => key ++ " = " ++ value ++ "\n" := rfl
  simp only [run, Bool.false_eq_true, ↓reduceIte, run_bind, run_loadConfig, h.load_eq htext,
    run_settle]
  cases hupdate : config.update? key value with
  | some next =>
      obtain ⟨hset, nextText, hnext⟩ := Config.setNamed_of_update?_eq_some hupdate
      simp only [hset, mapError_ok, run_saveConfig, (Store.Holds.saved htext).save_eq hnext]
      refine .of_answer (by rw [hreply, hupdate]; rfl) ?_ rfl
      rw [happly, hupdate]
      exact .saved hnext
  | none =>
      rw [hupdate] at happly hreply
      rcases Config.setNamed_of_update?_eq_none hupdate with ⟨fault, hset⟩ | ⟨next, hset, hlarge⟩
      · simp only [hset, mapError_error]
        exact .of_failure hreply happly h htext
      · -- The new configuration is set, and then it has no text to be saved.
        obtain ⟨fault, hsave⟩ : ∃ fault, (Store.file (some text)).save next = .error fault :=
          Store.exists_save_eq_error hlarge
        simp only [hset, mapError_ok, run_saveConfig, hsave]
        exact .of_failure hreply happly h htext

theorem agrees_value_alone (hoptions : options = ⟨none, some value, false, false⟩)
    (h : place.store.Holds config) :
    options.Agrees config place (options.run.run place).1 (options.run.run place).2 := by
  subst hoptions
  obtain ⟨text, htext⟩ := h.exists_toText
  simp only [run, Bool.false_eq_true, ↓reduceIte, run_bind, run_loadConfig, h.load_eq htext]
  exact .of_failure rfl rfl h htext

end Shapes

/-- Every command agrees with the configuration in memory. -/
theorem run_agrees (options : ConfigOptions) (h : place.store.Holds config) :
    options.Agrees config place (options.run.run place).1 (options.run.run place).2 := by
  obtain ⟨key, value, path, reset⟩ := options
  cases path with
  | true => exact agrees_path rfl h
  | false =>
      cases reset with
      | true => exact agrees_reset rfl h
      | false =>
          cases key with
          | none =>
              cases value with
              | none => exact agrees_show_all rfl h
              | some value => exact agrees_value_alone rfl h
          | some key =>
              cases value with
              | none => exact agrees_show rfl h
              | some value => exact agrees_set rfl h

end ConfigOptions

/-! ## Command lines -/

/-- What the words after the name of the command are read as. -/
theorem Command.ofLine_config (words : List String) :
    Command.ofLine ("config" :: words) =
      (ConfigOptions.grammar.read none ⟨none, none, false, false⟩ words).map .config := rfl

section Lines

variable {place : Workplace} {config : Config} {words : List String} {options : ConfigOptions}
  {entropy : UInt64}

/-- A command line that is read runs its command. -/
theorem runLine_config (hwords : Command.ofLine ("config" :: words) = .ok (.config options)) :
    runLine entropy ("config" :: words) place =
      match options.run.run place with
      | (.ok printed, later) => (⟨0, printed.out, printed.remarks⟩, later)
      | (.error e, later) => (⟨1, "", "Error: " ++ e.message ++ "\n"⟩, later) := by
  rw [runLine, hwords]
  rfl

theorem runLine_config_snd (hwords : Command.ofLine ("config" :: words) = .ok (.config options)) :
    (runLine entropy ("config" :: words) place).2 = (options.run.run place).2 := by
  rw [runLine_config hwords]
  rcases options.run.run place with ⟨_ | _, later⟩ <;> rfl

theorem runLine_config_of_answer
    (hwords : Command.ofLine ("config" :: words) = .ok (.config options)) {out : String}
    (h : (options.run.run place).1 = .ok (.answer out)) :
    (runLine entropy ("config" :: words) place).1 = ⟨0, out, ""⟩ := by
  rw [runLine_config hwords]
  rcases hrun : options.run.run place with ⟨outcome, later⟩
  rw [hrun] at h
  obtain rfl : outcome = .ok (.answer out) := h
  rfl

theorem runLine_config_of_error
    (hwords : Command.ofLine ("config" :: words) = .ok (.config options)) {e : Error Float}
    (h : (options.run.run place).1 = .error e) :
    (runLine entropy ("config" :: words) place).1 = ⟨1, "", "Error: " ++ e.message ++ "\n"⟩ := by
  rw [runLine_config hwords]
  rcases hrun : options.run.run place with ⟨outcome, later⟩
  rw [hrun] at h
  obtain rfl : outcome = .error e := h
  rfl

theorem holds_runLine (h : place.store.Holds config) (entropy : UInt64) (words : List String) :
    (runLine entropy ("config" :: words) place).2.store.Holds (config.afterLine words) ∧
      (runLine entropy ("config" :: words) place).2.configRoot = place.configRoot := by
  cases hread : ConfigOptions.grammar.read none ⟨none, none, false, false⟩ words with
  | error halt =>
      have hwords : Command.ofLine ("config" :: words) = .error halt := by
        rw [Command.ofLine_config, hread]
        rfl
      simp only [runLine, Config.afterLine, hwords]
      exact ⟨h, trivial⟩
  | ok options =>
      have hwords : Command.ofLine ("config" :: words) = .ok (.config options) := by
        rw [Command.ofLine_config, hread]
        rfl
      have hagrees := options.run_agrees h
      simp only [runLine_config_snd hwords, Config.afterLine, hwords]
      exact ⟨hagrees.holds, hagrees.configRoot⟩

/-- A run of command lines leaves what holds the configuration in memory. -/
theorem holds_afterLines (h : place.store.Holds config) (lines : List (UInt64 × List String)) :
    (place.afterLines lines).store.Holds ((lines.map Prod.snd).foldl Config.afterLine config) ∧
      (place.afterLines lines).configRoot = place.configRoot := by
  induction lines generalizing place config with
  | nil => exact ⟨h, rfl⟩
  | cons line lines ih =>
      obtain ⟨hholds, hroot⟩ := holds_runLine h line.1 line.2
      obtain ⟨hlater, hlaterRoot⟩ := ih hholds
      exact ⟨hlater, hlaterRoot.trans hroot⟩

end Lines

/-- Command lines about the configuration, run one after another where nothing is stored at first,
agree with a configuration in memory that is the standard one at first: if there is a file, it has
the text of that configuration and is read as it, the next command prints its answer, and one
without an answer fails and changes nothing. Asking for the path of the file makes none. -/
theorem runLine_config_refines (configRoot : String) (folder : Folder)
    (lines : List (UInt64 × List String)) :
    let place := Workplace.afterLines ⟨configRoot, .empty, folder⟩ lines
    let config := (lines.map Prod.snd).foldl Config.afterLine .standard
    (∃ text, config.toText = .ok text ∧ Config.ofText text = .ok config ∧
      (place.store = .empty ∧ config = .standard ∨ place.store = .file (some text))) ∧
    ∀ entropy words options, Command.ofLine ("config" :: words) = .ok (.config options) →
      let ending := (runLine entropy ("config" :: words) place).1
      let later := (runLine entropy ("config" :: words) place).2
      (∀ out, options.reply? configRoot config = some out → ending = ⟨0, out, ""⟩) ∧
      (options.reply? configRoot config = none →
        ending.status = 1 ∧ ending.out = "" ∧ options.applyTo config = config ∧
          (place.store = .empty ∨ later = place)) ∧
      (options.path = true → later = place) := by
  intro place config
  obtain ⟨hholds, hroot⟩ :
      place.store.Holds config ∧ place.configRoot = configRoot := holds_afterLines .unsaved lines
  constructor
  · obtain ⟨text, htext⟩ := hholds.exists_toText
    exact ⟨text, htext, config.ofText_toText htext, hholds.eq_empty_or htext⟩
  · intro entropy words options hwords ending later
    obtain ⟨hanswered, hfailed, -, -⟩ := options.run_agrees hholds
    rw [hroot] at hanswered hfailed
    have hlater : later = (options.run.run place).2 := runLine_config_snd hwords
    refine ⟨?_, ?_, ?_⟩
    · intro out hreply
      exact runLine_config_of_answer hwords (hanswered out hreply)
    · intro hreply
      obtain ⟨⟨e, he⟩, hkept, hplace⟩ := hfailed hreply
      have hending : ending = _ := runLine_config_of_error hwords he
      rw [hending, hlater]
      exact ⟨rfl, rfl, hkept, hplace⟩
    · intro hpath
      rw [hlater, ConfigOptions.run_path hpath]

example : [["defaults.seed", "7"], ["server.port", "70000"], ["server.port", "80", "--path"],
    ["defaults.seed", "9223372036854775808"]].foldl Config.afterLine .standard =
      { Config.standard with seed := 7 } := by decide

end DefiniteIntegral
