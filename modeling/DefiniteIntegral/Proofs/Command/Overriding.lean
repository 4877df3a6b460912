import DefiniteIntegral.Command.Run
import DefiniteIntegral.Proofs.Command.Action
import DefiniteIntegral.Proofs.Integration.Outcomes

/-! # Options and the configuration

What a command line says counts, whatever is configured. An integration goes by the entries of the
configuration that its options leave open and by no others, and by none at all if they leave none
open. -/

namespace DefiniteIntegral

open DefiniteIntegral.Action

/-! ## Random sources -/

namespace Source

variable {request : Request Float} {name : String}

/-- Only the source that is not seeded goes by its surroundings, and only if random numbers are
drawn. -/
theorem ofName_bind_compute (first second seed : UInt64)
    (h : name = "pseudo" → request.method ≠ .monteCarlo) :
    (ofName first name seed >>= fun source => source.compute request) =
      ofName second name seed >>= fun source => source.compute request := by
  cases hkind : SourceKind.ofName? name with
  | none => rw [ofName, ofName, hkind]
  | some kind =>
      rw [ofName, ofName, hkind, ok_bind, ok_bind]
      cases kind with
      | seeded => rfl
      | pseudo =>
          have hname : SourceKind.name .pseudo = name := by
            simpa using List.find?_some hkind
          exact Request.run_compute_supply (h hname.symm) draw _ draw _

end Source

namespace IntegrateOptions

variable {options : IntegrateOptions} {config other : Config} {entropy first second : UInt64}
  {place place' : Workplace} {store store' : Store}

/-! ## What options leave open -/

/-- Two configurations agree in the entries that options leave open. -/
structure Agree (options : IntegrateOptions) (config other : Config) : Prop where
  method : options.method = none → config.method = other.method
  points : options.points = none → config.points = other.points
  format : options.format = none → config.format = other.format
  source : options.seed = none → config.source = other.source
  seed : options.seed = none → config.seed = other.seed

/-- Options that leave nothing open. -/
structure Complete (options : IntegrateOptions) : Prop where
  method : options.method ≠ none
  points : options.points ≠ none
  format : options.format ≠ none
  seed : options.seed ≠ none

theorem Complete.agree (h : options.Complete) (config other : Config) :
    options.Agree config other where
  method hnone := absurd hnone h.method
  points hnone := absurd hnone h.points
  format hnone := absurd hnone h.format
  source hnone := absurd hnone h.seed
  seed hnone := absurd hnone h.seed

/-- The answer is to come from random numbers that differ from run to run. -/
structure Irreproducible (options : IntegrateOptions) (config : Config) : Prop where
  seed : options.seed = none
  source : config.source = "pseudo"
  method : options.chooseMethod config = .ok .monteCarlo

namespace Agree

theorem chooseMethod (h : options.Agree config other) :
    options.chooseMethod config = options.chooseMethod other := by
  cases hmethod : options.method with
  | none =>
      simp only [IntegrateOptions.chooseMethod, Config.defaultMethod, hmethod, h.method hmethod]
  | some name => simp only [IntegrateOptions.chooseMethod, hmethod]

theorem request (h : options.Agree config other) :
    options.request config = options.request other := by
  have hpoints : options.points.getD config.points = options.points.getD other.points := by
    cases hpoints : options.points with
    | none => exact h.points hpoints
    | some n => rfl
  simp only [IntegrateOptions.request, h.chooseMethod, hpoints]

theorem chooseFormat (h : options.Agree config other) :
    options.chooseFormat config = options.chooseFormat other := by
  have hformat : options.format.getD config.format = options.format.getD other.format := by
    cases hformat : options.format with
    | none => exact h.format hformat
    | some name => rfl
  simp only [IntegrateOptions.chooseFormat, hformat]

theorem chooseSource (h : options.Agree config other) :
    options.chooseSource entropy config = options.chooseSource entropy other := by
  cases hseed : options.seed with
  | none => simp only [IntegrateOptions.chooseSource, hseed, h.source hseed, h.seed hseed]
  | some seed => simp only [IntegrateOptions.chooseSource, hseed]

theorem outputText (h : options.Agree config other) :
    options.outputText entropy config = options.outputText entropy other := by
  simp only [IntegrateOptions.outputText, h.request, h.chooseFormat, h.chooseSource]

end Agree

/-! ## What goes by the surroundings -/

theorem chooseMethod_of_request {request : Request Float}
    (h : options.request config = .ok request) :
    options.chooseMethod config = .ok request.method := by
  rw [IntegrateOptions.request] at h
  split at h
  · cases h
  · obtain ⟨method, hmethod, heq⟩ := bind_eq_ok_iff.mp h
    obtain rfl := Except.ok.inj heq
    exact hmethod
  · cases h

theorem chooseSource_bind_compute {request : Request Float} (h : ¬ options.Irreproducible config)
    (hrequest : options.request config = .ok request) (first second : UInt64) :
    (options.chooseSource first config >>= fun source => source.compute request) =
      options.chooseSource second config >>= fun source => source.compute request := by
  cases hseed : options.seed with
  | none =>
      simp only [chooseSource, hseed]
      refine Source.ofName_bind_compute _ _ _ fun hsource hmethod => ?_
      exact h ⟨hseed, hsource, hmethod ▸ chooseMethod_of_request hrequest⟩
  | some seed =>
      simp only [chooseSource, hseed]
      rfl

/-- What is put out depends on the surroundings only if random numbers come from there. -/
theorem outputText_of_not_irreproducible (h : ¬ options.Irreproducible config) :
    options.outputText first config = options.outputText second config := by
  cases hrequest : options.request config with
  | error e =>
      have hfails : ∀ entropy, options.outputText entropy config = .error e := fun entropy =>
        bind_eq_error_iff.mpr (.inl hrequest)
      rw [hfails, hfails]
  | ok request =>
      have hcompute := chooseSource_bind_compute h hrequest first second
      rw [outputText, outputText, hrequest, ok_bind, ok_bind]
      refine bind_congr fun _ => bind_congr fun format => ?_
      rw [← bind_assoc, hcompute, bind_assoc]

theorem Agree.outputText_eq (h : options.Agree config other)
    (hentropy : first = second ∨ ¬ options.Irreproducible config) :
    options.outputText first config = options.outputText second other := by
  rw [← h.outputText]
  obtain rfl | hnot := hentropy
  · rfl
  · exact outputText_of_not_irreproducible hnot

/-! ## Runs -/

/-- An integration comes to what is put out, and to what becomes of that in the folder. -/
theorem run_congr {config' : Config} (hfolder : place.folder = place'.folder)
    (hload : place.store.load = .ok (config, store))
    (hload' : place'.store.load = .ok (config', store'))
    (htext : options.outputText first config = options.outputText second config') :
    ((options.run first).run place).1 = ((options.run second).run place').1 ∧
    ((options.run first).run place).2.folder = ((options.run second).run place').2.folder := by
  rw [run, run]
  by_cases hmethods : options.listMethods
  · rw [if_pos hmethods, if_pos hmethods]
    exact ⟨rfl, hfolder⟩
  by_cases hformats : options.listFormats
  · simp only [hmethods, hformats, Bool.false_eq_true, ↓reduceIte]
    exact ⟨rfl, hfolder⟩
  simp only [hmethods, hformats, Bool.false_eq_true, ↓reduceIte, run_bind, run_loadConfig, hload,
    hload', run_settle, htext]
  cases options.outputText second config' with
  | error e => exact ⟨rfl, hfolder⟩
  | ok text =>
      cases options.output with
      | none => exact ⟨rfl, hfolder⟩
      | some path =>
          simp only [run_bind, run_writeFile, hfolder]
          cases place'.folder.write path text with
          | error fault => exact ⟨rfl, rfl⟩
          | ok folder => exact ⟨rfl, rfl⟩

end IntegrateOptions

/-! ## Command lines -/

/-- A command line that integrates, run on two workplaces with the same files and with
configurations that can be loaded, ends in the same way and leaves the same files, if the
configurations agree in the entries that its options leave open, and unless its answer is to come
from random numbers that differ from run to run. If its options leave no entry open, this is so for
all configurations. -/
theorem runLine_integrate_overrides {words : List String} {options : IntegrateOptions}
    (h : Command.ofLine words = .ok (.integrate options)) {place place' : Workplace}
    {config config' : Config} {store store' : Store} (hfolder : place.folder = place'.folder)
    (hload : place.store.load = .ok (config, store))
    (hload' : place'.store.load = .ok (config', store')) (first second : UInt64) :
    let here := runLine first words place
    let there := runLine second words place'
    (options.Agree config config' → (first = second ∨ ¬ options.Irreproducible config) →
      here.1 = there.1 ∧ here.2.folder = there.2.folder) ∧
    (options.Complete → here.1 = there.1 ∧ here.2.folder = there.2.folder) := by
  intro here there
  have hsame : options.Agree config config' → (first = second ∨ ¬ options.Irreproducible config) →
      here.1 = there.1 ∧ here.2.folder = there.2.folder := by
    intro hagree hentropy
    have hrun := IntegrateOptions.run_congr hfolder hload hload' (hagree.outputText_eq hentropy)
    simp only [here, there, runLine, h, Command.run]
    generalize (options.run first).run place = ran at hrun ⊢
    generalize (options.run second).run place' = ran' at hrun ⊢
    obtain ⟨outcome, later⟩ := ran
    obtain ⟨outcome', later'⟩ := ran'
    obtain ⟨rfl, hfolders⟩ := hrun
    cases outcome with
    | error e => exact ⟨rfl, hfolders⟩
    | ok printed => exact ⟨rfl, hfolders⟩
  refine ⟨hsame, fun hcomplete => hsame (hcomplete.agree _ _) (.inr fun hopen => ?_)⟩
  exact hcomplete.seed hopen.seed

/-- Options that leave nothing open, with no configuration and with one that names no method, no
format and no random source; and options that give the format alone, with no configuration and with
one that names no format. -/
theorem runLine_integrate_overrides_unknown_names :
    let complete := ["integrate", "x", "-a", "0", "-b", "1", "-m", "monte_carlo", "-n", "10",
      "-f", "csv", "--seed", "7", "-o", "x.csv"]
    let formatted := ["integrate", "x", "-a", "0", "-b", "1", "-f", "csv"]
    let place (store : Store) : Workplace := ⟨"", store, .empty⟩
    let unknown := place (.file (some "defaults = ['none', 3, '', 'dice']"))
    let unformatted := place (.file (some "defaults.format = 'none'"))
    (runLine 1 complete (place .empty)).2.folder = (runLine 2 complete unknown).2.folder ∧
      (runLine 1 formatted (place .empty)).1 = (runLine 2 formatted unformatted).1 := by
  intro complete formatted place unknown unformatted
  have hload : (place .empty).store.load =
      .ok (Config.standard, .file Config.standard.toText.toOption) :=
    toOption_eq_some_iff.mp (by decide +kernel)
  have hunknown : unknown.store.load =
      .ok ({ Config.standard with method := "none", points := 3, format := "", source := "dice" },
        unknown.store) :=
    toOption_eq_some_iff.mp (by decide +kernel)
  have hunformatted : unformatted.store.load =
      .ok ({ Config.standard with format := "none" }, unformatted.store) :=
    toOption_eq_some_iff.mp (by decide +kernel)
  obtain ⟨options, hoptions, hcomplete⟩ : ∃ options,
      Command.ofLine complete = .ok (.integrate options) ∧ options.Complete :=
    ⟨_, rfl, nofun, nofun, nofun, nofun⟩
  obtain ⟨options', hoptions', hformat, hmethod⟩ : ∃ options,
      Command.ofLine formatted = .ok (.integrate options) ∧ options.format ≠ none ∧
        options.method = none :=
    ⟨_, rfl, nofun, rfl⟩
  have hfolder : (place .empty).folder = unknown.folder := rfl
  have hfolder' : (place .empty).folder = unformatted.folder := rfl
  constructor
  · exact ((runLine_integrate_overrides hoptions hfolder hload hunknown 1 2).2 hcomplete).2
  · refine ((runLine_integrate_overrides hoptions' hfolder' hload hunformatted 1 2).1 ?_
      (.inr ?_)).1
    · exact ⟨fun _ => rfl, fun _ => rfl, fun hnone => absurd hnone hformat, fun _ => rfl,
        fun _ => rfl⟩
    · rintro ⟨-, -, hmonteCarlo⟩
      have htrapezoidal : options'.chooseMethod Config.standard = .ok .trapezoidal := by
        rw [IntegrateOptions.chooseMethod, hmethod]
        exact toOption_eq_some_iff.mp (by decide +kernel)
      rw [htrapezoidal] at hmonteCarlo
      cases hmonteCarlo

end DefiniteIntegral
