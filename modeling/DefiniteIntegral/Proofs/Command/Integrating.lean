import DefiniteIntegral.Command.Run
import DefiniteIntegral.Proofs.Command.Action
import DefiniteIntegral.Proofs.Config.RoundTrip
import Mathlib.Tactic.SplitIfs

/-! # Integrating from the command line

All that can go wrong with an integration comes before the one thing that it writes. A command that
fails has printed no answer and changed no file, except that it may have saved the standard
configuration where there was none. -/

namespace DefiniteIntegral

open DefiniteIntegral.Action

/-! ## Files -/

namespace Folder

variable {folder other later : Folder} {path text : String} {destination : Destination}

/-- The text of the file that a path leads to. -/
def read? (folder : Folder) (path : String) : Option String :=
  match folder.target path with
  | .ok (.inside name) => folder.files.lookup name
  | .ok (.outside path) => folder.outside.lookup path
  | _ => none

theorem lookup_put (files : List (String × String)) (name text : String) :
    (put files name text).lookup name = some text := by
  have hnone : (files.filter fun file => file.1 ≠ name).lookup name = none := by
    simp +contextual [List.lookup_eq_none_iff, ne_comm]
  rw [put, List.lookup_append, hnone, Option.none_or, List.lookup_singleton]
  simp

/-- Where the parts of a path lead does not depend on the files that are there, if it is a file. -/
theorem toOption_resolve (folder other : Folder) (parts : List String) :
    (folder.resolve parts).toOption = (other.resolve parts).toOption := by
  induction parts with
  | nil => rfl
  | cons part parts ih =>
      rw [resolve, resolve]
      split_ifs <;> first | exact ih | rfl

theorem target_congr (other : Folder) (h : folder.target path = .ok destination) :
    other.target path = .ok destination := by
  rw [target] at h ⊢
  split_ifs at h ⊢ <;> try exact h
  obtain ⟨found, hfound, hdestination⟩ := map_eq_ok_iff.mp h
  refine map_eq_ok_iff.mpr ⟨found, toOption_eq_some_iff.mp ?_, hdestination⟩
  rw [toOption_resolve other folder, hfound]
  rfl

/-- What has been written to a path is read from it, unless it leads nowhere. -/
theorem read?_write (h : folder.write path text = .ok later) (hpath : path ≠ "/dev/null") :
    later.read? path = some text := by
  obtain ⟨destination, htarget, rfl⟩ := map_eq_ok_iff.mp h
  rw [read?, target_congr _ htarget]
  cases destination with
  | inside name => exact lookup_put _ _ _
  | outside path => exact lookup_put _ _ _
  | nowhere =>
      exfalso
      rw [target] at htarget
      split_ifs at htarget
      · obtain ⟨-, -, hdestination⟩ := map_eq_ok_iff.mp htarget
        cases hdestination
      · obtain ⟨found, -, hdestination⟩ := map_eq_ok_iff.mp htarget
        cases found <;> cases hdestination

end Folder

/-! ## The stored configuration -/

/-- What is stored is as it was, except that the standard configuration may have been saved where
there was none. -/
inductive Store.Kept : Store → Store → Prop
  | same (store : Store) : Kept store store
  | created {text : String} (h : Config.standard.toText = .ok text) :
      Kept .empty (.file (some text))

theorem Store.kept_of_load {store later : Store} {config : Config}
    (h : store.load = .ok (config, later)) : store.Kept later := by
  cases store with
  | empty =>
      obtain ⟨saved, hsaved, hpair⟩ := bind_eq_ok_iff.mp h
      obtain ⟨text, htext, hstore⟩ := bind_eq_ok_iff.mp hsaved
      cases hpair
      cases hstore
      exact .created htext
  | file content =>
      cases content with
      | none => cases h
      | some text =>
          obtain ⟨config', -, hpair⟩ := bind_eq_ok_iff.mp h
          cases hpair
          exact .same _
  | directory => cases h
  | blocked => cases h

/-! ## One integration -/

namespace IntegrateOptions

variable {options : IntegrateOptions} {entropy : UInt64} {config : Config} {place : Workplace}
  {text : String}

/-- A text is the answer to options: the result of their request, with random numbers from their
source, in their format. -/
inductive Answers (options : IntegrateOptions) (entropy : UInt64) (config : Config) : String → Prop
  | intro {request : Request Float} {format : OutputFormat} {source : Source}
      {result : Result Float} (hrequest : options.request config = .ok request)
      (hvalid : request.validate = .ok ()) (hformat : options.chooseFormat config = .ok format)
      (hsource : options.chooseSource entropy config = .ok source)
      (hresult : source.compute request = .ok result) :
      Answers options entropy config (format.write request result)

theorem outputText_eq_ok_iff :
    options.outputText entropy config = .ok text ↔ options.Answers entropy config text := by
  constructor
  · intro h
    obtain ⟨request, hrequest, h⟩ := bind_eq_ok_iff.mp h
    obtain ⟨⟨⟩, hvalid, h⟩ := bind_eq_ok_iff.mp h
    obtain ⟨format, hformat, h⟩ := bind_eq_ok_iff.mp h
    obtain ⟨source, hsource, h⟩ := bind_eq_ok_iff.mp h
    obtain ⟨result, hresult, h⟩ := bind_eq_ok_iff.mp h
    cases h
    exact .intro hrequest hvalid hformat hsource hresult
  · rintro ⟨hrequest, hvalid, hformat, hsource, hresult⟩
    simp only [outputText, hrequest, hvalid, hformat, hsource, hresult, ok_bind]
    rfl

/-- The courses that an integration can take, each with its outcome and the workplace that it
leaves. -/
inductive Course (options : IntegrateOptions) (entropy : UInt64) (place : Workplace) :
    Except (Error Float) Printed → Workplace → Prop
  /-- It only lists what there is. -/
  | listed (h : options.listMethods ∨ options.listFormats) (out : String) :
      Course options entropy place (.ok (.answer out)) place
  /-- The configuration cannot be loaded. -/
  | unloaded {fault : ConfigFault} (hload : place.store.load = .error fault) :
      Course options entropy place (.error (.config fault)) place
  /-- There is no answer. -/
  | failed {config : Config} {store : Store} {e : Error Float}
      (hload : place.store.load = .ok (config, store))
      (htext : options.outputText entropy config = .error e) :
      Course options entropy place (.error e) { place with store }
  /-- The answer cannot be written. -/
  | unwritten {config : Config} {store : Store} {text path : String} {fault : FileFault}
      (hload : place.store.load = .ok (config, store))
      (htext : options.outputText entropy config = .ok text) (hpath : options.output = some path)
      (hwrite : place.folder.write path text = .error fault) :
      Course options entropy place (.error (.io fault)) { place with store }
  /-- The answer is written to a file. -/
  | written {config : Config} {store : Store} {text path : String} {folder : Folder}
      (hload : place.store.load = .ok (config, store))
      (htext : options.outputText entropy config = .ok text) (hpath : options.output = some path)
      (hwrite : place.folder.write path text = .ok folder) :
      Course options entropy place (.ok ⟨"", "Output written to " ++ path ++ "\n"⟩)
        { place with store, folder }
  /-- The answer is printed. -/
  | printed {config : Config} {store : Store} {text : String}
      (hload : place.store.load = .ok (config, store))
      (htext : options.outputText entropy config = .ok text) (hpath : options.output = none) :
      Course options entropy place (.ok (.answer (withLineEnd text))) { place with store }

theorem course_run (options : IntegrateOptions) (entropy : UInt64) (place : Workplace) :
    options.Course entropy place ((options.run entropy).run place).1
      ((options.run entropy).run place).2 := by
  rw [run]
  cases hmethods : options.listMethods with
  | true => exact .listed (.inl hmethods) _
  | false =>
  cases hformats : options.listFormats with
  | true => exact .listed (.inr hformats) _
  | false =>
  simp only [Bool.false_eq_true, ↓reduceIte, run_bind, run_loadConfig]
  cases hload : place.store.load with
  | error fault => exact .unloaded hload
  | ok loaded =>
      obtain ⟨config, store⟩ := loaded
      simp only [run_settle]
      cases htext : options.outputText entropy config with
      | error e => exact .failed hload htext
      | ok text =>
          cases hpath : options.output with
          | none => exact .printed hload htext hpath
          | some path =>
              simp only [run_bind, run_writeFile]
              cases hwrite : place.folder.write path text with
              | error fault => exact .unwritten hload htext hpath hwrite
              | ok folder => exact .written hload htext hpath hwrite

theorem withLineEnd_eq (text : String) :
    withLineEnd text = if text.toList.getLast? = some '\n' then text else text ++ "\n" := by
  have hend : text.endsWith "\n" ↔ text.toList.getLast? = some '\n' := by
    rw [← String.endsWith_toSlice, String.Slice.endsWith_string_iff, String.copy_toSlice]
    exact List.singleton_suffix_iff_getLast?_eq_some
  simp only [withLineEnd, hend]

end IntegrateOptions

/-! ## Command lines -/

/-- A command line that integrates and fails prints no answer and changes no file, and what is
stored is kept. One that succeeds and does not just list something has the answer in the file that
it names, or prints it with a line end. -/
theorem runLine_integrate_traceless {words : List String} {options : IntegrateOptions}
    (h : Command.ofLine words = .ok (.integrate options)) (entropy : UInt64) (place : Workplace) :
    let ending := (runLine entropy words place).1
    let later := (runLine entropy words place).2
    (ending.status ≠ 0 →
      ending.out = "" ∧ later.folder = place.folder ∧ place.store.Kept later.store) ∧
    (ending.status = 0 → options.listMethods = false → options.listFormats = false →
      ∃ config store text, place.store.load = .ok (config, store) ∧
        options.Answers entropy config text ∧
        (∀ path, options.output = some path → ending.out = "" ∧
          (path ≠ "/dev/null" → later.folder.read? path = some text)) ∧
        (options.output = none → later.folder = place.folder ∧
          ending.out = if text.toList.getLast? = some '\n' then text else text ++ "\n")) := by
  have hcourse := options.course_run entropy place
  simp only [runLine, h, Command.run]
  rcases hrun : (options.run entropy).run place with ⟨e | printed, later⟩
  · -- It fails, so the files are as they were.
    rw [hrun] at hcourse
    refine ⟨fun _ => ?_, fun hstatus => absurd hstatus Nat.one_ne_zero⟩
    cases hcourse with
    | unloaded hload => exact ⟨rfl, rfl, .same _⟩
    | failed hload htext => exact ⟨rfl, rfl, Store.kept_of_load hload⟩
    | unwritten hload htext hpath hwrite => exact ⟨rfl, rfl, Store.kept_of_load hload⟩
  · rw [hrun] at hcourse
    refine ⟨fun hstatus => absurd rfl hstatus, fun _ hmethods hformats => ?_⟩
    cases hcourse with
    | listed hlist out => simp [hmethods, hformats] at hlist
    | @written config store text path folder hload htext hpath hwrite =>
        refine ⟨config, store, text, hload, IntegrateOptions.outputText_eq_ok_iff.mp htext,
          fun path' hpath' => ?_, fun hnone => ?_⟩
        · rw [hpath] at hpath'
          cases hpath'
          exact ⟨rfl, fun hnull => Folder.read?_write hwrite hnull⟩
        · rw [hpath] at hnone
          cases hnone
    | @printed config store text hload htext hpath =>
        refine ⟨config, store, text, hload, IntegrateOptions.outputText_eq_ok_iff.mp htext,
          fun path' hpath' => ?_, fun _ => ⟨rfl, IntegrateOptions.withLineEnd_eq text⟩⟩
        rw [hpath] at hpath'
        cases hpath'

theorem runLine_integrate_traceless_without_bounds :
    ∃ options, Command.ofLine ["integrate", "x", "-o", "x.csv"] = .ok (.integrate options) ∧
      let place := (runLine 0 ["integrate", "x", "-o", "x.csv"] ⟨"", .empty, .empty⟩).2
      place.folder = .empty ∧ Store.Kept .empty place.store ∧ place.store ≠ .empty := by
  have hfailed :
      (runLine 0 ["integrate", "x", "-o", "x.csv"] ⟨"", .empty, .empty⟩).1.status ≠ 0 := by
    decide +kernel
  obtain ⟨hfolder, hkept⟩ :=
    ((runLine_integrate_traceless rfl 0 ⟨"", .empty, .empty⟩).1 hfailed).2
  exact ⟨_, rfl, hfolder, hkept, by decide +kernel⟩

end DefiniteIntegral
