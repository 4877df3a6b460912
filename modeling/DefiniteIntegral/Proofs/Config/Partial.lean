import DefiniteIntegral.Proofs.Config.RoundTrip
import DefiniteIntegral.Proofs.Config.Settings
import DefiniteIntegral.Proofs.Toml.Tables
import Mathlib

/-! # Files with some of the entries

A text that has some entries of a configuration in their sections, in any order and among anything
else, is loaded as that configuration with the standard one in all other entries. -/

namespace DefiniteIntegral

open Toml

theorem ConfigKey.field_injective {key other : ConfigKey} (h : key.field = other.field) :
    key = other := by
  cases key <;> cases other <;> first | rfl | exact absurd h (by decide)

/-- The path of an entry: its section and its name there. -/
def ConfigKey.path (key : ConfigKey) : List String :=
  [key.heading, key.field]

namespace Config

variable {config : Config} {keys : List ConfigKey} {key other : ConfigKey} {lines : List Statement}
  {line : Statement} {seen : List (List String × Statement)} {d next last : Draft}
  {root root' fields fields' : Entries} {shown : ConfigKey → Prop}

/-- A configuration in the entries of some keys, and the standard one in the others. -/
def restrictedTo (config : Config) (keys : List ConfigKey) : Config where
  method := if .method ∈ keys then config.method else standard.method
  points := if .points ∈ keys then config.points else standard.points
  format := if .format ∈ keys then config.format else standard.format
  source := if .source ∈ keys then config.source else standard.source
  seed := if .seed ∈ keys then config.seed else standard.seed
  host := if .host ∈ keys then config.host else standard.host
  port := if .port ∈ keys then config.port else standard.port
  origins := if .origins ∈ keys then config.origins else standard.origins

/-! ## Tables that show entries -/

/-- The tables of a text show the entries of some keys in their sections, and of the others none.
A section can be missing, and there can be anything else. -/
def Shows (config : Config) (shown : ConfigKey → Prop) (root : Entries) : Prop :=
  ∀ key : ConfigKey, ∃ fields, root.section? key.heading = some fields ∧
    (shown key → fields.get? key.field = some (config.entryValue key)) ∧
    (¬ shown key → fields.get? key.field = none)

/-- The values that a section gives for its fields. -/
theorem Shows.sectionFields? (h : config.Shows (· ∈ keys) root) (heading : String)
    (hheading : sectionKeys heading ≠ []) :
    Config.sectionFields? ((sectionKeys heading).map ConfigKey.field) (root.get? heading) =
      some ((sectionKeys heading).map fun key =>
        if key ∈ keys then some (config.entryValue key) else none) := by
  obtain ⟨first, hfirst⟩ := List.exists_mem_of_ne_nil _ hheading
  have hmem : ∀ key ∈ sectionKeys heading, key.heading = heading := fun key hkey => by
    simpa using (List.mem_filter.mp hkey).2
  obtain ⟨fields, hsection, -⟩ := h first
  rw [hmem first hfirst] at hsection
  -- All keys of the section find their fields in the same table.
  have hget : ∀ key ∈ sectionKeys heading, fields.get? key.field =
      if key ∈ keys then some (config.entryValue key) else none := by
    intro key hkey
    obtain ⟨fields', hsection', hshown, hhidden⟩ := h key
    rw [hmem key hkey, hsection] at hsection'
    obtain rfl := Option.some.inj hsection'
    by_cases hin : key ∈ keys
    · rw [if_pos hin, hshown hin]
    · rw [if_neg hin, hhidden hin]
  rw [Entries.section?] at hsection
  split at hsection
  · rename_i hnone
    obtain rfl := Option.some.inj hsection
    rw [hnone, Config.sectionFields?, List.map_map]
    exact congrArg some (List.map_congr_left fun key hkey => hget key hkey)
  · rename_i hsome
    obtain rfl := Option.some.inj hsection
    rw [hsome, Config.sectionFields?, List.map_map]
    exact congrArg some (List.map_congr_left fun key hkey => hget key hkey)
  · cases hsection

theorem fieldOr?_ite {β : Type} {shown : Prop} [Decidable shown] {otherwise b : β}
    {decode : Toml.Value → Option β} {value : Toml.Value} (h : decode value = some b) :
    fieldOr? otherwise decode (some (if shown then some value else none)) =
      some (if shown then b else otherwise) := by
  by_cases hshown : shown
  · rw [if_pos hshown, if_pos hshown, fieldOr?_some h]
  · rw [if_neg hshown, if_neg hshown]
    rfl

theorem ofEntries?_of_shows (h : config.Shows (· ∈ keys) root) :
    ofEntries? root = some (config.restrictedTo keys) := by
  have hdefaults := h.sectionFields? "defaults" (by decide)
  have hserver := h.sectionFields? "server" (by decide)
  have hfields := ofEntries?_eq_some hdefaults hserver (fieldOr?_ite rfl)
      (fieldOr?_ite (naturalOf?_integer config.points.toNat_lt_size)) (fieldOr?_ite rfl)
      (fieldOr?_ite rfl) (fieldOr?_ite (naturalOf?_integer config.seed.toNat_lt_size))
      (fieldOr?_ite rfl) (fieldOr?_ite (naturalOf?_integer config.port.toNat_lt_size))
      (fieldOr?_ite (textsOf?_array config.origins))
  rw [hfields, restrictedTo]
  simp only [apply_ite UInt64.ofNat, apply_ite UInt16.ofNat, UInt64.ofNat_toNat, UInt16.ofNat_toNat]

theorem ofText_of_shows {text : String} (hread : Toml.read text = some root)
    (h : config.Shows (· ∈ keys) root) : ofText text = .ok (config.restrictedTo keys) := by
  rw [ofText, hread, Option.bind_some, ofEntries?_of_shows h]

/-! ## Lines that list entries -/

/-- The line of an entry below the header of its section. -/
def entryLine (config : Config) (key : ConfigKey) : List String × Statement :=
  ([key.heading], config.entryStatement key)

/-- A line is foreign to configurations: it speaks neither of a section of theirs as a whole nor of
an entry or what lies in one. -/
def Foreign (line : List String × Statement) : Prop :=
  ∀ key : ConfigKey, line.2.path line.1 ≠ [key.heading] ∧ ¬ key.path <+: line.2.path line.1

/-- The lines of a text list the entries of some keys: each of them stands in its section, and all
other lines are headers of sections or foreign. -/
structure Lists (config : Config) (keys : List ConfigKey) (lines : List Statement) : Prop where
  listed : ∀ key ∈ keys, config.entryLine key ∈ placed [] lines
  only : ∀ line ∈ placed [] lines, (∃ key ∈ keys, line = config.entryLine key) ∨
    (∃ key : ConfigKey, line.2 = .table ⟨[], key.heading⟩) ∨ Foreign line

theorem entryLine_injective (h : config.entryLine key = config.entryLine other) : key = other := by
  simp only [entryLine, entryStatement, Prod.mk.injEq, Statement.entry.injEq, Key.mk.injEq] at h
  exact ConfigKey.field_injective h.2.1.2

theorem path_entryLine (config : Config) (key : ConfigKey) :
    (config.entryLine key).2.path (config.entryLine key).1 = key.path :=
  rfl

theorem not_foreign_entryLine : ¬ Foreign (config.entryLine key) := fun h =>
  (h key).2 (path_entryLine config key ▸ List.prefix_rfl)

theorem Lists.mem_placed_iff (h : config.Lists keys lines) :
    config.entryLine key ∈ placed [] lines ↔ key ∈ keys := by
  refine ⟨fun hkey => ?_, h.listed key⟩
  rcases h.only _ hkey with ⟨other, hother, heq⟩ | ⟨other, heq⟩ | hforeign
  · rwa [entryLine_injective heq]
  · cases heq
  · exact absurd hforeign not_foreign_entryLine

/-! ## What the lines come to -/

/-- The tables show the entries whose lines have been seen. -/
def Reflects (config : Config) (seen : List (List String × Statement)) (root : Entries) : Prop :=
  config.Shows (config.entryLine · ∈ seen) root

theorem reflects_nil (config : Config) : config.Reflects [] [] := fun _ =>
  ⟨[], rfl, nofun, fun _ => rfl⟩

/-- A section goes on showing the same in an entry that a line is not about. -/
theorem exists_fields_of_ne {entry : List String × Statement} (hne : config.entryLine key ≠ entry)
    (hfields : (config.entryLine key ∈ seen →
        fields.get? key.field = some (config.entryValue key)) ∧
      (config.entryLine key ∉ seen → fields.get? key.field = none))
    (hsection : root'.section? key.heading = some fields')
    (hsame : fields'.get? key.field = fields.get? key.field) :
    ∃ fields, root'.section? key.heading = some fields ∧
      (config.entryLine key ∈ seen ++ [entry] →
        fields.get? key.field = some (config.entryValue key)) ∧
      (config.entryLine key ∉ seen ++ [entry] → fields.get? key.field = none) := by
  refine ⟨fields', hsection, ?_, ?_⟩
  · intro hmem
    rw [hsame]
    exact hfields.1 (by simpa [hne] using hmem)
  · intro hmem
    rw [hsame]
    exact hfields.2 (by simpa [hne] using hmem)

/-- Foreign lines and headers leave all sections as they show; the line of an entry adds it. -/
theorem Reflects.add (h : config.Reflects seen d.root) (hadd : d.add line = some next)
    (hline : (∃ key, (d.current, line) = config.entryLine key) ∨
      (∃ key : ConfigKey, line = .table ⟨[], key.heading⟩) ∨ Foreign (d.current, line)) :
    config.Reflects (seen ++ [(d.current, line)]) next.root := by
  intro key
  obtain ⟨fields, hsection, hfields⟩ := h key
  by_cases hhead : (line.path d.current).head? = some key.heading
  -- The line is about the section of the entry, or something in it.
  · rcases hline with ⟨entry, hentry⟩ | ⟨entry, rfl⟩ | hforeign
    · obtain ⟨hcurrent, rfl⟩ := Prod.mk.inj hentry
      rw [hcurrent] at hhead
      have hheading : entry.heading = key.heading := Option.some.inj hhead
      rw [hheading] at hcurrent
      obtain ⟨-, hput⟩ := Draft.section?_add_entry hcurrent hadd hsection
      rw [hentry]
      by_cases hkey : key = entry
      · subst hkey
        exact ⟨_, hput, fun _ => Entries.get?_put_self _ _ _, fun hmem => absurd (by simp) hmem⟩
      · exact exists_fields_of_ne (fun heq => hkey (entryLine_injective heq)) hfields hput
          (Entries.get?_put_of_ne _ _ fun heq => hkey (ConfigKey.field_injective heq))
    · have hheading : entry.heading = key.heading := Option.some.inj hhead
      rw [hheading] at hadd ⊢
      refine exists_fields_of_ne (fun heq => ?_) hfields (Draft.section?_add_header hadd hsection)
        rfl
      cases (Prod.mk.inj heq).2
    · obtain ⟨hwhole, hprefix⟩ := hforeign key
      obtain ⟨rest, hpath⟩ : ∃ rest, line.path d.current = key.heading :: rest :=
        List.head?_eq_some_iff.mp hhead
      cases rest with
      | nil => exact absurd hpath hwhole
      | cons field rest =>
          obtain ⟨fields', hsection', hsame⟩ := Draft.section?_add hadd hpath hsection
          refine exists_fields_of_ne (fun heq => not_foreign_entryLine (heq ▸ hforeign)) hfields
            hsection' (hsame _ fun heq => hprefix ?_)
          rw [hpath, ← heq]
          exact ⟨rest, rfl⟩
  · have hsame := Entries.section?_congr (Draft.get?_add_of_ne hadd hhead)
    refine exists_fields_of_ne (fun heq => hhead ?_) hfields (hsame.trans hsection) rfl
    obtain ⟨hcurrent, rfl⟩ := Prod.mk.inj heq
    rw [← hcurrent]
    rfl

/-- What the tables show after all lines. The induction is on the lines that are left. -/
theorem Reflects.foldlM_add (h : config.Reflects seen d.root)
    (hlines : ∀ line ∈ placed d.current lines, (∃ key, line = config.entryLine key) ∨
      (∃ key : ConfigKey, line.2 = .table ⟨[], key.heading⟩) ∨ Foreign line)
    (hlast : lines.foldlM Draft.add d = some last) :
    config.Reflects (seen ++ placed d.current lines) last.root := by
  induction lines generalizing d seen with
  | nil =>
      obtain rfl := Option.some.inj hlast
      simpa [placed] using h
  | cons line lines ih =>
      obtain ⟨next, hnext, hrest⟩ := Option.bind_eq_some_iff.mp hlast
      have hcurrent := Draft.current_add hnext
      have hstep := h.add hnext (hlines (d.current, line) List.mem_cons_self)
      have hall := ih hstep (fun entry hentry => hlines entry
        (List.mem_cons_of_mem _ (hcurrent ▸ hentry))) hrest
      rwa [hcurrent, List.append_assoc] at hall

/-- A text whose lines list some entries comes to tables that show these. -/
theorem Lists.exists_shows {text : String} (h : config.Lists keys lines)
    (hlines : lines? text = some lines) (hread : (Toml.read text).isSome) :
    ∃ root, Toml.read text = some root ∧ config.Shows (· ∈ keys) root := by
  obtain ⟨root, hroot⟩ := Option.isSome_iff_exists.mp hread
  refine ⟨root, hroot, ?_⟩
  rw [read_eq, hlines, Option.bind_some] at hroot
  obtain ⟨last, hlast, rfl⟩ := Option.map_eq_some_iff.mp hroot
  have hreflects := (reflects_nil config).foldlM_add (d := ⟨[], []⟩) (fun line hline =>
    (h.only line hline).imp_left fun ⟨key, _, heq⟩ => ⟨key, heq⟩) hlast
  intro key
  obtain ⟨fields, hsection, hshown, hhidden⟩ := hreflects key
  exact ⟨fields, hsection, fun hkey => hshown (h.mem_placed_iff.mpr hkey),
    fun hkey => hhidden fun hmem => hkey (h.mem_placed_iff.mp hmem)⟩

/-! ## Sections -/

/-- Sections have the entries of some keys below their headings, and none of the others. There can
be anything else. -/
structure Has (config : Config) (keys : List ConfigKey) (sections : List (String × Entries)) :
    Prop where
  areSections : AreSections sections
  listed : ∀ key ∈ keys, ∃ fields, (key.heading, fields) ∈ sections ∧
    (key.field, config.entryValue key) ∈ fields
  only : ∀ key ∉ keys, ∀ fields, (key.heading, fields) ∈ sections →
    key.field ∉ fields.map Prod.fst

/-- The tables of sections show the entries that these have. -/
theorem Has.shows {sections : List (String × Entries)} (h : config.Has keys sections) :
    config.Shows (· ∈ keys) (sectionTables sections) := by
  intro key
  by_cases hsection : ∃ fields, (key.heading, fields) ∈ sections
  · obtain ⟨fields, hfields⟩ := hsection
    have hget := h.areSections.get?_sectionTables hfields
    refine ⟨fields, by rw [Entries.section?, hget], fun hkey => ?_, fun hkey => ?_⟩
    · obtain ⟨fields', hfields', hentry⟩ := h.listed key hkey
      have hget' := h.areSections.get?_sectionTables hfields'
      obtain rfl : fields = fields' := by simpa using hget.symm.trans hget'
      exact Entries.get?_of_mem (h.areSections.names _ hfields) hentry
    · exact Entries.get?_eq_none_iff.mpr (h.only key hkey fields hfields)
  · have hnone : (sectionTables sections).get? key.heading = none := by
      rw [Entries.get?_eq_none_iff]
      simpa [sectionTables] using hsection
    refine ⟨[], by rw [Entries.section?, hnone], fun hkey => ?_, fun _ => rfl⟩
    obtain ⟨fields, hfields, -⟩ := h.listed key hkey
    exact absurd ⟨fields, hfields⟩ hsection

/-- The text of some sections, each with its heading and with entries below it. -/
def partText (config : Config) (sections : List (String × List ConfigKey)) : String :=
  String.join (sections.map fun part =>
    "[" ++ part.1 ++ "]\n" ++ String.join (part.2.map config.entryText))

/-- The entries of some sections. -/
def partSections (config : Config) (sections : List (String × List ConfigKey)) :
    List (String × Entries) :=
  sections.map fun part => (part.1, config.fieldEntries part.2)

/-- Sections with bare headings, none of which comes twice. Each has keys of its own, none of them
twice. -/
structure Arranged (sections : List (String × List ConfigKey)) : Prop where
  headings : (sections.map Prod.fst).Nodup
  bare : ∀ part ∈ sections, part.1.toList ≠ [] ∧ ∀ c ∈ part.1.toList, isBareCharacter c
  keys : ∀ part ∈ sections, part.2.Nodup ∧ ∀ key ∈ part.2, key.heading = part.1

variable {sections : List (String × List ConfigKey)} {part : String × List ConfigKey}

theorem Arranged.of_cons (h : Arranged (part :: sections)) : Arranged sections where
  headings := (List.nodup_cons.mp h.headings).2
  bare later hlater := h.bare later (List.mem_cons_of_mem _ hlater)
  keys later hlater := h.keys later (List.mem_cons_of_mem _ hlater)

theorem map_fst_fieldEntries (config : Config) (keys : List ConfigKey) :
    (config.fieldEntries keys).map Prod.fst = keys.map ConfigKey.field := by
  rw [fieldEntries, List.map_map]
  rfl

theorem Arranged.has (h : Arranged sections) :
    config.Has (sections.flatMap Prod.snd) (config.partSections sections) where
  areSections := {
    headings := by
      rw [partSections, List.map_map]
      exact h.headings
    names := by
      intro part hpart
      obtain ⟨part, hmem, rfl⟩ := List.mem_map.mp hpart
      rw [map_fst_fieldEntries]
      exact (h.keys part hmem).1.map fun _ _ => ConfigKey.field_injective }
  listed := by
    intro key hkey
    obtain ⟨part, hpart, hmem⟩ := List.mem_flatMap.mp hkey
    refine ⟨config.fieldEntries part.2, ?_, List.mem_map_of_mem hmem⟩
    rw [(h.keys part hpart).2 key hmem]
    exact List.mem_map_of_mem hpart
  only := by
    intro key hkey fields hfields hfield
    obtain ⟨part, hpart, heq⟩ := List.mem_map.mp hfields
    obtain ⟨-, rfl⟩ := Prod.mk.inj heq
    rw [map_fst_fieldEntries] at hfield
    obtain ⟨other, hother, hsame⟩ := List.mem_map.mp hfield
    obtain rfl := ConfigKey.field_injective hsame
    exact hkey (List.mem_flatMap.mpr ⟨part, hpart, hother⟩)

/-- The text of sections is written by the grammar. -/
theorem Arranged.isDocument (h : Arranged sections) (hpoints : config.points.toNat < 2 ^ 63)
    (hseed : config.seed.toNat < 2 ^ 63) :
    IsDocument (config.partText sections).toList (sectionLines (config.partSections sections)) := by
  induction sections with
  | nil => exact isDocument_nil
  | cons part sections ih =>
      obtain ⟨hne, hbare⟩ := h.bare part List.mem_cons_self
      have hdocument := isDocument_header hpoints hseed (isKey_bare hbare hne) part.2
        (ih h.of_cons)
      convert hdocument using 1
      · simp [partText, String.join_cons]
      · simp [sectionLines, partSections, fieldEntries, entryStatement]

/-- The text of sections is read, as tables that show their entries. -/
theorem Arranged.exists_shows (h : Arranged sections) (hpoints : config.points.toNat < 2 ^ 63)
    (hseed : config.seed.toNat < 2 ^ 63) :
    ∃ root, Toml.read (config.partText sections) = some root ∧
      config.Shows (· ∈ sections.flatMap Prod.snd) root :=
  ⟨_, h.has.areSections.read_eq (h.isDocument hpoints hseed) (Or.inl rfl), h.has.shows⟩

end Config

open Config

/-! ## Loading -/

variable {place : Workplace}

theorem Store.load_file_store {content : Option String} {store : Store}
    {config : Config} (h : (file content).load = .ok (config, store)) : store = .file content := by
  cases content with
  | none => cases h
  | some text =>
      obtain ⟨config', -, hpair⟩ := bind_eq_ok_iff.mp h
      cases hpair
      rfl

/-- A file that is there stays as it is, whether it can be loaded or not. -/
theorem Action.run_loadConfig_of_file {content : Option String}
    (hstore : place.store = .file content) : (loadConfig.run place).2 = place := by
  rw [run_loadConfig]
  split
  · rename_i config store hload
    rw [hstore] at hload
    rw [Store.load_file_store hload, ← hstore]
  · rfl

theorem Action.run_loadConfig_of_shows {config : Config} {keys : List ConfigKey} {text : String}
    {root : Entries} (hstore : place.store = .file (some text))
    (hread : Toml.read text = some root) (h : config.Shows (· ∈ keys) root) :
    loadConfig.run place = (.ok (config.restrictedTo keys), place) := by
  rw [run_loadConfig, hstore, Store.load_of_ofText (ofText_of_shows hread h), ← hstore]

/-- A file that has the entries of some keys is loaded as the configuration with these entries and
the standard ones besides. The entries may be written in any way that comes to tables with them: by
lines of which some are those of the entries, each below the header of its section, and the others
speak of other things; or in sections of nothing else, which can always be read. The file stays as
it is, also where it cannot be loaded. -/
theorem Action.loadConfig_restrictedTo (config : Config) (place : Workplace)
    (hpoints : config.points.toNat < 2 ^ 63) (hseed : config.seed.toNat < 2 ^ 63) :
    (∀ text root keys, place.store = .file (some text) → Toml.read text = some root →
      config.Shows (· ∈ keys) root →
      loadConfig.run place = (.ok (config.restrictedTo keys), place)) ∧
    (∀ text lines keys, place.store = .file (some text) → lines? text = some lines →
      (Toml.read text).isSome → config.Lists keys lines →
      loadConfig.run place = (.ok (config.restrictedTo keys), place)) ∧
    (∀ sections, place.store = .file (some (config.partText sections)) → Arranged sections →
      loadConfig.run place = (.ok (config.restrictedTo (sections.flatMap Prod.snd)), place)) ∧
    ∀ content, place.store = .file content → (loadConfig.run place).2 = place := by
  refine ⟨?_, ?_, ?_, fun content hstore => run_loadConfig_of_file hstore⟩
  · intro text root keys hstore hread hshows
    exact run_loadConfig_of_shows hstore hread hshows
  · intro text lines keys hstore hlines hread hlists
    obtain ⟨root, hroot, hshows⟩ := hlists.exists_shows hlines hread
    exact run_loadConfig_of_shows hstore hroot hshows
  · intro sections hstore harranged
    obtain ⟨root, hroot, hshows⟩ := harranged.exists_shows hpoints hseed
    exact run_loadConfig_of_shows hstore hroot hshows

/-- One port in four files: below its header and among other lines, in a table between braces, in a
section next to an empty one, and in a file that cannot be read. -/
theorem Action.loadConfig_restrictedTo_port :
    let config : Config := { Config.standard with port := 9000, host := "localhost" }
    let loaded : Config := { Config.standard with port := 9000 }
    let place (content : Option String) : Workplace := ⟨"", .file content, .empty⟩
    let listed := "[server]\nat = [] # here\nport = 9000\n[a.server]\nport = 1"
    let braced := "server = \x7bport = 9000\x7d\ndefaults.points = 'all'"
    let parts := [("defaults", []), ("server", [ConfigKey.port])]
    loadConfig.run (place (some listed)) = (.ok loaded, place (some listed)) ∧
    loadConfig.run (place (some braced)) = (.ok loaded, place (some braced)) ∧
    loadConfig.run (place (some (config.partText parts))) =
      (.ok loaded, place (some (config.partText parts))) ∧
    (loadConfig.run (place none)).2 = place none := by
  intro config loaded place listed braced parts
  have hpoints : config.points.toNat < 2 ^ 63 := by decide
  have hseed : config.seed.toNat < 2 ^ 63 := by decide
  have hloaded : config.restrictedTo [.port] = loaded := by decide
  have hlines : lines? listed = some [.table ⟨[], "server"⟩,
      .entry ⟨[], "at"⟩ (.array []), .entry ⟨[], "port"⟩ (.integer 9000),
      .table ⟨["a"], "server"⟩, .entry ⟨[], "port"⟩ (.integer 1)] := by
    cbv
  have hread : Toml.read braced = some [("server", .table .inline [("port", .integer 9000)]),
      ("defaults", .table .dotted [("points", .string "all")])] := by
    cbv
  refine ⟨?_, ?_, ?_, ?_⟩
  · refine hloaded ▸ (loadConfig_restrictedTo config (place (some listed)) hpoints hseed).2.1
      listed _ [.port] rfl hlines (by decide +kernel) ⟨?_, ?_⟩
    · intro key hkey
      obtain rfl := List.mem_singleton.mp hkey
      exact .tail _ (.tail _ (.head _))
    · intro line hline
      simp only [placed, Statement.next, Key.path, List.mem_cons, List.not_mem_nil,
        or_false] at hline
      rcases hline with rfl | rfl | rfl | rfl | rfl
      · exact Or.inr (Or.inl ⟨.port, rfl⟩)
      · exact Or.inr (Or.inr fun key => by cases key <;> decide)
      · exact Or.inl ⟨.port, List.mem_singleton_self _, rfl⟩
      · exact Or.inr (Or.inr fun key => by cases key <;> decide)
      · exact Or.inr (Or.inr fun key => by cases key <;> decide)
  · refine hloaded ▸ (loadConfig_restrictedTo config (place (some braced)) hpoints hseed).1
      braced _ [.port] rfl hread ?_
    intro key
    cases key <;> simp [Entries.section?, Entries.get?_cons, ConfigKey.heading, ConfigKey.field,
      entryValue, config]
  · have hbare : ∀ part ∈ parts, part.1.toList ≠ [] ∧ part.1.toList.all isBareCharacter := by
      decide
    exact hloaded ▸ (loadConfig_restrictedTo config (place (some (config.partText parts)))
      hpoints hseed).2.2.1 parts rfl
      ⟨by decide, fun part hpart => (hbare part hpart).imp_right List.all_eq_true.mp, by decide⟩
  · exact (loadConfig_restrictedTo config (place none) hpoints hseed).2.2.2 none rfl

/-- A file is loaded if its lines are written by the grammar, fit together, and list the entries of
some keys among others. -/
theorem Action.loadConfig_of_lists {config : Config} {keys : List ConfigKey}
    {lines : List Statement} {cs : List Char} {text : String}
    (hstore : place.store = .file (some text))
    (htext : text.toList = cs ∨ text.toList = '\uFEFF' :: cs) (hcs : IsDocument cs lines)
    (hfit : (lines.foldlM Draft.add ⟨[], []⟩).isSome) (h : config.Lists keys lines) :
    loadConfig.run place = (.ok (config.restrictedTo keys), place) := by
  have hlines := hcs.lines?_eq htext
  have hread : (Toml.read text).isSome := by
    rw [Toml.read_eq, hlines, Option.bind_some, Option.isSome_map]
    exact hfit
  obtain ⟨root, hroot, hshows⟩ := h.exists_shows hlines hread
  exact run_loadConfig_of_shows hstore hroot hshows

/-- A file in sections is loaded if each has a heading of its own and entries of different names,
with any values the grammar allows. Only the entries of keys count. -/
theorem Action.loadConfig_of_has {config : Config} {keys : List ConfigKey}
    {sections : List (String × Entries)} {cs : List Char} {text : String}
    (hstore : place.store = .file (some text))
    (htext : text.toList = cs ∨ text.toList = '\uFEFF' :: cs)
    (hcs : IsDocument cs (sectionLines sections)) (h : config.Has keys sections) :
    loadConfig.run place = (.ok (config.restrictedTo keys), place) :=
  run_loadConfig_of_shows hstore (h.areSections.read_eq hcs htext) h.shows

example :
    Config.ofText ("[server]\nport = 9_000 # as ever\nratio = -1.5e3\nopen = true\n" ++
      "since = 2024-02-29 12:00:00Z\nnote = \"\\u00e9\\n\"\n\n" ++
      "[limits]\nbounds = \x7blow = 0x1F, 'high'.\"er\" = [1, 2,]\x7d") =
      .ok { Config.standard with port := 9000 } := by
  decide +kernel

end DefiniteIntegral
