import DefiniteIntegral.Proofs.Command.Action
import DefiniteIntegral.Proofs.Toml.Lines
import DefiniteIntegral.Proofs.Toml.Quoting

/-! # Saving and loading a configuration

What is saved follows the grammar and reads back as the same configuration, and what cannot be saved
leaves the file as it was. -/

namespace DefiniteIntegral.Config

open Toml

variable (config : Config)

/-- The value that the text of a configuration has for an entry. -/
def entryValue : ConfigKey → Toml.Value
  | .method => .string config.method
  | .points => .integer config.points.toNat
  | .format => .string config.format
  | .source => .string config.source
  | .seed => .integer config.seed.toNat
  | .host => .string config.host
  | .port => .integer config.port.toNat
  | .origins => .array (config.origins.map .string)

/-- What the line of an entry says. -/
def entryStatement (key : ConfigKey) : Statement :=
  .entry ⟨[], key.field⟩ (config.entryValue key)

/-- The keys of a section. -/
def sectionKeys (heading : String) : List ConfigKey :=
  ConfigKey.all.filter fun key => key.heading = heading

/-- The entries of some keys. -/
def fieldEntries (keys : List ConfigKey) : Entries :=
  keys.map fun key => (key.field, config.entryValue key)

/-- The sections of a configuration. -/
def sections : List (String × Entries) :=
  ["defaults", "server"].map fun heading => (heading, config.fieldEntries (sectionKeys heading))

/-- The entries that a configuration becomes. -/
def entries : Entries :=
  ["defaults", "server"].map fun heading =>
    (heading, .table .header ((sectionKeys heading).map fun key =>
      (key.field, config.entryValue key)))

theorem areSections_sections : AreSections config.sections where
  headings := (by decide : ["defaults", "server"].Nodup)
  names := by
    intro part hpart
    simp only [sections, List.map_cons, List.map_nil, List.mem_cons, List.not_mem_nil,
      or_false] at hpart
    rcases hpart with rfl | rfl
    · exact (by decide : ((sectionKeys "defaults").map ConfigKey.field).Nodup)
    · exact (by decide : ((sectionKeys "server").map ConfigKey.field).Nodup)

section

variable {β : Type} {otherwise b : β} {decode : Toml.Value → Option β} {value : Toml.Value}

theorem fieldOr?_some (h : decode value = some b) :
    fieldOr? otherwise decode (some (some value)) = some b := h

end

theorem naturalOf?_integer {bound n : Nat} (h : n < bound) :
    naturalOf? bound (.integer n) = some n := by
  have hrange : 0 ≤ (n : Int) ∧ (n : Int) < bound := ⟨Int.natCast_nonneg n, Int.ofNat_lt.mpr h⟩
  rw [naturalOf?, if_pos hrange, Int.toNat_natCast]

theorem textOf?_eq_some_iff {value : Toml.Value} {text : String} :
    textOf? value = some text ↔ value = .string text := by
  cases value <;> simp [textOf?]

theorem mapM_textOf?_eq_some_iff {items : List Toml.Value} {texts : List String} :
    items.mapM textOf? = some texts ↔ items = texts.map .string := by
  induction items generalizing texts with
  | nil => cases texts <;> simp
  | cons item items ih =>
      cases texts <;> simp [List.mapM_cons, Option.bind_eq_some_iff, textOf?_eq_some_iff, ih]

theorem textsOf?_eq_some_iff {value : Toml.Value} {texts : List String} :
    textsOf? value = some texts ↔ value = .array (texts.map .string) := by
  cases value with
  | array items => rw [textsOf?, mapM_textOf?_eq_some_iff, Toml.Value.array.injEq]
  | _ => exact iff_of_false nofun nofun

theorem textsOf?_array (texts : List String) :
    textsOf? (.array (texts.map .string)) = some texts :=
  textsOf?_eq_some_iff.mpr rfl

/-- A configuration is what its two sections give for its fields. -/
theorem ofEntries?_eq_some {entries : Entries} {defaults server : List (Option Toml.Value)}
    {points seed port : Nat} {method format source host : String} {origins : List String}
    (hdefaults : sectionFields? ((sectionKeys "defaults").map ConfigKey.field)
      (entries.get? "defaults") = some defaults)
    (hserver : sectionFields? ((sectionKeys "server").map ConfigKey.field)
      (entries.get? "server") = some server)
    (hmethod : fieldOr? standard.method textOf? defaults[0]? = some method)
    (hpoints : fieldOr? standard.points.toNat (naturalOf? UInt64.size) defaults[1]? = some points)
    (hformat : fieldOr? standard.format textOf? defaults[2]? = some format)
    (hsource : fieldOr? standard.source textOf? defaults[3]? = some source)
    (hseed : fieldOr? standard.seed.toNat (naturalOf? UInt64.size) defaults[4]? = some seed)
    (hhost : fieldOr? standard.host textOf? server[0]? = some host)
    (hport : fieldOr? standard.port.toNat (naturalOf? UInt16.size) server[1]? = some port)
    (horigins : fieldOr? standard.origins textsOf? server[2]? = some origins) :
    ofEntries? entries =
      some ⟨method, UInt64.ofNat points, format, source, UInt64.ofNat seed, host,
        UInt16.ofNat port, origins⟩ := by
  rw [sectionKeys] at hdefaults hserver
  rw [ofEntries?]
  simp only [hdefaults, hserver, hmethod, hpoints, hformat, hsource, hseed, hhost, hport, horigins,
    bind, Option.bind_some]
  rfl

theorem ofEntries?_entries : ofEntries? config.entries = some config := by
  have hfields : ofEntries? config.entries =
      some ⟨config.method, UInt64.ofNat config.points.toNat, config.format, config.source,
        UInt64.ofNat config.seed.toNat, config.host, UInt16.ofNat config.port.toNat,
        config.origins⟩ :=
    ofEntries?_eq_some rfl rfl (fieldOr?_some rfl)
      (fieldOr?_some (naturalOf?_integer config.points.toNat_lt_size)) (fieldOr?_some rfl)
      (fieldOr?_some rfl) (fieldOr?_some (naturalOf?_integer config.seed.toNat_lt_size))
      (fieldOr?_some rfl) (fieldOr?_some (naturalOf?_integer config.port.toNat_lt_size))
      (fieldOr?_some (textsOf?_array config.origins))
  rwa [UInt64.ofNat_toNat, UInt64.ofNat_toNat, UInt16.ofNat_toNat] at hfields

/-! ## Written values -/

theorem isGap_replicate (k : ℕ) : Toml.IsGap (List.replicate k ' ') :=
  .blanks fun c hc => by simp [List.eq_of_mem_replicate hc]

theorem isValue_quote (levels : ℕ) (text : String) :
    IsValue levels (quote text).toList (.string text) :=
  .text (isQuote_quote text)

/-- Texts on lines of their own are written as the elements of an array. -/
theorem areItems_lines (levels : ℕ) (texts : List String) :
    AreItems levels ('\n' :: (String.join (texts.map fun text =>
      "    " ++ quote text ++ ",\n")).toList) (texts.map .string) := by
  induction texts with
  | nil => exact .nil (.line areBlanks_nil .absent .feed isGap_nil)
  | cons text texts ih =>
      have hbefore : Toml.IsGap "\n    ".toList :=
        .line areBlanks_nil .absent .feed (isGap_replicate 4)
      have hitems := AreItems.cons hbefore (isValue_quote levels text) isGap_nil ih
      simpa using hitems

theorem isValue_textArray (levels : ℕ) (texts : List String) :
    IsValue (levels + 1) (textArray texts).toList (.array (texts.map .string)) := by
  match texts with
  | [] => exact .array (.nil isGap_nil)
  | [text] =>
      have hitems := AreItems.last isGap_nil (isValue_quote levels text)
        isGap_nil
      have hvalue := IsValue.array hitems
      simpa [textArray] using hvalue
  | first :: second :: texts =>
      have hvalue := IsValue.array (areItems_lines levels (first :: second :: texts))
      simpa [textArray] using hvalue

theorem isValue_repr (levels : ℕ) {n : ℕ} (h : n < 2 ^ 63) :
    IsValue levels n.repr.toList (.integer n) :=
  .word (.integer (isInteger_repr n) (by omega) (by exact_mod_cast h))

/-! ## The lines of a configuration -/

section

variable {config}

/-- The value of an entry is written by the grammar. -/
theorem isValue_valueText (hpoints : config.points.toNat < 2 ^ 63)
    (hseed : config.seed.toNat < 2 ^ 63) (key : ConfigKey) :
    IsValue deepest (config.valueText key).toList (config.entryValue key) := by
  cases key with
  | method => exact isValue_quote _ _
  | points => exact isValue_repr _ hpoints
  | format => exact isValue_quote _ _
  | source => exact isValue_quote _ _
  | seed => exact isValue_repr _ hseed
  | host => exact isValue_quote _ _
  | port => exact isValue_repr _ (Nat.lt_trans config.port.toNat_lt (by decide))
  | origins => exact isValue_textArray _ _

theorem isKey_bare {name : String} (h : ∀ c ∈ name.toList, isBareCharacter c)
    (hne : name.toList ≠ []) : IsKey name.toList ⟨[], name⟩ where
  names := by
    have hname := IsName.bare h hne
    rw [String.ofList_toList] at hname
    exact .last hname
  length := by simp [Key.path, deepest]

theorem isKey_field (key : ConfigKey) : IsKey key.field.toList ⟨[], key.field⟩ := by
  have hall : key.field.toList.all isBareCharacter := by cases key <;> rfl
  exact isKey_bare (List.all_eq_true.mp hall) (by cases key <;> decide)

theorem areBlanks_space : AreBlanks [' '] := by
  simp [AreBlanks]

theorem isLine_entryText (hpoints : config.points.toNat < 2 ^ 63)
    (hseed : config.seed.toNat < 2 ^ 63) (key : ConfigKey) :
    IsLine (key.field.toList ++ ' ' :: '=' :: ' ' :: (config.valueText key).toList)
      [config.entryStatement key] := by
  rw [entryStatement]
  have hentry := IsEntry.intro (isKey_field key) areBlanks_space areBlanks_space
    (isValue_valueText hpoints hseed key)
  have hline := IsLine.statement areBlanks_nil (.entry hentry) areBlanks_nil .absent
  simpa using hline

/-- The entries of some keys are lines in front of others. -/
theorem isDocument_entryTexts (hpoints : config.points.toNat < 2 ^ 63)
    (hseed : config.seed.toNat < 2 ^ 63) (keys : List ConfigKey) {rest : List Char}
    {lines : List Statement} (hrest : IsDocument rest lines) :
    IsDocument ((String.join (keys.map config.entryText)).toList ++ rest)
      (keys.map config.entryStatement ++ lines) := by
  induction keys with
  | nil => simpa using hrest
  | cons key keys ih =>
      have hdocument := IsDocument.cons (isLine_entryText hpoints hseed key) .feed ih
      simpa [String.join_cons, entryText] using hdocument

/-- A header and the entries of some keys are lines in front of others. -/
theorem isDocument_header (hpoints : config.points.toNat < 2 ^ 63)
    (hseed : config.seed.toNat < 2 ^ 63) {heading : String}
    (hheading : IsKey heading.toList ⟨[], heading⟩) (keys : List ConfigKey) {rest : List Char}
    {lines : List Statement} (hrest : IsDocument rest lines) :
    IsDocument ('[' :: (heading.toList ++ ']' :: '\n' ::
        ((String.join (keys.map config.entryText)).toList ++ rest)))
      (.table ⟨[], heading⟩ :: (keys.map config.entryStatement ++ lines)) := by
  have hstatement := IsStatement.table areBlanks_nil hheading areBlanks_nil
  have hline := IsLine.statement areBlanks_nil hstatement areBlanks_nil .absent
  have hdocument := IsDocument.cons hline .feed
    (isDocument_entryTexts hpoints hseed keys hrest)
  simpa using hdocument

theorem isDocument_nil : IsDocument [] [] :=
  .last (.empty areBlanks_nil .absent)

theorem toList_sectionText (heading : String) :
    (config.sectionText heading).toList =
      '[' :: (heading.toList ++ ']' :: '\n' ::
        (String.join ((sectionKeys heading).map config.entryText)).toList) := by
  simp [sectionText, sectionKeys]

/-- The two sections with an empty line between them. -/
theorem isDocument_sections (hpoints : config.points.toNat < 2 ^ 63)
    (hseed : config.seed.toNat < 2 ^ 63) :
    IsDocument (config.sectionText "defaults" ++ "\n" ++ config.sectionText "server").toList
      (sectionLines config.sections) := by
  have hkey : ∀ heading ∈ ["defaults", "server"], IsKey heading.toList ⟨[], heading⟩ := by
    intro heading hmem
    simp only [List.mem_cons, List.not_mem_nil, or_false] at hmem
    rcases hmem with rfl | rfl <;> exact isKey_bare (List.all_eq_true.mp rfl) (by decide)
  have hserver := isDocument_header hpoints hseed (hkey "server" (by simp))
    (sectionKeys "server") isDocument_nil
  have hempty : IsLine [] [] := .empty areBlanks_nil .absent
  have hboth := isDocument_header hpoints hseed (hkey "defaults" (by simp))
    (sectionKeys "defaults") (.cons hempty .feed hserver)
  convert hboth using 1
  · simp [toList_sectionText]
  · rfl

end

/-! ## The whole text -/

theorem toText_eq_ok_iff {text : String} :
    config.toText = .ok text ↔
      config.points.toNat < 2 ^ 63 ∧ config.seed.toNat < 2 ^ 63 ∧
        config.sectionText "defaults" ++ "\n" ++ config.sectionText "server" = text := by
  rw [toText]
  split
  · rename_i hrange
    refine iff_of_false (fun h => by cases h) fun ⟨hpoints, hseed, _⟩ => ?_
    exact hrange.elim (Nat.not_le.mpr hpoints) (Nat.not_le.mpr hseed)
  · rename_i hrange
    obtain ⟨hpoints, hseed⟩ := not_or.mp hrange
    rw [Except.ok.injEq]
    exact ⟨fun h => ⟨Nat.not_le.mp hpoints, Nat.not_le.mp hseed, h⟩, fun h => h.2.2⟩

theorem read_toText {text : String} (h : config.toText = .ok text) :
    Toml.read text = some config.entries := by
  obtain ⟨hpoints, hseed, rfl⟩ := config.toText_eq_ok_iff.mp h
  exact config.areSections_sections.read_eq (isDocument_sections hpoints hseed) (Or.inl rfl)

theorem ofText_toText {text : String} (h : config.toText = .ok text) :
    ofText text = .ok config := by
  rw [ofText, config.read_toText h, Option.bind_some, ofEntries?_entries]

theorem toText_of_large (h : 2 ^ 63 ≤ config.points.toNat ∨ 2 ^ 63 ≤ config.seed.toNat) :
    config.toText = .error .outOfRange := by
  rw [toText]
  exact if_pos h

end DefiniteIntegral.Config

namespace DefiniteIntegral

open Config

/-! ## Files -/

section

variable {config : Config} {place : Workplace}

/-- A configuration that has a text is saved as that where a file can be. -/
theorem Store.save_of_toText {store : Store} (hblocked : store ≠ .blocked)
    (hdirectory : store ≠ .directory) {text : String} (h : config.toText = .ok text) :
    store.save config = .ok (.file (some text)) := by
  simp only [save, hblocked, hdirectory, ↓reduceIte, h]
  rfl

/-- A configuration without a text is nowhere saved. -/
theorem Store.exists_save_eq_error {store : Store} {fault : ConfigFault}
    (h : config.toText = .error fault) : ∃ fault, store.save config = .error fault := by
  by_cases hblocked : store = .blocked
  · exact ⟨_, by rw [save, if_pos hblocked]; rfl⟩
  · exact ⟨fault, by rw [save, if_neg hblocked, h]; rfl⟩

theorem Store.load_of_ofText {text : String} (h : ofText text = .ok config) :
    (file (some text)).load = .ok (config, .file (some text)) := by
  rw [load, h]
  rfl

end

/-- A configuration with numbers below `2 ^ 63` has a text that reads back as it was, whatever texts
it has itself, and where a file can be, that is what is saved and loaded. One with a larger number
is refused, and what was there before, and so the text of a file, stays. -/
theorem Action.saveConfig_loadConfig (config : Config) (place : Workplace) :
    (config.points.toNat < 2 ^ 63 → config.seed.toNat < 2 ^ 63 →
      ∃ text, config.toText = .ok text ∧ Config.ofText text = .ok config ∧
        (place.store ≠ .blocked → place.store ≠ .directory →
          (saveConfig config).run place = (.ok (), { place with store := .file (some text) }) ∧
          loadConfig.run { place with store := .file (some text) } =
            (.ok config, { place with store := .file (some text) }))) ∧
    (2 ^ 63 ≤ config.points.toNat ∨ 2 ^ 63 ≤ config.seed.toNat →
      ∃ fault, (saveConfig config).run place = (.error (.config fault), place)) := by
  constructor
  · intro hpoints hseed
    have htext := config.toText_eq_ok_iff.mpr ⟨hpoints, hseed, rfl⟩
    have hback := config.ofText_toText htext
    refine ⟨_, htext, hback, fun hblocked hdirectory => ⟨?_, ?_⟩⟩
    · rw [run_saveConfig, Store.save_of_toText hblocked hdirectory htext]
    · rw [run_loadConfig, Store.load_of_ofText hback]
  · intro hlarge
    obtain ⟨fault, hfault⟩ := Store.exists_save_eq_error (config.toText_of_large hlarge)
    exact ⟨fault, by rw [run_saveConfig, hfault]⟩

/-- Texts that need different quotes, and a seed that is too large for a file that is there. -/
theorem Action.saveConfig_loadConfig_quotes :
    let config : Config :=
      { Config.standard with
        method := "\n\"\"\"\"'"
        host := "\\\"\"\"\x01"
        origins := ["", "'\"\\''"] }
    let place : Workplace := ⟨"", .empty, .empty⟩
    let former : Workplace := ⟨"", .file (some "former"), .empty⟩
    (∃ text, (saveConfig config).run place = (.ok (), { place with store := .file (some text) }) ∧
      loadConfig.run { place with store := .file (some text) } =
        (.ok config, { place with store := .file (some text) })) ∧
    ∃ fault, (saveConfig { config with seed := 9223372036854775808 }).run former =
      (.error (.config fault), former) := by
  intro config place former
  obtain ⟨text, -, -, hfile⟩ :=
    (saveConfig_loadConfig config place).1 (by decide) (by decide)
  exact ⟨⟨text, hfile (by decide) (by decide)⟩,
    (saveConfig_loadConfig { config with seed := 9223372036854775808 } former).2
      (Or.inr (by decide))⟩

end DefiniteIntegral
