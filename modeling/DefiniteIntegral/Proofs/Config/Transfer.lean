import DefiniteIntegral.Proofs.Config.Settings
import Mathlib.Data.List.Perm.Basic

/-! # Writing back what is shown

A configuration that has come about by setting entries shows texts that give its entries back. So
setting an entry to what it shows changes nothing, and all entries together, in any order, make the
configuration out of any other. -/

namespace DefiniteIntegral

open List

/-! ## Lists of origins -/

theorem mem_originsOfText {text origin : String} (h : origin ∈ originsOfText text) :
    origin ≠ "" ∧ ',' ∉ origin.toList ∧ trimBlank origin.toList = origin.toList := by
  rw [originsOfText, mem_map] at h
  obtain ⟨part, hpart, rfl⟩ := h
  obtain ⟨hmem, hne⟩ := mem_filter.mp hpart
  obtain ⟨piece, hpiece, rfl⟩ := mem_map.mp hmem
  have htrimmed := isTrimmed_trimBlank piece
  refine ⟨?_, ?_, ?_⟩
  · simpa using hne
  · obtain ⟨before, after, hsplit, -⟩ := htrimmed.split
    intro hcomma
    rw [String.toList_ofList] at hcomma
    refine not_mem_of_mem_pieces hpiece ?_
    rw [hsplit]
    exact mem_append_left _ (mem_append_right _ hcomma)
  · rw [String.toList_ofList, htrimmed.self]

/-- Origins that are trimmed, not empty and without commas are read back from their join. -/
theorem originsOfText_intercalate {origins : List String}
    (h : ∀ origin ∈ origins, origin ≠ "" ∧ ',' ∉ origin.toList ∧
      trimBlank origin.toList = origin.toList) :
    originsOfText (",".intercalate origins) = origins := by
  by_cases hnil : origins = []
  · rw [hnil]
    decide
  · have hparts : ∀ part ∈ origins.map String.toList, ',' ∉ part := by
      intro part hpart
      obtain ⟨origin, horigin, rfl⟩ := mem_map.mp hpart
      exact (h origin horigin).2.1
    have hcut : pieces ',' (",".intercalate origins).toList = origins.map String.toList := by
      rw [String.toList_intercalate]
      exact pieces_intercalate hparts (by simpa using hnil)
    have htrim : (origins.map String.toList).map trimBlank = origins.map String.toList := by
      rw [map_map]
      exact map_congr_left fun origin horigin => (h origin horigin).2.2
    have hfilter : (origins.map String.toList).filter (· ≠ []) = origins.map String.toList := by
      rw [filter_eq_self]
      intro part hpart
      obtain ⟨origin, horigin, rfl⟩ := mem_map.mp hpart
      simpa using (h origin horigin).1
    rw [originsOfText, hcut, htrim, hfilter, map_map]
    exact (map_congr_left fun origin _ => String.ofList_toList).trans (map_id origins)

/-! ## Names of methods -/

theorem Method.toLower_name_mem_names (m : Method) : m.name.toLower ∈ m.names := by
  have hlower : m.name.map Char.toLower = m.name := by
    rw [← String.toList_inj, String.toList_map]
    cases m <;> decide
  change m.name.map Char.toLower ∈ m.names
  rw [hlower]
  cases m <;> decide

namespace Config

variable {config next source : Config} {key : ConfigKey} {value name : String}

/-! ## What setting entries leads to -/

/-- A configuration names its method as such, and its origins are trimmed, not empty and without
commas. -/
structure Canonical (config : Config) : Prop where
  method : ∃ m : Method, config.method = m.name
  origins : ∀ origin ∈ config.origins, origin ≠ "" ∧ ',' ∉ origin.toList ∧
    trimBlank origin.toList = origin.toList

theorem canonical_standard : standard.Canonical where
  method := ⟨.trapezoidal, rfl⟩
  origins := by decide

theorem Sets.canonical (h : Sets config value key next) (hconfig : config.Canonical) :
    next.Canonical := by
  obtain ⟨hmethod, horigins⟩ := hconfig
  cases h with
  | method m h => exact ⟨⟨m, rfl⟩, horigins⟩
  | number hkey h hlt => cases key <;> cases hkey <;> exact ⟨hmethod, horigins⟩
  | plain hkey => cases key <;> exact ⟨hmethod, horigins⟩
  | origins => exact ⟨hmethod, fun origin => mem_originsOfText⟩

theorem Canonical.assign (h : config.Canonical) (name value : String) :
    (config.assign name value).2.Canonical := by
  rw [Config.assign]
  cases hset : config.setNamed name value with
  | error fault => exact h
  | ok next =>
      cases hkey : ConfigKey.ofName? name with
      | none => simp [setNamed, hkey] at hset
      | some key =>
          rw [setNamed, hkey] at hset
          exact (set_eq_ok_iff.mp hset).canonical h

/-- What becomes of a configuration when entries are set one after another, successfully or not. -/
def after (config : Config) (steps : List (String × String)) : Config :=
  steps.foldl (fun config step => (config.assign step.1 step.2).2) config

theorem Canonical.after (h : config.Canonical) (steps : List (String × String)) :
    (config.after steps).Canonical := by
  induction steps generalizing config with
  | nil => exact h
  | cons step steps ih => exact ih (h.assign step.1 step.2)

/-! ## Taking entries over -/

/-- A configuration with an entry of another one. -/
def withEntryOf (config source : Config) : ConfigKey → Config
  | .method => { config with method := source.method }
  | .points => { config with points := source.points }
  | .format => { config with format := source.format }
  | .source => { config with source := source.source }
  | .seed => { config with seed := source.seed }
  | .host => { config with host := source.host }
  | .port => { config with port := source.port }
  | .origins => { config with origins := source.origins }

theorem withEntryOf_self (config : Config) (key : ConfigKey) :
    config.withEntryOf config key = config := by
  cases key <;> rfl

/-- The order in which entries are taken over does not matter. -/
theorem withEntryOf_comm (config source : Config) (key other : ConfigKey) :
    (config.withEntryOf source key).withEntryOf source other =
      (config.withEntryOf source other).withEntryOf source key := by
  cases key <;> cases other <;> rfl

theorem foldl_withEntryOf {keys : List ConfigKey} (h : keys.Perm ConfigKey.all)
    (config source : Config) :
    keys.foldl (fun config key => config.withEntryOf source key) config = source := by
  rw [h.foldl_eq' fun key _ other _ config => withEntryOf_comm config source key other]
  rfl

/-- An entry that is set to what a configuration shows is taken over from it. -/
theorem Canonical.set_get (h : source.Canonical) (config : Config) (key : ConfigKey) :
    config.set key (source.get key) = .ok (config.withEntryOf source key) := by
  rw [set_eq_ok_iff]
  cases key with
  | method =>
      obtain ⟨m, hm⟩ := h.method
      rw [get, withEntryOf, hm]
      exact .method m m.toLower_name_mem_names
  | points =>
      have hsets : Sets config source.points.toNat.repr .points
          (config.withNumber .points source.points.toNat) :=
        .number rfl (showsNatural_repr _) source.points.toNat_lt
      rwa [withNumber, UInt64.ofNat_toNat] at hsets
  | format => exact .plain (by decide)
  | source => exact .plain (by decide)
  | seed =>
      have hsets : Sets config source.seed.toNat.repr .seed
          (config.withNumber .seed source.seed.toNat) :=
        .number rfl (showsNatural_repr _) source.seed.toNat_lt
      rwa [withNumber, UInt64.ofNat_toNat] at hsets
  | host => exact .plain (by decide)
  | port =>
      have hsets : Sets config source.port.toNat.repr .port
          (config.withNumber .port source.port.toNat) :=
        .number rfl (showsNatural_repr _) source.port.toNat_lt
      rwa [withNumber, UInt16.ofNat_toNat] at hsets
  | origins =>
      have hsets := @Sets.origins config (",".intercalate source.origins)
      rwa [originsOfText_intercalate h.origins] at hsets

/-- A configuration with the entry of a name set to what another one shows for it. -/
def transfer (source config : Config) (name : String) : Except ConfigFault Config :=
  match source.getNamed? name with
  | some value => config.setNamed name value
  | none => .error (.unknownKey name)

theorem Canonical.transfer_name (h : source.Canonical) (config : Config) (key : ConfigKey) :
    source.transfer config key.name = .ok (config.withEntryOf source key) := by
  rw [transfer, getNamed?_name]
  exact (setNamed_name config key _).trans (h.set_get config key)

theorem Canonical.foldlM_transfer (h : source.Canonical) (config : Config)
    (keys : List ConfigKey) :
    (keys.map ConfigKey.name).foldlM source.transfer config =
      .ok (keys.foldl (fun config key => config.withEntryOf source key) config) := by
  induction keys generalizing config with
  | nil => rfl
  | cons key keys ih =>
      rw [map_cons, foldlM_cons, h.transfer_name, ok_bind, ih]
      rfl

theorem exists_map_name {names : List String} (h : ∀ name ∈ names, name ∈ ConfigKey.names) :
    ∃ keys : List ConfigKey, keys.map ConfigKey.name = names := by
  induction names with
  | nil => exact ⟨[], rfl⟩
  | cons name names ih =>
      obtain ⟨hname, hnames⟩ := forall_mem_cons.mp h
      obtain ⟨key, rfl⟩ := ConfigKey.mem_names_iff.mp hname
      obtain ⟨keys, rfl⟩ := ih hnames
      exact ⟨key :: keys, rfl⟩

/-- The names in any order are those of the keys in some order. -/
theorem exists_perm_keys {names : List String} (h : names.Perm ConfigKey.names) :
    ∃ keys : List ConfigKey, keys.Perm ConfigKey.all ∧ keys.map ConfigKey.name = names := by
  have hread : ∀ keys : List ConfigKey,
      (keys.map ConfigKey.name).filterMap ConfigKey.ofName? = keys := by
    intro keys
    simp [filterMap_map, ConfigKey.ofName?_name]
  obtain ⟨keys, rfl⟩ := exists_map_name fun name hname => h.mem_iff.mp hname
  have hkeys := h.filterMap ConfigKey.ofName?
  rw [ConfigKey.names, hread, hread] at hkeys
  exact ⟨keys, hkeys, rfl⟩

/-- A configuration that has come about by setting entries stays as it is when an entry is set to
what is shown of it, and all entries that are shown, set in any order on any configuration, make it
again. -/
theorem assign_shown (steps : List (String × String)) :
    (∀ name ∈ ConfigKey.names, ∃ value, (standard.after steps).getNamed? name = some value ∧
      (standard.after steps).assign name value = (.ok (), standard.after steps)) ∧
    ∀ (names : List String) (config : Config), names.Perm ConfigKey.names →
      names.foldlM (standard.after steps).transfer config = .ok (standard.after steps) := by
  have hcanonical := canonical_standard.after steps
  generalize standard.after steps = source at hcanonical
  constructor
  · intro name hname
    obtain ⟨key, rfl⟩ := ConfigKey.mem_names_iff.mp hname
    refine ⟨source.get key, getNamed?_name source key, ?_⟩
    rw [assign, setNamed_name, hcanonical.set_get, withEntryOf_self]
  · intro names config hnames
    obtain ⟨keys, hkeys, rfl⟩ := exists_perm_keys hnames
    rw [hcanonical.foldlM_transfer, foldl_withEntryOf hkeys]

/-- Origins that are none, a method by another name and a step that fails, the entries in falling
order. -/
theorem assign_shown_falling :
    let steps := [("defaults.method", "Monte-Carlo"), ("server.allowed_origins", " , "),
      ("server.port", "none"), ("defaults.seed", "+007")]
    (∃ value, (standard.after steps).getNamed? "server.allowed_origins" = some value ∧
      (standard.after steps).assign "server.allowed_origins" value =
        (.ok (), standard.after steps)) ∧
    ConfigKey.names.reverse.foldlM (standard.after steps).transfer standard =
      .ok (standard.after steps) := by
  intro steps
  obtain ⟨hone, hall⟩ := assign_shown steps
  exact ⟨hone "server.allowed_origins" (by decide), hall _ standard (reverse_perm _)⟩

end Config

end DefiniteIntegral
