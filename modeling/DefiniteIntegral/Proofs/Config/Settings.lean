import DefiniteIntegral.Config.Settings
import DefiniteIntegral.Proofs.Outcome
import DefiniteIntegral.Proofs.Text.Pieces
import DefiniteIntegral.Proofs.Toml.Digits

/-! # Setting and showing entries

Which texts an entry takes, how it shows them, and that nothing else changes. A text that an entry
does not take leaves the configuration as it was. -/

namespace DefiniteIntegral

open List

/-! ## Keys -/

namespace ConfigKey

theorem mem_all (key : ConfigKey) : key ∈ all := by
  cases key <;> decide

theorem ofName?_eq_some_iff {text : String} {key : ConfigKey} :
    ofName? text = some key ↔ key.name = text := by
  constructor
  · intro h
    simpa using find?_some h
  · rintro rfl
    cases key <;> decide

theorem ofName?_name (key : ConfigKey) : ofName? key.name = some key :=
  ofName?_eq_some_iff.mpr rfl

theorem name_injective {key other : ConfigKey} (h : key.name = other.name) : key = other := by
  have hkey := ofName?_name key
  rw [h, ofName?_name] at hkey
  exact (Option.some.inj hkey).symm

/-- The names of the keys, as they are listed. -/
def names : List String :=
  all.map name

theorem mem_names_iff {text : String} : text ∈ names ↔ ∃ key : ConfigKey, key.name = text := by
  simp [names, mem_all]

end ConfigKey

/-! ## Texts of natural numbers -/

/-- A text shows a natural number: it consists of decimal digits, after at most one plus sign. -/
inductive ShowsNatural : List Char → ℕ → Prop
  | unsigned {digits : List Char} (hne : digits ≠ []) (hdigits : ∀ c ∈ digits, c.isDigit) :
      ShowsNatural digits (valueOfDigits digits)
  | signed {digits : List Char} (hne : digits ≠ []) (hdigits : ∀ c ∈ digits, c.isDigit) :
      ShowsNatural ('+' :: digits) (valueOfDigits digits)

theorem showsNatural_repr (n : ℕ) : ShowsNatural n.repr.toList n := by
  have hvalue := Toml.valueOfDigits_toDigits n
  have hshows := ShowsNatural.unsigned (Nat.toDigits_ne_nil (n := n) (b := 10))
    Toml.isDigit_of_mem_toDigits
  rwa [hvalue, ← Nat.toList_repr] at hshows

theorem readNat?_eq_some_iff {bound n : ℕ} {text : String} :
    readNat? bound text = some n ↔ ShowsNatural text.toList n ∧ n < bound := by
  have hread : ∀ digits : List Char,
      (if digits ≠ [] ∧ digits.all Char.isDigit ∧ valueOfDigits digits < bound then
        some (valueOfDigits digits) else none) = some n ↔
      (digits ≠ [] ∧ (∀ c ∈ digits, c.isDigit) ∧ valueOfDigits digits = n) ∧ n < bound := by
    intro digits
    simp only [all_eq_true, Option.ite_none_right_eq_some, Option.some.injEq]
    constructor
    · rintro ⟨⟨hne, hall, hlt⟩, rfl⟩
      exact ⟨⟨hne, hall, rfl⟩, hlt⟩
    · rintro ⟨⟨hne, hall, rfl⟩, hlt⟩
      exact ⟨⟨hne, hall, hlt⟩, rfl⟩
  rw [readNat?, hread]
  refine and_congr_left fun _ => ?_
  generalize text.toList = cs
  by_cases hsign : ∃ digits, cs = '+' :: digits
  · obtain ⟨digits, rfl⟩ := hsign
    constructor
    · rintro ⟨hne, hall, rfl⟩
      exact .signed hne hall
    · rintro (⟨-, hall⟩ | ⟨hne, hall⟩)
      · exact absurd (hall '+' mem_cons_self) (by decide)
      · exact ⟨hne, hall, rfl⟩
  · split
    · exact absurd ⟨_, rfl⟩ hsign
    constructor
    · rintro ⟨hne, hall, rfl⟩
      exact .unsigned hne hall
    · rintro (⟨hne, hall⟩ | ⟨hne, hall⟩)
      · exact ⟨hne, hall, rfl⟩
      · exact absurd ⟨_, rfl⟩ hsign

/-! ## Names of methods -/

theorem Method.ofName?_eq_some_iff {text : String} {m : Method} :
    Method.ofName? text = some m ↔ text.toLower ∈ m.names := by
  have hunique : ∀ name ∈ m.names, Method.all.find? (fun m => m.names.contains name) = some m := by
    cases m <;> decide
  constructor
  · intro h
    simpa using find?_some h
  · exact hunique _

/-! ## What becomes of a configuration -/

/-- The numbers of an entry that is one are below this bound. -/
def ConfigKey.bound? : ConfigKey → Option ℕ
  | points => some (2 ^ 64)
  | seed => some (2 ^ 64)
  | port => some (2 ^ 16)
  | _ => none

/-- The entries that are any text. -/
def ConfigKey.plain : List ConfigKey :=
  [format, source, host]

namespace Config

variable {config next : Config} {key other : ConfigKey} {value text name : String} {bound n : ℕ}

/-- The configuration with a number for an entry that is one. -/
def withNumber (config : Config) : ConfigKey → ℕ → Config
  | .points, n => { config with points := UInt64.ofNat n }
  | .seed, n => { config with seed := UInt64.ofNat n }
  | .port, n => { config with port := UInt16.ofNat n }
  | _, _ => config

/-- The configuration with a text for an entry that is any. -/
def withText (config : Config) : ConfigKey → String → Config
  | .format, text => { config with format := text }
  | .source, text => { config with source := text }
  | .host, text => { config with host := text }
  | _, _ => config

theorem get_withNumber (hkey : key.bound? = some bound) (hlt : n < bound) :
    (config.withNumber key n).get key = n.repr := by
  cases key <;> cases hkey
  · exact congrArg Nat.repr (UInt64.toNat_ofNat_of_lt hlt)
  · exact congrArg Nat.repr (UInt64.toNat_ofNat_of_lt hlt)
  · exact congrArg Nat.repr (UInt16.toNat_ofNat_of_lt hlt)

theorem get_withText (hkey : key ∈ ConfigKey.plain) :
    (config.withText key text).get key = text := by
  cases key <;> first | rfl | exact absurd hkey (by decide)

/-- What a configuration becomes when an entry is set from a text that it takes. -/
inductive Sets (config : Config) (value : String) : ConfigKey → Config → Prop
  | method (m : Method) (h : value.toLower ∈ m.names) :
      Sets config value .method { config with method := m.name }
  | number {key : ConfigKey} {bound n : ℕ} (hkey : key.bound? = some bound)
      (h : ShowsNatural value.toList n) (hlt : n < bound) :
      Sets config value key (config.withNumber key n)
  | plain {key : ConfigKey} (hkey : key ∈ ConfigKey.plain) :
      Sets config value key (config.withText key value)
  | origins : Sets config value .origins { config with origins := originsOfText value }

theorem set_number (hkey : key.bound? = some bound) :
    config.set key value = (numberOf key bound value).map (config.withNumber key) := by
  cases key <;> cases hkey <;> rfl

theorem set_plain (hkey : key ∈ ConfigKey.plain) :
    config.set key value = .ok (config.withText key value) := by
  cases key <;> first | rfl | exact absurd hkey (by decide)

theorem numberOf_eq_ok_iff :
    numberOf key bound value = .ok n ↔ ShowsNatural value.toList n ∧ n < bound := by
  rw [← readNat?_eq_some_iff, numberOf]
  split
  · rename_i m hm
    rw [hm, Except.ok.injEq, Option.some.injEq]
  · rename_i hnone
    rw [hnone]
    exact iff_of_false nofun nofun

theorem sets_of_set_number (hkey : key.bound? = some bound) (h : config.set key value = .ok next) :
    Sets config value key next := by
  rw [set_number hkey] at h
  obtain ⟨n, hn, rfl⟩ := map_eq_ok_iff.mp h
  obtain ⟨hshows, hlt⟩ := numberOf_eq_ok_iff.mp hn
  exact .number hkey hshows hlt

theorem sets_of_set_plain (hkey : key ∈ ConfigKey.plain) (h : config.set key value = .ok next) :
    Sets config value key next := by
  rw [set_plain hkey] at h
  obtain rfl := Except.ok.inj h
  exact .plain hkey

/-- Setting an entry succeeds exactly on the texts that it takes. -/
theorem set_eq_ok_iff : config.set key value = .ok next ↔ Sets config value key next := by
  constructor
  · intro h
    cases key with
    | method =>
        rw [set] at h
        split at h
        · rename_i m hm
          obtain rfl := Except.ok.inj h
          exact .method m (Method.ofName?_eq_some_iff.mp hm)
        · cases h
    | points => exact sets_of_set_number rfl h
    | format => exact sets_of_set_plain (by decide) h
    | source => exact sets_of_set_plain (by decide) h
    | seed => exact sets_of_set_number rfl h
    | host => exact sets_of_set_plain (by decide) h
    | port => exact sets_of_set_number rfl h
    | origins =>
        obtain rfl := Except.ok.inj h
        exact .origins
  · intro h
    cases h with
    | method m h => rw [set, Method.ofName?_eq_some_iff.mpr h]
    | number hkey h hlt => rw [set_number hkey, numberOf_eq_ok_iff.mpr ⟨h, hlt⟩]; rfl
    | plain hkey => exact set_plain hkey
    | origins => rfl

/-- Setting an entry changes no other one. -/
theorem Sets.get_of_ne (h : Sets config value key next) (hne : other ≠ key) :
    next.get other = config.get other := by
  cases h with
  | method m h => cases other <;> first | rfl | exact absurd rfl hne
  | number hkey h hlt =>
      cases key <;> cases hkey <;> cases other <;> first | rfl | exact absurd rfl hne
  | plain hkey => cases key <;> cases other <;> first | rfl | exact absurd rfl hne
  | origins => cases other <;> first | rfl | exact absurd rfl hne

end Config

/-! ## The texts that an entry takes -/

/-- An entry takes a text, and then shows another: a method its canonical name, a number its decimal
digits, the origins what is left of the pieces between the commas, and other entries the text
itself. -/
inductive ConfigKey.Takes : ConfigKey → String → String → Prop
  | method {value : String} (m : Method) (h : value.toLower ∈ m.names) : Takes .method value m.name
  | number {key : ConfigKey} {value : String} {bound n : ℕ} (hkey : key.bound? = some bound)
      (h : ShowsNatural value.toList n) (hlt : n < bound) : Takes key value n.repr
  | plain {key : ConfigKey} {value : String} (hkey : key ∈ plain) : Takes key value value
  | origins {value : String} {parts : List (List Char)}
      (h : Forall₂ IsTrimmed (value.toList.splitOn ',') parts) :
      Takes .origins value (",".intercalate ((parts.filter (· ≠ [])).map String.ofList))

theorem forall₂_isTrimmed_iff {texts parts : List (List Char)} :
    Forall₂ IsTrimmed texts parts ↔ parts = texts.map trimBlank := by
  constructor
  · intro h
    induction h with
    | nil => rfl
    | cons htrimmed _ ih => rw [map_cons, htrimmed.eq_trimBlank, ih]
  · rintro rfl
    induction texts with
    | nil => exact .nil
    | cons text texts ih => exact .cons (isTrimmed_trimBlank text) ih

namespace Config

variable {config next : Config} {key other : ConfigKey} {value text name : String}

theorem get_origins_originsOfText :
    get { config with origins := originsOfText value } .origins =
      ",".intercalate ((((value.toList.splitOn ',').map trimBlank).filter (· ≠ [])).map
        String.ofList) := by
  rw [get, originsOfText, pieces_eq_splitOn]

/-- A text that an entry is set from is one that it takes. -/
theorem Sets.exists_takes (h : Sets config value key next) : ∃ text, key.Takes value text := by
  cases h with
  | method m h => exact ⟨_, .method m h⟩
  | number hkey h hlt => exact ⟨_, .number hkey h hlt⟩
  | plain hkey => exact ⟨_, .plain hkey⟩
  | origins => exact ⟨_, .origins (forall₂_isTrimmed_iff.mpr rfl)⟩

/-- An entry can be set from each text that it takes, and then shows what it takes that for. -/
theorem exists_sets (config : Config) (h : key.Takes value text) :
    ∃ next, Sets config value key next ∧ next.get key = text := by
  cases h with
  | method m h => exact ⟨_, .method m h, rfl⟩
  | number hkey h hlt => exact ⟨_, .number hkey h hlt, get_withNumber hkey hlt⟩
  | plain hkey => exact ⟨_, .plain hkey, get_withText hkey⟩
  | origins h =>
      refine ⟨_, .origins, ?_⟩
      rw [get_origins_originsOfText, forall₂_isTrimmed_iff.mp h]

/-! ## Entries by name -/

/-- Setting an entry of a configuration in place: the outcome, and the configuration afterwards. -/
def assign (config : Config) (name value : String) : Except ConfigFault Unit × Config :=
  match config.setNamed name value with
  | .ok next => (.ok (), next)
  | .error fault => (.error fault, config)

theorem getNamed?_name (config : Config) (key : ConfigKey) :
    config.getNamed? key.name = some (config.get key) := by
  rw [getNamed?, ConfigKey.ofName?_name, Option.map_some]

theorem setNamed_name (config : Config) (key : ConfigKey) (value : String) :
    config.setNamed key.name value = config.set key value := by
  rw [setNamed, ConfigKey.ofName?_name]

theorem getNamed?_eq_none (h : name ∉ ConfigKey.names) : config.getNamed? name = none := by
  rw [getNamed?, Option.map_eq_none_iff, Option.eq_none_iff_forall_ne_some]
  intro key hkey
  exact h (ConfigKey.mem_names_iff.mpr ⟨key, ConfigKey.ofName?_eq_some_iff.mp hkey⟩)

theorem exists_setNamed_eq_error (config : Config)
    (h : ¬ ∃ key : ConfigKey, key.name = name ∧ ∃ text, key.Takes value text) :
    ∃ fault, config.setNamed name value = .error fault := by
  cases hset : config.setNamed name value with
  | error fault => exact ⟨fault, rfl⟩
  | ok next =>
      refine absurd ?_ h
      cases hkey : ConfigKey.ofName? name with
      | none => simp [setNamed, hkey] at hset
      | some key =>
          rw [setNamed, hkey] at hset
          exact ⟨key, ConfigKey.ofName?_eq_some_iff.mp hkey, (set_eq_ok_iff.mp hset).exists_takes⟩

/-- An entry is shown under the names that are listed. One that is set from a text that it takes
shows what it takes that for, and no other entry changes; everything else is refused, and the
configuration stays as it was. -/
theorem assign_exact (config : Config) (name value : String) :
    ((config.getNamed? name).isSome ↔ name ∈ ConfigKey.names) ∧
    (∀ (key : ConfigKey) (text : String), key.name = name → key.Takes value text →
      ∃ next, config.assign name value = (.ok (), next) ∧ next.getNamed? name = some text ∧
        ∀ other ≠ name, next.getNamed? other = config.getNamed? other) ∧
    ((¬ ∃ key : ConfigKey, key.name = name ∧ ∃ text, key.Takes value text) →
      ∃ fault, config.assign name value = (.error fault, config)) := by
  refine ⟨?_, ?_, ?_⟩
  · by_cases hname : name ∈ ConfigKey.names
    · obtain ⟨key, rfl⟩ := ConfigKey.mem_names_iff.mp hname
      simp [getNamed?_name, hname]
    · simp [getNamed?_eq_none hname, hname]
  · rintro key text rfl htakes
    obtain ⟨next, hsets, hshown⟩ := exists_sets config htakes
    refine ⟨next, ?_, ?_, ?_⟩
    · rw [assign, setNamed_name, set_eq_ok_iff.mpr hsets]
    · rw [getNamed?_name, hshown]
    · intro other hother
      by_cases hlisted : other ∈ ConfigKey.names
      · obtain ⟨key', rfl⟩ := ConfigKey.mem_names_iff.mp hlisted
        have hne : key' ≠ key := fun heq => hother (congrArg ConfigKey.name heq)
        rw [getNamed?_name, getNamed?_name, hsets.get_of_ne hne]
      · rw [getNamed?_eq_none hlisted, getNamed?_eq_none hlisted]
  · intro hnone
    obtain ⟨fault, hfault⟩ := exists_setNamed_eq_error config hnone
    exact ⟨fault, by rw [assign, hfault]⟩

/-- Origins with blanks and an empty piece, a port with a sign and zeros, and a port that is too
large. -/
theorem assign_exact_origins :
    (∃ next, standard.assign "server.allowed_origins" "http://a ,\t, http://b" = (.ok (), next) ∧
      next.getNamed? "server.allowed_origins" = some "http://a,http://b" ∧
      next.getNamed? "server.port" = some "8000") ∧
    (∃ next, standard.assign "server.port" "+0080" = (.ok (), next) ∧
      next.getNamed? "server.port" = some "80") ∧
    ∃ fault, standard.assign "server.port" "65536" = (.error fault, standard) := by
  refine ⟨?_, ?_, ?_⟩
  · have hparts : Forall₂ IsTrimmed ("http://a ,\t, http://b".toList.splitOn ',')
        ["http://a".toList, [], "http://b".toList] :=
      forall₂_isTrimmed_iff.mpr (by decide)
    have htakes : ConfigKey.Takes .origins "http://a ,\t, http://b" "http://a,http://b" :=
      .origins hparts
    obtain ⟨next, hnext, hshown, hother⟩ :=
      (assign_exact standard "server.allowed_origins" _).2.1 _ _ rfl htakes
    exact ⟨next, hnext, hshown, hother "server.port" (by decide)⟩
  · have hshows : ShowsNatural ('+' :: "0080".toList) 80 :=
      .signed (by decide) (List.all_eq_true.mp (by decide))
    have htakes : ConfigKey.Takes .port "+0080" (Nat.repr 80) := .number rfl hshows (by decide)
    obtain ⟨next, hnext, hshown, -⟩ := (assign_exact standard "server.port" _).2.1 _ _ rfl htakes
    exact ⟨next, hnext, hshown⟩
  · refine (assign_exact standard "server.port" "65536").2.2 ?_
    rintro ⟨key, hkey, text, htakes⟩
    obtain rfl : key = .port := ConfigKey.name_injective hkey
    cases htakes with
    | number hbound h hlt =>
        obtain rfl := Option.some.inj hbound
        have hread := readNat?_eq_some_iff.mpr ⟨h, hlt⟩
        cases hread
    | plain hplain => exact absurd hplain (by decide)

end Config

end DefiniteIntegral
