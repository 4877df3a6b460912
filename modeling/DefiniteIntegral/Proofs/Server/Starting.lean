import DefiniteIntegral.Proofs.Config.RoundTrip
import DefiniteIntegral.Proofs.Config.Transfer
import DefiniteIntegral.Proofs.Server.Origins

/-! # Starting a server

A server starts with every configuration, unless one of the origins stands for all others. Nothing
keeps such an origin from being set, or from being listed in a file. -/

namespace DefiniteIntegral

/-! ## Origins that are set -/

/-- The origins of a text are its pieces, without the blanks around them. -/
theorem mem_originsOfText_iff {text origin : String} (hne : origin ≠ "") :
    origin ∈ originsOfText text ↔
      ∃ piece ∈ text.toList.splitOn ',', IsTrimmed piece origin.toList := by
  rw [originsOfText, pieces_eq_splitOn]
  constructor
  · intro h
    obtain ⟨part, hpart, rfl⟩ := List.mem_map.mp h
    obtain ⟨piece, hpiece, rfl⟩ := List.mem_map.mp (List.mem_of_mem_filter hpart)
    refine ⟨piece, hpiece, ?_⟩
    rw [String.toList_ofList]
    exact isTrimmed_trimBlank piece
  · rintro ⟨piece, hpiece, htrimmed⟩
    refine List.mem_map.mpr ⟨origin.toList, List.mem_filter.mpr ⟨?_, ?_⟩, String.ofList_toList⟩
    · exact List.mem_map.mpr ⟨piece, hpiece, htrimmed.eq_trimBlank.symm⟩
    · simpa using hne

namespace Config

variable {config next : Config} {key : ConfigKey} {value : String}

theorem Sets.origins_of_ne (h : Sets config value key next) (hne : key ≠ .origins) :
    next.origins = config.origins := by
  cases h with
  | method => rfl
  | number hkey => cases key <;> cases hkey <;> rfl
  | plain => cases key <;> rfl
  | origins => exact absurd rfl hne

/-- The text that origins are set from by an entry of this name, if it is theirs. -/
def originsText? (step : String × String) : Option String :=
  if step.1 = ConfigKey.origins.name then some step.2 else none

/-- Only an entry of their name changes the origins. -/
theorem origins_assign (name value : String) :
    (config.assign name value).2.origins =
      ((originsText? (name, value)).map originsOfText).getD config.origins := by
  by_cases hname : name = ConfigKey.origins.name
  · rw [originsText?, if_pos hname, assign, hname, setNamed_name]
    rfl
  · rw [originsText?, if_neg hname, assign]
    cases hset : config.setNamed name value with
    | error fault => rfl
    | ok next =>
        cases hkey : ConfigKey.ofName? name with
        | none => simp [setNamed, hkey] at hset
        | some key =>
            obtain rfl := ConfigKey.ofName?_eq_some_iff.mp hkey
            rw [setNamed_name] at hset
            exact (set_eq_ok_iff.mp hset).origins_of_ne fun heq => hname (congrArg _ heq)

/-- After entries have been set one after another, the origins are those of the last text that they
were set from. -/
theorem origins_after (steps : List (String × String)) :
    (config.after steps).origins =
      ((steps.filterMap originsText?).getLast?.map originsOfText).getD config.origins := by
  rw [← List.getLast?_map, List.map_filterMap]
  exact get_foldl (fun config step => origins_assign step.1 step.2) config steps

/-! ## Origins of a file -/

/-- What the tables of a text have in the place of the origins. -/
def originsValue? (root : Toml.Entries) : Option Toml.Value :=
  match root.get? "server" with
  | some (.table _ fields) => Toml.Entries.get? fields "allowed_origins"
  | some (.array items) => items[2]?
  | _ => none

theorem sectionFields?_origins {root : Toml.Entries} {server : List (Option Toml.Value)}
    (h : sectionFields? ((sectionKeys "server").map ConfigKey.field) (root.get? "server") =
      some server) :
    server[2]? = some (originsValue? root) := by
  rw [originsValue?]
  cases hget : root.get? "server" with
  | none =>
      rw [hget] at h
      obtain rfl := Option.some.inj h
      rfl
  | some value =>
      rw [hget] at h
      cases value with
      | table | array | datetime =>
          obtain rfl := Option.some.inj h
          rfl
      | _ => cases h

/-- Tables that have nothing in the place of the origins give the standard ones, and others what
they list there. -/
theorem originsValue?_of_ofEntries? {root : Toml.Entries} (h : ofEntries? root = some config) :
    (originsValue? root = none ∧ config.origins = standard.origins) ∨
      originsValue? root = some (.array (config.origins.map .string)) := by
  simp only [ofEntries?, Option.bind_eq_bind, Option.bind_eq_some_iff] at h
  obtain ⟨defaults, -, server, hserver, method, -, points, -, format, -, source, -, seed, -,
    host, -, port, -, origins, horigins, heq⟩ := h
  obtain rfl := Option.some.inj heq
  rw [sectionFields?_origins hserver] at horigins
  cases hvalue : originsValue? root with
  | none =>
      rw [hvalue] at horigins
      exact Or.inl ⟨rfl, (Option.some.inj horigins).symm⟩
  | some value =>
      rw [hvalue] at horigins
      exact Or.inr (congrArg some (textsOf?_eq_some_iff.mp horigins))

/-- The origins of a file that can be loaded. -/
theorem mem_origins_of_load {content : Option String} {store : Store} {origin : String}
    (horigin : origin ∉ standard.origins) (h : (Store.file content).load = .ok (config, store)) :
    ∃ root, content.bind Toml.read = some root ∧
      (origin ∈ config.origins ↔
        ∃ items, originsValue? root = some (.array items) ∧ .string origin ∈ items) := by
  cases content with
  | none => cases h
  | some text =>
      obtain ⟨loaded, hloaded, hpair⟩ := bind_eq_ok_iff.mp h
      obtain ⟨rfl, -⟩ := Prod.mk.inj (Except.ok.inj hpair)
      rw [ofText] at hloaded
      split at hloaded
      · rename_i config' hbind
        obtain rfl := Except.ok.inj hloaded
        obtain ⟨root, hread, hentries⟩ := Option.bind_eq_some_iff.mp hbind
        refine ⟨root, hread, ?_⟩
        obtain ⟨hnone, horigins⟩ | hsome := originsValue?_of_ofEntries? hentries
        · simp [hnone, horigins, horigin]
        · simp [hsome]
      · cases hloaded

end Config

/-! ## Starting -/

namespace Server

/-- Whether a server starts: it comes to a list of origins that it lets in. -/
def Starts (server : Server) : Prop :=
  (allowedOrigins? server.origins).isSome

instance (server : Server) : Decidable server.Starts :=
  inferInstanceAs (Decidable (_ = true))

theorem starts_iff {server : Server} : server.Starts ↔ "*" ∉ server.origins := by
  rw [Starts, allowedOrigins?_eq]
  split <;> simp [*]

/-- A server starts with every configuration in which no origin stands for all others, and lets in
all origins but those that cannot be the value of a header. Setting entries leads to such a
configuration unless a piece of the last text for the origins is the one for all others, and so does
a file unless that one is listed there. -/
theorem start_starts_iff (config : Config) (steps : List (String × String))
    (content : Option String) :
    ((start config).Starts ↔ "*" ∉ config.origins) ∧
    ((start config).Starts → ∃ allowed, allowedOrigins? (start config).origins = some allowed ∧
      ∀ origin, origin ∈ allowed ↔ origin ∈ config.origins ∧ isHeaderValue origin) ∧
    ((start (Config.standard.after steps)).Starts ↔
      ∀ text ∈ (steps.filterMap Config.originsText?).getLast?,
        ∀ piece ∈ text.toList.splitOn ',', ¬ IsTrimmed piece ['*']) ∧
    ∀ loaded store, (Store.file content).load = .ok (loaded, store) →
      ∃ root, content.bind Toml.read = some root ∧
        ((start loaded).Starts ↔
          ∀ items, Config.originsValue? root = some (.array items) → .string "*" ∉ items) := by
  have hstandard : "*" ∉ Config.standard.origins := by decide
  refine ⟨starts_iff, ?_, ?_, ?_⟩
  · intro hstarts
    refine ⟨_, allowedOrigins?_eq_some_iff.mpr ⟨starts_iff.mp hstarts, rfl⟩, ?_⟩
    intro origin
    exact List.mem_filter
  · have horigins : (start (Config.standard.after steps)).origins = _ := Config.origins_after steps
    rw [starts_iff, horigins]
    cases (steps.filterMap Config.originsText?).getLast? with
    | none => simp [hstandard]
    | some text => simp [mem_originsOfText_iff (show "*" ≠ "" by decide)]
  · intro loaded store hload
    obtain ⟨root, hread, hmem⟩ := Config.mem_origins_of_load hstandard hload
    refine ⟨root, hread, ?_⟩
    have hstarts : (start loaded).Starts ↔ "*" ∉ loaded.origins := starts_iff
    simpa [hstarts] using not_congr hmem

/-- The origin for all others replaced by two texts that only look like it, and a file without
it. -/
theorem start_starts_iff_replaced :
    let steps := [("server.allowed_origins", "*"), ("server.port", "*"),
      ("server.allowed_origins", " http://* ,**")]
    let text := "[server]\nallowed_origins = ['http://a', '']"
    let config : Config := { Config.standard with origins := ["http://a", ""] }
    (start (Config.standard.after steps)).Starts ∧ (start config).Starts ∧
      ∃ root, Toml.read text = some root ∧
        ∀ items, Config.originsValue? root = some (.array items) → .string "*" ∉ items := by
  intro steps text config
  have hload : (Store.file (some text)).load = .ok (config, .file (some text)) :=
    toOption_eq_some_iff.mp (by decide +kernel)
  obtain ⟨hstarts, -, hsteps, hfile⟩ := start_starts_iff config steps (some text)
  have hconfig : (start config).Starts := hstarts.mpr (by decide)
  refine ⟨hsteps.mpr ?_, hconfig, ?_⟩
  · rintro text ⟨⟩ piece hpiece htrimmed
    have hpieces : ∀ piece ∈ " http://* ,**".toList.splitOn ',', trimBlank piece ≠ ['*'] := by
      decide +kernel
    exact hpieces piece hpiece htrimmed.eq_trimBlank.symm
  · obtain ⟨root, hread, hiff⟩ := hfile config _ hload
    exact ⟨root, hread, hiff.mp hconfig⟩

/-- The origin for all others can be set, and it can be listed in a file, but no server starts with
it. -/
theorem not_starts_everyone :
    let text := "[server]\nallowed_origins = ['http://a', '*']"
    (∃ config, Config.standard.setNamed "server.allowed_origins" "*" = .ok config ∧
      ¬ (start config).Starts) ∧
    ∃ config, (Store.file (some text)).load = .ok (config, .file (some text)) ∧
      ¬ (start config).Starts := by
  intro text
  constructor
  · have hset : Config.standard.setNamed "server.allowed_origins" "*" =
        .ok { Config.standard with origins := ["*"] } :=
      toOption_eq_some_iff.mp (by decide +kernel)
    exact ⟨_, hset, by decide⟩
  · have hload : (Store.file (some text)).load =
        .ok ({ Config.standard with origins := ["http://a", "*"] }, .file (some text)) :=
      toOption_eq_some_iff.mp (by decide +kernel)
    exact ⟨_, hload, by decide⟩

end Server

end DefiniteIntegral
