import DefiniteIntegral.Proofs.Outcome
import DefiniteIntegral.Toml.Reading

/-! # What a line says about a table

Every line has a path, the names from the outermost table to what it speaks of. It leaves alone all
that does not lie on that path. -/

namespace DefiniteIntegral.Toml

/-! ## Entries -/

namespace Entries

variable {entries next inner : Entries} {name other first : String} {value : Value}

theorem get?_cons (entry : String × Value) (entries : Entries) (name : String) :
    get? (entry :: entries) name = if name = entry.1 then some entry.2 else get? entries name := by
  obtain ⟨entryName, value⟩ := entry
  by_cases h : name = entryName
  · rw [if_pos h, h, get?, List.lookup_cons_self]
  · rw [if_neg h, get?, get?, List.lookup_cons, beq_false_of_ne h]

@[simp] theorem get?_nil (name : String) : get? [] name = none :=
  rfl

theorem get?_put_self (entries : Entries) (name : String) (value : Value) :
    (entries.put name value).get? name = some value := by
  induction entries with
  | nil => simp [put, get?]
  | cons entry entries ih =>
      rw [put]
      by_cases h : entry.1 = name
      · rw [if_pos h, get?_cons, if_pos h.symm]
      · rw [if_neg h, get?_cons, if_neg (Ne.symm h), ih]

theorem get?_put_of_ne (entries : Entries) (value : Value) (hne : other ≠ name) :
    (entries.put name value).get? other = entries.get? other := by
  induction entries with
  | nil => rw [put, get?_cons, if_neg hne]
  | cons entry entries ih =>
      rw [put]
      by_cases h : entry.1 = name
      · rw [if_pos h, get?_cons, get?_cons, h, if_neg hne, if_neg hne]
      · rw [if_neg h, get?_cons, get?_cons, ih]

/-- The entries of the table of a name, which are none if the name has no value. Another value has
none at all. -/
def section? (entries : Entries) (name : String) : Option Entries :=
  match entries.get? name with
  | none => some []
  | some (.table _ inner) => some inner
  | some _ => none

theorem section?_congr (h : next.get? name = entries.get? name) :
    next.section? name = entries.section? name := by
  rw [section?, section?, h]

theorem section?_put (entries : Entries) (name : String) (origin : Origin) (inner : Entries) :
    (entries.put name (.table origin inner)).section? name = some inner := by
  rw [section?, get?_put_self]

/-! ## Changes along a way -/

/-- A change to a table concerns no name but one. -/
def OnlyAt (name : String) (change : Origin → Entries → Option Entries) : Prop :=
  ∀ origin entries next, change origin entries = some next →
    ∀ other ≠ name, next.get? other = entries.get? other

variable {dotted : Bool} {change : Origin → Entries → Option Entries} {origin : Origin}
  {way rest : List String}

theorem get?_update_of_ne (h : update dotted change origin (name :: way) entries = some next)
    (hne : other ≠ name) : next.get? other = entries.get? other := by
  rw [update] at h
  split at h
  · obtain ⟨inner, -, hnext⟩ := Option.bind_eq_some_iff.mp h
    obtain rfl := Option.some.inj hnext
    exact get?_put_of_ne _ _ hne
  · split at h
    · cases h
    · obtain ⟨inner, -, hnext⟩ := Option.bind_eq_some_iff.mp h
      obtain rfl := Option.some.inj hnext
      exact get?_put_of_ne _ _ hne
  · split at h
    · cases h
    · obtain ⟨inner, -, hnext⟩ := Option.bind_eq_some_iff.mp h
      obtain rfl := Option.some.inj hnext
      exact get?_put_of_ne _ _ hne
  · cases h

/-- A change along a way happens in the table of the first name on it. -/
theorem section?_update (h : update dotted change origin (name :: way) entries = some next)
    (hinner : entries.section? name = some inner) :
    ∃ origin' inner', update dotted change origin' way inner = some inner' ∧
      next.section? name = some inner' := by
  rw [update] at h
  rw [section?] at hinner
  cases hget : entries.get? name with
  | none =>
      simp only [hget] at h hinner
      obtain rfl := Option.some.inj hinner
      obtain ⟨inner', hinner', hnext⟩ := Option.bind_eq_some_iff.mp h
      obtain rfl := Option.some.inj hnext
      exact ⟨_, inner', hinner', section?_put _ _ _ _⟩
  | some value =>
      cases value with
      | table origin' found =>
          simp only [hget] at h hinner
          obtain rfl := Option.some.inj hinner
          split at h
          · cases h
          · obtain ⟨inner', hinner', hnext⟩ := Option.bind_eq_some_iff.mp h
            obtain rfl := Option.some.inj hnext
            exact ⟨_, inner', hinner', section?_put _ _ _ _⟩
      | _ =>
          rw [hget] at hinner
          cases hinner

theorem OnlyAt.update (h : OnlyAt name change) (hpath : way ++ [name] = first :: rest) :
    OnlyAt first fun origin entries => Entries.update dotted change origin way entries := by
  intro origin entries next hupdate other hne
  cases way with
  | nil =>
      obtain rfl := (List.cons.inj hpath).1
      exact h origin entries next hupdate other hne
  | cons name' way =>
      obtain rfl := (List.cons.inj hpath).1
      exact get?_update_of_ne hupdate hne

theorem onlyAt_of_put (h : ∀ origin entries next, change origin entries = some next →
    ∃ value, next = entries.put name value) : OnlyAt name change := by
  intro origin entries next hnext other hne
  obtain ⟨value, rfl⟩ := h origin entries next hnext
  exact get?_put_of_ne _ _ hne

/-! ## Changes by a line -/

/-- The change that puts an entry into the last table on the way of its key. -/
def entryChange (key : Key) (value : Value) (origin : Origin) (entries : Entries) :
    Option Entries :=
  if (key.way ≠ [] ∧ origin ≠ .dotted) ∨ (entries.get? key.name).isSome then none
  else some (entries.put key.name value)

theorem onlyAt_entryChange (key : Key) (value : Value) :
    OnlyAt key.name (entryChange key value) :=
  onlyAt_of_put fun _ _ _ h => ⟨value, (Option.some.inj (Option.ite_none_left_eq_some.mp h).2).symm⟩

theorem onlyAt_insert {key : Key} (hpath : key.path = first :: rest) (value : Value) :
    OnlyAt first fun _ entries => entries.insert key value := by
  intro origin entries next hnext other hne
  exact (onlyAt_entryChange key value).update hpath .header entries next hnext other hne

theorem onlyAt_openTable (name : String) :
    OnlyAt name fun _ inner =>
      match inner.get? name with
      | none => some (inner.put name (.table .header []))
      | some (.table .passed found) => some (inner.put name (.table .header found))
      | some _ => none := by
  refine onlyAt_of_put fun origin entries next h => ?_
  split at h
  · exact ⟨_, (Option.some.inj h).symm⟩
  · exact ⟨_, (Option.some.inj h).symm⟩
  · cases h

theorem onlyAt_addTable (name : String) :
    OnlyAt name fun _ inner =>
      match inner.get? name with
      | none => some (inner.put name (.tables [[]]))
      | some (.tables elements) => some (inner.put name (.tables (elements ++ [[]])))
      | some _ => none := by
  refine onlyAt_of_put fun origin entries next h => ?_
  split at h
  · exact ⟨_, (Option.some.inj h).symm⟩
  · exact ⟨_, (Option.some.inj h).symm⟩
  · cases h

end Entries

/-- The way to the table that entries go to after a line. -/
def Statement.next (current : List String) : Statement → List String
  | .entry _ _ => current
  | .table key => key.path
  | .element key => key.path

/-- The path of what a line speaks of. -/
def Statement.path (current : List String) : Statement → List String
  | .entry key _ => current ++ key.path
  | .table key => key.path
  | .element key => key.path

namespace Draft

open Entries

variable {d next : Draft} {line : Statement} {heading field : String} {rest : List String}
  {fields : Entries}

theorem current_add (h : d.add line = some next) : next.current = line.next d.current := by
  cases line with
  | entry key value =>
      obtain ⟨root, -, hnext⟩ := Option.bind_eq_some_iff.mp h
      obtain rfl := Option.some.inj hnext
      rfl
  | table key =>
      obtain ⟨root, -, hnext⟩ := Option.bind_eq_some_iff.mp h
      obtain rfl := Option.some.inj hnext
      rfl
  | element key =>
      obtain ⟨root, -, hnext⟩ := Option.bind_eq_some_iff.mp h
      obtain rfl := Option.some.inj hnext
      rfl

/-- A line is a change along a way at one name, which its path begins with. -/
theorem exists_update (h : d.add line = some next) :
    ∃ dotted change way name rest, line.path d.current = way ++ name :: rest ∧
      (way = [] → rest = []) ∧ OnlyAt name change ∧
      update dotted change .header way d.root = some next.root := by
  cases line with
  | entry key value =>
      obtain ⟨root, hroot, hnext⟩ := Option.bind_eq_some_iff.mp h
      obtain rfl := Option.some.inj hnext
      cases hcurrent : d.current with
      | nil =>
          rw [hcurrent] at hroot
          exact ⟨true, _, key.way, key.name, [], rfl, fun _ => rfl, onlyAt_entryChange key value,
            hroot⟩
      | cons name way =>
          rw [hcurrent] at hroot
          obtain ⟨first, rest, hpath⟩ : ∃ first rest, key.path = first :: rest :=
            List.exists_cons_of_ne_nil (by simp [Key.path])
          exact ⟨false, _, name :: way, first, rest, by rw [Statement.path, hpath], nofun,
            onlyAt_insert hpath value, hroot⟩
  | table key =>
      obtain ⟨root, hroot, hnext⟩ := Option.bind_eq_some_iff.mp h
      obtain rfl := Option.some.inj hnext
      exact ⟨false, _, key.way, key.name, [], rfl, fun _ => rfl, onlyAt_openTable key.name, hroot⟩
  | element key =>
      obtain ⟨root, hroot, hnext⟩ := Option.bind_eq_some_iff.mp h
      obtain rfl := Option.some.inj hnext
      exact ⟨false, _, key.way, key.name, [], rfl, fun _ => rfl, onlyAt_addTable key.name, hroot⟩

/-- A line does nothing to names that its path does not begin with. -/
theorem get?_add_of_ne (h : d.add line = some next)
    (hpath : (line.path d.current).head? ≠ some heading) :
    next.root.get? heading = d.root.get? heading := by
  obtain ⟨dotted, change, way, name, rest, hway, -, honly, hupdate⟩ := exists_update h
  rw [hway] at hpath
  cases way with
  | nil => exact honly _ _ _ hupdate heading fun heq => hpath (by simp [heq])
  | cons name' way => exact get?_update_of_ne hupdate fun heq => hpath (by simp [heq])

/-- Within the table that its path begins with, a line concerns the next name on the path. -/
theorem section?_add (h : d.add line = some next)
    (hpath : line.path d.current = heading :: field :: rest)
    (hfields : d.root.section? heading = some fields) :
    ∃ fields', next.root.section? heading = some fields' ∧
      ∀ other ≠ field, fields'.get? other = fields.get? other := by
  obtain ⟨dotted, change, way, name, later, hway, hshort, honly, hupdate⟩ := exists_update h
  rw [hpath] at hway
  cases way with
  | nil =>
      rw [hshort rfl] at hway
      cases hway
  | cons first way =>
      obtain ⟨rfl, hrest⟩ := List.cons.inj hway
      obtain ⟨origin, fields', hfields', hsection⟩ := section?_update hupdate hfields
      obtain ⟨others, hothers⟩ : ∃ others, way ++ [name] = field :: others := by
        cases way with
        | nil => exact ⟨[], by rw [(List.cons.inj hrest).1]; rfl⟩
        | cons second way => exact ⟨way ++ [name], by rw [(List.cons.inj hrest).1]; rfl⟩
      exact ⟨fields', hsection, honly.update hothers origin fields fields' hfields'⟩

/-- The header of a table leaves its entries as they are. -/
theorem section?_add_header (h : d.add (.table ⟨[], heading⟩) = some next)
    (hfields : d.root.section? heading = some fields) :
    next.root.section? heading = some fields := by
  obtain ⟨root, hroot, hnext⟩ := Option.bind_eq_some_iff.mp h
  obtain rfl := Option.some.inj hnext
  rw [section?] at hfields
  simp only [openTable, update] at hroot
  split at hroot
  · rename_i hget
    rw [hget] at hfields
    obtain rfl := Option.some.inj hfields
    obtain rfl := Option.some.inj hroot
    exact section?_put _ _ _ _
  · rename_i found hget
    rw [hget] at hfields
    obtain rfl := Option.some.inj hfields
    obtain rfl := Option.some.inj hroot
    exact section?_put _ _ _ _
  · cases hroot

/-- An entry below the header of its table is put into that table, which has had none of its
name. -/
theorem section?_add_entry {value : Value} (hcurrent : d.current = [heading])
    (h : d.add (.entry ⟨[], field⟩ value) = some next)
    (hfields : d.root.section? heading = some fields) :
    fields.get? field = none ∧ next.root.section? heading = some (fields.put field value) := by
  obtain ⟨root, hroot, hnext⟩ := Option.bind_eq_some_iff.mp h
  obtain rfl := Option.some.inj hnext
  rw [hcurrent] at hroot
  obtain ⟨origin, fields', hfields', hsection⟩ := section?_update hroot hfields
  obtain ⟨hfree, hput⟩ := Option.ite_none_left_eq_some.mp hfields'
  obtain rfl := Option.some.inj hput
  exact ⟨by simpa using hfree, hsection⟩

/-- A new header opens an empty table. -/
theorem add_header_of_none (h : d.root.get? heading = none) :
    d.add (.table ⟨[], heading⟩) =
      some ⟨d.root.put heading (.table .header []), [heading]⟩ := by
  simp only [add, openTable, update, h]
  rfl

/-- A new entry below a header is put into its table. -/
theorem add_entry_of_none (value : Value) (hcurrent : d.current = [heading])
    (hget : d.root.get? heading = some (.table .header fields)) (hfree : fields.get? field = none) :
    d.add (.entry ⟨[], field⟩ value) =
      some ⟨d.root.put heading (.table .header (fields.put field value)), [heading]⟩ := by
  simp [add, Entries.insert, update, hcurrent, hget, hfree]

end Draft

/-! ## Lines in their places -/

/-- The lines of a text, each with the way to the table that it stands in. -/
def placed : List String → List Statement → List (List String × Statement)
  | _, [] => []
  | current, line :: lines => (current, line) :: placed (line.next current) lines

/-- The lines of a text that say something. -/
def lines? (text : String) : Option (List Statement) :=
  let cs := match text.toList with
    | '\uFEFF' :: cs => cs
    | cs => cs
  readStatements (cs.length + 1) cs

theorem lines?_of_head_ne {text : String} (h : text.toList.head? ≠ some '\uFEFF') :
    lines? text = readStatements (text.toList.length + 1) text.toList := by
  rw [lines?]
  split
  · rename_i heq
    exact absurd (by rw [heq]; rfl) h
  · rfl

theorem read_eq (text : String) :
    read text = (lines? text).bind fun lines =>
      (lines.foldlM Draft.add ⟨[], []⟩).map Draft.root := by
  rw [read, lines?]
  simp only [Option.bind_eq_bind, Option.pure_def]
  congr 1
  funext lines
  cases lines.foldlM Draft.add ⟨[], []⟩ <;> rfl

end DefiniteIntegral.Toml
