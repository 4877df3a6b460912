import DefiniteIntegral.Proofs.Toml.Tables
import DefiniteIntegral.Proofs.Toml.Values

/-! # Lines of a configuration text

A text that is written by the grammar is read as the lines it is written in. Lines in sections, each
with a header of its own and entries of different names, come to one table for each section. -/

namespace DefiniteIntegral.Toml

/-! ## Statements -/

section

variable {cs rest lineEnd : List Char} {statement : Statement} {line lines : List Statement}

/-- A key in brackets is no second bracket. -/
theorem ne_bracket_cons {before : List Char} {key : Key} (hbefore : AreBlanks before)
    (h : IsKey cs key) (later : List Char) : before ++ (cs ++ rest) ≠ '[' :: later := by
  intro heq
  rcases before with - | ⟨c, before⟩
  · obtain ⟨c, tail, rfl, -, hc⟩ := h.names.exists_cons
    exact hc (by simp [(List.cons.inj heq).1])
  · obtain rfl := (List.cons.inj heq).1
    simpa using hbefore '[' List.mem_cons_self

theorem readKey_brackets {before after : List Char} {key : Key} (hbefore : AreBlanks before)
    (h : IsKey cs key) (hafter : AreBlanks after) (rest : List Char) :
    readKey (before ++ (cs ++ (after ++ ']' :: rest))) = some (key, ']' :: rest) := by
  have hmark : ']' ∈ ['=', ']'] := by simp
  have hread := h.readKey_append (endsKey_append hafter hmark rest)
  rw [skipSpace_append hafter, skipSpace_cons rfl] at hread
  rw [readKey_append hbefore, hread]

theorem IsStatement.readStatement_append (h : IsStatement cs statement) (hrest : Ends rest) :
    readStatement (cs ++ rest) = some (statement, rest) := by
  cases h with
  | entry h =>
      have hread := h.readEntry_append hrest
      obtain ⟨c, tail, rfl, -, hmark⟩ := h.exists_cons
      have hc : c ≠ '[' := fun heq => hmark (by simp [heq])
      rw [List.cons_append] at hread ⊢
      rw [readStatement, hread]
      · rfl
      · exact fun _ heq => hc (List.cons.inj heq).1
      · exact fun _ heq => hc (List.cons.inj heq).1
  | table hbefore h hafter =>
      simp only [List.cons_append, List.append_assoc, List.nil_append]
      rw [readStatement, readKey_brackets hbefore h hafter]
      · rfl
      · exact fun later => ne_bracket_cons hbefore h later
  | element hbefore h hafter =>
      simp only [List.cons_append, List.append_assoc, List.nil_append]
      rw [readStatement, readKey_brackets hbefore h hafter]
      rfl

theorem IsStatement.exists_cons (h : IsStatement cs statement) :
    ∃ c tail, cs = c :: tail ∧ IsContent c ∧ c ≠ '\uFEFF' := by
  cases h with
  | entry h =>
      obtain ⟨c, tail, rfl, hc, hmark⟩ := h.exists_cons
      exact ⟨c, tail, rfl, hc, fun heq => hmark (by simp [heq])⟩
  | table | element => exact ⟨_, _, rfl, by simp [IsContent], by decide⟩

/-! ## Documents -/

theorem readStatements_of_skipLines_eq {fuel : Nat} {other : List Char}
    (h : skipLines cs = skipLines other) : readStatements fuel cs = readStatements fuel other := by
  cases fuel with
  | zero => rfl
  | succ fuel => simp only [readStatements, h]

theorem readStatements_statement {fuel : ℕ} {before later : List Char} (hbefore : AreBlanks before)
    (h : IsStatement cs statement) (hlater : Ends later) (hend : lineEnd? later = some rest) :
    readStatements (fuel + 1) (before ++ (cs ++ later)) =
      (readStatements fuel rest).map (statement :: ·) := by
  have hread := h.readStatement_append hlater
  obtain ⟨c, tail, rfl, hc, -⟩ := h.exists_cons
  rw [List.cons_append] at hread
  rw [readStatements, skipLines_blanks hbefore, List.cons_append, skipLines_cons_of_isContent hc]
  simp only [hread, Option.bind_eq_bind, Option.bind_some, hend]
  cases readStatements fuel rest <;> rfl

theorem ends_nil : Ends [] :=
  nofun

/-- A text is read as its lines. -/
theorem IsDocument.readStatements_eq (h : IsDocument cs lines) {fuel : ℕ}
    (hfuel : lines.length ≤ fuel) : readStatements (fuel + 1) cs = some lines := by
  induction h generalizing fuel with
  | last h =>
      cases h with
      | empty hblanks hcomment => rw [readStatements, skipLines_last hblanks hcomment]
      | @statement _ _ after comment _ hbefore h hafter hcomment =>
          obtain ⟨fuel, rfl⟩ : ∃ m, fuel = m + 1 := ⟨fuel - 1, by simp at hfuel; omega⟩
          have hends : Ends (after ++ comment) := by
            rw [← List.append_nil comment]
            exact ends_append hafter (hcomment.ends_append ends_nil)
          rw [readStatements_statement hbefore h hends (lineEnd?_last hafter hcomment)]
          simp [readStatements, skipLines]
  | @cons _ lineEnd rest _ lines h hend _ ih =>
      cases h with
      | empty hblanks hcomment =>
          have hgap := IsGap.line hblanks hcomment hend isGap_nil
          have hskip := hgap.skipLines_append rest
          simp only [List.append_assoc, List.append_nil, List.nil_append] at hskip hfuel ⊢
          rw [readStatements_of_skipLines_eq hskip, ih hfuel]
      | @statement _ _ after comment _ hbefore h hafter hcomment =>
          obtain ⟨fuel, rfl⟩ : ∃ m, fuel = m + 1 := ⟨fuel - 1, by simp at hfuel; omega⟩
          have hends : Ends (after ++ (comment ++ (lineEnd ++ rest))) :=
            ends_append hafter (hcomment.ends_append (hend.ends_append rest))
          simp only [List.append_assoc]
          rw [readStatements_statement hbefore h hends (lineEnd?_append hafter hcomment hend rest),
            ih (by simpa using hfuel)]
          rfl

theorem IsLine.length_le (h : IsLine cs line) : line.length ≤ cs.length := by
  cases h with
  | empty => exact Nat.zero_le _
  | statement _ h =>
      obtain ⟨c, tail, rfl, -⟩ := h.exists_cons
      simp only [List.length_cons, List.length_append, List.length_nil]
      omega

theorem IsDocument.length_le (h : IsDocument cs lines) : lines.length ≤ cs.length := by
  induction h with
  | last h => exact h.length_le
  | cons h _ _ ih =>
      have hline := h.length_le
      simp only [List.length_append]
      omega

/-- No text begins with a byte order mark of its own. -/
theorem IsLine.head?_append_ne (h : IsLine cs line) (hrest : rest.head? ≠ some '\uFEFF') :
    (cs ++ rest).head? ≠ some '\uFEFF' := by
  have hblank {blanks later : List Char} (h : AreBlanks blanks)
      (hlater : later.head? ≠ some '\uFEFF') : (blanks ++ later).head? ≠ some '\uFEFF' := by
    rcases blanks with - | ⟨c, blanks⟩
    · exact hlater
    · rintro ⟨⟩
      simpa using h '\uFEFF' List.mem_cons_self
  cases h with
  | empty hblanks hcomment =>
      rw [List.append_assoc]
      refine hblank hblanks ?_
      cases hcomment with
      | absent => exact hrest
      | marked => simp
  | statement hbefore h =>
      obtain ⟨c, tail, rfl, -, hc⟩ := h.exists_cons
      rw [List.append_assoc]
      refine hblank hbefore ?_
      rintro ⟨⟩
      exact hc rfl

theorem IsDocument.head?_ne (h : IsDocument cs lines) : cs.head? ≠ some '\uFEFF' := by
  cases h with
  | last h =>
      rw [← List.append_nil cs]
      exact h.head?_append_ne nofun
  | cons h hend =>
      refine h.head?_append_ne ?_
      cases hend <;> simp

/-- The lines of a text are those it is written in, with or without a byte order mark. -/
theorem IsDocument.lines?_eq (h : IsDocument cs lines) {text : String}
    (htext : text.toList = cs ∨ text.toList = '\uFEFF' :: cs) : lines? text = some lines := by
  have hlines := h.readStatements_eq h.length_le
  rcases htext with htext | htext
  · rw [lines?_of_head_ne (htext ▸ h.head?_ne), htext, hlines]
  · rw [lines?, htext]
    exact hlines

end

/-! ## Sections -/

/-- The lines of some sections: the header of each, and its entries below it. -/
def sectionLines (sections : List (String × Entries)) : List Statement :=
  sections.flatMap fun part =>
    .table ⟨[], part.1⟩ :: part.2.map fun entry => .entry ⟨[], entry.1⟩ entry.2

/-- The tables of some sections. -/
def sectionTables (sections : List (String × Entries)) : Entries :=
  sections.map fun part => (part.1, .table .header part.2)

/-- Sections with headers of their own, in each of which no name comes twice. -/
structure AreSections (sections : List (String × Entries)) : Prop where
  headings : (sections.map Prod.fst).Nodup
  names : ∀ part ∈ sections, (part.2.map Prod.fst).Nodup

namespace Entries

theorem get?_eq_none_iff {entries : Entries} {name : String} :
    entries.get? name = none ↔ name ∉ entries.map Prod.fst := by
  induction entries with
  | nil => simp
  | cons entry entries ih =>
      rw [get?_cons, List.map_cons, List.mem_cons, not_or]
      split
      · simp_all
      · simp_all

theorem get?_of_mem {entries : Entries} {name : String} {value : Value}
    (hnames : (entries.map Prod.fst).Nodup) (h : (name, value) ∈ entries) :
    entries.get? name = some value := by
  induction entries with
  | nil => cases h
  | cons entry entries ih =>
      obtain ⟨hnew, hlater⟩ := List.nodup_cons.mp hnames
      rw [get?_cons]
      rcases List.mem_cons.mp h with rfl | hmem
      · exact if_pos rfl
      · have hne : name ≠ entry.1 := fun heq => hnew (heq ▸ List.mem_map_of_mem hmem)
        rw [if_neg hne]
        exact ih hlater hmem

theorem put_of_get?_eq_none {entries : Entries} {name : String} (value : Value)
    (h : entries.get? name = none) : entries.put name value = entries ++ [(name, value)] := by
  induction entries with
  | nil => rfl
  | cons entry entries ih =>
      rw [get?_cons] at h
      split at h
      · cases h
      · rename_i hne
        rw [put, if_neg (Ne.symm hne), ih h, List.cons_append]

theorem put_append_last {entries : Entries} {name : String} (value other : Value)
    (h : entries.get? name = none) :
    Entries.put name value (entries ++ [(name, other)]) = entries ++ [(name, value)] := by
  induction entries with
  | nil => simp [put]
  | cons entry entries ih =>
      rw [get?_cons] at h
      split at h
      · cases h
      · rename_i hne
        rw [List.cons_append, put, if_neg (Ne.symm hne), ih h, List.cons_append]

theorem get?_append_last {entries : Entries} {name : String} (value : Value)
    (h : entries.get? name = none) : get? (entries ++ [(name, value)]) name = some value := by
  rw [← put_of_get?_eq_none value h, get?_put_self]

end Entries

variable {tables fields : Entries} {heading : String} {sections : List (String × Entries)}
  {part : String × Entries}

/-- Entries of different names below a header are the next ones of its table. -/
theorem foldlM_entries {entries : Entries} (htables : tables.get? heading = none)
    (hfree : ∀ entry ∈ entries, fields.get? entry.1 = none)
    (hnames : (entries.map Prod.fst).Nodup) :
    (entries.map fun entry => Statement.entry ⟨[], entry.1⟩ entry.2).foldlM Draft.add
        ⟨tables ++ [(heading, .table .header fields)], [heading]⟩ =
      some ⟨tables ++ [(heading, .table .header (fields ++ entries))], [heading]⟩ := by
  induction entries generalizing fields with
  | nil => simp
  | cons entry entries ih =>
      obtain ⟨hentry, hentries⟩ := List.forall_mem_cons.mp hfree
      obtain ⟨hnew, hlater⟩ := List.nodup_cons.mp hnames
      have hadd := Draft.add_entry_of_none (d := ⟨tables ++ [(heading, .table .header fields)],
        [heading]⟩) entry.2 rfl (Entries.get?_append_last _ htables) hentry
      have hput := Entries.put_of_get?_eq_none entry.2 hentry
      have hfree' : ∀ other ∈ entries, (fields ++ [(entry.1, entry.2)]).get? other.1 = none := by
        intro other hother
        have hne : other.1 ≠ entry.1 := fun heq => hnew (heq ▸ List.mem_map_of_mem hother)
        rw [← hput, Entries.get?_put_of_ne _ _ hne]
        exact hentries other hother
      rw [Entries.put_append_last _ _ htables, hput] at hadd
      rw [List.map_cons, List.foldlM_cons, hadd, Option.bind_eq_bind, Option.bind_some,
        ih hfree' hlater, List.append_assoc]
      rfl

theorem AreSections.of_cons (h : AreSections (part :: sections)) : AreSections sections where
  headings := (List.nodup_cons.mp h.headings).2
  names later hlater := h.names later (List.mem_cons_of_mem _ hlater)

/-- Sections come to one table each. -/
theorem AreSections.foldlM_add (h : AreSections sections) (current : List String)
    (hfree : ∀ part ∈ sections, tables.get? part.1 = none) :
    ∃ last, (sectionLines sections).foldlM Draft.add ⟨tables, current⟩ =
      some ⟨tables ++ sectionTables sections, last⟩ := by
  induction sections generalizing tables current with
  | nil => exact ⟨current, by simp [sectionLines, sectionTables]⟩
  | cons part sections ih =>
      obtain ⟨hpart, hlater⟩ := List.forall_mem_cons.mp hfree
      have hheader := Draft.add_header_of_none (d := ⟨tables, current⟩) hpart
      have hput := Entries.put_of_get?_eq_none (.table .header []) hpart
      have hempty : ∀ entry ∈ part.2, Entries.get? [] entry.1 = none := fun _ _ => rfl
      have hentries := foldlM_entries hpart hempty (h.names part List.mem_cons_self)
      have hnew : ∀ later ∈ sections,
          Entries.get? (tables ++ [(part.1, Value.table .header part.2)]) later.1 = none := by
        intro later hmem
        have hne : later.1 ≠ part.1 := fun heq =>
          (List.nodup_cons.mp h.headings).1 (heq ▸ List.mem_map_of_mem hmem)
        rw [← Entries.put_of_get?_eq_none _ hpart, Entries.get?_put_of_ne _ _ hne]
        exact hlater later hmem
      obtain ⟨last, hlast⟩ := ih h.of_cons [part.1] hnew
      refine ⟨last, ?_⟩
      rw [hput] at hheader
      rw [sectionLines, List.flatMap_cons, List.cons_append, List.foldlM_cons, hheader,
        Option.bind_eq_bind, Option.bind_some, List.foldlM_append, hentries, List.nil_append,
        Option.bind_eq_bind, Option.bind_some]
      refine hlast.trans ?_
      rw [List.append_assoc]
      rfl

/-- A text of sections is read as their tables. -/
theorem AreSections.read_eq (h : AreSections sections) {cs : List Char} {text : String}
    (hcs : IsDocument cs (sectionLines sections))
    (htext : text.toList = cs ∨ text.toList = '\uFEFF' :: cs) :
    read text = some (sectionTables sections) := by
  have hempty : ∀ part ∈ sections, Entries.get? [] part.1 = none := fun _ _ => rfl
  obtain ⟨last, hlast⟩ := h.foldlM_add [] hempty
  rw [Toml.read_eq, hcs.lines?_eq htext, Option.bind_some, hlast]
  rfl

/-- The table of a section is found under its header. -/
theorem AreSections.get?_sectionTables (h : AreSections sections) (hpart : part ∈ sections) :
    (sectionTables sections).get? part.1 = some (.table .header part.2) := by
  refine Entries.get?_of_mem ?_ (List.mem_map_of_mem hpart)
  rw [sectionTables, List.map_map]
  exact h.headings

end DefiniteIntegral.Toml
