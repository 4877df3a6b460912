import DefiniteIntegral.Json.RequestText
import DefiniteIntegral.Proofs.Json.Reading
import DefiniteIntegral.Proofs.Outcome
import Mathlib.Logic.Function.Basic

/-! # Requests as JSON texts

What a text has to hold to be decoded as a request, in whatever order, with whatever spaces and
escapes it is written, and with whatever else in it; and what it must not hold. -/

namespace DefiniteIntegral.Json

/-! ## The fields of a request -/

/-- A field of a request. -/
inductive Field
  | function
  | lower
  | upper
  | points
  | method
deriving DecidableEq, Repr

namespace Field

/-- The name of a field. -/
def name : Field → String
  | function => "function"
  | lower => "lower_bound"
  | upper => "upper_bound"
  | points => "num_points"
  | method => "method"

/-- All fields, in the order in which an array has them. -/
def all : List Field :=
  [function, lower, upper, points, method]

end Field

/-- Which values there can be for a field of a request: one that stands for it, or none if it has
its default. -/
inductive Fits (r : Request Float) : Field → List Tree → Prop
  | function : Fits r .function [.string (some r.function)]
  | lower {n : NumeralText} (h : (Tree.number n).reading.toFloat [] = .ok r.lower) :
      Fits r .lower [.number n]
  | upper {n : NumeralText} (h : (Tree.number n).reading.toFloat [] = .ok r.upper) :
      Fits r .upper [.number n]
  | points {digits : List Char} (hdigits : valueOfDigits digits = r.points)
      (hword : r.points < UInt64.size) : Fits r .points [.number ⟨false, digits, [], none⟩]
  | noPoints (h : r.points = 100) : Fits r .points []
  | method : Fits r .method [.string (some r.method.name)]
  | methodObject : Fits r .method [.object [(some r.method.name, .null)]]
  | noMethod (h : r.method = .trapezoidal) : Fits r .method []

/-- The values of the members with a name. -/
def valuesOf (name : String) (members : List (Option String × Tree)) : List Tree :=
  (members.filter fun member => member.1 = some name).map Prod.snd

/-- Which values stand for a request: objects that have no name which is not a text, and arrays that
are not too long. -/
inductive Describes (r : Request Float) : Tree → Prop
  | object {members : List (Option String × Tree)} (hnames : ∀ member ∈ members, member.1 ≠ none)
      (hfits : ∀ field, Fits r field (valuesOf field.name members)) :
      Describes r (.object members)
  | array {items : List Tree} (hlength : items.length ≤ Field.all.length)
      (hfits : ∀ (i : Nat) field, Field.all[i]? = some field → Fits r field items[i]?.toList) :
      Describes r (.array items)

/-- Which objects stand for no request: a field occurs more than once, or it must and does not. -/
inductive Spoilt : Tree → Prop
  | repeated {members : List (Option String × Tree)} (field : Field)
      (h : 1 < (valuesOf field.name members).length) : Spoilt (.object members)
  | missing {members : List (Option String × Tree)} (field : Field)
      (hfield : field ∈ [Field.function, .lower, .upper])
      (h : valuesOf field.name members = []) : Spoilt (.object members)

/-! ## Values of fields -/

section Fits

variable {r : Request Float} {tree : Tree} {field : Field}

theorem toFloat_congr {value : Reading} {x : Float} {path : List Step}
    (h : value.toFloat path = .ok x) (other : List Step) : value.toFloat other = .ok x := by
  unfold Reading.toFloat at h ⊢
  split <;> simp_all

theorem Fits.toText_eq (h : Fits r .function [tree]) (path : List Step) :
    tree.reading.toText path = .ok r.function := by
  cases h
  rfl

theorem Fits.toFloat_lower (h : Fits r .lower [tree]) (path : List Step) :
    tree.reading.toFloat path = .ok r.lower := by
  cases h with
  | lower h => exact toFloat_congr h path

theorem Fits.toFloat_upper (h : Fits r .upper [tree]) (path : List Step) :
    tree.reading.toFloat path = .ok r.upper := by
  cases h with
  | upper h => exact toFloat_congr h path

theorem Fits.toNat_eq (h : Fits r .points [tree]) (path : List Step) :
    tree.reading.toNat path = .ok r.points := by
  cases h with
  | @points digits hdigits hword =>
      have hvalue := @value?_digits digits (hdigits.trans_lt hword)
      rw [Tree.reading, hvalue, hdigits]
      rfl

theorem methodOfName_name (m : Method) (path : List Step) : methodOfName path m.name = .ok m := by
  cases m <;> rfl

theorem Fits.toMethod_eq (h : Fits r .method [tree]) (path : List Step) :
    tree.reading.toMethod path = .ok r.method := by
  cases h with
  | method => exact methodOfName_name r.method path
  | methodObject =>
      simp [Tree.reading, memberReadings, Reading.toMethod, methodOfName_name]

end Fits

/-! ## Members -/

section Members

variable {r : Request Float} {members : List (Option String × Tree)} {name : String} {value : Tree}
  {field : Field} {d later : Draft}

theorem valuesOf_cons_self (name : String) (value : Tree) (members : List (Option String × Tree)) :
    valuesOf name ((some name, value) :: members) = value :: valuesOf name members := by
  simp [valuesOf]

theorem valuesOf_cons_of_ne {key : Option String} (h : key ≠ some name) (value : Tree)
    (members : List (Option String × Tree)) :
    valuesOf name ((key, value) :: members) = valuesOf name members := by
  simp [valuesOf, h]

theorem Field.name_inj {other : Field} : field.name = other.name ↔ field = other := by
  cases field <;> cases other <;> decide

/-- A member with another name changes nothing. -/
theorem addMember_of_ne (h : ∀ field : Field, name ≠ field.name) (d : Draft) (value : Reading) :
    d.addMember name value = .ok d := by
  rw [Draft.addMember]
  · rfl
  · exact h .function
  · exact h .lower
  · exact h .upper
  · exact h .points
  · exact h .method

/-! ## Success -/

/-- The draft with some of the fields of a request. -/
def draftOf (r : Request Float) (held : Field → Bool) : Draft where
  function := if held .function then some r.function else none
  lower := if held .lower then some r.lower else none
  upper := if held .upper then some r.upper else none
  points := if held .points then some r.points else none
  method := if held .method then some r.method else none

theorem freshField_none {β : Type} {new : Except Fault β} {b : β} (name : String)
    (h : new = .ok b) : freshField name none new = .ok (some b) := by
  rw [freshField, h]
  rfl

theorem addMember_draftOf {held : Field → Bool} (hheld : held field = false)
    (h : Fits r field [value]) :
    (draftOf r held).addMember field.name value.reading =
      .ok (draftOf r (Function.update held field true)) := by
  cases field with
  | function =>
      simp [Draft.addMember, Field.name, draftOf, hheld, freshField_none _ (h.toText_eq _)]
  | lower =>
      simp [Draft.addMember, Field.name, draftOf, hheld, freshField_none _ (h.toFloat_lower _)]
  | upper =>
      simp [Draft.addMember, Field.name, draftOf, hheld, freshField_none _ (h.toFloat_upper _)]
  | points =>
      simp [Draft.addMember, Field.name, draftOf, hheld, freshField_none _ (h.toNat_eq _)]
  | method =>
      simp [Draft.addMember, Field.name, draftOf, hheld, freshField_none _ (h.toMethod_eq _)]

theorem Fits.eq_nil {values : List Tree} (h : Fits r field (value :: values)) : values = [] := by
  cases h <;> rfl

/-- Whether the members still to come fit the fields: none for those that are held, and values that
can be there for the others. -/
def Completes (r : Request Float) (held : Field → Bool) (members : List (Option String × Tree)) :
    Prop :=
  ∀ field : Field, if held field then valuesOf field.name members = []
    else Fits r field (valuesOf field.name members)

/-- A member for a field is the only one, and the others fit the fields besides it. -/
theorem Completes.of_cons {held : Field → Bool}
    (h : Completes r held ((some field.name, value) :: members)) :
    held field = false ∧ Fits r field [value] ∧
      Completes r (Function.update held field true) members := by
  have hfield := h field
  rw [valuesOf_cons_self] at hfield
  cases hheld : held field with
  | true => simp [hheld] at hfield
  | false =>
      rw [hheld, if_neg Bool.false_ne_true] at hfield
      have hnil := hfield.eq_nil
      rw [hnil] at hfield
      refine ⟨rfl, hfield, fun other => ?_⟩
      by_cases hother : other = field
      · subst hother
        simpa using hnil
      · have hne : some field.name ≠ some other.name := by
          simpa [Field.name_inj] using Ne.symm hother
        have hvalues := h other
        rw [valuesOf_cons_of_ne hne] at hvalues
        rwa [Function.update_of_ne hother]

/-- Members in any order complete a draft if every field still to come has at most one. -/
theorem readFields_draftOf (held : Field → Bool) (hnames : ∀ member ∈ members, member.1 ≠ none)
    (h : Completes r held members) :
    ∃ last, readFields Draft.addMember (draftOf r held) (memberReadings members) =
        .ok (draftOf r last) ∧
      ∀ field, last field = false → Fits r field [] := by
  induction members generalizing held with
  | nil =>
      refine ⟨held, rfl, fun field hfield => ?_⟩
      simpa [hfield, valuesOf] using h field
  | cons member members ih =>
      obtain ⟨hname, hothers⟩ := List.forall_mem_cons.mp hnames
      obtain ⟨key, value⟩ := member
      obtain ⟨name, rfl⟩ := Option.ne_none_iff_exists'.mp hname
      by_cases hfield : ∃ field : Field, name = field.name
      · obtain ⟨field, rfl⟩ := hfield
        obtain ⟨hheld, hfits, hrest⟩ := h.of_cons
        obtain ⟨last, hlast, hlater⟩ := ih _ hothers hrest
        refine ⟨last, ?_, hlater⟩
        rw [memberReadings, readFields, addMember_draftOf hheld hfits]
        exact hlast
      · have hne (field : Field) : name ≠ field.name := fun hname => hfield ⟨field, hname⟩
        obtain ⟨last, hlast, hlater⟩ := ih held hothers fun field => by
          have hvalues := h field
          rwa [valuesOf_cons_of_ne (by simpa using hne field)] at hvalues
        refine ⟨last, ?_, hlater⟩
        rw [memberReadings, readFields, addMember_of_ne hne]
        exact hlast

theorem Fits.standardPoints_eq (h : Fits r .points []) : standardPoints = r.points := by
  cases h with
  | noPoints h => exact h.symm

theorem Fits.standard_eq (h : Fits r .method []) : Method.standard = r.method := by
  cases h with
  | noMethod h => exact h.symm

theorem finish_draftOf {last : Field → Bool} (h : ∀ field, last field = false → Fits r field []) :
    (draftOf r last).finish = .ok r := by
  have hfunction : last .function = true := by
    rw [← Bool.not_eq_false]
    intro hlast
    cases h _ hlast
  have hlower : last .lower = true := by
    rw [← Bool.not_eq_false]
    intro hlast
    cases h _ hlast
  have hupper : last .upper = true := by
    rw [← Bool.not_eq_false]
    intro hlast
    cases h _ hlast
  have hpoints : (if last .points then some r.points else none).getD standardPoints = r.points := by
    cases hlast : last .points with
    | true => rfl
    | false => exact (h _ hlast).standardPoints_eq
  have hmethod :
      (if last .method then some r.method else none).getD Method.standard = r.method := by
    cases hlast : last .method with
    | true => rfl
    | false => exact (h _ hlast).standard_eq
  simp [draftOf, Draft.finish, requireField, hfunction, hlower, hupper, hpoints, hmethod]

theorem Describes.toRequest_eq {tree : Tree} (h : Describes r tree) :
    tree.reading.toRequest = .ok r := by
  cases h with
  | object hnames hfits =>
      obtain ⟨last, hlast, hrest⟩ := readFields_draftOf (fun _ => false) hnames fun field => by
        simpa using hfits field
      have hempty : Draft.empty = draftOf r fun _ => false := rfl
      rw [Tree.reading, Reading.toRequest, hempty, hlast, ok_bind, if_pos rfl, finish_draftOf hrest]
  | @array items hlength hfits =>
      have hfunction := hfits 0 .function rfl
      have hlower := hfits 1 .lower rfl
      have hupper := hfits 2 .upper rfl
      have hpoints := hfits 3 .points rfl
      have hmethod := hfits 4 .method rfl
      rcases items with _ | ⟨f, _ | ⟨a, _ | ⟨b, items⟩⟩⟩
      · cases hfunction
      · cases hlower
      · cases hupper
      -- The last two elements may be missing.
      rcases items with _ | ⟨p, _ | ⟨m, _ | ⟨x, items⟩⟩⟩
      · simp [Tree.reading, readings, Reading.toRequest, requestOfItems, requireElement, element?,
          hfunction.toText_eq, hlower.toFloat_lower, hupper.toFloat_upper,
          hpoints.standardPoints_eq, hmethod.standard_eq]
      · simp [Tree.reading, readings, Reading.toRequest, requestOfItems, requireElement, element?,
          hfunction.toText_eq, hlower.toFloat_lower, hupper.toFloat_upper, hpoints.toNat_eq,
          hmethod.standard_eq]
      · simp [Tree.reading, readings, Reading.toRequest, requestOfItems, requireElement, element?,
          hfunction.toText_eq, hlower.toFloat_lower, hupper.toFloat_upper, hpoints.toNat_eq,
          hmethod.toMethod_eq]
      · simp only [Field.all, List.length_cons, List.length_nil] at hlength
        omega

/-! ## Failure -/

namespace Draft

/-- How often a field has been read. -/
def count (d : Draft) : Field → Nat
  | .function => d.function.toList.length
  | .lower => d.lower.toList.length
  | .upper => d.upper.toList.length
  | .points => d.points.toList.length
  | .method => d.method.toList.length

theorem count_le_one (d : Draft) (field : Field) : d.count field ≤ 1 := by
  cases field <;> simp [count, Option.length_toList_le]

theorem length_freshField {β : Type} {old fresh : Option β} {new : Except Fault β}
    (h : freshField name old new = .ok fresh) :
    fresh.toList.length = 1 ∧ old.toList.length = 0 := by
  cases old with
  | some => cases h
  | none =>
      cases new with
      | error => cases h
      | ok b =>
          cases h
          exact ⟨rfl, rfl⟩

theorem count_addMember {value : Reading} (h : d.addMember name value = .ok later) (field : Field) :
    later.count field = d.count field + if name = field.name then 1 else 0 := by
  unfold addMember at h
  split at h
  case h_6 hfunction hlower hupper hpoints hmethod =>
      cases h
      have hne : name ≠ field.name := by
        cases field <;> assumption
      rw [if_neg hne, Nat.add_zero]
  all_goals
    obtain ⟨fresh, hfresh, hlater⟩ := bind_eq_ok_iff.mp h
    obtain ⟨hone, hzero⟩ := length_freshField hfresh
    cases hlater
    cases field <;> simp [count, Field.name, hone, hzero]

theorem count_readFields (h : readFields addMember d (memberReadings members) = .ok later)
    (field : Field) :
    later.count field = d.count field + (valuesOf field.name members).length := by
  induction members generalizing d with
  | nil =>
      cases h
      rfl
  | cons member members ih =>
      obtain ⟨key, value⟩ := member
      cases key with
      | none => cases h
      | some name =>
        obtain ⟨next, hnext, hlater⟩ := bind_eq_ok_iff.mp h
        rw [ih hlater, count_addMember hnext]
        by_cases hname : name = field.name
        · subst hname
          rw [if_pos rfl, valuesOf_cons_self, List.length_cons]
          omega
        · rw [if_neg hname, valuesOf_cons_of_ne (by simpa using hname)]
          omega

theorem length_requireField {β : Type} {old : Option β} {b : β}
    (h : requireField name old = .ok b) : old.toList.length = 1 := by
  cases old with
  | none => cases h
  | some => rfl

theorem count_of_finish (h : d.finish = .ok r) (hfield : field ∈ [Field.function, .lower, .upper]) :
    d.count field = 1 := by
  obtain ⟨function, hfunction, h⟩ := bind_eq_ok_iff.mp h
  obtain ⟨lower, hlower, h⟩ := bind_eq_ok_iff.mp h
  obtain ⟨upper, hupper, -⟩ := bind_eq_ok_iff.mp h
  simp only [List.mem_cons, List.not_mem_nil, or_false] at hfield
  rcases hfield with rfl | rfl | rfl
  · exact length_requireField hfunction
  · exact length_requireField hlower
  · exact length_requireField hupper

end Draft

theorem toRequest_object_eq_ok (h : (Tree.object members).reading.toRequest = .ok r) :
    (∀ field : Field, (valuesOf field.name members).length ≤ 1) ∧
      ∀ field ∈ [Field.function, .lower, .upper], (valuesOf field.name members).length = 1 := by
  obtain ⟨draft, hdraft, hfinish⟩ := bind_eq_ok_iff.mp h
  have hcount (field : Field) : draft.count field = (valuesOf field.name members).length := by
    have hzero : Draft.empty.count field = 0 := by cases field <;> rfl
    rw [Draft.count_readFields hdraft, hzero, Nat.zero_add]
  refine ⟨fun field => ?_, fun field hfield => ?_⟩
  · rw [← hcount]
    exact draft.count_le_one field
  · rw [← hcount]
    exact Draft.count_of_finish hfinish hfield

theorem Spoilt.exists_fault {tree : Tree} (h : Spoilt tree) :
    ∃ fault, tree.reading.toRequest = .error fault := by
  cases hrequest : tree.reading.toRequest with
  | error fault => exact ⟨fault, rfl⟩
  | ok r =>
      cases h with
      | repeated field h =>
          exact absurd h (Nat.not_lt.mpr ((toRequest_object_eq_ok hrequest).1 field))
      | missing field hfield h =>
          have hlength := (toRequest_object_eq_ok hrequest).2 field hfield
          rw [h] at hlength
          cases hlength

end Members

/-! ## Texts -/

section Texts

variable {text : String} {tree : Tree}

theorem requestAtStart_eq (h : IsText text tree) :
    requestAtStart text = tree.reading.toRequest := by
  obtain ⟨rest, hread, -⟩ := h.read_eq
  rw [requestAtStart, hread]

theorem requestOfText_eq (h : IsText text tree) :
    requestOfText text = tree.reading.toRequest :=
  h.ofText_eq Reading.toRequest

/-- A text is decoded by the value that it holds, however it is written. -/
theorem requestOfText_of_isText (h : IsText text tree) :
    (∀ r, Describes r tree → requestOfText text = .ok r ∧ requestAtStart text = .ok r) ∧
      (Spoilt tree →
        (∃ fault, requestOfText text = .error fault) ∧
          ∃ fault, requestAtStart text = .error fault) := by
  rw [requestOfText_eq h, requestAtStart_eq h]
  exact ⟨fun r hr => ⟨hr.toRequest_eq, hr.toRequest_eq⟩,
    fun hspoilt => ⟨hspoilt.exists_fault, hspoilt.exists_fault⟩⟩

/-- A name with an escape, a member with another name, and bounds in two notations. -/
theorem requestOfText_of_isText_escaped :
    requestOfText
      ("\x7b\"upper_bound\": 1, \"unit\": [null],\n " ++
        "\"\\u0066unction\": \"x\", \"lower_bound\": -0.5e0\x7d") =
      .ok ⟨"x", -0.5, 1, 100, .trapezoidal⟩ := by
  let r : Request Float := ⟨"x", -0.5, 1, 100, .trapezoidal⟩
  let one : NumeralText := ⟨false, ['1'], [], none⟩
  let half : NumeralText := ⟨true, ['0'], ['5'], some (false, ['0'])⟩
  let tree : Tree := .object [(some "upper_bound", .number one), (some "unit", .array [.null]),
    (some "function", .string (some "x")), (some "lower_bound", .number half)]
  have hdescribes : Describes r tree := by
    refine .object (by simp) fun field => ?_
    cases field with
    | function => exact .function
    | lower => exact .lower (toOption_eq_some_iff.mp (by decide +kernel))
    | upper => exact .upper (toOption_eq_some_iff.mp (by decide +kernel))
    | points => exact .noPoints rfl
    | method => exact .noMethod rfl
  have hgap : AreSpaces [] := nofun
  have hblank : AreSpaces [' '] := by simp [AreSpaces]
  have hbreak : AreSpaces ['\n', ' '] := by simp [AreSpaces]
  have hfunction :
      IsString (['\\', 'u', '0', '0', '6', '6'] ++ "unction".toList.flatMap escape)
        (some "function") := by
    obtain ⟨units, hunits, hspells⟩ := exists_areUnits_escape "unction".toList
    have hcode : IsUnit ['\\', 'u', '0', '0', '6', '6'] (.code 0x66) :=
      .code (i := 0) (j := 0) (k := 6) (l := 6) (by decide) (by decide) (by decide) (by decide)
    exact isString_of_spells (.cons hcode hunits) (hspells.code (c := 'f') (by decide))
  have hone : IsNumeral ([] ++ (['1'] ++ ([] ++ []))) one :=
    .intro (by simp) (by simp) (by simp) (by simp) .absent (by simp) .absent
  have hhalf : IsNumeral (['-'] ++ (['0'] ++ ('.' :: ['5'] ++ 'e' :: ([] ++ ['0'])))) half :=
    .intro (by simp) (by simp) (by simp) (by simp) (.point (by simp)) (by simp)
      (.marked (by simp) (by simp) (by simp) (by simp))
  have hvalue := IsValue.object
    (.cons hgap (.intro (isString_escape "upper_bound") hgap hblank (.number hone)) hgap
    (.cons hblank (.intro (isString_escape "unit") hgap hblank
      (.array (.last hgap .null hgap))) hgap
    (.cons hbreak (.intro hfunction hgap hblank (.string (isString_escape "x"))) hgap
    (.last hblank (.intro (isString_escape "lower_bound") hgap hblank (.number hhalf)) hgap))))
  exact ((requestOfText_of_isText (.intro hgap hvalue hgap (by decide +kernel))).1 r hdescribes).1

end Texts

end DefiniteIntegral.Json
