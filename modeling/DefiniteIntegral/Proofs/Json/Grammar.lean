import DefiniteIntegral.Json.Reading
import DefiniteIntegral.Proofs.Number.Numeral

/-! # The grammar of JSON

How a value is written: with spaces around every part, and with any of the ways to write a string.
Numbers are kept as numerals, since what they come to is a matter of the reader. -/

namespace DefiniteIntegral.Json

/-! ## Numbers -/

/-- How a number is written: perhaps a minus sign, digits without a leading zero, perhaps a point
and digits, and perhaps an exponent. -/
inductive IsNumeral : List Char → NumeralText → Prop
  | intro {sign whole fraction digits exponent : List Char} {power : Option (Bool × List Char)}
      (hsign : sign ∈ [[], ['-']]) (hwhole : ∀ c ∈ whole, c.isDigit) (hne : whole ≠ [])
      (hzero : whole.head? = some '0' → whole = ['0']) (hfraction : IsFraction fraction digits)
      (hpoint : fraction ≠ ['.']) (hexponent : IsExponent exponent power) :
      IsNumeral (sign ++ (whole ++ (fraction ++ exponent))) ⟨sign = ['-'], whole, digits, power⟩

/-! ## Strings -/

/-- The short escapes: what stands after a backslash, and the character that is meant. -/
def shortEscapes : List (Char × Char) :=
  [('"', '"'), ('\\', '\\'), ('/', '/'), ('b', '\x08'), ('f', '\x0C'), ('n', '\n'), ('r', '\r'),
    ('t', '\t')]

/-- Whether a character is the hexadecimal digit of a value. -/
def IsHexDigit (c : Char) (n : Nat) : Prop :=
  "0123456789abcdef".toList[n]? = some c ∨ "0123456789ABCDEF".toList[n]? = some c

instance (c : Char) (n : Nat) : Decidable (IsHexDigit c n) :=
  inferInstanceAs (Decidable (_ ∨ _))

/-- How a unit of a string is written. -/
inductive IsUnit : List Char → StringUnit → Prop
  | plain {c : Char} (hcontrol : 0x20 ≤ c.toNat) (hquote : c ≠ '"') (hbackslash : c ≠ '\\') :
      IsUnit [c] (.char c)
  | short {mark c : Char} (h : (mark, c) ∈ shortEscapes) : IsUnit ['\\', mark] (.char c)
  | code {a b c d : Char} {i j k l : Nat} (ha : IsHexDigit a i) (hb : IsHexDigit b j)
      (hc : IsHexDigit c k) (hd : IsHexDigit d l) :
      IsUnit ['\\', 'u', a, b, c, d] (.code (0x1000 * i + 0x100 * j + 0x10 * k + l))

/-- How the units of a string are written. -/
inductive AreUnits : List Char → List StringUnit → Prop
  | nil : AreUnits [] []
  | cons {unit : StringUnit} {units : List StringUnit} {cs rest : List Char}
      (hunit : IsUnit cs unit) (hunits : AreUnits rest units) :
      AreUnits (cs ++ rest) (unit :: units)

/-- Which units stand for a text. A character is a unit by itself, or its code is. Above `0xFFFF`
the code takes two units. -/
inductive Spells : List StringUnit → List Char → Prop
  | nil : Spells [] []
  | char (c : Char) {units : List StringUnit} {cs : List Char} (h : Spells units cs) :
      Spells (.char c :: units) (c :: cs)
  | code {c : Char} (hc : c.toNat < 0x10000) {units : List StringUnit} {cs : List Char}
      (h : Spells units cs) : Spells (.code c.toNat :: units) (c :: cs)
  | pair {c : Char} (hc : 0x10000 ≤ c.toNat) {units : List StringUnit} {cs : List Char}
      (h : Spells units cs) :
      Spells (.code (0xD800 + (c.toNat - 0x10000) / 0x400) ::
        .code (0xDC00 + (c.toNat - 0x10000) % 0x400) :: units) (c :: cs)

/-- How a string is written between its quotes. It is no text if its units do not stand for one. -/
inductive IsString : List Char → Option String → Prop
  | intro {text : Option String} {units : List StringUnit} {cs : List Char}
      (hunits : AreUnits cs units) (htext : ∀ t, text = some t ↔ Spells units t.toList) :
      IsString cs text

/-! ## Values -/

/-- A value as it is written. -/
inductive Tree
  | null
  | bool (b : Bool)
  | number (numeral : NumeralText)
  /-- A string; none if it is no text. -/
  | string (text : Option String)
  | array (items : List Tree)
  | object (members : List (Option String × Tree))

/-- Spaces between the parts of a value. -/
def AreSpaces (cs : List Char) : Prop :=
  ∀ c ∈ cs, c ∈ [' ', '\n', '\t', '\r']

mutual

/-- How a value is written. -/
inductive IsValue : List Char → Tree → Prop
  | null : IsValue ['n', 'u', 'l', 'l'] .null
  | yes : IsValue ['t', 'r', 'u', 'e'] (.bool true)
  | no : IsValue ['f', 'a', 'l', 's', 'e'] (.bool false)
  | number {numeral : NumeralText} {cs : List Char} (h : IsNumeral cs numeral) :
      IsValue cs (.number numeral)
  | string {text : Option String} {cs : List Char} (h : IsString cs text) :
      IsValue ('"' :: (cs ++ ['"'])) (.string text)
  | emptyArray {gap : List Char} (hgap : AreSpaces gap) :
      IsValue ('[' :: (gap ++ [']'])) (.array [])
  | array {items : List Tree} {cs : List Char} (h : AreItems cs items) :
      IsValue ('[' :: (cs ++ [']'])) (.array items)
  | emptyObject {gap : List Char} (hgap : AreSpaces gap) :
      IsValue ('\x7b' :: (gap ++ ['\x7d'])) (.object [])
  | object {members : List (Option String × Tree)} {cs : List Char} (h : AreMembers cs members) :
      IsValue ('\x7b' :: (cs ++ ['\x7d'])) (.object members)

/-- How the elements of an array are written, if there are any. -/
inductive AreItems : List Char → List Tree → Prop
  | last {item : Tree} {before cs after : List Char} (hbefore : AreSpaces before)
      (hitem : IsValue cs item) (hafter : AreSpaces after) :
      AreItems (before ++ (cs ++ after)) [item]
  | cons {item : Tree} {items : List Tree} {before cs after rest : List Char}
      (hbefore : AreSpaces before) (hitem : IsValue cs item) (hafter : AreSpaces after)
      (hitems : AreItems rest items) :
      AreItems (before ++ (cs ++ (after ++ ',' :: rest))) (item :: items)

/-- How the members of an object are written, if there are any. -/
inductive AreMembers : List Char → List (Option String × Tree) → Prop
  | last {member : Option String × Tree} {before cs after : List Char} (hbefore : AreSpaces before)
      (hmember : IsMember cs member) (hafter : AreSpaces after) :
      AreMembers (before ++ (cs ++ after)) [member]
  | cons {member : Option String × Tree} {members : List (Option String × Tree)}
      {before cs after rest : List Char} (hbefore : AreSpaces before)
      (hmember : IsMember cs member) (hafter : AreSpaces after)
      (hmembers : AreMembers rest members) :
      AreMembers (before ++ (cs ++ (after ++ ',' :: rest))) (member :: members)

/-- How a member of an object is written. -/
inductive IsMember : List Char → Option String × Tree → Prop
  | intro {name : Option String} {value : Tree} {key before after cs : List Char}
      (hname : IsString key name) (hbefore : AreSpaces before) (hafter : AreSpaces after)
      (hvalue : IsValue cs value) :
      IsMember ('"' :: (key ++ '"' :: (before ++ ':' :: (after ++ cs)))) (name, value)

end

/-- How a text holds a value and nothing else. -/
inductive IsText : String → Tree → Prop
  | intro {tree : Tree} {text : String} {before cs after : List Char} (hbefore : AreSpaces before)
      (hvalue : IsValue cs tree) (hafter : AreSpaces after)
      (htext : text.toList = before ++ (cs ++ after)) : IsText text tree

end DefiniteIntegral.Json
