import DefiniteIntegral.Toml.Reading
import Mathlib.Data.Nat.Digits.Defs

/-! # The grammar of configuration texts

How values, keys and lines are written: values of one word, texts in quotes of four forms, arrays
and tables between braces, with blanks, line ends and comments where they may stand. -/

namespace DefiniteIntegral.Toml

/-! ## Between the parts -/

/-- Blanks within a line. -/
def AreBlanks (cs : List Char) : Prop :=
  ∀ c ∈ cs, c ∈ [' ', '\t']

/-- How a line ends. -/
inductive IsLineEnd : List Char → Prop
  | feed : IsLineEnd ['\n']
  | carriage : IsLineEnd ['\r', '\n']

/-- How a comment is written, if there is one. -/
inductive IsComment : List Char → Prop
  | absent : IsComment []
  | marked {cs : List Char} (h : ∀ c ∈ cs, isPlain c) : IsComment ('#' :: cs)

/-- What may stand between the parts of an array: blanks, and lines with nothing but comments. -/
inductive IsGap : List Char → Prop
  | blanks {cs : List Char} (h : AreBlanks cs) : IsGap cs
  | line {blanks comment lineEnd cs : List Char} (hblanks : AreBlanks blanks)
      (hcomment : IsComment comment) (hend : IsLineEnd lineEnd) (h : IsGap cs) :
      IsGap (blanks ++ (comment ++ (lineEnd ++ cs)))

/-! ## Numbers -/

/-- How digits are written: underscores may stand between them, one in each place. -/
inductive IsGrouped : List Char → List Char → Prop
  | single (c : Char) : IsGrouped [c] [c]
  | next (c : Char) {cs digits : List Char} (h : IsGrouped cs digits) :
      IsGrouped (c :: cs) (c :: digits)
  | across (c : Char) {cs digits : List Char} (h : IsGrouped cs digits) :
      IsGrouped (c :: '_' :: cs) (c :: digits)

/-- The number of digits in a base of at most sixteen. -/
def IsNumberIn (base : ℕ) (digits : List Char) (n : ℕ) : Prop :=
  ∃ values : List ℕ, List.Forall₂ (fun c d => hexValue? c = some d ∧ d < base) digits values ∧
    n = Nat.ofDigits base values.reverse

/-- How decimal digits are written that do not start with a superfluous zero. -/
structure IsWhole (cs digits : List Char) : Prop where
  grouped : IsGrouped cs digits
  isDigit : ∀ c ∈ digits, c.isDigit
  zero : cs.head? = some '0' → cs = ['0']

/-- The signs of a number, the plus sign being optional. -/
def signs : List (List Char) :=
  [[], ['+'], ['-']]

/-- The marks of the bases other than ten. -/
def baseMarks : List (Char × ℕ) :=
  [('x', 16), ('o', 8), ('b', 2)]

/-- How a whole number is written. -/
inductive IsInteger : List Char → ℤ → Prop
  | decimal {sign cs digits : List Char} (hsign : sign ∈ signs) (h : IsWhole cs digits) :
      IsInteger (sign ++ cs)
        (if sign = ['-'] then -(valueOfDigits digits : ℤ) else valueOfDigits digits)
  | based {mark : Char} {base n : ℕ} {cs digits : List Char} (hmark : (mark, base) ∈ baseMarks)
      (hgrouped : IsGrouped cs digits) (h : IsNumberIn base digits n) :
      IsInteger ('0' :: mark :: cs) n

/-- How the digits behind a point are written, if there is a point. -/
inductive IsPlaces : List Char → List Char → Prop
  | absent : IsPlaces [] []
  | point {cs digits : List Char} (hgrouped : IsGrouped cs digits)
      (h : ∀ c ∈ digits, c.isDigit) : IsPlaces ('.' :: cs) digits

/-- How an exponent is written, if there is one. -/
inductive IsPower : List Char → Option (Bool × List Char) → Prop
  | absent : IsPower [] none
  | marked {mark : Char} {sign cs digits : List Char} (hmark : mark ∈ ['e', 'E'])
      (hsign : sign ∈ signs) (hgrouped : IsGrouped cs digits) (h : ∀ c ∈ digits, c.isDigit) :
      IsPower (mark :: (sign ++ cs)) (some (sign = ['-'], digits))

/-- How a number with a fraction or an exponent is written. -/
inductive IsReal : List Char → Numeral → Prop
  | intro {whole places exponent digits fraction : List Char} {power : Option (Bool × List Char)}
      (hwhole : IsWhole whole digits) (hplaces : IsPlaces places fraction)
      (hpower : IsPower exponent power) (hne : places ++ exponent ≠ []) :
      IsReal (whole ++ (places ++ exponent)) ⟨digits, fraction, power⟩

/-- How a magnitude is written: a number that does not overflow, or a name. A negative one may
overflow. -/
inductive IsMagnitude (negative : Bool) : List Char → Float → Prop
  | real {cs : List Char} {n : Numeral} {d : Decimal} (h : IsReal cs n)
      (hvalue : n.value? = some d) (hfinite : d.toFloat.isInf → negative) :
      IsMagnitude negative cs d.toFloat
  | infinity : IsMagnitude negative ['i', 'n', 'f'] (1.0 / 0.0)
  | undefined : IsMagnitude negative ['n', 'a', 'n'] (0.0 / 0.0)

/-! ## Dates and times of day -/

/-- The last digits of a number, so many of them. -/
def padded : (places : ℕ) → ℕ → List Char
  | 0, _ => []
  | places + 1, n => padded places (n / 10) ++ [(n % 10).digitChar]

/-- How a day is written. -/
inductive IsDay : List Char → Prop
  | intro {year month day : ℕ} (hyear : year < 10000) (hmonth : 1 ≤ month ∧ month ≤ 12)
      (hday : 1 ≤ day ∧ day ≤ daysOfMonth year month) :
      IsDay (padded 4 year ++ '-' :: (padded 2 month ++ '-' :: padded 2 day))

/-- How an hour and a minute are written. -/
inductive IsClock : List Char → Prop
  | intro {hour minute : ℕ} (hhour : hour < 24) (hminute : minute < 60) :
      IsClock (padded 2 hour ++ ':' :: padded 2 minute)

/-- How a time of day is written. Its last second may be a leap second. -/
inductive IsTime : List Char → Prop
  | whole {clock : List Char} {second : ℕ} (hclock : IsClock clock) (hsecond : second ≤ 60) :
      IsTime (clock ++ ':' :: padded 2 second)
  | parts {clock digits : List Char} {second : ℕ} (hclock : IsClock clock) (hsecond : second ≤ 60)
      (hdigits : ∀ c ∈ digits, c.isDigit) (hne : digits ≠ []) :
      IsTime (clock ++ ':' :: (padded 2 second ++ '.' :: digits))

/-- How a difference from the universal time is written, if there is one. -/
inductive IsZone : List Char → Prop
  | absent : IsZone []
  | universal {mark : Char} (hmark : mark ∈ ['Z', 'z']) : IsZone [mark]
  | offset {sign : Char} {clock : List Char} (hsign : sign ∈ ['+', '-']) (hclock : IsClock clock) :
      IsZone (sign :: clock)

/-- How a day, a time of day or both are written. -/
inductive IsTimestamp : List Char → Prop
  | day {cs : List Char} (h : IsDay cs) : IsTimestamp cs
  | time {cs : List Char} (h : IsTime cs) : IsTimestamp cs
  | both {mark : Char} {day time zone : List Char} (hmark : mark ∈ ['T', 't', ' '])
      (hday : IsDay day) (htime : IsTime time) (hzone : IsZone zone) :
      IsTimestamp (day ++ mark :: (time ++ zone))

/-- How a value of one word is written. Whole numbers have 64 bits. -/
inductive IsWord : List Char → Value → Prop
  | yes : IsWord ['t', 'r', 'u', 'e'] (.boolean true)
  | no : IsWord ['f', 'a', 'l', 's', 'e'] (.boolean false)
  | integer {cs : List Char} {n : ℤ} (h : IsInteger cs n) (hlow : -2 ^ 63 ≤ n)
      (hhigh : n < 2 ^ 63) : IsWord cs (.integer n)
  | float {sign cs : List Char} {x : Float} (hsign : sign ∈ signs)
      (h : IsMagnitude (sign = ['-']) cs x) :
      IsWord (sign ++ cs) (.float (if sign = ['-'] then -x else x))
  | timestamp {cs : List Char} (h : IsTimestamp cs) : IsWord cs (.datetime (String.ofList cs))

/-! ## Texts in quotes -/

/-- How a character is written in a text with escapes. -/
inductive Written (c : Char) : List Char → Prop
  | short {letter : Char} (h : shortEscape? letter = some c) : Written c ['\\', letter]
  | code {x y z w : Char} (h : IsNumberIn 16 [x, y, z, w] c.toNat) :
      Written c ['\\', 'u', x, y, z, w]
  | longCode {x y z w p q r s : Char} (h : IsNumberIn 16 [x, y, z, w, p, q, r, s] c.toNat) :
      Written c ['\\', 'U', x, y, z, w, p, q, r, s]
  | plain (h : isPlain c) (hquote : c ≠ '"') (hbackslash : c ≠ '\\') : Written c [c]

/-- How a text with escapes is written on one line. -/
inductive AreWritten : List Char → List Char → Prop
  | nil : AreWritten [] []
  | cons {c : Char} {written cs rest : List Char} (h : Written c written)
      (hrest : AreWritten rest cs) : AreWritten (written ++ rest) (c :: cs)

/-- Blanks and line ends. -/
inductive IsVoid : List Char → Prop
  | nil : IsVoid []
  | blank {c : Char} {cs : List Char} (hc : c ∈ [' ', '\t']) (h : IsVoid cs) : IsVoid (c :: cs)
  | line {lineEnd cs : List Char} (hend : IsLineEnd lineEnd) (h : IsVoid cs) :
      IsVoid (lineEnd ++ cs)

/-- A part of a text with escapes on several lines, what it stands for, and what is written after
it. A backslash hides the end of its line and all that is void after it. -/
inductive IsBasicPart : List Char → List Char → List Char → Prop
  | written {c : Char} {written rest : List Char} (h : Written c written) :
      IsBasicPart written [c] rest
  | line {lineEnd rest : List Char} (h : IsLineEnd lineEnd) : IsBasicPart lineEnd ['\n'] rest
  | hidden {blanks lineEnd void rest : List Char} (hblanks : AreBlanks blanks)
      (hend : IsLineEnd lineEnd) (hvoid : IsVoid void)
      (hrest : ∀ c ∈ rest.head?, c ∉ [' ', '\t', '\n', '\r']) :
      IsBasicPart ('\\' :: (blanks ++ (lineEnd ++ void))) [] rest

/-- A part of a literal text on several lines, what it stands for, and what is written after it. -/
inductive IsLiteralPart : List Char → List Char → List Char → Prop
  | plain {c : Char} {rest : List Char} (h : isPlain c) (hquote : c ≠ '\'') :
      IsLiteralPart [c] [c] rest
  | line {lineEnd rest : List Char} (h : IsLineEnd lineEnd) : IsLiteralPart lineEnd ['\n'] rest

/-- How a text on several lines is written after so many quotes in a row: in parts, and with quotes
that stand for themselves, of which no three are in a row. -/
inductive IsLong (quote : Char) (part : List Char → List Char → List Char → Prop) :
    (quotes : ℕ) → List Char → List Char → Prop
  | nil {n : ℕ} (hn : n ≤ 2) : IsLong quote part n [] []
  | part {n : ℕ} {written text rest cs : List Char} (hn : n ≤ 2) (h : part written text rest)
      (hrest : IsLong quote part 0 rest cs) : IsLong quote part n (written ++ rest) (text ++ cs)
  | quote {n : ℕ} {rest cs : List Char} (hrest : IsLong quote part (n + 1) rest cs) :
      IsLong quote part n (quote :: rest) (quote :: cs)

/-- How a text of several lines begins: on a line below its mark, or with a character of it. -/
def IsOpening (opening written : List Char) : Prop :=
  IsLineEnd opening ∨ opening = [] ∧ ∀ c ∈ written.head?, isPlain c

/-- How a text is written between quotes on one line. -/
inductive IsShortQuote : List Char → String → Prop
  | basic {written cs : List Char} (h : AreWritten written cs) :
      IsShortQuote ('"' :: (written ++ ['"'])) (String.ofList cs)
  | literal {cs : List Char} (h : ∀ c ∈ cs, isPlain c ∧ c ≠ '\'') :
      IsShortQuote ('\'' :: (cs ++ ['\''])) (String.ofList cs)

/-- How a text is written between quotes in any form. -/
inductive IsQuote : List Char → String → Prop
  | short {cs : List Char} {text : String} (h : IsShortQuote cs text) : IsQuote cs text
  | longBasic {opening written cs : List Char} (hopening : IsOpening opening written)
      (h : IsLong '"' IsBasicPart 0 written cs) :
      IsQuote (['"', '"', '"'] ++ (opening ++ (written ++ ['"', '"', '"']))) (String.ofList cs)
  | longLiteral {opening written cs : List Char} (hopening : IsOpening opening written)
      (h : IsLong '\'' IsLiteralPart 0 written cs) :
      IsQuote (['\'', '\'', '\''] ++ (opening ++ (written ++ ['\'', '\'', '\''])))
        (String.ofList cs)

/-! ## Keys -/

/-- How a name is written. -/
inductive IsName : List Char → String → Prop
  | bare {cs : List Char} (h : ∀ c ∈ cs, isBareCharacter c) (hne : cs ≠ []) :
      IsName cs (String.ofList cs)
  | quoted {cs : List Char} {text : String} (h : IsShortQuote cs text) : IsName cs text

/-- How names with dots between them are written. -/
inductive AreNames : List Char → List String → Prop
  | last {cs : List Char} {name : String} (h : IsName cs name) : AreNames cs [name]
  | cons {cs before after rest : List Char} {name : String} {names : List String}
      (h : IsName cs name) (hbefore : AreBlanks before) (hafter : AreBlanks after)
      (hrest : AreNames rest names) :
      AreNames (cs ++ (before ++ '.' :: (after ++ rest))) (name :: names)

/-- How a key is written. -/
structure IsKey (cs : List Char) (key : Key) : Prop where
  names : AreNames cs key.path
  length : key.path.length ≤ deepest

/-! ## Values -/

mutual

/-- How a value with at most so many levels of brackets and braces is written. The keys of a table
must not be at odds with each other. -/
inductive IsValue : (levels : ℕ) → List Char → Value → Prop
  | word {levels : ℕ} {cs : List Char} {value : Value} (h : IsWord cs value) :
      IsValue levels cs value
  | text {levels : ℕ} {cs : List Char} {text : String} (h : IsQuote cs text) :
      IsValue levels cs (.string text)
  | array {levels : ℕ} {cs : List Char} {items : List Value} (h : AreItems levels cs items) :
      IsValue (levels + 1) ('[' :: (cs ++ [']'])) (.array items)
  | emptyTable {levels : ℕ} {cs : List Char} (h : AreBlanks cs) :
      IsValue (levels + 1) ('\x7b' :: (cs ++ ['\x7d'])) (.table .inline [])
  | table {levels : ℕ} {cs : List Char} {pairs : List (Key × Value)} {entries : Entries}
      (h : ArePairs levels cs pairs) (hentries : Entries.ofPairs pairs = some entries) :
      IsValue (levels + 1) ('\x7b' :: (cs ++ ['\x7d'])) (.table .inline entries)

/-- How the elements of an array are written. A comma may stand after the last one. -/
inductive AreItems : (levels : ℕ) → List Char → List Value → Prop
  | nil {levels : ℕ} {gap : List Char} (hgap : IsGap gap) : AreItems levels gap []
  | last {levels : ℕ} {before cs after : List Char} {item : Value} (hbefore : IsGap before)
      (hitem : IsValue levels cs item) (hafter : IsGap after) :
      AreItems levels (before ++ (cs ++ after)) [item]
  | cons {levels : ℕ} {before cs after rest : List Char} {item : Value} {items : List Value}
      (hbefore : IsGap before) (hitem : IsValue levels cs item) (hafter : IsGap after)
      (hitems : AreItems levels rest items) :
      AreItems levels (before ++ (cs ++ (after ++ ',' :: rest))) (item :: items)

/-- How the entries of a table between braces are written, if there are any. -/
inductive ArePairs : (levels : ℕ) → List Char → List (Key × Value) → Prop
  | last {levels : ℕ} {before cs after : List Char} {pair : Key × Value}
      (hbefore : AreBlanks before) (hpair : IsEntry levels cs pair) (hafter : AreBlanks after) :
      ArePairs levels (before ++ (cs ++ after)) [pair]
  | cons {levels : ℕ} {before cs after rest : List Char} {pair : Key × Value}
      {pairs : List (Key × Value)} (hbefore : AreBlanks before) (hpair : IsEntry levels cs pair)
      (hafter : AreBlanks after) (hpairs : ArePairs levels rest pairs) :
      ArePairs levels (before ++ (cs ++ (after ++ ',' :: rest))) (pair :: pairs)

/-- How a value is given to a key. -/
inductive IsEntry : (levels : ℕ) → List Char → Key × Value → Prop
  | intro {levels : ℕ} {name before after cs : List Char} {key : Key} {value : Value}
      (hkey : IsKey name key) (hbefore : AreBlanks before) (hafter : AreBlanks after)
      (hvalue : IsValue levels cs value) :
      IsEntry levels (name ++ (before ++ '=' :: (after ++ cs))) (key, value)

end

/-! ## Lines -/

/-- How a line is written that says something. -/
inductive IsStatement : List Char → Statement → Prop
  | entry {cs : List Char} {key : Key} {value : Value} (h : IsEntry deepest cs (key, value)) :
      IsStatement cs (.entry key value)
  | table {before cs after : List Char} {key : Key} (hbefore : AreBlanks before)
      (h : IsKey cs key) (hafter : AreBlanks after) :
      IsStatement ('[' :: (before ++ (cs ++ (after ++ [']'])))) (.table key)
  | element {before cs after : List Char} {key : Key} (hbefore : AreBlanks before)
      (h : IsKey cs key) (hafter : AreBlanks after) :
      IsStatement ('[' :: '[' :: (before ++ (cs ++ (after ++ [']', ']'])))) (.element key)

/-- How a line is written, whether it says something or not. -/
inductive IsLine : List Char → List Statement → Prop
  | empty {blanks comment : List Char} (hblanks : AreBlanks blanks)
      (hcomment : IsComment comment) : IsLine (blanks ++ comment) []
  | statement {before cs after comment : List Char} {statement : Statement}
      (hbefore : AreBlanks before) (h : IsStatement cs statement) (hafter : AreBlanks after)
      (hcomment : IsComment comment) : IsLine (before ++ (cs ++ (after ++ comment))) [statement]

/-- How the lines of a text are written. -/
inductive IsDocument : List Char → List Statement → Prop
  | last {cs : List Char} {line : List Statement} (h : IsLine cs line) : IsDocument cs line
  | cons {cs lineEnd rest : List Char} {line lines : List Statement} (h : IsLine cs line)
      (hend : IsLineEnd lineEnd) (hrest : IsDocument rest lines) :
      IsDocument (cs ++ (lineEnd ++ rest)) (line ++ lines)

end DefiniteIntegral.Toml
