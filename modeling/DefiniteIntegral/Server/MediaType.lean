/-! The notation of media types, as in `application/json; charset=utf-8`, and those of JSON. -/

namespace DefiniteIntegral.MediaType

/-- Whether a character can be part of a name. -/
def isNameCharacter (c : Char) : Bool :=
  c.isAlphanum || "!#$%&'*+-.^_`|~".toList.contains c

/-- Whether a character can stand between quotes: no controls, and no characters outside ASCII. -/
def isQuotable (c : Char) : Bool :=
  31 < c.toNat && c.toNat < 127

/-- The text after a quoted value and the blanks that follow it, from after the opening quote. The
first character belongs to the value, whatever it is. -/
def afterQuoted? : List Char → Option (List Char)
  | [] => none
  | first :: rest =>
    if !isQuotable first then none
    else match rest.dropWhile fun c => isQuotable c && c != '"' with
      | '"' :: rest =>
        match rest.dropWhile (· = ' ') with
        | [] => some []
        | ';' :: rest => some rest
        | _ => none
      | _ => none

/-- The text after one parameter, a name with a value. -/
def afterParameter? (cs : List Char) : Option (List Char) :=
  match cs.takeWhile isNameCharacter, cs.dropWhile isNameCharacter with
  | _ :: _, '=' :: '"' :: rest => afterQuoted? rest
  | _ :: _, '=' :: rest =>
    match rest.takeWhile isNameCharacter, rest.dropWhile isNameCharacter with
    | _, [] => some []
    | _ :: _, ';' :: rest => some rest
    | _, _ => none
  | _, _ => none

/-- Whether a text is a list of parameters, with blanks before each. Each takes a character. -/
def areParameters : (fuel : Nat) → List Char → Bool
  | 0, _ => false
  | fuel + 1, cs =>
    match cs.dropWhile (· = ' ') with
    | [] => true
    | cs => match afterParameter? cs with
      | some rest => areParameters fuel rest
      | none => false

/-- Whether a text is the name of JSON in any case of letters. -/
def isJsonName (cs : List Char) : Bool :=
  cs.map Char.toLower = ['j', 's', 'o', 'n']

/-- The parts of a name before and after its last plus sign; one that begins the name does not
count. -/
def splitSuffix (cs : List Char) : List Char × Option (List Char) :=
  let backwards := cs.reverse
  if (cs.drop 1).contains '+' then
    (((backwards.dropWhile (· ≠ '+')).drop 1).reverse, some (backwards.takeWhile (· ≠ '+')).reverse)
  else (cs, none)

/-- Whether a text is a media type of JSON: an application type whose name or suffix is that of
JSON. -/
def isJson (text : String) : Bool :=
  let cs := text.toList
  let kind := cs.takeWhile isNameCharacter
  match cs.dropWhile isNameCharacter with
  | '/' :: rest =>
    let (stem, suffix) := splitSuffix (rest.takeWhile isNameCharacter)
    let parameters := match rest.dropWhile isNameCharacter with
      | [] => true
      | ';' :: rest => areParameters (rest.length + 1) rest
      | _ => false
    (kind.map Char.toLower = "application".toList) && parameters &&
      (isJsonName stem || suffix.any isJsonName)
  | _ => false

end DefiniteIntegral.MediaType
