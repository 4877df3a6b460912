import DefiniteIntegral.Config.Settings
import DefiniteIntegral.Text.Hex

/-! The notation of the addresses that a server can listen on: a numeric address of either version
of the internet protocol, and a port. -/

namespace DefiniteIntegral.Address

/-- Whether a text is the number of one byte, without superfluous zeros. -/
def isByte (cs : List Char) : Bool :=
  cs ≠ [] && cs.length ≤ 3 && cs.all Char.isDigit && valueOfDigits cs < 256 &&
    (cs.length = 1 || cs.head? ≠ some '0')

/-- Whether a text is four bytes with points between them. -/
def isFourBytes (cs : List Char) : Bool :=
  (pieces '.' cs).length = 4 && (pieces '.' cs).all isByte

/-- Whether a text is a group of up to four hexadecimal digits. -/
def isGroup (cs : List Char) : Bool :=
  cs ≠ [] && cs.length ≤ 4 && cs.all fun c => (hexValue? c).isSome

/-- How many groups a list of texts stands for; at its end, if the flag is set, four bytes can stand
for two groups. -/
def groupCount? (bytesAtEnd : Bool) : List (List Char) → Option Nat
  | [] => some 0
  | [cs] => if isGroup cs then some 1 else if bytesAtEnd && isFourBytes cs then some 2 else none
  | cs :: rest => if isGroup cs then (groupCount? bytesAtEnd rest).map (· + 1) else none

/-- The groups of a text between colons; an empty text has none. -/
def groups : List Char → List (List Char)
  | [] => []
  | cs => pieces ':' cs

/-- The two sides of the first double colon. -/
def atDoubleColon? : List Char → Option (List Char × List Char)
  | ':' :: ':' :: rest => some ([], rest)
  | c :: rest => (atDoubleColon? rest).map fun (left, right) => (c :: left, right)
  | [] => none

/-- Whether a text is eight groups; a double colon stands for one or more groups of zeros. -/
def isEightGroups (cs : List Char) : Bool :=
  match atDoubleColon? cs with
  | none => groupCount? true (groups cs) = some 8
  | some (left, right) =>
    match groupCount? false (groups left), groupCount? true (groups right) with
    | some m, some n => m + n ≤ 7
    | _, _ => false

/-- Whether a text is eight groups, and perhaps the number of a zone after a percent sign. -/
def isZonedGroups (cs : List Char) : Bool :=
  match pieces '%' cs with
  | [address] => isEightGroups address
  | [address, zone] =>
    isEightGroups address && zone ≠ [] && zone.all Char.isDigit && valueOfDigits zone < UInt32.size
  | _ => false

/-- Whether a text is the host of an address: four bytes, or groups in brackets. -/
def isHost (text : String) : Bool :=
  match text.toList with
  | '[' :: rest => rest.getLast? = some ']' && isZonedGroups rest.dropLast
  | cs => isFourBytes cs

end DefiniteIntegral.Address

namespace DefiniteIntegral

/-- Whether a server can listen where a configuration says. -/
def Config.checkAddress (config : Config) : Except ServerFault Unit :=
  if Address.isHost config.host then .ok () else .error .invalidAddress

end DefiniteIntegral
