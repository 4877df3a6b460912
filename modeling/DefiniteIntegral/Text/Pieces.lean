/-! Texts as pieces between separators. -/

namespace DefiniteIntegral

/-- The pieces of a text between the occurrences of a separator, one more than there are
occurrences. -/
def pieces (separator : Char) : List Char → List (List Char)
  | [] => [[]]
  | c :: cs =>
    if c = separator then [] :: pieces separator cs
    else match pieces separator cs with
      | piece :: rest => (c :: piece) :: rest
      | [] => [[c]]

end DefiniteIntegral
