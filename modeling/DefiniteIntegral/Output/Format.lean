import DefiniteIntegral.Output.Record

/-! The formats in which a result is written: the full record, a summary to read, and the sampled
points as rows. -/

namespace DefiniteIntegral

/-- An output format. -/
inductive OutputFormat
  | json
  | text
  | csv
deriving DecidableEq, Repr

namespace OutputFormat

/-- All formats, in the order they are listed. -/
def all : List OutputFormat :=
  [json, text, csv]

/-- The name of a format. -/
def name : OutputFormat → String
  | json => "json"
  | text => "text"
  | csv => "csv"

/-- What a format shows. -/
def description : OutputFormat → String
  | json => "Full result record as JSON"
  | text => "Human-readable summary"
  | csv => "Sampled points as x,y rows"

/-- The format of a name in any case of letters. Only the letters of ASCII have a case here: no
other letter stands for one of them in these names. -/
def ofName? (text : String) : Option OutputFormat :=
  all.find? fun format => format.name = text.toLower

end OutputFormat

/-- The summary of a result: what was asked, how it was sampled, the estimate and its error. -/
def Result.summary (request : Request Float) (r : Result Float) : String :=
  "Integral of " ++ request.function ++ " over " ++ intervalText request.lower request.upper ++
    "\nMethod: " ++ r.method.name ++
    "\nPoints: " ++ r.points.repr ++ " requested, " ++ r.xs.length.repr ++ " sampled\n\nValue: " ++
    fixedText 10 r.value ++ "\nError estimate: " ++
    (match r.errorEstimate with
      | some e => scientificText 3 e
      | none => "n/a (too few points)") ++ "\n"

/-- A sampled point as a row. -/
def csvRow (x y : Float) : String :=
  plainText x ++ "," ++ plainText y ++ "\n"

/-- The sampled points as rows under a heading. -/
def Result.toCsv (r : Result Float) : String :=
  "x,y\n" ++ String.join (List.zipWith csvRow r.xs r.ys)

/-- The text of the result of a request. -/
def OutputFormat.write (format : OutputFormat) (request : Request Float) (r : Result Float) :
    String :=
  match format with
  | .json => r.toJson.pretty
  | .text => r.summary request
  | .csv => r.toCsv

end DefiniteIntegral
