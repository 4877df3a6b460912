import DefiniteIntegral.Output.Record

/-! The messages that a server sends over a socket. -/

namespace DefiniteIntegral

/-- A message to a client: the answer to its request, the answer to somebody's request, or what is
wrong with its own. -/
inductive Message
  | result (data : Result Float)
  | update (data : Result Float)
  | error (text : String)
deriving Repr

namespace Message

/-- A message as a JSON object. -/
def toJson : Message → Json.Value
  | .result data => .object [("type", .string "result"), ("data", data.toJson)]
  | .update data => .object [("type", .string "update"), ("data", data.toJson)]
  | .error text => .object [("type", .string "error"), ("message", .string text)]

/-- The text of a message. -/
def text (message : Message) : String :=
  message.toJson.compact

end Message

end DefiniteIntegral
