import TokenLedger.Json.Basic
import TokenLedger.Json.Token

/-!
# Reading JSON

A value is read off its tokens from left to right. The arrays and objects that are still open are
kept on a stack, the innermost first.

Stands for the parser of the package `serde_json`, which is not part of the modelled sources.
Results on policies rest on one fact about it and the printer, `IsWritten.parse?_render`.
-/

namespace TokenLedger.Json

/-- An array or object of which the value at hand is a part. What was read before comes last
first. -/
inductive Frame where
  | array (values : List Json)
  | object (members : List (Literal × Json)) (key : Literal)

mutual

/-- Reads a value inside the frames, and what closes them. -/
def readValue? (frames : List Frame) : List Token → Option Json
  | .null :: tokens => resume? null frames tokens
  | .bool value :: tokens => resume? (bool value) frames tokens
  | .number literal :: tokens => resume? (number literal) frames tokens
  | .string literal :: tokens => resume? (string literal) frames tokens
  | .openArray :: .closeArray :: tokens => resume? (array []) frames tokens
  | .openArray :: tokens => readValue? (.array [] :: frames) tokens
  | .openObject :: .closeObject :: tokens => resume? (object []) frames tokens
  | .openObject :: .string key :: .colon :: tokens => readValue? (.object [] key :: frames) tokens
  | _ => none

/-- Hands a value to the innermost frame, and goes on as the frame wants. -/
def resume? (value : Json) (frames : List Frame) : List Token → Option Json
  | [] => if frames.isEmpty then some value else none
  | .comma :: tokens =>
    match frames with
    | .array values :: outer => readValue? (.array (value :: values) :: outer) tokens
    | .object members key :: outer =>
      match tokens with
      | .string next :: .colon :: tokens =>
        readValue? (.object ((key, value) :: members) next :: outer) tokens
      | _ => none
    | [] => none
  | .closeArray :: tokens =>
    match frames with
    | .array values :: outer => resume? (array (value :: values).reverse) outer tokens
    | _ => none
  | .closeObject :: tokens =>
    match frames with
    | .object members key :: outer =>
      resume? (object ((key, value) :: members).reverse) outer tokens
    | _ => none
  | _ => none

end

/-- The value that a text consists of. -/
def parse? (text : List Char) : Option Json := do
  readValue? [] (← Token.scan? text)

end TokenLedger.Json
