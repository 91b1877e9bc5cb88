import TokenLedger.Json.Literal

/-!
# JSON values

Numbers and strings are kept as they were written, and the members of an object in their order,
repeated keys included. What a value means is for its reader to say. Values are written over
several lines, each level two blanks further in.

Stands for the values and the pretty printer of the package `serde_json`, which is not part of the
modelled sources.
-/

namespace TokenLedger

inductive Json where
  | null
  | bool (value : Bool)
  | number (literal : Json.Literal)
  | string (literal : Json.Literal)
  | array (values : List Json)
  | object (members : List (Json.Literal × Json))

namespace Json

def newLine (indent : Nat) : List Char := '\n' :: List.replicate indent ' '

def quote (literal : Literal) : List Char := '"' :: literal ++ ['"']

mutual

/-- The text of a value whose lines are `indent` blanks in. -/
def render (indent : Nat) : Json → List Char
  | null => "null".toList
  | bool value => (if value then "true" else "false").toList
  | number literal => literal
  | string literal => quote literal
  | array [] => ['[', ']']
  | array (value :: values) =>
    '[' :: newLine (indent + 2) ++ render (indent + 2) value ++ renderValues (indent + 2) values
      ++ newLine indent ++ [']']
  | object [] => ['\x7b', '\x7d']
  | object (member :: members) =>
    '\x7b' :: newLine (indent + 2) ++ renderMember (indent + 2) member
      ++ renderMembers (indent + 2) members ++ newLine indent ++ ['\x7d']

/-- The values behind the first of an array. -/
def renderValues (indent : Nat) : List Json → List Char
  | [] => []
  | value :: values =>
    ',' :: newLine indent ++ render indent value ++ renderValues indent values

def renderMember (indent : Nat) : Literal × Json → List Char
  | (key, value) => quote key ++ [':', ' '] ++ render indent value

/-- The members behind the first of an object. -/
def renderMembers (indent : Nat) : List (Literal × Json) → List Char
  | [] => []
  | member :: members =>
    ',' :: newLine indent ++ renderMember indent member ++ renderMembers indent members

end

end Json

end TokenLedger
