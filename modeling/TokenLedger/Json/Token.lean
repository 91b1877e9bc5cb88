import TokenLedger.Json.Literal

/-!
# Tokens of JSON

The words of a JSON text. Blanks, of which JSON knows four, may stand between any two of them.

Stands for the scanner of the package `serde_json`, which is not part of the modelled sources.
-/

namespace TokenLedger.Json

inductive Token where
  | openArray | closeArray | openObject | closeObject | comma | colon
  | null | bool (value : Bool)
  | number (literal : Literal) | string (literal : Literal)
  deriving DecidableEq, Repr

namespace Token

def isBlank (c : Char) : Bool := c == ' ' || c == '\t' || c == '\n' || c == '\r'

/-- The number at the head of a text, and the rest: all characters up to one that occurs in no
number have to belong to it. -/
def number? (text : List Char) : Option (Token × List Char) :=
  let literal := text.takeWhile isNumberChar
  if isNumber literal then some (number literal, text.dropWhile isNumberChar) else none

/-- The token at the head of a text, and the rest. -/
def next? : List Char → Option (Token × List Char)
  | '[' :: rest => some (openArray, rest)
  | ']' :: rest => some (closeArray, rest)
  | '\x7b' :: rest => some (openObject, rest)
  | '\x7d' :: rest => some (closeObject, rest)
  | ',' :: rest => some (comma, rest)
  | ':' :: rest => some (colon, rest)
  | '"' :: rest => (stringLiteral? rest).map fun (literal, rest) => (string literal, rest)
  | 'n' :: 'u' :: 'l' :: 'l' :: rest => some (null, rest)
  | 't' :: 'r' :: 'u' :: 'e' :: rest => some (bool true, rest)
  | 'f' :: 'a' :: 'l' :: 's' :: 'e' :: rest => some (bool false, rest)
  | text => number? text

end Token

/-! ### Reading takes something -/

theorem length_lt_of_stringLiteral? {text : List Char} {literal : Literal} {rest : List Char}
    (h : stringLiteral? text = some (literal, rest)) : rest.length < text.length := by
  fun_induction stringLiteral? text generalizing literal rest <;>
    simp_all [Option.bind_eq_some_iff] <;> grind

namespace Token

theorem length_lt_of_number? {text : List Char} {token : Token} {rest : List Char}
    (h : number? text = some (token, rest)) : rest.length < text.length := by
  simp only [number?] at h
  split at h
  next hn =>
    cases h
    match text with
    | [] => simp [isNumber, NumberState.isFinal] at hn
    | c :: cs =>
      have hc : isNumberChar c = true := by
        apply Decidable.byContradiction
        intro hc
        simp [hc, isNumber, NumberState.isFinal] at hn
      have := (List.dropWhile_sublist (l := cs) isNumberChar).length_le
      simp only [List.dropWhile_cons, hc, if_true, List.length_cons]
      omega
  · cases h

theorem length_lt_of_next? {text : List Char} {token : Token} {rest : List Char}
    (h : next? text = some (token, rest)) : rest.length < text.length := by
  fun_cases next? text <;> simp_all [next?]
  case case7 =>
    obtain ⟨_, h, _⟩ := h
    have := length_lt_of_stringLiteral? h
    omega
  case case11 => exact length_lt_of_number? h
  all_goals omega

/-! ### All tokens of a text -/

def scan? (text : List Char) : Option (List Token) :=
  match text with
  | [] => some []
  | c :: cs =>
    if isBlank c then scan? cs
    else
      match h : next? (c :: cs) with
      | none => none
      | some (token, rest) =>
        have := length_lt_of_next? h
        (scan? rest).map (token :: ·)
termination_by text.length
decreasing_by all_goals simp only [List.length_cons] at *; omega

end Token

end TokenLedger.Json
