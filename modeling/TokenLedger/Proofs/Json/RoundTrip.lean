import TokenLedger.Json.Parser
import TokenLedger.Proofs.Json.Literal

/-!
# Values are read back from their text

The text of a value is scanned to its words, whatever is written behind it, and the words are put
together to the value, whatever it is a part of. Both go by induction on the value.
-/

namespace TokenLedger.Json

/-- The literals in a value are numbers and strings, so that its text is JSON. -/
inductive IsWritten : Json → Prop where
  | null : IsWritten .null
  | bool (value : Bool) : IsWritten (.bool value)
  | number {literal : Literal} (number : isNumber literal = true) : IsWritten (.number literal)
  | string {literal : Literal} (text : IsText literal) : IsWritten (.string literal)
  | array {values : List Json} (written : ∀ value ∈ values, IsWritten value) :
    IsWritten (.array values)
  | object {members : List (Literal × Json)} (keys : ∀ member ∈ members, IsText member.1)
    (written : ∀ member ∈ members, IsWritten member.2) : IsWritten (.object members)

theorem IsWritten.object_nil : IsWritten (.object []) :=
  .object (List.forall_mem_nil _) (List.forall_mem_nil _)

theorem IsWritten.object_cons {key : Literal} {value : Json} {members : List (Literal × Json)}
    (plain : key.all isPlain = true) (first : IsWritten value)
    (others : IsWritten (.object members)) : IsWritten (.object ((key, value) :: members)) := by
  cases others with
  | object keys written =>
    exact .object (List.forall_mem_cons.mpr ⟨isText_of_all_isPlain plain, keys⟩)
      (List.forall_mem_cons.mpr ⟨first, written⟩)

/-! ### The words of a value -/

mutual

def tokens : Json → List Token
  | null => [.null]
  | bool value => [.bool value]
  | number literal => [.number literal]
  | string literal => [.string literal]
  | array [] => [.openArray, .closeArray]
  | array (value :: values) =>
    .openArray :: tokens value ++ (tokensOfValues values ++ [.closeArray])
  | object [] => [.openObject, .closeObject]
  | object (member :: members) =>
    .openObject :: tokensOfMember member ++ (tokensOfMembers members ++ [.closeObject])

/-- The words of the values behind the first of an array. -/
def tokensOfValues : List Json → List Token
  | [] => []
  | value :: values => .comma :: tokens value ++ tokensOfValues values

def tokensOfMember : Literal × Json → List Token
  | (key, value) => .string key :: .colon :: tokens value

/-- The words of the members behind the first of an object. -/
def tokensOfMembers : List (Literal × Json) → List Token
  | [] => []
  | member :: members => .comma :: tokensOfMember member ++ tokensOfMembers members

end

/-! ### From the text to its words -/

namespace Token

theorem scan?_nil : scan? [] = some [] := by rw [scan?]

theorem scan?_blank {c : Char} (blank : isBlank c = true) (rest : List Char) :
    scan? (c :: rest) = scan? rest := by
  rw [scan?, if_pos blank]

theorem next?_blank {c : Char} (blank : isBlank c = true) (rest : List Char) :
    next? (c :: rest) = none := by
  simp only [isBlank, Bool.or_eq_true, beq_iff_eq] at blank
  rcases blank with ((rfl | rfl) | rfl) | rfl <;> rfl

/-- One word after the other. -/
theorem scan?_of_next? {text rest : List Char} {token : Token}
    (next : next? text = some (token, rest)) : scan? text = (scan? rest).map (token :: ·) := by
  cases text with
  | nil => cases next
  | cons c text =>
    have visible : ¬isBlank c = true := by
      intro blank
      rw [next?_blank blank] at next
      cases next
    rw [scan?, if_neg visible]
    split
    next none => rw [next] at none; cases none
    next other => rw [next] at other; cases other; rfl

theorem scan?_newLine (indent : Nat) (rest : List Char) :
    scan? (newLine indent ++ rest) = scan? rest := by
  rw [newLine, List.cons_append, scan?_blank rfl]
  induction indent with
  | zero => rfl
  | succ indent ih => rw [List.replicate_succ, List.cons_append, scan?_blank rfl, ih]

theorem scan?_quote {literal : Literal} (text : IsText literal) (rest : List Char) :
    scan? (quote literal ++ rest) = (scan? rest).map (.string literal :: ·) := by
  apply scan?_of_next?
  simp [quote, next?, text.stringLiteral?_quote]

/-- No number goes on with the head of the text. -/
def EndsNumber (rest : List Char) : Prop := ∀ c ∈ rest.head?, isNumberChar c = false

theorem number?_append {literal : Literal} (number : isNumber literal = true) {rest : List Char}
    (ends : EndsNumber rest) : number? (literal ++ rest) = some (.number literal, rest) := by
  have all := forall_isNumberChar_of_isNumber number
  have taken : rest.takeWhile isNumberChar = [] ∧ rest.dropWhile isNumberChar = rest := by
    cases rest with
    | nil => exact ⟨rfl, rfl⟩
    | cons c rest => simp [ends c rfl]
  simp [number?, List.takeWhile_append_of_pos all, List.dropWhile_append_of_pos all, taken, number]

theorem scan?_number {literal : Literal} (number : isNumber literal = true) {rest : List Char}
    (ends : EndsNumber rest) :
    scan? (literal ++ rest) = (scan? rest).map (.number literal :: ·) := by
  apply scan?_of_next?
  rw [← number?_append number ends]
  have all := forall_isNumberChar_of_isNumber number
  cases literal with
  | nil => cases number
  | cons c literal =>
    have first : isNumberChar c = true := all c List.mem_cons_self
    rw [List.cons_append, next?]
    -- None of the other words starts with a character of numbers.
    all_goals
      intros
      rename_i same
      cases (List.cons.inj same).1
      exact absurd first (by decide)

end Token

section Scanning

open Token

/-- The text of a value is scanned to its words, whatever is written behind it. -/
def Scans (json : Json) : Prop :=
  ∀ (indent : Nat) (rest : List Char), EndsNumber rest →
    scan? (render indent json ++ rest) = (scan? rest).map (json.tokens ++ ·)

/-- A word at the end of a line. -/
theorem scan?_endLine {c : Char} {token : Token}
    (next : ∀ rest, next? (c :: rest) = some (token, rest)) (indent : Nat) (rest : List Char) :
    scan? (c :: (newLine indent ++ rest)) = (scan? rest).map (token :: ·) := by
  rw [scan?_of_next? (next _), scan?_newLine]

/-- A word on a line of its own. -/
theorem scan?_ownLine {c : Char} {token : Token}
    (next : ∀ rest, next? (c :: rest) = some (token, rest)) (indent : Nat) (rest : List Char) :
    scan? (newLine indent ++ c :: rest) = (scan? rest).map (token :: ·) := by
  rw [scan?_newLine, scan?_of_next? (next _)]

theorem next?_comma (rest : List Char) : next? (',' :: rest) = some (.comma, rest) := rfl

theorem scan?_renderMember {key : Literal} {value : Json} (text : IsText key)
    (scans : Scans value) (indent : Nat) {rest : List Char} (ends : EndsNumber rest) :
    scan? (renderMember indent (key, value) ++ rest) =
      (scan? rest).map (tokensOfMember (key, value) ++ ·) := by
  have colon (rest : List Char) : scan? (':' :: ' ' :: rest) = (scan? rest).map (.colon :: ·) := by
    rw [scan?_of_next? (by rfl), scan?_blank rfl]
  simp only [renderMember, List.append_assoc, scan?_quote text, List.cons_append,
    List.nil_append, colon, scans indent rest ends, Option.map_map]
  rfl

theorem endsNumber_newLine (indent : Nat) (rest : List Char) :
    EndsNumber (newLine indent ++ rest) := by
  simp [EndsNumber, newLine, isNumberChar]

theorem endsNumber_renderValues (indent : Nat) (values : List Json) {rest : List Char}
    (ends : EndsNumber rest) : EndsNumber (renderValues indent values ++ rest) := by
  cases values with
  | nil => exact ends
  | cons => simp [EndsNumber, renderValues, isNumberChar]

theorem endsNumber_renderMembers (indent : Nat) (members : List (Literal × Json))
    {rest : List Char} (ends : EndsNumber rest) :
    EndsNumber (renderMembers indent members ++ rest) := by
  cases members with
  | nil => exact ends
  | cons => simp [EndsNumber, renderMembers, isNumberChar]

theorem scan?_renderValues {values : List Json} (scans : ∀ value ∈ values, Scans value)
    (indent : Nat) {rest : List Char} (ends : EndsNumber rest) :
    scan? (renderValues indent values ++ rest) =
      (scan? rest).map (tokensOfValues values ++ ·) := by
  induction values with
  | nil => simp [renderValues, tokensOfValues]
  | cons value values ih =>
    obtain ⟨first, scans⟩ := List.forall_mem_cons.mp scans
    simp only [renderValues, List.cons_append, List.append_assoc, scan?_endLine next?_comma,
      first indent _ (endsNumber_renderValues indent values ends), ih scans, Option.map_map]
    simp [tokensOfValues, Function.comp_def]

theorem scan?_renderMembers {members : List (Literal × Json)}
    (keys : ∀ member ∈ members, IsText member.1) (scans : ∀ member ∈ members, Scans member.2)
    (indent : Nat) {rest : List Char} (ends : EndsNumber rest) :
    scan? (renderMembers indent members ++ rest) =
      (scan? rest).map (tokensOfMembers members ++ ·) := by
  induction members with
  | nil => simp [renderMembers, tokensOfMembers]
  | cons member members ih =>
    obtain ⟨key, keys⟩ := List.forall_mem_cons.mp keys
    obtain ⟨first, scans⟩ := List.forall_mem_cons.mp scans
    have rest_ends := endsNumber_renderMembers indent members ends
    simp only [renderMembers, List.cons_append, List.append_assoc, scan?_endLine next?_comma,
      scan?_renderMember key first indent rest_ends, ih keys scans, Option.map_map]
    simp [tokensOfMembers, Function.comp_def]

theorem IsWritten.scans {json : Json} (written : IsWritten json) : Scans json := by
  induction written with
  | null => exact fun _ _ _ => scan?_of_next? rfl
  | bool value => cases value <;> exact fun _ _ _ => scan?_of_next? rfl
  | number number => exact fun _ _ ends => scan?_number number ends
  | string text => exact fun _ rest _ => scan?_quote text rest
  | @array values _ ih =>
    intro indent rest ends
    have opened (rest) : next? ('[' :: rest) = some (.openArray, rest) := rfl
    have closed (rest) : next? (']' :: rest) = some (.closeArray, rest) := rfl
    cases values with
    | nil =>
      simp [render, tokens, scan?_of_next? (opened _), scan?_of_next? (closed _),
        Function.comp_def]
    | cons value values =>
      obtain ⟨first, others⟩ := List.forall_mem_cons.mp ih
      have line_ends := endsNumber_newLine indent (']' :: rest)
      have values_end := endsNumber_renderValues (indent + 2) values line_ends
      simp only [render, List.cons_append, List.append_assoc, List.nil_append,
        scan?_endLine opened, first _ _ values_end, scan?_renderValues others _ line_ends,
        scan?_ownLine closed, Option.map_map]
      simp [tokens, Function.comp_def]
  | @object members keys _ ih =>
    intro indent rest ends
    have opened (rest) : next? ('\x7b' :: rest) = some (.openObject, rest) := rfl
    have closed (rest) : next? ('\x7d' :: rest) = some (.closeObject, rest) := rfl
    cases members with
    | nil =>
      simp [render, tokens, scan?_of_next? (opened _), scan?_of_next? (closed _),
        Function.comp_def]
    | cons member members =>
      obtain ⟨key, keys⟩ := List.forall_mem_cons.mp keys
      obtain ⟨first, others⟩ := List.forall_mem_cons.mp ih
      have line_ends := endsNumber_newLine indent ('\x7d' :: rest)
      have members_end := endsNumber_renderMembers (indent + 2) members line_ends
      simp only [render, List.cons_append, List.append_assoc, List.nil_append,
        scan?_endLine opened, scan?_renderMember key first _ members_end,
        scan?_renderMembers keys others _ line_ends, scan?_ownLine closed, Option.map_map]
      simp [tokens, Function.comp_def]

end Scanning

/-! ### From the words to the value -/

/-- The words of a value are put together to the value, whatever it is a part of. -/
def Reads (json : Json) : Prop :=
  ∀ (frames : List Frame) (rest : List Token),
    readValue? frames (json.tokens ++ rest) = resume? json frames rest

theorem tokens_ne_closeArray (json : Json) (rest later : List Token) :
    json.tokens ++ rest ≠ .closeArray :: later := by
  cases json with
  | array values => cases values <;> simp [tokens]
  | object members => cases members <;> simp [tokens]
  | _ => simp [tokens]

/-- The values behind the first of an array, and its end. -/
theorem resume?_tokensOfValues {values : List Json} (reads : ∀ value ∈ values, Reads value)
    (value : Json) (before : List Json) (frames : List Frame) (rest : List Token) :
    resume? value (.array before :: frames) (tokensOfValues values ++ .closeArray :: rest) =
      resume? (array (before.reverse ++ value :: values)) frames rest := by
  induction values generalizing value before with
  | nil => simp [tokensOfValues, resume?]
  | cons next values ih =>
    obtain ⟨first, others⟩ := List.forall_mem_cons.mp reads
    simp only [tokensOfValues, List.cons_append, List.append_assoc, resume?]
    rw [first, ih others, List.reverse_cons, List.append_assoc]
    rfl

/-- The members behind the first of an object, and its end. -/
theorem resume?_tokensOfMembers {members : List (Literal × Json)}
    (reads : ∀ member ∈ members, Reads member.2) (key : Literal) (value : Json)
    (before : List (Literal × Json)) (frames : List Frame) (rest : List Token) :
    resume? value (.object before key :: frames)
        (tokensOfMembers members ++ .closeObject :: rest) =
      resume? (object (before.reverse ++ (key, value) :: members)) frames rest := by
  induction members generalizing key value before with
  | nil => simp [tokensOfMembers, resume?]
  | cons next members ih =>
    obtain ⟨nextKey, next⟩ := next
    obtain ⟨first, others⟩ := List.forall_mem_cons.mp reads
    simp only [tokensOfMembers, tokensOfMember, List.cons_append, List.append_assoc, resume?]
    rw [first, ih others, List.reverse_cons, List.append_assoc]
    rfl

theorem IsWritten.reads {json : Json} (written : IsWritten json) : Reads json := by
  induction written with
  | null => exact fun _ _ => by simp [tokens, readValue?]
  | bool value => exact fun _ _ => by simp [tokens, readValue?]
  | number => exact fun _ _ => by simp [tokens, readValue?]
  | string => exact fun _ _ => by simp [tokens, readValue?]
  | @array values _ ih =>
    intro frames rest
    cases values with
    | nil => simp [tokens, readValue?]
    | cons value values =>
      obtain ⟨first, others⟩ := List.forall_mem_cons.mp ih
      simp only [tokens, List.cons_append, List.append_assoc]
      rw [readValue?, first, List.nil_append, resume?_tokensOfValues others]
      · rfl
      · exact tokens_ne_closeArray value _
  | @object members _ _ ih =>
    intro frames rest
    cases members with
    | nil => simp [tokens, readValue?]
    | cons member members =>
      obtain ⟨key, value⟩ := member
      obtain ⟨first, others⟩ := List.forall_mem_cons.mp ih
      simp only [tokens, tokensOfMember, List.cons_append, List.append_assoc]
      rw [readValue?, first, List.nil_append, resume?_tokensOfMembers others]
      rfl

/-- A value is read back from its text. -/
theorem IsWritten.parse?_render {json : Json} (written : IsWritten json) (indent : Nat) :
    parse? (render indent json) = some json := by
  have scanned := written.scans indent [] (by simp [Token.EndsNumber])
  have read := written.reads [] []
  simp only [List.append_nil, Token.scan?_nil, Option.map_some] at scanned read
  rw [parse?, scanned, Option.bind_eq_bind, Option.bind_some, read]
  rfl

end TokenLedger.Json
