import TokenLedger.Proofs.Bytes.Positional
import TokenLedger.Proofs.Outcome
import TokenLedger.Proofs.Wire.SelfDelimiting
import TokenLedger.Script.Basic

/-!
# The grammar of programs

A program is a row of well-formed chunks. The parser takes a chunk off the front of a program
exactly when the encoding of a well-formed one stands there, so it accepts the concatenations of
such encodings and nothing else, and finds the only chunks that a program can consist of. Where it
fails, no chunk begins.
-/

namespace TokenLedger

/-! ### One chunk -/

namespace Chunk

/-- The chunks that a program can consist of: a code beyond those that announce data, or data
behind a code and a length field that say how long it is. -/
inductive WellFormed : Chunk → Prop where
  | op {code : UInt8} (beyond : Opcode.pushData4 < code) : WellFormed (op code)
  | direct {code : UInt8} {data : Bytes} (short : code < Opcode.pushData1)
      (length : data.length = code.toNat) : WellFormed (push code data)
  | pushData1 {data : Bytes} (fits : data.length < 2 ^ 8) :
      WellFormed (push Opcode.pushData1 data)
  | pushData2 {data : Bytes} (fits : data.length < 2 ^ 16) :
      WellFormed (push Opcode.pushData2 data)
  | pushData4 {data : Bytes} (fits : data.length < 2 ^ 32) :
      WellFormed (push Opcode.pushData4 data)

theorem lengthWidth?_eq_none_iff {code : UInt8} :
    lengthWidth? code = none ↔ Opcode.pushData4 < code := by
  have every : ∀ code : UInt8, lengthWidth? code = none ↔ Opcode.pushData4 < code :=
    forall_byte (by decide +kernel)
  exact every code

theorem wellFormed_op_iff {code : UInt8} : (op code).WellFormed ↔ lengthWidth? code = none := by
  rw [lengthWidth?_eq_none_iff]
  constructor
  · intro good
    cases good with
    | op beyond => exact beyond
  · exact .op

/-- No data stands behind a code beyond those that announce some. -/
theorem WellFormed.eq_op {chunk : Chunk} (good : chunk.WellFormed)
    (beyond : Opcode.pushData4 < chunk.code) : chunk = .op chunk.code := by
  cases good with
  | op => rfl
  | direct short =>
    have impossible : ¬ Opcode.pushData4 < Opcode.pushData1 := by decide
    exact absurd (UInt8.lt_trans beyond short) impossible
  | pushData1 =>
    have impossible : ¬ Opcode.pushData4 < Opcode.pushData1 := by decide
    exact absurd beyond impossible
  | pushData2 =>
    have impossible : ¬ Opcode.pushData4 < Opcode.pushData2 := by decide
    exact absurd beyond impossible
  | pushData4 => exact absurd beyond (UInt8.lt_irrefl _)

/-- A field that is there announces the number that is written in it. -/
theorem announcedLength_littleEndian {code : UInt8} {width length : Nat} (present : width ≠ 0) :
    announcedLength code (Bytes.littleEndian width length) =
      Bytes.ofLittleEndian (Bytes.littleEndian width length) := by
  have nonempty : (Bytes.littleEndian width length).isEmpty = false := by
    rw [List.isEmpty_eq_false_iff, ← List.length_pos_iff, Bytes.littleEndian_length]
    omega
  rw [announcedLength, nonempty, if_neg Bool.false_ne_true]

/-- Whatever the width of the length field, code and field together announce the data. -/
theorem wellFormed_push_iff {code : UInt8} {data : Bytes} :
    (push code data).WellFormed ↔
      ∃ width, lengthWidth? code = some width ∧
        announcedLength code (Bytes.littleEndian width data.length) = data.length := by
  have written {width : Nat} (present : width ≠ 0) (fits : data.length < 256 ^ width) :
      announcedLength code (Bytes.littleEndian width data.length) = data.length := by
    rw [announcedLength_littleEndian present, Bytes.ofLittleEndian_littleEndian fits]
  have bounded {width : Nat} (present : width ≠ 0)
      (announced : announcedLength code (Bytes.littleEndian width data.length) = data.length) :
      data.length < 256 ^ width := by
    have small := Bytes.ofLittleEndian_lt (Bytes.littleEndian width data.length)
    rw [announcedLength_littleEndian present] at announced
    rwa [announced, Bytes.littleEndian_length] at small
  constructor
  · intro good
    cases good with
    | direct short length => exact ⟨0, if_pos short, length.symm⟩
    | pushData1 fits => exact ⟨1, rfl, written (by decide) (by omega)⟩
    | pushData2 fits => exact ⟨2, rfl, written (by decide) (by omega)⟩
    | pushData4 fits => exact ⟨4, rfl, written (by decide) (by omega)⟩
  · rintro ⟨width, widthOf, announced⟩
    unfold lengthWidth? at widthOf
    split at widthOf
    next short =>
      cases widthOf
      exact .direct short announced.symm
    next =>
      split at widthOf
      next same =>
        cases widthOf
        subst same
        exact .pushData1 (bounded (by decide) announced)
      next =>
        split at widthOf
        next same =>
          cases widthOf
          subst same
          exact .pushData2 (bounded (by decide) announced)
        next =>
          split at widthOf
          next same =>
            cases widthOf
            subst same
            exact .pushData4 (bounded (by decide) announced)
          next => cases widthOf

theorem encode_eq_code_cons (chunk : Chunk) : ∃ rest, chunk.encode = chunk.code :: rest := by
  cases chunk with
  | op code => exact ⟨[], rfl⟩
  | push code data => exact ⟨_, rfl⟩

theorem encode_ne_nil (chunk : Chunk) : chunk.encode ≠ [] := by
  obtain ⟨rest, starts⟩ := chunk.encode_eq_code_cons
  simp [starts]

theorem encodedLength_pos (chunk : Chunk) : 0 < chunk.encodedLength := by
  rw [← length_encode, List.length_pos_iff]
  exact chunk.encode_ne_nil

/-- The length field of a parsed push is the one that is written. -/
theorem lengthField_eq {code : UInt8} {field data : Bytes} {width : Nat}
    (fieldWidth : field.length = width) (announced : data.length = announcedLength code field) :
    Bytes.littleEndian width data.length = field := by
  cases field with
  | nil =>
    rw [← fieldWidth]
    rfl
  | cons b bytes =>
    rw [announced, ← fieldWidth]
    exact Bytes.littleEndian_ofLittleEndian (b :: bytes)

theorem wellFormed_of_parse {code : UInt8} {bytes rest : Bytes} {chunk : Chunk}
    (parsed : parse code bytes = .ok (chunk, rest)) :
    chunk.WellFormed ∧ chunk.encode ++ rest = code :: bytes := by
  simp only [parse, List.splitAt_eq] at parsed
  split at parsed
  next widthOf =>
    cases parsed
    exact ⟨wellFormed_op_iff.mpr widthOf, rfl⟩
  next width widthOf =>
    split at parsed
    next => cases parsed
    next whole =>
      split at parsed
      next => cases parsed
      next enough =>
        have fieldWidth : (bytes.take width).length = width := by
          rw [List.length_take] at whole ⊢
          omega
        have announced : ((bytes.drop width).take
            (announcedLength code (bytes.take width))).length =
              announcedLength code (bytes.take width) := by
          rw [List.length_take]
          omega
        have field := lengthField_eq fieldWidth announced
        cases parsed
        constructor
        · exact wellFormed_push_iff.mpr ⟨width, widthOf, by rw [field, announced]⟩
        · rw [encode, widthOf, Option.getD_some, field, List.cons_append, List.append_assoc,
            List.take_append_drop, List.take_append_drop]

theorem parse_of_wellFormed {chunk : Chunk} (good : chunk.WellFormed) {code : UInt8}
    {bytes rest : Bytes} (stands : chunk.encode ++ rest = code :: bytes) :
    parse code bytes = .ok (chunk, rest) := by
  cases chunk with
  | op code' =>
    simp only [encode, List.cons_append, List.nil_append, List.cons.injEq] at stands
    obtain ⟨rfl, rfl⟩ := stands
    rw [parse, wellFormed_op_iff.mp good]
  | push code' data =>
    obtain ⟨width, widthOf, announced⟩ := wellFormed_push_iff.mp good
    simp only [encode, widthOf, Option.getD_some, List.cons_append, List.append_assoc,
      List.cons.injEq] at stands
    obtain ⟨rfl, rfl⟩ := stands
    have fieldWidth := Bytes.littleEndian_length width data.length
    have front : (Bytes.littleEndian width data.length ++ (data ++ rest)).take width =
        Bytes.littleEndian width data.length := List.take_left' fieldWidth
    have back : (Bytes.littleEndian width data.length ++ (data ++ rest)).drop width =
        data ++ rest := List.drop_left' fieldWidth
    simp only [parse, widthOf, List.splitAt_eq, front, back, announced, fieldWidth]
    rw [if_neg (by omega), if_neg (by simp), List.take_left, List.drop_left]

theorem encode_selfDelimiting : SelfDelimiting WellFormed encode := by
  intro a b goodA goodB r s same
  obtain ⟨others, starts⟩ := a.encode_eq_code_cons
  have first : a.encode ++ r = a.code :: (others ++ r) := by rw [starts, List.cons_append]
  have ofA := parse_of_wellFormed goodA first
  have ofB := parse_of_wellFormed goodB (same.symm.trans first)
  rw [ofA] at ofB
  cases ofB
  exact ⟨rfl, rfl⟩

/-- Where parsing fails no chunk begins. -/
theorem not_encode_prefix_of_parse {code : UInt8} {bytes : Bytes} {fault : ParseFault}
    (failed : parse code bytes = .error fault) {chunk : Chunk} (good : chunk.WellFormed) :
    ¬ chunk.encode <+: code :: bytes := by
  rintro ⟨rest, stands⟩
  rw [parse_of_wellFormed good stands] at failed
  cases failed

end Chunk

/-! ### Whole programs -/

namespace Script

/-- The chunks of a program are those whose encodings it is made of. -/
theorem parseFrom_eq_ok_iff {offset : Nat} {bytes : Bytes} {placed : List PlacedChunk} :
    parseFrom offset bytes = .ok placed ↔
      ∃ chunks, (∀ chunk ∈ chunks, chunk.WellFormed) ∧ chunks.flatMap Chunk.encode = bytes ∧
        placed = place offset chunks := by
  fun_induction parseFrom offset bytes generalizing placed with
  | case1 offset =>
    constructor
    · intro parsed
      cases parsed
      exact ⟨[], by simp, rfl, rfl⟩
    · rintro ⟨chunks, -, bytes, rfl⟩
      cases chunks with
      | nil => rfl
      | cons chunk chunks => simp [Chunk.encode_ne_nil] at bytes
  | case2 offset code rest fault failed =>
    constructor
    · intro parsed
      cases parsed
    · rintro ⟨chunks, good, bytes, -⟩
      cases chunks with
      | nil => cases bytes
      | cons chunk chunks =>
        have begins : chunk.encode <+: code :: rest := ⟨_, bytes⟩
        exact absurd begins (Chunk.not_encode_prefix_of_parse failed (good _ List.mem_cons_self))
  | case3 offset code rest chunk after first _ ih =>
    obtain ⟨goodFirst, stands⟩ := Chunk.wellFormed_of_parse first
    constructor
    · intro parsed
      cases further : parseFrom (offset + chunk.encodedLength) after with
      | error e =>
        rw [further] at parsed
        cases parsed
      | ok others =>
        rw [further] at parsed
        cases parsed
        obtain ⟨chunks, good, bytes, rfl⟩ := ih.mp further
        refine ⟨chunk :: chunks, ?_, ?_, rfl⟩
        · simpa using ⟨goodFirst, good⟩
        · rw [List.flatMap_cons, bytes, stands]
    · rintro ⟨chunks, good, bytes, rfl⟩
      cases chunks with
      | nil => cases bytes
      | cons head chunks =>
        obtain ⟨goodHead, goodTail⟩ := List.forall_mem_cons.mp good
        obtain ⟨rfl, back⟩ :=
          Chunk.encode_selfDelimiting goodHead goodFirst (bytes.trans stands.symm)
        rw [ih.mpr ⟨chunks, goodTail, back, rfl⟩]
        rfl

/-- Parsing fails behind some whole chunks, at a place where no chunk begins. -/
theorem exists_chunks_of_parseFrom_eq_error {offset : Nat} {bytes : Bytes} {e : Error}
    (failed : parseFrom offset bytes = .error e) :
    ∃ (chunks : List Chunk) (rest : Bytes) (fault : ParseFault),
      (∀ chunk ∈ chunks, chunk.WellFormed) ∧
      chunks.flatMap Chunk.encode ++ rest = bytes ∧ rest ≠ [] ∧
      e = .scriptParse (offset + (chunks.flatMap Chunk.encode).length) fault ∧
      ∀ chunk : Chunk, chunk.WellFormed → ¬ chunk.encode <+: rest := by
  fun_induction parseFrom offset bytes generalizing e with
  | case1 => cases failed
  | case2 offset code rest fault stopped =>
    cases failed
    exact ⟨[], code :: rest, fault, by simp, rfl, by simp, rfl,
      fun chunk => Chunk.not_encode_prefix_of_parse stopped⟩
  | case3 offset code rest chunk after first _ ih =>
    obtain ⟨goodFirst, stands⟩ := Chunk.wellFormed_of_parse first
    cases further : parseFrom (offset + chunk.encodedLength) after with
    | ok others =>
      rw [further] at failed
      cases failed
    | error e' =>
      rw [further] at failed
      cases failed
      obtain ⟨chunks, left, fault, good, bytes, nonempty, same, stuck⟩ := ih further
      refine ⟨chunk :: chunks, left, fault, ?_, ?_, nonempty, ?_, stuck⟩
      · simpa using ⟨goodFirst, good⟩
      · rw [List.flatMap_cons, List.append_assoc, bytes, stands]
      · rw [same, List.flatMap_cons, List.length_append, Chunk.length_encode, Nat.add_assoc]

theorem map_chunk_place (offset : Nat) (chunks : List Chunk) :
    (place offset chunks).map (·.chunk) = chunks := by
  induction chunks generalizing offset with
  | nil => rfl
  | cons chunk chunks ih => rw [place, List.map_cons, ih]

theorem length_assemble (chunks : List Chunk) :
    (assemble chunks).length = (chunks.map Chunk.encodedLength).sum := by
  simp only [length, assemble, List.length_flatMap, Chunk.length_encode]

/-- Parsing finds the chunks that the program is assembled from. -/
theorem parse_eq_ok_iff {program : Bytes} {s : Script} :
    parse program = .ok s ↔
      ∃ chunks, (∀ chunk ∈ chunks, chunk.WellFormed) ∧
        chunks.flatMap Chunk.encode = program ∧ s = assemble chunks := by
  unfold parse
  rw [except_bind_eq_ok]
  constructor
  · rintro ⟨placed, found, same⟩
    obtain ⟨chunks, good, rfl, rfl⟩ := parseFrom_eq_ok_iff.mp found
    cases same
    exact ⟨chunks, good, rfl, rfl⟩
  · rintro ⟨chunks, good, rfl, rfl⟩
    exact ⟨_, parseFrom_eq_ok_iff.mpr ⟨chunks, good, rfl, rfl⟩, rfl⟩

theorem parse_assemble {chunks : List Chunk} (good : ∀ chunk ∈ chunks, chunk.WellFormed) :
    parse (assemble chunks).program = .ok (assemble chunks) :=
  parse_eq_ok_iff.mpr ⟨chunks, good, rfl, rfl⟩

/-- Well-formed chunks that make up the same program are the same. -/
theorem chunks_unique {chunks others : List Chunk} (good : ∀ chunk ∈ chunks, chunk.WellFormed)
    (goodOthers : ∀ chunk ∈ others, chunk.WellFormed)
    (same : chunks.flatMap Chunk.encode = others.flatMap Chunk.encode) : chunks = others := by
  have first : parseFrom 0 (others.flatMap Chunk.encode) = .ok (place 0 chunks) :=
    parseFrom_eq_ok_iff.mpr ⟨chunks, good, same, rfl⟩
  have second : parseFrom 0 (others.flatMap Chunk.encode) = .ok (place 0 others) :=
    parseFrom_eq_ok_iff.mpr ⟨others, goodOthers, rfl, rfl⟩
  rw [first] at second
  have placed : place 0 chunks = place 0 others := Except.ok.inj second
  rw [← map_chunk_place 0 chunks, placed, map_chunk_place]

/-- A chunk stands behind all those before it. -/
theorem offset_getElem_place {offset : Nat} {chunks : List Chunk} {i : Nat}
    (inRange : i < (place offset chunks).length) :
    (place offset chunks)[i].offset =
      offset + ((chunks.take i).map Chunk.encodedLength).sum := by
  induction chunks generalizing offset i with
  | nil => simp [place] at inRange
  | cons chunk chunks ih =>
    cases i with
    | zero => simp [place]
    | succ i =>
      simp only [place, List.getElem_cons_succ, List.take_succ_cons, List.map_cons, List.sum_cons]
      rw [ih, Nat.add_assoc]

/-- What is in front of the reported offset is a program, and what is behind it starts with no
chunk. -/
theorem failure_of_parse {program : Bytes} {e : Error} (failed : parse program = .error e) :
    ∃ offset fault, e = .scriptParse offset fault ∧ offset < program.length ∧
      (∃ s, parse (program.take offset) = .ok s) ∧
      ∀ chunk : Chunk, chunk.WellFormed → ¬ chunk.encode <+: program.drop offset := by
  obtain stopped | ⟨placed, -, impossible⟩ := except_bind_eq_error.mp failed
  · obtain ⟨chunks, rest, fault, good, bytes, nonempty, same, stuck⟩ :=
      exists_chunks_of_parseFrom_eq_error stopped
    have front : program.take (chunks.flatMap Chunk.encode).length =
        chunks.flatMap Chunk.encode := by rw [← bytes, List.take_left]
    have back : program.drop (chunks.flatMap Chunk.encode).length = rest := by
      rw [← bytes, List.drop_left]
    have some_left := List.length_pos_iff.mpr nonempty
    refine ⟨(chunks.flatMap Chunk.encode).length, fault, ?_, ?_, ?_, ?_⟩
    · rw [same, Nat.zero_add]
    · rw [← bytes, List.length_append]
      omega
    · exact ⟨_, parse_eq_ok_iff.mpr ⟨chunks, good, front.symm, rfl⟩⟩
    · rwa [back]
  · cases impossible

/-- The parser accepts the programs that are made of well-formed chunks, and these are the chunks
it finds; where it fails, the program so far is made of such chunks and no other one follows. -/
theorem parse_accepts_wellFormed_chunks (program : Bytes) :
    ((∃ s, parse program = .ok s) ↔
      ∃ chunks : List Chunk, (∀ chunk ∈ chunks, chunk.WellFormed) ∧
        chunks.flatMap Chunk.encode = program) ∧
    (∀ s, parse program = .ok s →
      (∀ chunk ∈ s.chunks.map (·.chunk), chunk.WellFormed) ∧
      (s.chunks.map (·.chunk)).flatMap Chunk.encode = program ∧
      (∀ others : List Chunk, (∀ chunk ∈ others, chunk.WellFormed) →
        others.flatMap Chunk.encode = program → others = s.chunks.map (·.chunk)) ∧
      (∀ i, (inRange : i < s.chunks.length) → s.chunks[i].offset =
        ((s.chunks.take i).map (·.chunk.encodedLength)).sum) ∧
      s.program = program ∧
      (assemble (s.chunks.map (·.chunk))).program = program ∧
      (assemble (s.chunks.map (·.chunk))).chunks = s.chunks) ∧
    (∀ e, parse program = .error e →
      ∃ offset fault, e = .scriptParse offset fault ∧ offset < program.length ∧
        (∃ s, parse (program.take offset) = .ok s) ∧
        ∀ chunk : Chunk, chunk.WellFormed → ¬ chunk.encode <+: program.drop offset) := by
  refine ⟨?_, ?_, fun e => failure_of_parse⟩
  · constructor
    · rintro ⟨s, parsed⟩
      obtain ⟨chunks, good, bytes, -⟩ := parse_eq_ok_iff.mp parsed
      exact ⟨chunks, good, bytes⟩
    · rintro ⟨chunks, good, bytes⟩
      exact ⟨_, parse_eq_ok_iff.mpr ⟨chunks, good, bytes, rfl⟩⟩
  · intro s parsed
    obtain ⟨chunks, good, bytes, rfl⟩ := parse_eq_ok_iff.mp parsed
    have found : (assemble chunks).chunks.map (·.chunk) = chunks := map_chunk_place 0 chunks
    rw [found]
    refine ⟨good, bytes, ?_, ?_, bytes, bytes, rfl⟩
    · intro others goodOthers same
      exact chunks_unique goodOthers good (same.trans bytes.symm)
    · intro i inRange
      have stands : (assemble chunks).chunks[i].offset =
          0 + ((chunks.take i).map Chunk.encodedLength).sum := offset_getElem_place inRange
      have before : ((assemble chunks).chunks.take i).map (·.chunk) = chunks.take i := by
        rw [List.map_take, found]
      rw [← before, List.map_map, Nat.zero_add] at stands
      exact stands

/-- A push with a length field of its own, whole and cut short. -/
theorem parse_accepts_wellFormed_chunks_behind_dup :
    let whole : Bytes := [Opcode.dup, Opcode.pushData1, 2, 0xab, 0xcd]
    let cut : Bytes := [Opcode.dup, Opcode.pushData1, 2, 0xab]
    let chunks : List Chunk := [.op Opcode.dup, .push Opcode.pushData1 [0xab, 0xcd]]
    parse whole = .ok (assemble chunks) ∧
      (∀ others : List Chunk, (∀ chunk ∈ others, chunk.WellFormed) →
        others.flatMap Chunk.encode = whole → others = chunks) ∧
      parse cut = .error (.scriptParse 1 .dataCutShort) ∧
      (∃ s, parse [Opcode.dup] = .ok s) ∧
      ∀ chunk : Chunk, chunk.WellFormed → ¬ chunk.encode <+: [Opcode.pushData1, 2, 0xab] := by
  intro whole cut chunks
  have parsed : parse whole = .ok (assemble chunks) := by cbv
  have failed : parse cut = .error (.scriptParse 1 .dataCutShort) := by cbv
  obtain ⟨-, found, -⟩ := parse_accepts_wellFormed_chunks whole
  obtain ⟨-, -, stops⟩ := parse_accepts_wellFormed_chunks cut
  obtain ⟨-, -, unique, -⟩ := found _ parsed
  obtain ⟨offset, fault, same, -, before, stuck⟩ := stops _ failed
  cases same
  exact ⟨parsed, unique, failed, before, stuck⟩

end Script

end TokenLedger
