import TokenLedger.Proofs.Script.Stripping

/-!
# Edited scripts

A script that is cut between its chunks, or loses some of them, is still the script that the parser
finds in its bytes: the edits move the offsets of the chunks that are left together with the bytes.
So whoever has the bytes alone can go on with the same script.
-/

namespace TokenLedger.Script

/-- A chunk begins there, or the program has ended. -/
def IsBoundary (s : Script) (start : Nat) : Prop :=
  s.program.length ≤ start ∨ ∃ c ∈ s.chunks, c.offset = start

instance (s : Script) (start : Nat) : Decidable (s.IsBoundary start) :=
  inferInstanceAs (Decidable (_ ∨ _))

/-- The edits by which what a signature commits to is made from a script. -/
inductive Edit where
  | dropTo (start : Nat)
  | remove (pattern : Bytes)
  | removeCode (code : UInt8)
  deriving DecidableEq, Repr

def Edit.apply (s : Script) : Edit → Script
  | dropTo start => s.dropTo start
  | remove pattern => s.remove pattern
  | removeCode code => s.removeCode code

/-- A script is cut between its chunks only. -/
def Edit.Fits (s : Script) : Edit → Prop
  | dropTo start => s.IsBoundary start
  | remove _ | removeCode _ => True

/-- One edit after the other. -/
def edit (s : Script) (edits : List Edit) : Script := edits.foldl Edit.apply s

/-- Every cut is made between the chunks that the edits before it have left. -/
def EditsFit (s : Script) : List Edit → Prop
  | [] => True
  | e :: edits => e.Fits s ∧ EditsFit (e.apply s) edits

/-! ### One edit -/

/-- Behind its first chunks a script has a boundary. -/
theorem isBoundary_assemble_append (front back : List Chunk) :
    (assemble (front ++ back)).IsBoundary (front.map Chunk.encodedLength).sum := by
  have chunks : (assemble (front ++ back)).chunks = place 0 (front ++ back) := rfl
  cases back with
  | nil =>
    apply Or.inl
    have size := length_assemble (front ++ [])
    rw [List.append_nil] at size ⊢
    exact Nat.le_of_eq size
  | cons next back =>
    apply Or.inr
    refine ⟨⟨next, 0 + (front.map Chunk.encodedLength).sum⟩, ?_, Nat.zero_add _⟩
    rw [chunks, place_append]
    exact List.mem_append_right _ List.mem_cons_self

/-- Every boundary is behind some of the first chunks. -/
theorem exists_append_of_isBoundary {chunks : List Chunk} {start : Nat}
    (boundary : (assemble chunks).IsBoundary start) :
    ∃ front back, chunks = front ++ back ∧
      (assemble chunks).dropTo start =
        (assemble chunks).dropTo (front.map Chunk.encodedLength).sum := by
  rcases boundary with beyond | ⟨c, mem, here⟩
  · refine ⟨chunks, [], (List.append_nil _).symm, ?_⟩
    have size : (assemble chunks).program.length = (chunks.map Chunk.encodedLength).sum :=
      length_assemble chunks
    unfold dropTo
    rw [← size, Nat.min_eq_right beyond, Nat.min_self]
  · obtain ⟨front, back, split, offset⟩ := exists_append_of_mem_place mem
    refine ⟨front, c.chunk :: back, split, ?_⟩
    rw [← here, offset, Nat.zero_add]

/-- A removal leaves some of the chunks. -/
theorem exists_sublist_remove (chunks : List Chunk) (pattern : Bytes) :
    ∃ kept, kept.Sublist chunks ∧ (assemble chunks).remove pattern = assemble kept := by
  refine ⟨_, ?_, remove_assemble_eq chunks pattern⟩
  have filtered := (List.filter_sublist (l := place 0 chunks) (p := fun c => !(!pattern.isEmpty &&
    pattern.isPrefixOf ((assemble chunks).program.drop c.offset)))).map (·.chunk)
  rwa [map_chunk_place] at filtered

/-- An edit leaves the assembly of some of the chunks. -/
theorem exists_sublist_apply {chunks : List Chunk} {e : Edit} (fits : e.Fits (assemble chunks)) :
    ∃ kept, kept.Sublist chunks ∧ e.apply (assemble chunks) = assemble kept := by
  cases e with
  | dropTo start =>
    obtain ⟨front, back, rfl, same⟩ := exists_append_of_isBoundary fits
    refine ⟨back, List.sublist_append_right front back, ?_⟩
    rw [Edit.apply, same, dropTo_assemble]
  | remove pattern => exact exists_sublist_remove chunks pattern
  | removeCode code => exact exists_sublist_remove chunks [code]

/-! ### Rows of edits -/

theorem exists_sublist_edit {chunks : List Chunk} {edits : List Edit}
    (fit : EditsFit (assemble chunks) edits) :
    ∃ kept, kept.Sublist chunks ∧ (assemble chunks).edit edits = assemble kept := by
  induction edits generalizing chunks with
  | nil => exact ⟨chunks, .refl _, rfl⟩
  | cons e edits ih =>
    obtain ⟨fits, others⟩ := fit
    obtain ⟨between, fewer, applied⟩ := exists_sublist_apply fits
    rw [applied] at others
    obtain ⟨kept, evenFewer, edited⟩ := ih others
    refine ⟨kept, evenFewer.trans fewer, ?_⟩
    rw [edit, List.foldl_cons, applied]
    exact edited

/-- Chunks can be removed from any script. -/
theorem editsFit_removals {α : Type} (s : Script) (items : List α) (pattern : α → Bytes) :
    s.EditsFit (items.map fun item => .remove (pattern item)) := by
  induction items generalizing s with
  | nil => trivial
  | cons item items ih => exact ⟨trivial, ih _⟩

/-- An edited script is the one that its program parses to. -/
theorem parse_edit {program : Bytes} {s : Script} (parsed : parse program = .ok s)
    {edits : List Edit} (fit : s.EditsFit edits) :
    parse (s.edit edits).program = .ok (s.edit edits) ∧
      ((s.edit edits).chunks.map (·.chunk)).Sublist (s.chunks.map (·.chunk)) := by
  obtain ⟨chunks, good, -, rfl⟩ := parse_eq_ok_iff.mp parsed
  obtain ⟨kept, fewer, edited⟩ := exists_sublist_edit fit
  have goodKept : ∀ chunk ∈ kept, chunk.WellFormed := fun chunk mem => good chunk (fewer.subset mem)
  rw [edited]
  refine ⟨parse_assemble goodKept, ?_⟩
  have found (chunks : List Chunk) : (assemble chunks).chunks.map (·.chunk) = chunks :=
    map_chunk_place 0 chunks
  rw [found, found]
  exact fewer

end TokenLedger.Script
