import Mathlib.Data.List.Nodup
import TokenLedger.Block.Merkle

/-!
# What a Merkle root commits to

As long as no two strings that are hashed for two trees collide, equal roots mean that one of the
trees is the upper part of the other: its leaves are a row of the other one. Two things are left
open by that. A level with an odd last element is completed by that element, so a list and the list
that repeats its own end have the same leaves in the end; and the encoding of a transaction may be
64 bytes long and consist of two hashes, so the leaves of one tree can be inner nodes of the other.
-/

namespace TokenLedger

namespace Merkle

/-! ### Levels two by two -/

section Twos

variable {α β : Type}

/-- The elements of a level two by two, an odd last one with itself. -/
def twos : List α → List (α × α)
  | [] => []
  | [last] => [(last, last)]
  | left :: right :: rest => (left, right) :: twos rest

theorem twos_length (level : List α) : (twos level).length = (level.length + 1) / 2 := by
  fun_induction twos level <;> simp_all
  omega

theorem twos_map (f : α → β) (level : List α) :
    twos (level.map f) = (twos level).map (Prod.map f f) := by
  fun_induction twos level <;> simp_all [twos]

theorem mem_of_mem_twos {level : List α} {pair : α × α} (mem : pair ∈ twos level) :
    pair.1 ∈ level ∧ pair.2 ∈ level := by
  fun_induction twos level with
  | case1 => cases mem
  | case2 last =>
    rw [List.mem_singleton] at mem
    simp [mem]
  | case3 left right rest ih =>
    rcases List.mem_cons.mp mem with rfl | later
    · simp
    · simp [ih later]

/-- The elements of pairs, one after the other. -/
def flattened (row : List (α × α)) : List α := row.flatMap fun (left, right) => [left, right]

@[simp] theorem flattened_cons (pair : α × α) (row : List (α × α)) :
    flattened (pair :: row) = pair.1 :: pair.2 :: flattened row := rfl

theorem flattened_map (f : α → β) (row : List (α × α)) :
    flattened (row.map (Prod.map f f)) = (flattened row).map f := by
  induction row with
  | nil => rfl
  | cons pair row ih => simp [ih]

theorem mem_flattened {row : List (α × α)} {element : α} (mem : element ∈ flattened row) :
    ∃ pair ∈ row, element = pair.1 ∨ element = pair.2 := by
  obtain ⟨pair, there, one⟩ := List.mem_flatMap.mp mem
  exact ⟨pair, there, by simpa using one⟩

/-- Only an odd last element is there twice. -/
theorem prefix_flattened_twos (level : List α) : level <+: flattened (twos level) := by
  fun_induction twos level with
  | case1 => exact List.prefix_rfl
  | case2 last => exact ⟨[last], rfl⟩
  | case3 left right rest ih =>
    obtain ⟨more, eq⟩ := ih
    exact ⟨more, by rw [flattened_cons, ← eq]; rfl⟩

theorem prefix_flattened {row wider : List (α × α)} (more : row <+: wider) :
    flattened row <+: flattened wider := by
  obtain ⟨end_, rfl⟩ := more
  exact ⟨flattened end_, by simp [flattened]⟩

/-- The full row of leaves: an odd last part of any level is written down twice. -/
def filled {α : Type} (level : List α) : List α :=
  match level with
  | [] => []
  | [top] => [top]
  | left :: right :: rest => flattened (filled (twos (left :: right :: rest)))
termination_by level.length
decreasing_by simp [twos_length]; omega

theorem filled_map (f : α → β) (level : List α) :
    filled (level.map f) = (filled level).map f := by
  induction α, level using filled.induct generalizing β with
  | case1 => simp [filled]
  | case2 α top => simp [filled]
  | case3 α left right rest ih =>
    rw [List.map_cons, List.map_cons, filled, ← List.map_cons, ← List.map_cons, twos_map,
      ih (Prod.map f f), flattened_map, filled]

theorem mem_of_mem_filled {level : List α} {element : α} (mem : element ∈ filled level) :
    element ∈ level := by
  induction α, level using filled.induct with
  | case1 => simp [filled] at mem
  | case2 α top => simpa [filled] using mem
  | case3 α left right rest ih =>
    rw [filled] at mem
    obtain ⟨pair, there, which⟩ := mem_flattened mem
    have both := mem_of_mem_twos (ih there)
    rcases which with rfl | rfl
    · exact both.1
    · exact both.2

/-- Nothing of a list is lost when it is filled up. -/
theorem prefix_filled (level : List α) : level <+: filled level := by
  induction α, level using filled.induct with
  | case1 => exact List.nil_prefix
  | case2 α top => simp [filled]
  | case3 α left right rest ih =>
    rw [filled]
    exact (prefix_flattened_twos _).trans (prefix_flattened ih)

end Twos

/-! ### Roots of filled rows -/

/-- The string that is hashed for two elements of a level. -/
def joined (pair : Hash256 × Hash256) : Bytes := pair.1.val ++ pair.2.val

theorem joined_injective {pair other : Hash256 × Hash256} (same : joined pair = joined other) :
    pair = other := by
  have lengths : pair.1.val.length = other.1.val.length := by
    rw [pair.1.property, other.1.property]
  obtain ⟨left, right⟩ := List.append_inj same lengths
  exact Prod.ext (Subtype.ext left) (Subtype.ext right)

theorem pairs_eq_map_twos (level : List Hash256) :
    pairs level = (twos level).map fun pair => Hash.sha256d (joined pair) := by
  fun_induction pairs level <;> simp_all [twos, combine, joined]

@[simp] theorem root_cons_cons (left right : Hash256) (rest : List Hash256) :
    root (left :: right :: rest) = root (pairs (left :: right :: rest)) := by
  rw [root]

theorem pairs_flattened (row : List (Hash256 × Hash256)) :
    pairs (flattened row) = row.map fun pair => Hash.sha256d (joined pair) := by
  induction row with
  | nil => rfl
  | cons pair row ih => simp [pairs, combine, joined, ih]

/-- Filling a level up does not change the tree. -/
theorem root_filled (level : List Hash256) : root (filled level) = root level := by
  fun_induction root level with
  | case1 => simp [filled, root]
  | case2 top => simp [filled, root]
  | case3 left right rest ih =>
    have row : ∃ pair row, filled (twos (left :: right :: rest)) = pair :: row := by
      obtain ⟨more, eq⟩ := prefix_filled (twos (left :: right :: rest))
      exact ⟨(left, right), twos rest ++ more, by rw [← eq]; rfl⟩
    obtain ⟨pair, row, eq⟩ := row
    calc root (filled (left :: right :: rest))
        = root (pairs (flattened (filled (twos (left :: right :: rest))))) := by
          rw [filled, eq, flattened_cons, root_cons_cons]
      _ = root (filled (pairs (left :: right :: rest))) := by
          rw [pairs_flattened, pairs_eq_map_twos, filled_map]
      _ = root (pairs (left :: right :: rest)) := ih

theorem root_eq_of_filled_eq {level other : List Hash256} (same : filled level = filled other) :
    root level = root other := by
  rw [← root_filled level, same, root_filled]

/-! ### Rows of a tree -/

/-- The rows of the tree over a level, from the leaves up to the root. -/
def rows (level : List Hash256) : List (List Hash256) :=
  match level with
  | [] => []
  | [top] => [[top]]
  | left :: right :: rest => (left :: right :: rest) :: rows (pairs (left :: right :: rest))
termination_by level.length
decreasing_by simp [pairs_length]; omega

theorem root_of_mem_rows {level row : List Hash256} (mem : row ∈ rows level) :
    root row = root level := by
  fun_induction rows level with
  | case1 => cases mem
  | case2 top => rw [List.mem_singleton.mp mem]
  | case3 left right rest ih =>
    rcases List.mem_cons.mp mem with rfl | above
    · rfl
    · rw [ih above, root_cons_cons]

theorem root_mem_rows {level : List Hash256} (nonempty : level ≠ []) :
    [root level] ∈ rows level := by
  fun_induction rows level with
  | case1 => exact absurd rfl nonempty
  | case2 top => simp [root]
  | case3 left right rest ih =>
    rw [root_cons_cons]
    exact List.mem_cons_of_mem _ (ih (by simp [pairs]))

/-- Every row but the leaves is hashed from the row below. -/
theorem exists_row_below {level row : List Hash256} (mem : row ∈ rows level) :
    row = level ∨ ∃ left right rest, left :: right :: rest ∈ rows level ∧
      row = pairs (left :: right :: rest) := by
  fun_induction rows level with
  | case1 => cases mem
  | case2 top => exact .inl (List.mem_singleton.mp mem)
  | case3 left right rest ih =>
    rcases List.mem_cons.mp mem with rfl | above
    · exact .inl rfl
    · right
      rcases ih above with rfl | ⟨_, _, _, there, eq⟩
      · exact ⟨left, right, rest, List.mem_cons_self, rfl⟩
      · exact ⟨_, _, _, List.mem_cons_of_mem _ there, eq⟩

/-- The one tree is the upper part of the other one, up to what a tree repeats by itself at the end
of a row. Without leaves the root is zero. -/
inductive Nested (level other : List Hash256) : Prop where
  | row (row : List Hash256) (mem : row ∈ rows other) (same : filled level = filled row)
  | empty (leafless : level = []) (zero : root other = FixedBytes.zero 32)

theorem Nested.root_eq {level other : List Hash256} (nested : Nested level other) :
    root level = root other := by
  cases nested with
  | row row mem same => exact (root_eq_of_filled_eq same).trans (root_of_mem_rows mem)
  | empty leafless zero => rw [leafless, root, zero]

/-! ### Strings that are hashed -/

/-- The strings of 64 bytes that are hashed for the root, level by level. -/
def preimages (level : List Hash256) : List Bytes :=
  match level with
  | [] => []
  | [_] => []
  | left :: right :: rest =>
    (twos (left :: right :: rest)).map joined ++ preimages (pairs (left :: right :: rest))
termination_by level.length
decreasing_by simp [pairs_length]; omega

theorem length_of_mem_preimages {level : List Hash256} {x : Bytes} (mem : x ∈ preimages level) :
    x.length = 64 := by
  fun_induction preimages level with
  | case1 => cases mem
  | case2 => cases mem
  | case3 left right rest ih =>
    rcases List.mem_append.mp mem with here | above
    · obtain ⟨pair, -, rfl⟩ := List.mem_map.mp here
      rw [joined, List.length_append, pair.1.property, pair.2.property]
    · exact ih above

theorem preimages_subset_of_mem_rows {level row : List Hash256} (mem : row ∈ rows level) :
    preimages row ⊆ preimages level := by
  fun_induction rows level with
  | case1 => cases mem
  | case2 top =>
    rw [List.mem_singleton.mp mem]
    exact List.Subset.refl _
  | case3 left right rest ih =>
    rcases List.mem_cons.mp mem with rfl | above
    · exact List.Subset.refl _
    · rw [preimages.eq_3 left right rest]
      exact List.subset_append_of_subset_right _ (ih above)

/-- Two different strings of these have the same hash. -/
def Collides (strings : List Bytes) : Prop :=
  ∃ x ∈ strings, ∃ y ∈ strings, x ≠ y ∧ Hash.sha256d x = Hash.sha256d y

theorem Collides.mono {strings more : List Bytes} (collides : Collides strings)
    (subset : strings ⊆ more) : Collides more := by
  obtain ⟨x, memX, y, memY, different, same⟩ := collides
  exact ⟨x, subset memX, y, subset memY, different, same⟩

theorem not_collides_of_nodup {strings : List Bytes}
    (nodup : (strings.map Hash.sha256d).Nodup) : ¬ Collides strings := by
  intro collides
  obtain ⟨x, memX, y, memY, different, same⟩ := collides
  exact different (List.inj_on_of_nodup_map nodup memX memY same)

/-! ### Equal roots -/

/-- A hash that occurs in both trees stands for the same string. -/
theorem eq_of_hash_eq {strings : List Bytes} (safe : ¬ Collides strings) {x y : Bytes}
    (memX : x ∈ strings) (memY : y ∈ strings) (same : Hash.sha256d x = Hash.sha256d y) : x = y := by
  by_contra different
  exact safe ⟨x, memX, y, memY, different, same⟩

theorem eq_of_map_eq {α β : Type} {f : α → β} {row other : List α}
    (injective : ∀ a ∈ row, ∀ b ∈ other, f a = f b → a = b) (same : row.map f = other.map f) :
    row = other := by
  induction row generalizing other with
  | nil => exact (List.map_eq_nil_iff.mp same.symm).symm
  | cons a row ih =>
    obtain ⟨b, other, rfl, head, tail⟩ := List.map_eq_cons_iff.mp same.symm
    rw [injective a List.mem_cons_self b List.mem_cons_self head.symm]
    rw [ih (fun a mem b memB => injective a (List.mem_cons_of_mem _ mem) b
      (List.mem_cons_of_mem _ memB)) tail.symm]

section EqualRoots

variable {left right left' right' : Hash256} {rest rest' : List Hash256}

/-- What is hashed for the levels above is hashed for the whole trees. -/
theorem not_collides_pairs
    (safe : ¬ Collides (preimages (left :: right :: rest) ++ preimages (left' :: right' :: rest'))) :
    ¬ Collides (preimages (pairs (left :: right :: rest)) ++
      preimages (pairs (left' :: right' :: rest'))) := by
  intro collides
  rw [preimages.eq_3 left, preimages.eq_3 left'] at safe
  exact safe (collides.mono (List.append_subset.mpr
    ⟨List.subset_append_of_subset_left _ (List.subset_append_right _ _),
      List.subset_append_of_subset_right _ (List.subset_append_right _ _)⟩))

theorem joined_mem_preimages {pair : Hash256 × Hash256}
    (mem : pair ∈ filled (twos (left :: right :: rest))) :
    joined pair ∈ preimages (left :: right :: rest) := by
  rw [preimages.eq_3]
  exact List.mem_append_left _ (List.mem_map_of_mem (mem_of_mem_filled mem))

/-- What two levels above agree on, the levels below agree on. -/
theorem filled_eq_of_filled_pairs_eq
    (safe : ¬ Collides (preimages (left :: right :: rest) ++ preimages (left' :: right' :: rest')))
    (same : filled (pairs (left :: right :: rest)) = filled (pairs (left' :: right' :: rest'))) :
    filled (left :: right :: rest) = filled (left' :: right' :: rest') := by
  rw [pairs_eq_map_twos, pairs_eq_map_twos, filled_map, filled_map] at same
  have row : filled (twos (left :: right :: rest)) = filled (twos (left' :: right' :: rest')) := by
    apply eq_of_map_eq _ same
    intro pair mem pair' mem' hashes
    exact joined_injective (eq_of_hash_eq safe
      (List.mem_append_left _ (joined_mem_preimages mem))
      (List.mem_append_right _ (joined_mem_preimages mem')) hashes)
  rw [filled, filled, row]

/-- A tree without its leaves is the upper part of another one only together with them. -/
theorem Nested.of_pairs
    (safe : ¬ Collides (preimages (left :: right :: rest) ++ preimages (left' :: right' :: rest')))
    (nested : Nested (pairs (left :: right :: rest)) (pairs (left' :: right' :: rest'))) :
    Nested (left :: right :: rest) (left' :: right' :: rest') := by
  cases nested with
  | empty leafless => simp [pairs] at leafless
  | row row mem same =>
    have below : ∃ l r more, l :: r :: more ∈ rows (left' :: right' :: rest') ∧
        row = pairs (l :: r :: more) := by
      rcases exists_row_below mem with rfl | ⟨l, r, more, there, eq⟩
      · exact ⟨left', right', rest', by rw [rows]; exact List.mem_cons_self, rfl⟩
      · exact ⟨l, r, more, by rw [rows]; exact List.mem_cons_of_mem _ there, eq⟩
    obtain ⟨l, r, more, there, rfl⟩ := below
    refine .row _ there (filled_eq_of_filled_pairs_eq (fun collides => safe ?_) same)
    exact collides.mono (List.append_subset.mpr ⟨List.subset_append_left _ _,
      List.subset_append_of_subset_right _ (preimages_subset_of_mem_rows there)⟩)

end EqualRoots

/-- From the top down, equal roots have equal rows until the leaves of one of the trees. -/
theorem nested_of_root_eq_of_ne_nil {level other : List Hash256} (nonempty : level ≠ [])
    (nonempty' : other ≠ []) (same : root level = root other)
    (safe : ¬ Collides (preimages level ++ preimages other)) :
    Nested level other ∨ Nested other level := by
  fun_induction root level generalizing other with
  | case1 => exact absurd rfl nonempty
  | case2 top => exact .inl (.row _ (root_mem_rows nonempty') (by rw [same]))
  | case3 left right rest ih =>
    match other with
    | [] => exact absurd rfl nonempty'
    | [top] =>
      rw [← root_cons_cons, root.eq_2] at same
      exact .inr (.row _ (root_mem_rows nonempty) (by rw [same]))
    | left' :: right' :: rest' =>
      rw [root_cons_cons] at same
      rcases ih (by simp [pairs]) (by simp [pairs]) same (not_collides_pairs safe) with
        nested | nested
      · exact .inl (nested.of_pairs safe)
      · have swapped : ¬ Collides (preimages (left' :: right' :: rest') ++
            preimages (left :: right :: rest)) := by
          intro collides
          exact safe (collides.mono (by simp))
        exact .inr (nested.of_pairs swapped)

theorem nested_of_root_eq {level other : List Hash256} (same : root level = root other)
    (safe : ¬ Collides (preimages level ++ preimages other)) :
    Nested level other ∨ Nested other level := by
  by_cases leafless : level = []
  · exact .inl (.empty leafless (by rw [← same, leafless, root]))
  by_cases leafless' : other = []
  · exact .inr (.empty leafless' (by rw [same, leafless', root]))
  exact nested_of_root_eq_of_ne_nil leafless leafless' same safe

end Merkle

namespace Block

theorem hasMerkleRoot_iff {block : Block} :
    block.hasMerkleRoot = true ↔
      Merkle.root (block.transactions.map Transaction.id) = block.header.merkleRoot := by
  rw [hasMerkleRoot, merkleRoot, beq_iff_eq]

/-! ### Three transactions -/

/-- A block with nothing but transactions and their root in the header. -/
def committing (transactions : List Transaction) : Block where
  header := ⟨1, .zero 32, .zero 32, merkleRoot transactions, 0, 0, 0, 0, .zero 20, 0, 0⟩
  transactions := transactions

theorem hasMerkleRoot_committing (transactions : List Transaction) :
    (committing transactions).hasMerkleRoot = true := hasMerkleRoot_iff.mpr rfl

/-- Two transactions whose identifiers, one after the other, are the encoding of a third one. -/
def leftLeaf : Transaction := ⟨2, [], [], 3508613441, none, none, none, none⟩

def rightLeaf : Transaction := ⟨4, [], [], 2040836748, none, none, none, none⟩

def parentLeaf : Transaction where
  version := 3066033587
  inputs := []
  outputs := [{
    value := 127562575810957829999495699374365296630
    tokenId := [0xa6]
    lockingScript := [0xfd, 0x08, 0xa2, 0x14, 0xc5, 0x38, 0x77, 0xd8, 0xb6, 0x9c, 0xb2, 0xc2, 0x9a,
      0x28, 0x78, 0x07, 0x06, 0x71, 0x92, 0xcb, 0xfa, 0xd5, 0xbc, 0x93, 0xb8, 0x8d, 0x24, 0x09,
      0x97, 0x81] }]
  lockTime := 3425123228
  memo := none
  dataClassName := none
  data := none
  dataSignature := none

theorem leftLeaf_id : leftLeaf.id.val =
    [0xb3, 0xf5, 0xbf, 0xb6, 0x00, 0x01, 0x10, 0x5f, 0xf7, 0xa8, 0x90, 0x6c, 0xc6, 0x20, 0xfa, 0xc6,
      0x4b, 0xbf, 0xdb, 0x34, 0xc9, 0x47, 0xf6, 0x01, 0xa6, 0x1e, 0xfd, 0x08, 0xa2, 0x14, 0xc5,
      0x38] := by
  decide +kernel

theorem rightLeaf_id : rightLeaf.id.val =
    [0x77, 0xd8, 0xb6, 0x9c, 0xb2, 0xc2, 0x9a, 0x28, 0x78, 0x07, 0x06, 0x71, 0x92, 0xcb, 0xfa, 0xd5,
      0xbc, 0x93, 0xb8, 0x8d, 0x24, 0x09, 0x97, 0x81, 0x9c, 0x3b, 0x27, 0xcc, 0x00, 0x00, 0x00,
      0x00] := by
  decide +kernel

theorem parentLeaf_id : parentLeaf.id = Merkle.combine leftLeaf.id rightLeaf.id := by
  have encoded : parentLeaf.encode = leftLeaf.id.val ++ rightLeaf.id.val := by
    rw [leftLeaf_id, rightLeaf_id]
    decide +kernel
  rw [Transaction.id, encoded, Merkle.combine]

theorem parentLeaf_id_val : parentLeaf.id.val =
    [0x4e, 0xbe, 0x9c, 0x56, 0x71, 0x7c, 0xef, 0x90, 0xb2, 0x49, 0xef, 0x62, 0x80, 0xd7, 0x54, 0xe1,
      0x36, 0xcf, 0xcb, 0xef, 0x55, 0x96, 0x24, 0xdb, 0x85, 0x32, 0x1f, 0x15, 0x8f, 0x52, 0x6d,
      0xa9] := by
  rw [parentLeaf_id, Merkle.combine, leftLeaf_id, rightLeaf_id]
  decide +kernel

/-- The node over two leaves that have changed places. -/
theorem combine_rightLeaf_leftLeaf : (Merkle.combine rightLeaf.id leftLeaf.id).val =
    [0xde, 0x35, 0x1b, 0xde, 0xca, 0x34, 0x2f, 0xf6, 0x99, 0x11, 0x7b, 0xcb, 0x36, 0x2f, 0xff, 0x79,
      0x7b, 0x89, 0xcf, 0x98, 0xf0, 0x3d, 0xa5, 0x4e, 0xe8, 0xb6, 0xf4, 0xe1, 0x42, 0x84, 0x7b,
      0x5b] := by
  rw [Merkle.combine, leftLeaf_id, rightLeaf_id]
  decide +kernel

/-- The node over the last of three leaves, paired with itself. -/
theorem combine_parentLeaf_parentLeaf : (Merkle.combine parentLeaf.id parentLeaf.id).val =
    [0x7b, 0x51, 0x03, 0x0e, 0x93, 0xbf, 0x46, 0xb1, 0x4d, 0x1c, 0x92, 0xc3, 0xef, 0xba, 0x30, 0x5d,
      0x5c, 0x4d, 0x18, 0x22, 0xb6, 0xc8, 0xb7, 0x14, 0x92, 0x83, 0xa6, 0x85, 0x5f, 0x4a, 0xfe,
      0x89] := by
  rw [Merkle.combine, parentLeaf_id_val]
  decide +kernel

theorem root_of_three_leaves :
    (Merkle.combine parentLeaf.id (Merkle.combine parentLeaf.id parentLeaf.id)).val =
    [0x0c, 0xa2, 0x0f, 0x69, 0x5b, 0x89, 0x74, 0x9b, 0xf0, 0x9e, 0xf4, 0x50, 0x70, 0xef, 0x62, 0xa1,
      0x11, 0xb4, 0x15, 0xe9, 0x41, 0x13, 0x70, 0x98, 0x6e, 0x46, 0x92, 0x4e, 0x7b, 0xc8, 0xa1,
      0xf2] := by
  rw [Merkle.combine, combine_parentLeaf_parentLeaf, parentLeaf_id_val]
  decide +kernel

/-- As long as no strings that are hashed for the two roots collide, a header notices another list of
transactions unless one of the two trees is the upper part of the other; and then it never does. -/
theorem header_commits_up_to_nesting (block : Block) (others : List Transaction)
    (committed : block.hasMerkleRoot = true) :
    let own := block.transactions.map Transaction.id
    let ids := others.map Transaction.id
    (¬ Merkle.Collides (Merkle.preimages own ++ Merkle.preimages ids) →
      ¬ (Merkle.Nested own ids ∨ Merkle.Nested ids own) →
      { block with transactions := others }.hasMerkleRoot = false) ∧
    ((Merkle.Nested own ids ∨ Merkle.Nested ids own) →
      { block with transactions := others }.hasMerkleRoot = true) := by
  intro own ids
  have ownRoot : Merkle.root own = block.header.merkleRoot := hasMerkleRoot_iff.mp committed
  refine ⟨fun safe apart => ?_, fun nested => hasMerkleRoot_iff.mpr ?_⟩
  · apply Bool.eq_false_iff.mpr
    intro accepted
    have theirRoot : Merkle.root ids = block.header.merkleRoot := hasMerkleRoot_iff.mp accepted
    exact apart (Merkle.nested_of_root_eq (ownRoot.trans theirRoot.symm) safe)
  · show Merkle.root ids = block.header.merkleRoot
    rcases nested with nested | nested
    · rw [← nested.root_eq, ownRoot]
    · rw [nested.root_eq, ownRoot]

/-- Two different leaves that change places are in neither tree the upper part of the other one. -/
theorem not_nested_swapped {left right : Hash256} (different : left ≠ right) :
    ¬ Merkle.Nested [left, right] [right, left] := by
  intro nested
  cases nested with
  | row row mem same =>
    have either : row = [right, left] ∨ row = [Merkle.combine right left] := by
      simpa [Merkle.rows, Merkle.pairs] using mem
    rcases either with rfl | rfl
    · simp [Merkle.filled, Merkle.twos, Merkle.flattened, different] at same
    · simp [Merkle.filled, Merkle.twos, Merkle.flattened] at same
  | empty leafless => cases leafless

/-- A repetition of the last of three transactions is not noticed, an exchange of two is. -/
theorem header_commits_up_to_nesting_leaves :
    let three := [leftLeaf, rightLeaf, parentLeaf]
    let four := three ++ [parentLeaf]
    let two := [leftLeaf, rightLeaf]
    let exchanged := [rightLeaf, leftLeaf]
    (committing three).hasMerkleRoot = true ∧
    three.map Transaction.id ≠ four.map Transaction.id ∧
    { committing three with transactions := four }.hasMerkleRoot = true ∧
    (committing two).hasMerkleRoot = true ∧
    ¬ Merkle.Collides (Merkle.preimages (two.map Transaction.id) ++
      Merkle.preimages (exchanged.map Transaction.id)) ∧
    { committing two with transactions := exchanged }.hasMerkleRoot = false := by
  intro three four two exchanged
  have longer : three.map Transaction.id ≠ four.map Transaction.id :=
    fun same => by simpa [three, four] using congrArg List.length same
  have repeated : Merkle.Nested (three.map Transaction.id) (four.map Transaction.id) :=
    .row (four.map Transaction.id) (by simp [three, four, Merkle.rows])
      (by simp [three, four, Merkle.filled, Merkle.twos])
  have other : leftLeaf.id ≠ rightLeaf.id := by
    intro same
    simp [Subtype.ext_iff, leftLeaf_id, rightLeaf_id] at same
  have hashes : (Merkle.preimages (two.map Transaction.id) ++
      Merkle.preimages (exchanged.map Transaction.id)).map Hash.sha256d =
        [parentLeaf.id, Merkle.combine rightLeaf.id leftLeaf.id] := by
    simp [two, exchanged, Merkle.preimages, Merkle.pairs, Merkle.twos, Merkle.joined,
      Merkle.combine, parentLeaf_id]
  have safe : ¬ Merkle.Collides (Merkle.preimages (two.map Transaction.id) ++
      Merkle.preimages (exchanged.map Transaction.id)) := by
    apply Merkle.not_collides_of_nodup
    apply List.Nodup.of_map Subtype.val
    rw [hashes, List.map_cons, List.map_cons, List.map_nil, parentLeaf_id_val,
      combine_rightLeaf_leftLeaf]
    decide
  refine ⟨hasMerkleRoot_committing three, longer, ?_, hasMerkleRoot_committing two, safe, ?_⟩
  · exact (header_commits_up_to_nesting _ four (hasMerkleRoot_committing three)).2 (.inl repeated)
  · apply (header_commits_up_to_nesting _ exchanged (hasMerkleRoot_committing two)).1 safe
    rintro (nested | nested)
    · exact not_nested_swapped other nested
    · exact not_nested_swapped other.symm nested

/-- Three transactions and a repetition of the last one, and two transactions and the one that
consists of their identifiers: nothing collides, and the headers do not tell them apart. -/
theorem header_commits_to_two_lists :
    let three := [leftLeaf, rightLeaf, parentLeaf]
    let four := three ++ [parentLeaf]
    let two := [leftLeaf, rightLeaf]
    let one := [parentLeaf]
    ((committing three).hasMerkleRoot = true ∧
      three.map Transaction.id ≠ four.map Transaction.id ∧
      { committing three with transactions := four }.hasMerkleRoot = true ∧
      ¬ Merkle.Collides (Merkle.preimages (three.map Transaction.id) ++
        Merkle.preimages (four.map Transaction.id))) ∧
    (committing two).hasMerkleRoot = true ∧
      two.map Transaction.id ≠ one.map Transaction.id ∧
      { committing two with transactions := one }.hasMerkleRoot = true ∧
      ¬ Merkle.Collides (Merkle.preimages (two.map Transaction.id) ++
        Merkle.preimages (one.map Transaction.id)) := by
  intro three four two one
  have strings : Merkle.preimages (four.map Transaction.id) =
      Merkle.preimages (three.map Transaction.id) := by
    simp [three, four, Merkle.preimages, Merkle.pairs, Merkle.twos]
  have hashes : (Merkle.preimages (three.map Transaction.id)).map Hash.sha256d =
      [parentLeaf.id, Merkle.combine parentLeaf.id parentLeaf.id,
        Merkle.combine parentLeaf.id (Merkle.combine parentLeaf.id parentLeaf.id)] := by
    simp [three, Merkle.preimages, Merkle.pairs, Merkle.twos, Merkle.joined, Merkle.combine,
      parentLeaf_id]
  have nodup : ((Merkle.preimages (three.map Transaction.id)).map Hash.sha256d).Nodup := by
    apply List.Nodup.of_map Subtype.val
    rw [hashes, List.map_cons, List.map_cons, List.map_cons, List.map_nil, parentLeaf_id_val,
      combine_parentLeaf_parentLeaf, root_of_three_leaves]
    decide
  refine ⟨⟨?_, ?_, ?_, ?_⟩, ?_, ?_, ?_, ?_⟩
  · exact hasMerkleRoot_committing _
  · exact fun same => by simpa [three, four] using congrArg List.length same
  · apply hasMerkleRoot_iff.mpr
    simp [three, four, committing, merkleRoot, Merkle.pairs, Merkle.root]
  · rw [strings]
    intro collides
    exact Merkle.not_collides_of_nodup nodup (collides.mono (by simp))
  · exact hasMerkleRoot_committing _
  · exact fun same => by simpa [two, one] using congrArg List.length same
  · apply hasMerkleRoot_iff.mpr
    simp [one, two, committing, merkleRoot, Merkle.pairs, Merkle.root, parentLeaf_id]
  · apply Merkle.not_collides_of_nodup
    simp [one, two, Merkle.preimages, Merkle.pairs, Merkle.twos]

end Block

end TokenLedger
