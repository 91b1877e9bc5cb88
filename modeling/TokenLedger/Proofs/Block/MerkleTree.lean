import TokenLedger.Proofs.Block.Commitment

/-!
# The tree over a list of transactions

The root is that of the tree as it is defined, place by place: a single identifier is its own root,
and above two or more stand the hashes of each place and its right neighbour. Trees over lists of
one length have the same shape, so from the root down their rows agree as long as no two strings
that are hashed collide. A header therefore notices every change, exchange or new order of its
transactions that keeps their number.
-/

namespace TokenLedger

namespace Merkle

/-! ### The tree by places -/

/-- The level above another one, place by place: the hash of an element and its right neighbour,
or of the element twice where it has none. -/
structure IsLevelAbove (upper level : List Hash256) : Prop where
  length : upper.length = (level.length + 1) / 2
  node : ∀ j left, level[2 * j]? = some left →
    upper[j]? = some (Hash.sha256d (left.val ++ (level[2 * j + 1]?.getD left).val))

/-- The root of the tree over a level. -/
inductive IsRoot : List Hash256 → Hash256 → Prop where
  | leaf (top : Hash256) : IsRoot [top] top
  | node {level upper : List Hash256} {top : Hash256} (several : 2 ≤ level.length)
      (above : IsLevelAbove upper level) (root : IsRoot upper top) : IsRoot level top

theorem pairs_isLevelAbove (level : List Hash256) : IsLevelAbove (pairs level) level := by
  refine ⟨pairs_length level, ?_⟩
  fun_induction pairs level with
  | case1 =>
    intro j left found
    cases found
  | case2 last =>
    intro j left found
    cases j with
    | zero =>
      cases found
      rfl
    | succ j => simp [Nat.mul_succ] at found
  | case3 first second rest ih =>
    intro j left found
    cases j with
    | zero =>
      cases found
      rfl
    | succ j =>
      -- Two places further on in the level is one further on above.
      have here : 2 * (j + 1) = 2 * j + 1 + 1 := by omega
      rw [here, List.getElem?_cons_succ, List.getElem?_cons_succ] at found
      rw [here, List.getElem?_cons_succ, List.getElem?_cons_succ, List.getElem?_cons_succ]
      exact ih j left found

/-- There is one level above another one only. -/
theorem IsLevelAbove.eq_pairs {upper level : List Hash256} (above : IsLevelAbove upper level) :
    upper = pairs level := by
  have ours := pairs_isLevelAbove level
  apply List.ext_getElem?
  intro j
  by_cases inside : 2 * j < level.length
  · have found : level[2 * j]? = some level[2 * j] := List.getElem?_eq_getElem inside
    rw [above.node j _ found, ours.node j _ found]
  · have short : (level.length + 1) / 2 ≤ j := by omega
    rw [List.getElem?_eq_none (by rw [above.length]; exact short),
      List.getElem?_eq_none (by rw [ours.length]; exact short)]

theorem exists_eq_cons_cons {level : List Hash256} (several : 2 ≤ level.length) :
    ∃ left right rest, level = left :: right :: rest := by
  cases level with
  | nil => cases several
  | cons left rest =>
    cases rest with
    | nil => cases Nat.le_of_succ_le_succ several
    | cons right rest => exact ⟨left, right, rest, rfl⟩

/-- Climbing from level to level ends at the root of the tree, which is the only one. -/
theorem isRoot_iff {level : List Hash256} (nonempty : level ≠ []) {top : Hash256} :
    IsRoot level top ↔ top = root level := by
  constructor
  · intro isRoot
    induction isRoot with
    | leaf top => rw [root]
    | node several above _ ih =>
      obtain rfl := above.eq_pairs
      obtain ⟨left, right, rest, rfl⟩ := exists_eq_cons_cons several
      rw [root_cons_cons]
      exact ih (by simp [pairs])
  · rintro rfl
    fun_induction root level with
    | case1 => exact absurd rfl nonempty
    | case2 top => exact .leaf top
    | case3 left right rest ih =>
      exact .node (Nat.le_add_left 2 rest.length) (pairs_isLevelAbove _) (ih (by simp [pairs]))

/-! ### Trees of one shape -/

/-- Levels of one length under the same hashes are the same. -/
theorem eq_of_pairs_eq {level other : List Hash256} (lengths : level.length = other.length)
    (injective : ∀ pair ∈ twos level, ∀ pair' ∈ twos other,
      Hash.sha256d (joined pair) = Hash.sha256d (joined pair') → pair = pair')
    (same : pairs level = pairs other) : level = other := by
  rw [pairs_eq_map_twos, pairs_eq_map_twos] at same
  have row : twos level = twos other := eq_of_map_eq injective same
  have front := prefix_flattened_twos level
  rw [row] at front
  exact (List.prefix_of_prefix_length_le front (prefix_flattened_twos other)
    (Nat.le_of_eq lengths)).eq_of_length lengths

/-- From the root down, trees over lists of one length agree row by row. -/
theorem eq_of_root_eq {level other : List Hash256} (lengths : level.length = other.length)
    (same : root level = root other) (safe : ¬ Collides (preimages level ++ preimages other)) :
    level = other := by
  fun_induction root level generalizing other with
  | case1 => exact (List.length_eq_zero_iff.mp lengths.symm).symm
  | case2 top =>
    obtain ⟨top', rfl⟩ := List.length_eq_one_iff.mp lengths.symm
    rw [same, root]
  | case3 left right rest ih =>
    obtain ⟨left', right', rest', rfl⟩ :=
      exists_eq_cons_cons (Nat.le_trans (Nat.le_add_left 2 rest.length) (Nat.le_of_eq lengths))
    rw [root_cons_cons] at same
    have above : pairs (left :: right :: rest) = pairs (left' :: right' :: rest') :=
      ih (by rw [pairs_length, pairs_length, lengths]) same (not_collides_pairs safe)
    refine eq_of_pairs_eq lengths (fun pair mem pair' mem' hashes => ?_) above
    rw [preimages.eq_3 left, preimages.eq_3 left'] at safe
    exact joined_injective (eq_of_hash_eq safe
      (List.mem_append_left _ (List.mem_append_left _ (List.mem_map_of_mem mem)))
      (List.mem_append_right _ (List.mem_append_left _ (List.mem_map_of_mem mem'))) hashes)

end Merkle

namespace Block

/-- The root is that of the tree over the identifiers. Lists of one length that have the same root
are the same, unless two of the strings of 64 bytes that are hashed for them collide; so a header
notices all other transactions in the same number. -/
theorem root_identifies_equally_many (transactions : List Transaction) :
    (transactions ≠ [] → ∀ top,
      Merkle.IsRoot (transactions.map Transaction.id) top ↔ top = merkleRoot transactions) ∧
    ∀ others : List Transaction, others.length = transactions.length →
      let ids := transactions.map Transaction.id
      let otherIds := others.map Transaction.id
      let strings := Merkle.preimages ids ++ Merkle.preimages otherIds
      (merkleRoot transactions = merkleRoot others →
        ids = otherIds ∨ ∃ x ∈ strings, ∃ y ∈ strings, x.length = 64 ∧ y.length = 64 ∧ x ≠ y ∧
          Hash.sha256d x = Hash.sha256d y) ∧
      ∀ header : Header, Block.hasMerkleRoot ⟨header, transactions⟩ = true →
        ids ≠ otherIds → ¬ Merkle.Collides strings →
        Block.hasMerkleRoot ⟨header, others⟩ = false := by
  constructor
  · intro nonempty top
    exact Merkle.isRoot_iff (by simpa using nonempty)
  intro others lengths ids otherIds strings
  have idLengths : ids.length = otherIds.length := by
    rw [List.length_map, List.length_map, lengths]
  have length_of_mem {x : Bytes} (mem : x ∈ strings) : x.length = 64 :=
    (List.mem_append.mp mem).elim Merkle.length_of_mem_preimages Merkle.length_of_mem_preimages
  have equal_or_collides (same : merkleRoot transactions = merkleRoot others) :
      ids = otherIds ∨ Merkle.Collides strings := by
    by_cases safe : Merkle.Collides strings
    · exact .inr safe
    · exact .inl (Merkle.eq_of_root_eq idLengths same safe)
  refine ⟨fun same => ?_, fun header committed different safe => ?_⟩
  · refine (equal_or_collides same).imp_right fun collides => ?_
    obtain ⟨x, memX, y, memY, different, hashes⟩ := collides
    exact ⟨x, memX, y, memY, length_of_mem memX, length_of_mem memY, different, hashes⟩
  · apply Bool.eq_false_iff.mpr
    intro accepted
    have roots : merkleRoot transactions = merkleRoot others :=
      (hasMerkleRoot_iff.mp committed).trans (hasMerkleRoot_iff.mp accepted).symm
    exact (equal_or_collides roots).elim different safe

/-- The node over the two leaves in the other order. -/
theorem combine_rightLeaf_leftLeaf_ne :
    Merkle.combine rightLeaf.id leftLeaf.id ≠ Merkle.combine leftLeaf.id rightLeaf.id := by
  intro same
  have hashes := congrArg Subtype.val same
  rw [← parentLeaf_id, parentLeaf_id_val, Merkle.combine, leftLeaf_id, rightLeaf_id] at hashes
  revert hashes
  decide +kernel

/-- Two transactions, and the same two in the other order. -/
theorem root_identifies_equally_many_exchanged :
    let both := [leftLeaf, rightLeaf]
    let exchanged := [rightLeaf, leftLeaf]
    Merkle.IsRoot (both.map Transaction.id) parentLeaf.id ∧
      (committing both).hasMerkleRoot = true ∧
      both.map Transaction.id ≠ exchanged.map Transaction.id ∧
      Block.hasMerkleRoot ⟨(committing both).header, exchanged⟩ = false := by
  intro both exchanged
  have different : both.map Transaction.id ≠ exchanged.map Transaction.id := by
    intro same
    simp [both, exchanged, Subtype.ext_iff, leftLeaf_id, rightLeaf_id] at same
  have safe : ¬ Merkle.Collides (Merkle.preimages (both.map Transaction.id) ++
      Merkle.preimages (exchanged.map Transaction.id)) := by
    apply Merkle.not_collides_of_nodup
    have apart : Hash.sha256d (leftLeaf.id.val ++ rightLeaf.id.val) ≠
        Hash.sha256d (rightLeaf.id.val ++ leftLeaf.id.val) := combine_rightLeaf_leftLeaf_ne.symm
    simpa [both, exchanged, Merkle.preimages, Merkle.pairs, Merkle.twos, Merkle.joined] using apart
  have root : merkleRoot both = parentLeaf.id := by
    simp [both, merkleRoot, Merkle.pairs, Merkle.root, parentLeaf_id]
  obtain ⟨isRoot_iff, identifies⟩ := root_identifies_equally_many both
  exact ⟨(isRoot_iff (by simp [both]) _).mpr root.symm, hasMerkleRoot_committing both, different,
    (identifies exchanged rfl).2 _ (hasMerkleRoot_committing both) different safe⟩

end Block

end TokenLedger
