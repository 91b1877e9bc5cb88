import TokenLedger.Json.Record
import TokenLedger.Proofs.Json.RoundTrip

/-!
# Records with fields left out

An object with plain keys is read as a record of its members. In what order they stand makes no
difference to a field, and one that is not there has its default.
-/

namespace TokenLedger.Json

/-- The object has the members of a full one, in any order, except those with omitted keys. -/
def LacksOnly (given : Json) (omitted : List Literal) (full : Json) : Prop :=
  ∃ kept members, given = object kept ∧ full = object members ∧
    kept.Perm (members.filter fun member => !omitted.contains member.1)

theorem lacksOnly_nil (members : List (Literal × Json)) :
    (object members).LacksOnly [] (object members) :=
  ⟨members, members, rfl, rfl, by simp⟩

/-- What is left of a value with a text has one. -/
theorem LacksOnly.isWritten {given full : Json} {omitted : List Literal}
    (lacks : given.LacksOnly omitted full) (written : IsWritten full) : IsWritten given := by
  obtain ⟨kept, members, rfl, rfl, perm⟩ := lacks
  have sub : ∀ member ∈ kept, member ∈ members :=
    fun member mem => List.mem_of_mem_filter (perm.mem_iff.mp mem)
  cases written with
  | object keys written =>
    exact .object (fun member mem => keys member (sub member mem))
      fun member mem => written member (sub member mem)

/-! ### Reading records -/

section Members

variable {members : List (Literal × Json)}

theorem mapM_eq_some_of_forall {α : Type} {f : α → Option α} {items : List α}
    (kept : ∀ item ∈ items, f item = some item) : items.mapM f = some items := by
  induction items with
  | nil => rfl
  | cons item items ih =>
    obtain ⟨first, kept⟩ := List.forall_mem_cons.mp kept
    rw [List.mapM_cons, first, ih kept]
    rfl

theorem record?_object {names : List Literal}
    (plain : ∀ member ∈ members, member.1.all isPlain = true)
    (known : ∀ member ∈ members, member.1 ∈ names) (distinct : (members.map Prod.fst).Nodup) :
    record? names (object members) = some members := by
  have all : members.filter (fun member => names.contains member.1) = members :=
    List.filter_eq_self.mpr fun member mem => List.contains_iff_mem.mpr (known member mem)
  have read : members.mapM (fun member => (unescape? member.1).map fun key => (key, member.2)) =
      some members :=
    mapM_eq_some_of_forall fun member mem => by
      rw [unescape?_of_all_isPlain (plain member mem), Option.map_some]
  have guarded : (guard (members.map Prod.fst).Nodup : Option Unit) = some () := if_pos distinct
  calc
    record? names (object members) =
      (members.mapM fun member => (unescape? member.1).map fun key => (key, member.2)).bind
        fun members =>
          let fields := members.filter fun member => names.contains member.1
          (guard (fields.map Prod.fst).Nodup : Option Unit).bind fun _ => some fields := rfl
    _ = (guard (members.map Prod.fst).Nodup : Option Unit).bind fun _ => some members := by
      rw [read, Option.bind_some, all]
    _ = some members := by rw [guarded, Option.bind_some]

/-- A field that is given once has the value that is given. -/
theorem lookup_eq_some_iff_mem (distinct : (members.map Prod.fst).Nodup) {name : Literal}
    {value : Json} : members.lookup name = some value ↔ (name, value) ∈ members := by
  induction members with
  | nil => simp
  | cons member members ih =>
    obtain ⟨key, first⟩ := member
    rw [List.map_cons, List.nodup_cons] at distinct
    by_cases same : name = key
    · subst same
      have absent : (name, value) ∉ members :=
        fun mem => distinct.1 (List.mem_map.mpr ⟨_, mem, rfl⟩)
      simp [absent, eq_comm]
    · simp [List.lookup_cons, beq_false_of_ne same, same, ih distinct.2]

end Members

/-- A record is read from an object that lacks some of its fields, and those have their
defaults. -/
theorem LacksOnly.record? {given : Json} {omitted : List Literal} {members : List (Literal × Json)}
    (lacks : given.LacksOnly omitted (object members)) (names : List Literal)
    (named : members.map Prod.fst = names) (plain : names.all (·.all isPlain) = true)
    (distinct : names.Nodup) :
    ∃ record : Record, given.record? names = some record ∧
      ∀ {α : Type} (name : Literal) (default : α) {value : Json} {read? : Json → Option α}
        {content : α}, (name, value) ∈ members → read? value = some content →
        record.field? name default read? = some (if name ∈ omitted then default else content) := by
  obtain ⟨kept, full, rfl, same, perm⟩ := lacks
  cases same
  subst named
  have name_mem : ∀ member ∈ kept, member.1 ∈ members.map Prod.fst := fun member mem =>
    List.mem_map_of_mem (List.mem_of_mem_filter (perm.mem_iff.mp mem))
  have kept_distinct : (kept.map Prod.fst).Nodup :=
    (perm.map Prod.fst).nodup_iff.mpr (distinct.sublist (List.filter_sublist.map Prod.fst))
  refine ⟨kept, record?_object
    (fun member mem => List.all_eq_true.mp plain _ (name_mem member mem)) name_mem
    kept_distinct, ?_⟩
  intro α name default value read? content listed reads
  by_cases out : name ∈ omitted
  · have absent : kept.lookup name = none := by
      rw [List.lookup_eq_none_iff]
      intro member mem
      have stays := (List.mem_filter.mp (perm.mem_iff.mp mem)).2
      have other : name ≠ member.1 := by rintro rfl; simp [out] at stays
      simpa using other
    rw [Record.field?, absent, if_pos out]
  · have present : (name, value) ∈ kept :=
      perm.mem_iff.mpr (List.mem_filter.mpr ⟨listed, by simpa using out⟩)
    have found := (lookup_eq_some_iff_mem kept_distinct).mpr present
    rw [Record.field?, found, if_neg out]
    exact reads

end TokenLedger.Json
