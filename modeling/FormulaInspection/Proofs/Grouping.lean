import FormulaInspection.Proofs.TypeEquality

/-!
Choices between choices. However the types of a choice are grouped, opening the groups gives the same
members in the same order, so that nested choices have the type of one choice between all of them.
-/

namespace FormulaInspection.Ty

section

variable {seen types : List Ty} {ty : Ty}

theorem any_same_addNew {earlier : Ty}
    (present : seen.any (fun other => other.same ty) ∨ earlier.same ty) :
    (addNew seen earlier).any fun other => other.same ty := by
  unfold addNew
  split
  · rename_i known
    rcases present with inSeen | equal
    · exact inSeen
    · -- The type that stands for `earlier` is equal to whatever `earlier` is equal to.
      obtain ⟨other, member, same⟩ := List.any_eq_true.mp known
      exact List.any_eq_true.mpr ⟨other, member, same_trans same equal⟩
  · rw [List.any_append, Bool.or_eq_true]
    simpa using present

theorem any_same_foldl_addNew
    (present : seen.any (fun other => other.same ty) ∨ types.any fun other => other.same ty) :
    (types.foldl addNew seen).any fun other => other.same ty := by
  induction types generalizing seen with
  | nil => simpa using present
  | cons first rest ih =>
      rw [List.any_cons, Bool.or_eq_true] at present
      refine ih ?_
      rcases present with inSeen | here | later
      · exact Or.inl (any_same_addNew (Or.inl inSeen))
      · exact Or.inl (any_same_addNew (Or.inr here))
      · exact Or.inr later

theorem foldl_addNew_addNew (seen group : List Ty) (ty : Ty) :
    (addNew group ty).foldl addNew seen = addNew (group.foldl addNew seen) ty := by
  by_cases known : group.any fun other => other.same ty
  · have stillKnown := @any_same_foldl_addNew seen group ty (Or.inr known)
    rw [addNew, if_pos known, addNew, if_pos stillKnown]
  · rw [addNew, if_neg known, List.foldl_append, List.foldl_cons, List.foldl_nil]

theorem foldl_addNew_distinct (seen types : List Ty) :
    (distinct types).foldl addNew seen = types.foldl addNew seen := by
  have gathered : ∀ group, (types.foldl addNew group).foldl addNew seen =
      types.foldl addNew (group.foldl addNew seen) := by
    induction types with
    | nil => exact fun _ => rfl
    | cons ty rest ih =>
        intro group
        rw [List.foldl_cons, List.foldl_cons, ih, foldl_addNew_addNew]
  exact gathered []

theorem distinct_flatMap_distinct (groups : List (List Ty)) :
    distinct (groups.flatMap distinct) = distinct groups.flatten := by
  have gathered : ∀ seen, (groups.flatMap distinct).foldl addNew seen =
      groups.flatten.foldl addNew seen := by
    induction groups with
    | nil => exact fun _ => rfl
    | cons group rest ih =>
        intro seen
        rw [List.flatMap_cons, List.flatten_cons, List.foldl_append, List.foldl_append,
          foldl_addNew_distinct, ih]
  exact gathered []

theorem mem_foldl_addNew (member : ty ∈ seen) : ty ∈ types.foldl addNew seen := by
  induction types generalizing seen with
  | nil => exact member
  | cons first rest ih =>
      refine ih ?_
      unfold addNew
      split
      · exact member
      · exact List.mem_append_left _ member

theorem distinct_ne_nil (some : types ≠ []) : distinct types ≠ [] := by
  obtain ⟨first, rest, rfl⟩ := List.exists_cons_of_ne_nil some
  have kept : first ∈ rest.foldl addNew [first] := mem_foldl_addNew (List.mem_singleton_self first)
  exact List.ne_nil_of_mem kept

end

/-- The type is no union, or one of a level: it has members, and none of them is a union. -/
def Flat (ty : Ty) : Prop :=
  ∀ members, ty.unionMembers? = some members →
    members ≠ [] ∧ ∀ member ∈ members, member.unionMembers? = none

variable {types : List Ty} {ty : Ty}

theorem alternatives_eq_singleton (plain : ty.unionMembers? = none) : ty.alternatives = [ty] := by
  cases ty with
  | union _ _ => cases plain
  | _ => rfl

theorem Flat.alternatives (flat : ty.Flat) :
    ty.alternatives ≠ [] ∧ ∀ alternative ∈ ty.alternatives, alternative.unionMembers? = none := by
  cases members : ty.unionMembers? with
  | none => simp [alternatives_eq_singleton members, members]
  | some _ =>
      cases ty with
      | union _ _ => exact flat _ rfl
      | _ => cases members

theorem alternatives_oneOf (some : types ≠ []) (flat : ∀ ty ∈ types, ty.Flat) :
    (oneOf types).alternatives = distinct (types.flatMap alternatives) := by
  obtain ⟨first, rest, rfl⟩ := List.exists_cons_of_ne_nil some
  have opened : distinct ((first :: rest).flatMap Ty.alternatives) ≠ [] := by
    refine distinct_ne_nil ?_
    rw [List.flatMap_cons]
    exact List.append_ne_nil_of_left_ne_nil (flat first List.mem_cons_self).alternatives.1 _
  have plain : ∀ ty ∈ distinct ((first :: rest).flatMap Ty.alternatives), ty.unionMembers? = none := by
    intro alternative member
    have origin := (foldl_addNew List.Pairwise.nil).2 alternative member
    obtain ⟨ty, inTypes, isAlternative⟩ := List.mem_flatMap.mp (origin.resolve_left List.not_mem_nil)
    exact (flat ty inTypes).alternatives.2 alternative isAlternative
  unfold oneOf
  generalize distinct ((first :: rest).flatMap Ty.alternatives) = members at opened plain
  split
  · exact absurd rfl opened
  · exact alternatives_eq_singleton (plain _ (List.mem_singleton_self _))
  · rfl

theorem oneOf_map_oneOf {groups : List (List Ty)} (some : ∀ group ∈ groups, group ≠ [])
    (flat : ∀ group ∈ groups, ∀ ty ∈ group, ty.Flat) :
    oneOf (groups.map oneOf) = oneOf groups.flatten := by
  have opened : (groups.map oneOf).flatMap alternatives =
      (groups.map (·.flatMap alternatives)).flatMap distinct := by
    rw [List.flatMap_map, List.flatMap_map]
    exact List.flatMap_congr fun group member =>
      alternatives_oneOf (some group member) (flat group member)
  have members : distinct ((groups.map oneOf).flatMap alternatives) =
      distinct (groups.flatten.flatMap alternatives) := by
    rw [opened, distinct_flatMap_distinct, ← List.flatMap_id, ← List.flatMap_id,
      List.flatMap_assoc, List.flatMap_map]
    rfl
  rw [oneOf, members]
  rfl

/-- A choice between two choices, each of them between some types, is the choice between all those
types: the same members in the same order, and the same nullability. -/
theorem oneOf_grouping {xs ys : List Ty} (someLeft : xs ≠ []) (someRight : ys ≠ [])
    (flat : ∀ ty ∈ xs ++ ys, ty.Flat) :
    oneOf [oneOf xs, oneOf ys] = oneOf (xs ++ ys) ∧ oneOf [oneOf xs] = oneOf xs := by
  obtain ⟨flatLeft, flatRight⟩ := List.forall_mem_append.mp flat
  constructor
  · have grouped := @oneOf_map_oneOf [xs, ys] (by simp [someLeft, someRight])
      (by simpa using ⟨flatLeft, flatRight⟩)
    simpa using grouped
  · have grouped := @oneOf_map_oneOf [xs] (by simp [someLeft]) (by simpa using flatLeft)
    simpa using grouped

def firstGroup : List Ty :=
  [.union [.record [("a", .of .number), ("b", .of .text)] false true, .of .text] false, .of .text]

def secondGroup : List Ty :=
  [.record [("b", .of .text), ("a", .of .number)] false true, .of .logical]

theorem firstGroup_grouping :
    oneOf [oneOf firstGroup, oneOf secondGroup] =
        .union [.record [("a", .of .number), ("b", .of .text)] false true, .of .text, .of .logical]
          true ∧
      oneOf [oneOf firstGroup] = oneOf firstGroup := by
  have flat : ∀ ty ∈ firstGroup ++ secondGroup, ty.Flat := by
    simp [firstGroup, secondGroup, Flat, unionMembers?, of]
  obtain ⟨pair, single⟩ := @oneOf_grouping firstGroup secondGroup (by simp [firstGroup])
    (by simp [secondGroup]) flat
  exact ⟨pair.trans rfl, single⟩

end FormulaInspection.Ty
