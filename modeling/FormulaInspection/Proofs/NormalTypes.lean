import FormulaInspection.Proofs.NameMap
import FormulaInspection.Ty.Declared
import FormulaInspection.Ty.Elimination
import FormulaInspection.Ty.Operator

/-!
Types in normal form: wherever a union occurs in them, it is a real choice between types that are no
unions and that all differ. Every operation on types keeps the normal form.
-/

namespace FormulaInspection.Ty

def parts : Ty → List Ty
  | .primitive .. => []
  | .union members _ => members
  | .function _ result _ => [result]
  | .list elements _ => elements
  | .record fields _ _ | .table fields _ _ | .recordType fields _ _ | .tableType fields _ _ =>
    fields.map (·.2)
  | .listType item _ => [item]
  | .typeValue denoted _ => [denoted]

structure ProperChoice (members : List Ty) : Prop where
  several : 2 ≤ members.length
  flat : ∀ member ∈ members, member.unionMembers? = none
  distinct : members.Pairwise fun left right => left.same right = false

inductive Normal : Ty → Prop
  | intro {ty : Ty} : (∀ members, ty.unionMembers? = some members → ProperChoice members) →
      (∀ part ∈ ty.parts, Normal part) → Normal ty

def NormalFields (fields : List (String × Ty)) : Prop :=
  ∀ field ∈ fields, field.2.Normal

theorem Normal.parts {ty part : Ty} (normal : ty.Normal) (member : part ∈ ty.parts) :
    part.Normal := by
  obtain ⟨_, normalParts⟩ := normal
  exact normalParts part member

theorem Normal.choice {members : List Ty} {isNullable : Bool}
    (normal : (Ty.union members isNullable).Normal) : ProperChoice members := by
  obtain ⟨choices, _⟩ := normal
  exact choices members rfl

theorem normal_of_parts {ty : Ty} (noUnion : ty.unionMembers? = none)
    (normalParts : ∀ part ∈ ty.parts, part.Normal) : ty.Normal := by
  refine ⟨?_, normalParts⟩
  intro members isUnion
  rw [noUnion] at isUnion
  cases isUnion

theorem normal_primitive (kind : TypeKind) (isNullable : Bool) :
    (Ty.primitive kind isNullable).Normal :=
  normal_of_parts rfl (by simp [parts])

theorem normal_of (kind : TypeKind) : (Ty.of kind).Normal :=
  normal_primitive kind _

theorem normal_list {elements : List Ty} (normal : ∀ element ∈ elements, element.Normal)
    (isNullable : Bool) : (Ty.list elements isNullable).Normal :=
  normal_of_parts rfl normal

theorem normal_of_fields {ty : Ty} {fields : List (String × Ty)} (normal : NormalFields fields)
    (noUnion : ty.unionMembers? = none) (made : ty.parts = fields.map (·.2)) : ty.Normal := by
  refine normal_of_parts noUnion ?_
  intro part member
  rw [made] at member
  obtain ⟨field, inFields, rfl⟩ := List.mem_map.mp member
  exact normal field inFields

theorem Normal.fields {ty : Ty} {fields : List (String × Ty)} (normal : ty.Normal)
    (made : ty.parts = fields.map (·.2)) : NormalFields fields := by
  intro field member
  have isPart : field.2 ∈ ty.parts := by
    rw [made]
    exact List.mem_map_of_mem member
  exact normal.parts isPart

theorem withNullable_parts (ty : Ty) (isNullable : Bool) :
    (ty.withNullable isNullable).parts = ty.parts := by
  cases ty <;> rfl

theorem withNullable_unionMembers? (ty : Ty) (isNullable : Bool) :
    (ty.withNullable isNullable).unionMembers? = ty.unionMembers? := by
  cases ty <;> rfl

theorem Normal.withNullable {ty : Ty} (normal : ty.Normal) (isNullable : Bool) :
    (ty.withNullable isNullable).Normal := by
  obtain ⟨choices, normalParts⟩ := normal
  constructor
  · rw [withNullable_unionMembers?]
    exact choices
  · rw [withNullable_parts]
    exact normalParts

theorem Normal.alternatives {ty alternative : Ty} (normal : ty.Normal)
    (member : alternative ∈ ty.alternatives) :
    alternative.Normal ∧ alternative.unionMembers? = none := by
  cases ty with
  | union members isNullable => exact ⟨normal.parts member, normal.choice.flat alternative member⟩
  | _ =>
      obtain rfl := List.mem_singleton.mp member
      exact ⟨normal, rfl⟩

theorem mem_addNew {seen : List Ty} {ty member : Ty} (inside : member ∈ addNew seen ty) :
    member ∈ seen ∨ member = ty := by
  unfold addNew at inside
  split at inside
  · exact Or.inl inside
  · simpa using inside

theorem addNew_pairwise {seen : List Ty} (ty : Ty)
    (distinct : seen.Pairwise fun left right => left.same right = false) :
    (addNew seen ty).Pairwise fun left right => left.same right = false := by
  unfold addNew
  split
  · exact distinct
  · rename_i fresh
    refine List.pairwise_append.mpr ⟨distinct, List.pairwise_singleton _ _, ?_⟩
    intro other inSeen last isLast
    obtain rfl := List.mem_singleton.mp isLast
    by_contra equal
    exact fresh (List.any_eq_true.mpr ⟨other, inSeen, by simpa using equal⟩)

theorem foldl_addNew {seen types : List Ty}
    (distinct : seen.Pairwise fun left right => left.same right = false) :
    (types.foldl addNew seen).Pairwise (fun left right => left.same right = false) ∧
      ∀ member ∈ types.foldl addNew seen, member ∈ seen ∨ member ∈ types := by
  induction types generalizing seen with
  | nil => exact ⟨distinct, fun member inside => Or.inl inside⟩
  | cons ty rest ih =>
      obtain ⟨pairwise, origin⟩ := ih (addNew_pairwise ty distinct)
      refine ⟨pairwise, ?_⟩
      intro member inside
      rcases origin member inside with old | new
      · rcases mem_addNew old with older | rfl
        · exact Or.inl older
        · exact Or.inr (by simp)
      · exact Or.inr (List.mem_cons_of_mem _ new)

/-- What is left of normal types, once unions are opened and repetitions dropped, is fit to be a
union again: a member of a union is no union, so one level of opening is enough. -/
theorem oneOf_normal {types : List Ty} (normal : ∀ ty ∈ types, ty.Normal) :
    (oneOf types).Normal := by
  obtain ⟨distinct, origin⟩ := @foldl_addNew [] (types.flatMap alternatives) List.Pairwise.nil
  have alternative : ∀ member ∈ Ty.distinct (types.flatMap alternatives),
      member.Normal ∧ member.unionMembers? = none := by
    intro member inside
    have opened := (origin member inside).resolve_left (by simp)
    obtain ⟨ty, given, isAlternative⟩ := List.mem_flatMap.mp opened
    exact (normal ty given).alternatives isAlternative
  unfold oneOf
  split
  · exact normal_of .none
  · rename_i ty only
    exact (alternative ty (by simp [only])).1
  · rename_i members notEmpty notSingle
    have notZero : (Ty.distinct (types.flatMap alternatives)).length ≠ 0 := fun zero =>
      notEmpty (List.length_eq_zero_iff.mp zero)
    have notOne : (Ty.distinct (types.flatMap alternatives)).length ≠ 1 := by
      intro one
      obtain ⟨ty, single⟩ := List.length_eq_one_iff.mp one
      exact notSingle ty single
    constructor
    · intro opened isUnion
      obtain rfl := Option.some.inj isUnion
      exact ⟨by omega, fun member inside => (alternative member inside).2, distinct⟩
    · exact fun member inside => (alternative member inside).1

theorem NormalFields.set {fields : List (String × Ty)} (normal : NormalFields fields)
    (name : String) {ty : Ty} (normalTy : ty.Normal) :
    NormalFields (NameMap.set fields name ty) := by
  intro field member
  rcases NameMap.mem_set member with old | rfl
  · exact normal field old
  · exact normalTy

theorem NormalFields.setAll {fields updates : List (String × Ty)} (normal : NormalFields fields)
    (normalUpdates : NormalFields updates) : NormalFields (NameMap.setAll fields updates) := by
  intro field member
  rcases NameMap.mem_setAll member with old | new
  · exact normal field old
  · exact normalUpdates field new

theorem NormalFields.fieldOr? {fields : List (String × Ty)} (normal : NormalFields fields)
    {isOpen isOptional : Bool} {name : String} {ty : Ty}
    (found : fieldOr? fields isOpen isOptional name = some ty) : ty.Normal := by
  unfold Ty.fieldOr? at found
  split at found
  · rename_i known present
    obtain rfl := Option.some.inj found
    exact normal _ (NameMap.mem_of_get? present)
  · split at found
    · obtain rfl := Option.some.inj found
      exact normal_of .any
    · split at found
      · obtain rfl := Option.some.inj found
        exact normal_of .null
      · cases found

theorem NormalFields.chosenFields? {fields chosen all : List (String × Ty)}
    (normal : NormalFields fields) (normalChosen : NormalFields chosen) {isOpen isOptional : Bool}
    {names : List String} (found : chosenFields? fields isOpen isOptional names chosen = some all) :
    NormalFields all := by
  induction names generalizing chosen with
  | nil =>
      obtain rfl := Option.some.inj found
      exact normalChosen
  | cons name rest ih =>
      unfold Ty.chosenFields? at found
      split at found
      · rename_i ty present
        exact ih (normalChosen.set name (normal.fieldOr? present)) found
      · cases found

theorem Normal.call {callee : Ty} (normal : callee.Normal) : callee.call.Normal := by
  unfold Ty.call
  split
  · exact normal_of .unknown
  · split
    · split
      · exact normal_of .any
      · exact normal.parts (by simp [Ty.parts])
    all_goals exact normal_of _

theorem Normal.selectField {base : Ty} (normal : base.Normal) (name : String) (isOptional : Bool) :
    (base.selectField name isOptional).Normal := by
  have selected : ∀ {fields : List (String × Ty)} {isOpen : Bool}, NormalFields fields →
      ((fieldOr? fields isOpen isOptional name).getD .none).Normal := by
    intro fields isOpen normalFields
    cases found : fieldOr? fields isOpen isOptional name with
    | none => exact normal_of .none
    | some ty => exact normalFields.fieldOr? found
  unfold Ty.selectField
  split
  · exact normal_of .unknown
  · split
    · exact normal_of .any
    · split
      · exact selected (normal.fields rfl)
      · exact selected (normal.fields rfl)
      all_goals exact normal_of _

theorem Normal.projectFields {base : Ty} (normal : base.Normal) (names : List String)
    (isOptional : Bool) : (base.projectFields names isOptional).Normal := by
  have chosenNormal : ∀ {fields chosen : List (String × Ty)} {isOpen : Bool}, NormalFields fields →
      chosenFields? fields isOpen isOptional names [] = some chosen → NormalFields chosen :=
    fun normalFields found => normalFields.chosenFields? (by simp [NormalFields]) found
  unfold Ty.projectFields
  split
  · exact normal_of .unknown
  · split
    · exact normal_of .any
    · split
      · split
        · rename_i chosen found
          exact normal_of_fields (chosenNormal (normal.fields rfl) found) rfl rfl
        · exact normal_of .none
      · split
        · rename_i chosen found
          exact normal_of_fields (chosenNormal (normal.fields rfl) found) rfl rfl
        · exact normal_of .none
      · exact normal
      · exact normal
      · exact normal_of .none

theorem Normal.itemType {base : Ty} (normal : base.Normal) (index? : Option Nat)
    (isOptional : Bool) : (base.itemType index? isOptional).Normal := by
  unfold Ty.itemType
  split
  · rename_i elements _
    have normalElements : ∀ element ∈ elements, element.Normal := fun element member =>
      normal.parts member
    split
    · rename_i index
      cases found : elements[index]? with
      | some element => exact normalElements element (List.mem_of_getElem? found)
      | none =>
          simp only [Option.getD_none]
          split <;> exact normal_of _
    · exact oneOf_normal normalElements
  · exact normal_of .any
  · exact normal_of_fields (normal.fields rfl) rfl rfl
  · exact normal_of .record
  · exact normal_of .none

theorem Normal.accessItem {base : Ty} (normal : base.Normal) (index? : Option Nat)
    (isOptional : Bool) : (base.accessItem index? isOptional).Normal := by
  have item := normal.itemType index? isOptional
  unfold Ty.accessItem
  split
  · exact normal_of .unknown
  · split
    · exact normal_of .any
    · simp only
      split
      · exact item.withNullable true
      · exact item

theorem Normal.knownFields? {ty : Ty} (normal : ty.Normal) {fields : List (String × Ty)}
    (known : ty.knownFields? = some fields) : NormalFields fields := by
  cases ty with
  | record _ _ _ =>
      obtain rfl := Option.some.inj known
      exact normal.fields rfl
  | table _ _ _ =>
      obtain rfl := Option.some.inj known
      exact normal.fields rfl
  | _ => cases known

theorem Normal.combinedFields? {left right : Ty} (normalLeft : left.Normal)
    (normalRight : right.Normal) {fields : List (String × Ty)}
    (combined : combinedFields? left right = some fields) : NormalFields fields := by
  unfold Ty.combinedFields? at combined
  split at combined
  · cases combined
  · rename_i known _
    obtain rfl := Option.some.inj combined
    exact normalLeft.knownFields? known
  · rename_i known
    obtain rfl := Option.some.inj combined
    exact normalRight.knownFields? known
  · rename_i leftKnown rightKnown
    obtain rfl := Option.some.inj combined
    exact (normalLeft.knownFields? leftKnown).setAll (normalRight.knownFields? rightKnown)

theorem Normal.combine {left right : Ty} (normalLeft : left.Normal) (normalRight : right.Normal) :
    (left.combine right).Normal := by
  unfold Ty.combine
  simp only
  split
  · exact normal_of .none
  · split
    · split
      · refine normal_list ?_ _
        intro element member
        rcases List.mem_append.mp member with inLeft | inRight
        · exact normalLeft.parts inLeft
        · exact normalRight.parts inRight
      · exact normal_primitive _ _
    · split
      · rename_i fields combined
        exact normal_of_fields (normalLeft.combinedFields? normalRight combined) rfl rfl
      · exact normal_primitive _ _
    · split
      · rename_i fields combined
        exact normal_of_fields (normalLeft.combinedFields? normalRight combined) rfl rfl
      · exact normal_primitive _ _
    · exact normal_of .none

theorem Normal.operate {left right : Ty} (normalLeft : left.Normal) (normalRight : right.Normal)
    (operator : Token) : (left.operate operator right).Normal := by
  unfold Ty.operate
  split
  · exact normal_of .unknown
  · split
    · exact normal_of .any
    · split
      · exact normal_of .none
      · split
        · exact normalLeft.combine normalRight
        · split <;> exact normal_primitive _ _

theorem operandHint_normal (left : Ty) (operator : Token) : (left.operandHint operator).Normal := by
  unfold operandHint
  split
  · exact normal_of .unknown
  · split
    · exact normal_of .any
    · apply oneOf_normal
      intro ty member
      obtain ⟨kind, _, rfl⟩ := List.mem_map.mp member
      exact normal_of kind

theorem Normal.reconcile {declared body result : Ty} (normalDeclared : declared.Normal)
    (normalBody : body.Normal) (reconciled : reconcile declared body = some result) :
    result.Normal := by
  unfold Ty.reconcile at reconciled
  split at reconciled
  · obtain rfl := Option.some.inj reconciled
    exact normalBody
  · split at reconciled
    · obtain rfl := Option.some.inj reconciled
      exact normalDeclared
    · split at reconciled
      all_goals
        split at reconciled
        · obtain rfl := Option.some.inj reconciled
          exact normalBody
        · cases reconciled

end FormulaInspection.Ty

namespace FormulaInspection

theorem parameterType_normal (declared? : Option PrimitiveName) (isNullable isOptional : Bool) :
    (parameterType declared? isNullable isOptional).Normal := by
  unfold parameterType
  split
  · exact Ty.normal_primitive _ _
  · exact Ty.normal_of .any

end FormulaInspection
