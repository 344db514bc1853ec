import FormulaInspection.Proofs.Combination
import FormulaInspection.Proofs.Projection
import FormulaInspection.Proofs.TypeEquality

/-!
Equal types behave alike. Whatever is made of a type, by an operator, by a choice or by taking
something out of it, is equal to what is made of an equal type in its place. So nothing can tell in
which order the fields of a type were declared.
-/

namespace FormulaInspection.Ty

open NameMap (get? names)

/-- Two equal types that name no field twice, so that either may stand for the other. -/
structure Interchangeable (ty other : Ty) : Prop where
  named : ty.WellNamed
  otherNamed : other.WellNamed
  same : ty.same other

variable {ty other : Ty}

theorem Interchangeable.symm (equal : Interchangeable ty other) : Interchangeable other ty :=
  ⟨equal.otherNamed, equal.named, equal.named.same_symm equal.otherNamed equal.same⟩

theorem interchangeable_each {types others : List Ty} (each : List.Forall₂ Equal types others)
    (named : ∀ ty ∈ types, ty.WellNamed) (othersNamed : ∀ ty ∈ others, ty.WellNamed) :
    List.Forall₂ Interchangeable types others := by
  induction each with
  | nil => exact .nil
  | cons same _ ih =>
      obtain ⟨first, rest⟩ := List.forall_mem_cons.mp named
      obtain ⟨firstOther, restOthers⟩ := List.forall_mem_cons.mp othersNamed
      exact .cons ⟨first, firstOther, same⟩ (ih rest restOthers)

theorem WellNamed.alternatives {alternative : Ty} (named : ty.WellNamed)
    (member : alternative ∈ ty.alternatives) : alternative.WellNamed := by
  cases ty with
  | union _ _ => exact named.parts member
  | _ =>
      obtain rfl := List.mem_singleton.mp member
      exact named

section

variable {types others seen othersSeen : List Ty}

theorem any_isNullable (each : List.Forall₂ Interchangeable types others) :
    types.any isNullable = others.any isNullable := by
  induction each with
  | nil => rfl
  | cons equal _ ih => rw [List.any_cons, List.any_cons, same_isNullable equal.same, ih]

theorem any_same (each : List.Forall₂ Interchangeable seen othersSeen)
    (equal : Interchangeable ty other) (present : seen.any fun earlier => earlier.same ty) :
    othersSeen.any fun earlier => earlier.same other := by
  induction each with
  | nil => exact present
  | cons first _ ih =>
      simp only [List.any_cons, Bool.or_eq_true] at present ⊢
      rcases present with here | later
      · exact Or.inl (same_trans first.symm.same (same_trans here equal.same))
      · exact Or.inr (ih later)

theorem addNew_interchangeable (each : List.Forall₂ Interchangeable seen othersSeen)
    (equal : Interchangeable ty other) :
    List.Forall₂ Interchangeable (addNew seen ty) (addNew othersSeen other) := by
  have flipped : List.Forall₂ Interchangeable othersSeen seen :=
    forall₂_symm each fun _ _ _ _ related => related.symm
  unfold addNew
  by_cases present : seen.any fun earlier => earlier.same ty
  · rw [if_pos present, if_pos (any_same each equal present)]
    exact each
  · rw [if_neg present, if_neg fun there => present (any_same flipped equal.symm there)]
    exact List.rel_append each (.cons equal .nil)

theorem distinct_interchangeable (each : List.Forall₂ Interchangeable types others) :
    List.Forall₂ Interchangeable (distinct types) (distinct others) := by
  have gathered : ∀ {seen othersSeen}, List.Forall₂ Interchangeable seen othersSeen →
      List.Forall₂ Interchangeable (types.foldl addNew seen) (others.foldl addNew othersSeen) := by
    induction each with
    | nil => exact fun earlier => earlier
    | cons equal _ ih => exact fun earlier => ih (addNew_interchangeable earlier equal)
  exact gathered .nil

theorem oneOf_same (each : List.Forall₂ Interchangeable types others) :
    (oneOf types).same (oneOf others) := by
  have opened : List.Forall₂ Interchangeable (types.flatMap alternatives)
      (others.flatMap alternatives) := by
    refine List.rel_flatMap each fun ty other equal => ?_
    exact interchangeable_each (same_alternatives equal.same) (fun _ => equal.named.alternatives)
      fun _ => equal.otherNamed.alternatives
  have left := distinct_interchangeable opened
  unfold oneOf
  generalize distinct (types.flatMap alternatives) = members,
    distinct (others.flatMap alternatives) = members' at left
  cases left with
  | nil => exact same_of .none
  | cons first rest =>
      cases rest with
      | nil => exact first.same
      | cons second rest =>
          have each : List.Forall₂ Interchangeable _ _ := .cons first (.cons second rest)
          simp only [any_isNullable each]
          exact same_iff.mpr (.union (each.imp fun _ _ equal => equal.same))

end

structure FieldsEqual (fields others : List (String × Ty)) : Prop where
  unique : (names fields).Nodup
  othersUnique : (names others).Nodup
  agree : ∀ name, Option.Rel Equal (get? fields name) (get? others name)

section

variable {fields others chosen othersChosen : List (String × Ty)}

theorem Interchangeable.fieldsEqual (equal : Interchangeable ty other) {isOpen otherOpen : Bool}
    (matching : FieldsMatch Equal fields others) (has : ty.fields? = some (fields, isOpen))
    (otherHas : other.fields? = some (others, otherOpen)) : FieldsEqual fields others where
  unique := equal.named.apart _ _ has
  othersUnique := equal.otherNamed.apart _ _ otherHas
  agree := (fieldsMatch_iff (equal.named.apart _ _ has) (equal.otherNamed.apart _ _ otherHas)).mp
    matching

theorem FieldsEqual.matching (equal : FieldsEqual fields others) : FieldsMatch Equal fields others :=
  (fieldsMatch_iff equal.unique equal.othersUnique).mpr equal.agree

theorem FieldsEqual.set (equal : FieldsEqual fields others) (same : ty.same other) (name : String) :
    FieldsEqual (NameMap.set fields name ty) (NameMap.set others name other) where
  unique := NameMap.nodup_names_set equal.unique name ty
  othersUnique := NameMap.nodup_names_set equal.othersUnique name other
  agree := by
    intro key
    rw [NameMap.get?_set, NameMap.get?_set]
    split
    · exact .some same
    · exact equal.agree key

theorem FieldsEqual.setAll {updates othersUpdates : List (String × Ty)}
    (equal : FieldsEqual fields others) (updatesEqual : FieldsEqual updates othersUpdates) :
    FieldsEqual (NameMap.setAll fields updates) (NameMap.setAll others othersUpdates) where
  unique := NameMap.nodup_names_setAll equal.unique updates
  othersUnique := NameMap.nodup_names_setAll equal.othersUnique othersUpdates
  agree := by
    intro key
    rw [NameMap.get?_setAll updatesEqual.unique, NameMap.get?_setAll updatesEqual.othersUnique]
    have updated := updatesEqual.agree key
    generalize get? updates key = update, get? othersUpdates key = otherUpdate at updated
    cases updated with
    | some same => exact .some same
    | none => exact equal.agree key

theorem FieldsEqual.fieldOr? (equal : FieldsEqual fields others) (isOpen isOptional : Bool)
    (name : String) :
    Option.Rel Equal (fieldOr? fields isOpen isOptional name)
      (fieldOr? others isOpen isOptional name) := by
  have atName := equal.agree name
  unfold Ty.fieldOr?
  generalize get? fields name = here, get? others name = there at atName
  cases atName with
  | some same => exact .some same
  | none =>
      simp only
      split
      · exact .some (same_of .any)
      · split
        · exact .some (same_of .null)
        · exact .none

theorem FieldsEqual.chosenFields? (equal : FieldsEqual fields others) (isOpen isOptional : Bool)
    (choice : List String) (chosenEqual : FieldsEqual chosen othersChosen) :
    Option.Rel FieldsEqual (chosenFields? fields isOpen isOptional choice chosen)
      (chosenFields? others isOpen isOptional choice othersChosen) := by
  induction choice generalizing chosen othersChosen with
  | nil => exact .some chosenEqual
  | cons name rest ih =>
      have atName := equal.fieldOr? isOpen isOptional name
      unfold Ty.chosenFields?
      generalize Ty.fieldOr? fields isOpen isOptional name = here,
        Ty.fieldOr? others isOpen isOptional name = there at atName
      cases atName with
      | none => exact .none
      | some same => exact ih (chosenEqual.set same name)

end

theorem getD_same {choice otherChoice : Option Ty} (related : Option.Rel Equal choice otherChoice)
    (same : ty.same other) : (choice.getD ty).same (otherChoice.getD other) := by
  cases related with
  | some found => exact found
  | none => exact same

theorem elim_same {α : Type} {related : α → α → Prop} {choice otherChoice : Option α}
    {make : α → Ty} (alike : Option.Rel related choice otherChoice)
    (made : ∀ {value otherValue}, related value otherValue → (make value).same (make otherValue))
    (kind : TypeKind) (isNullable : Bool) :
    (choice.elim (.primitive kind isNullable) make).same
      (otherChoice.elim (.primitive kind isNullable) make) := by
  cases alike with
  | some found => exact made found
  | none => exact same_primitive kind isNullable

theorem isUnknown_eq (same : ty.same other) : ty.isUnknown = other.isUnknown := by
  rw [isUnknown, isUnknown, same_kind same]

theorem selectField_same (equal : Interchangeable ty other) (name : String) (isOptional : Bool) :
    (ty.selectField name isOptional).same (other.selectField name isOptional) := by
  cases same_iff.mp equal.same with
  | record matching | table matching =>
      have fields := equal.fieldsEqual matching rfl rfl
      exact getD_same (fields.fieldOr? _ isOptional name) (same_of .none)
  | @primitive kind _ => cases kind <;> exact same_primitive _ _
  | union _ => exact same_of .any
  | _ => exact same_of .none

theorem projectFields_same (equal : Interchangeable ty other) (choice : List String)
    (isOptional : Bool) :
    (ty.projectFields choice isOptional).same (other.projectFields choice isOptional) := by
  have nothing : FieldsEqual [] [] := ⟨List.nodup_nil, List.nodup_nil, fun _ => .none⟩
  cases same_iff.mp equal.same with
  | record matching =>
      rw [projectFields_eq (Or.inl rfl), projectFields_eq (Or.inl rfl)]
      have fields := equal.fieldsEqual matching rfl rfl
      exact elim_same (fields.chosenFields? _ isOptional choice nothing)
        (fun chosen => same_iff.mpr (.record chosen.matching)) _ _
  | table matching =>
      rw [projectFields_eq (Or.inr rfl), projectFields_eq (Or.inr rfl)]
      have fields := equal.fieldsEqual matching rfl rfl
      exact elim_same (fields.chosenFields? _ isOptional choice nothing)
        (fun chosen => same_iff.mpr (.table chosen.matching)) _ _
  | @primitive kind _ => cases kind <;> exact same_primitive _ _
  | union _ => exact same_of .any
  | _ => exact same_of .none

theorem getElem?_related {types others : List Ty} (each : List.Forall₂ Equal types others)
    (index : Nat) : Option.Rel Equal types[index]? others[index]? := by
  induction each generalizing index with
  | nil => exact .none
  | cons same _ ih =>
      cases index with
      | zero => exact .some same
      | succ index => exact ih index

theorem itemType_same (equal : Interchangeable ty other) (index? : Option Nat) (isOptional : Bool) :
    (ty.itemType index? isOptional).same (other.itemType index? isOptional) := by
  unfold itemType
  cases same_iff.mp equal.same with
  | list elements =>
      cases index? with
      | some index =>
          refine getD_same (getElem?_related elements index) ?_
          split <;> exact same_of _
      | none =>
          exact oneOf_same (interchangeable_each elements (fun _ => equal.named.parts)
            fun _ => equal.otherNamed.parts)
  | table matching => exact same_iff.mpr (.record matching)
  | @primitive kind _ => cases kind <;> exact same_primitive _ _
  | _ => exact same_of .none

theorem accessItem_same (equal : Interchangeable ty other) (index? : Option Nat)
    (isOptional : Bool) :
    (ty.accessItem index? isOptional).same (other.accessItem index? isOptional) := by
  have item := itemType_same equal index? isOptional
  have sameNone : (ty.itemType index? isOptional).isNone =
      (other.itemType index? isOptional).isNone := by
    rw [isNone, isNone, same_kind item]
  unfold accessItem
  rw [← isUnknown_eq equal.same, ← same_kind equal.same]
  split
  · exact same_of .unknown
  · split
    · exact same_of .any
    · simp only [← sameNone]
      split
      · exact same_withNullable item true
      · exact item

section

variable {a a' b b' : Ty}

theorem knownElements?_related (same : a.same a') :
    Option.Rel (List.Forall₂ Equal) a.knownElements? a'.knownElements? := by
  cases same_iff.mp same with
  | list elements => exact .some elements
  | _ => exact .none

theorem combinedElements?_related (left : a.same a') (right : b.same b') :
    Option.Rel (List.Forall₂ Equal) (combinedElements? a b) (combinedElements? a' b') := by
  have first := knownElements?_related left
  have second := knownElements?_related right
  unfold combinedElements?
  generalize a.knownElements? = elements, a'.knownElements? = elements',
    b.knownElements? = further, b'.knownElements? = further' at first second
  cases first with
  | none => exact .none
  | some each =>
      cases second with
      | none => exact .none
      | some more => exact .some (List.rel_append each more)

theorem knownFields?_related (equal : Interchangeable a a') :
    Option.Rel FieldsEqual a.knownFields? a'.knownFields? := by
  cases same_iff.mp equal.same with
  | record matching | table matching => exact .some (equal.fieldsEqual matching rfl rfl)
  | _ => exact .none

theorem combinedFields?_related (left : Interchangeable a a') (right : Interchangeable b b') :
    Option.Rel FieldsEqual (combinedFields? a b) (combinedFields? a' b') := by
  have first := knownFields?_related left
  have second := knownFields?_related right
  unfold combinedFields?
  generalize a.knownFields? = fields, a'.knownFields? = fields', b.knownFields? = further,
    b'.knownFields? = further' at first second
  cases first with
  | none =>
      cases second with
      | none => exact .none
      | some further => exact .some further
  | some fields =>
      cases second with
      | none => exact .some fields
      | some further => exact .some (fields.setAll further)

theorem combine_same (left : Interchangeable a a') (right : Interchangeable b b') :
    (combine a b).same (combine a' b') := by
  have leftKind := same_kind left.same
  have rightKind := same_kind right.same
  have nullable : (a.isNullable && b.isNullable) = (a'.isNullable && b'.isNullable) := by
    rw [same_isNullable left.same, same_isNullable right.same]
  have elements := combinedElements?_related left.same right.same
  have fields := combinedFields?_related left right
  by_cases structured : a.kind = b.kind ∧ a.kind.IsStructured
  · obtain ⟨alike, isList | isRecord | isTable⟩ := structured
    · rw [combine_list isList (alike ▸ isList), nullable,
        combine_list (leftKind ▸ isList) (rightKind ▸ alike ▸ isList)]
      exact elim_same elements (fun each => same_iff.mpr (.list each)) _ _
    · rw [combine_record isRecord (alike ▸ isRecord), nullable,
        combine_record (leftKind ▸ isRecord) (rightKind ▸ alike ▸ isRecord)]
      exact elim_same fields (fun equal => same_iff.mpr (.record equal.matching)) _ _
    · rw [combine_table isTable (alike ▸ isTable), nullable,
        combine_table (leftKind ▸ isTable) (rightKind ▸ alike ▸ isTable)]
      exact elim_same fields (fun equal => same_iff.mpr (.table equal.matching)) _ _
  · rw [combine_apart structured, combine_apart (by rwa [← leftKind, ← rightKind])]
    exact same_of .none

theorem operate_same (operator : Token) (left : Interchangeable a a')
    (right : Interchangeable b b') : (a.operate operator b).same (a'.operate operator b') := by
  unfold operate
  rw [← isUnknown_eq left.same, ← isUnknown_eq right.same, ← same_kind left.same,
    ← same_kind right.same, ← same_isNullable left.same, ← same_isNullable right.same]
  split
  · exact same_of .unknown
  · split
    · exact same_of .any
    · split
      · exact same_of .none
      · split
        · exact combine_same left right
        · split <;> exact same_primitive _ _

end

/-- On types that name no field twice, equality is an equivalence, and whatever is made of equal
types is equal. -/
theorem same_congruence :
    Equivalence (fun ty other : { ty : Ty // ty.WellNamed } => ty.1.same other.1) ∧
    (∀ a a' b b', Interchangeable a a' → Interchangeable b b' →
      (∀ operator, (a.operate operator b).same (a'.operate operator b')) ∧
      (combine a b).same (combine a' b') ∧
      (∀ name isOptional, (a.selectField name isOptional).same (a'.selectField name isOptional)) ∧
      (∀ choice isOptional,
        (a.projectFields choice isOptional).same (a'.projectFields choice isOptional)) ∧
      ∀ index? isOptional,
        (a.accessItem index? isOptional).same (a'.accessItem index? isOptional)) ∧
    ∀ types others, List.Forall₂ Interchangeable types others →
      (oneOf types).same (oneOf others) := by
  refine ⟨⟨fun ty => ty.2.same_refl, ?_, fun first second => same_trans first second⟩, ?_, ?_⟩
  · intro ty other same
    exact ty.2.same_symm other.2 same
  · intro a a' b b' left right
    exact ⟨fun operator => operate_same operator left right, combine_same left right,
      fun name isOptional => selectField_same left name isOptional,
      fun choice isOptional => projectFields_same left choice isOptional,
      fun index? isOptional => accessItem_same left index? isOptional⟩
  · intro types others each
    exact oneOf_same each

def nestedSample : Ty :=
  .record [("x", .record [("p", .of .number), ("q", .of .text)] true false), ("y", .of .logical)]
    false true

def reorderedSample : Ty :=
  .record [("y", .of .logical), ("x", .record [("q", .of .text), ("p", .of .number)] true false)]
    false true

theorem wellNamed_of (kind : TypeKind) : (of kind).WellNamed :=
  .intro (fun _ _ none => by cases none) (by simp [of, parts])

theorem wellNamed_record {fields : List (String × Ty)} (unique : (names fields).Nodup)
    (named : ∀ part ∈ fields.map (·.2), part.WellNamed) (isOpen isNullable : Bool) :
    (Ty.record fields isOpen isNullable).WellNamed :=
  .intro (fun _ _ has => by cases has; exact unique) named

theorem nestedSample_interchangeable : Interchangeable nestedSample reorderedSample where
  named := by
    refine wellNamed_record (by decide) ?_ _ _
    simp [wellNamed_of, wellNamed_record, names]
  otherNamed := by
    refine wellNamed_record (by decide) ?_ _ _
    simp [wellNamed_of, wellNamed_record, names]
  same := by decide

theorem nestedSample_congruence :
    (nestedSample.operate .ampersand nestedSample).same
        (reorderedSample.operate .ampersand reorderedSample) ∧
      (nestedSample.selectField "x" false).same (reorderedSample.selectField "x" false) ∧
      (nestedSample.projectFields ["y", "x"] false).same
        (reorderedSample.projectFields ["y", "x"] false) ∧
      (oneOf [nestedSample, nestedSample]).same (oneOf [reorderedSample, nestedSample]) := by
  have equal := nestedSample_interchangeable
  obtain ⟨equivalence, operators, choices⟩ := same_congruence
  obtain ⟨operate, _, select, project, _⟩ := operators _ _ _ _ equal equal
  have unchanged : Interchangeable nestedSample nestedSample :=
    ⟨equal.named, equal.named, equivalence.refl ⟨nestedSample, equal.named⟩⟩
  exact ⟨operate .ampersand, select "x" false, project ["y", "x"] false,
    choices _ _ (.cons equal (.cons unchanged .nil))⟩

end FormulaInspection.Ty
