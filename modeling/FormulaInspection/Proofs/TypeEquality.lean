import FormulaInspection.Proofs.NormalTypes
import Mathlib.Data.List.Forall2
import Mathlib.Data.List.Perm.Subperm

/-!
The comparison of types, one step at a time. Two types are equal when they are made alike and their
parts are equal, where fields are found by their names and everything else stands in order. Equality
is transitive for all types. That it is reflexive and symmetric takes field lists without repeated
names: a second field of one name is never looked at.
-/

namespace FormulaInspection.Ty

open NameMap (get? names)

abbrev Equal (left right : Ty) : Prop :=
  left.same right

structure FieldsMatch (related : Ty → Ty → Prop) (fields others : List (String × Ty)) : Prop where
  length : fields.length = others.length
  found : ∀ field ∈ fields, ∃ other, get? others field.1 = some other ∧ related field.2 other

inductive Matches (related : Ty → Ty → Prop) : Ty → Ty → Prop
  | primitive {kind isNullable} :
      Matches related (.primitive kind isNullable) (.primitive kind isNullable)
  | union {members members' isNullable} : List.Forall₂ related members members' →
      Matches related (.union members isNullable) (.union members' isNullable)
  | function {parameters result result' isNullable} : related result result' →
      Matches related (.function parameters result isNullable)
        (.function parameters result' isNullable)
  | list {elements elements' isNullable} : List.Forall₂ related elements elements' →
      Matches related (.list elements isNullable) (.list elements' isNullable)
  | record {fields fields' isOpen isNullable} : FieldsMatch related fields fields' →
      Matches related (.record fields isOpen isNullable) (.record fields' isOpen isNullable)
  | table {fields fields' isOpen isNullable} : FieldsMatch related fields fields' →
      Matches related (.table fields isOpen isNullable) (.table fields' isOpen isNullable)
  | listType {item item' isNullable} : related item item' →
      Matches related (.listType item isNullable) (.listType item' isNullable)
  | recordType {fields fields' isOpen isNullable} : FieldsMatch related fields fields' →
      Matches related (.recordType fields isOpen isNullable) (.recordType fields' isOpen isNullable)
  | tableType {fields fields' isOpen isNullable} : FieldsMatch related fields fields' →
      Matches related (.tableType fields isOpen isNullable) (.tableType fields' isOpen isNullable)
  | typeValue {denoted denoted' isNullable} : related denoted denoted' →
      Matches related (.typeValue denoted isNullable) (.typeValue denoted' isNullable)

theorem sameEach_iff {types others : List Ty} :
    sameEach types others ↔ List.Forall₂ Equal types others := by
  induction types generalizing others with
  | nil => cases others <;> simp [sameEach]
  | cons ty rest ih => cases others <;> simp [sameEach, ih]

theorem sameFields_iff {fields others : List (String × Ty)} :
    sameFields fields others ↔
      ∀ field ∈ fields, ∃ other, get? others field.1 = some other ∧ field.2.same other := by
  induction fields with
  | nil => simp [sameFields]
  | cons field rest ih =>
      simp only [sameFields, Bool.and_eq_true, ih, List.forall_mem_cons]
      cases get? others field.1 <;> simp

theorem fieldsMatch_same {fields others : List (String × Ty)} :
    (fields.length = others.length ∧ sameFields fields others) ↔
      FieldsMatch Equal fields others := by
  rw [sameFields_iff]
  exact ⟨fun ⟨length, found⟩ => ⟨length, found⟩, fun ⟨length, found⟩ => ⟨length, found⟩⟩

theorem same_iff {left right : Ty} : left.same right ↔ Matches Equal left right := by
  constructor
  · intro same
    fun_cases Ty.same left right
    all_goals
      simp only [Ty.same, Bool.and_eq_true, beq_iff_eq, sameEach_iff, and_assoc, fieldsMatch_same]
        at same
    · obtain ⟨rfl, rfl⟩ := same
      exact .primitive
    · obtain ⟨rfl, members⟩ := same
      exact .union members
    · obtain ⟨rfl, rfl, result⟩ := same
      exact .function result
    · obtain ⟨rfl, elements⟩ := same
      exact .list elements
    · obtain ⟨rfl, rfl, fields⟩ := same
      exact .record fields
    · obtain ⟨rfl, rfl, fields⟩ := same
      exact .table fields
    · obtain ⟨rfl, item⟩ := same
      exact .listType item
    · obtain ⟨rfl, rfl, fields⟩ := same
      exact .recordType fields
    · obtain ⟨rfl, rfl, fields⟩ := same
      exact .tableType fields
    · obtain ⟨rfl, denoted⟩ := same
      exact .typeValue denoted
    · simp at same
  · intro alike
    cases alike <;> simp_all [Ty.same, sameEach_iff, fieldsMatch_same]

section

variable {left right : Ty}

theorem same_kind (same : left.same right) : left.kind = right.kind := by
  cases same_iff.mp same <;> rfl

theorem same_isNullable (same : left.same right) : left.isNullable = right.isNullable := by
  cases same_iff.mp same <;> rfl

theorem same_withNullable (same : left.same right) (isNullable : Bool) :
    (left.withNullable isNullable).same (right.withNullable isNullable) := by
  rw [same_iff] at same ⊢
  cases same <;> constructor <;> assumption

theorem same_alternatives (same : left.same right) :
    List.Forall₂ Equal left.alternatives right.alternatives := by
  cases same_iff.mp same with
  | union members => exact members
  | _ => exact .cons same .nil

end

theorem same_primitive (kind : TypeKind) (isNullable : Bool) :
    (Ty.primitive kind isNullable).same (.primitive kind isNullable) :=
  same_iff.mpr .primitive

theorem same_of (kind : TypeKind) : (of kind).same (of kind) :=
  same_primitive kind _

section

variable {related : Ty → Ty → Prop} {fields others further : List (String × Ty)}

theorem fieldsMatch_iff (unique : (names fields).Nodup) (uniqueOthers : (names others).Nodup) :
    FieldsMatch related fields others ↔
      ∀ name, Option.Rel related (get? fields name) (get? others name) := by
  constructor
  · intro matching name
    cases here : get? fields name with
    | some ty =>
        obtain ⟨other, there, isRelated⟩ := matching.found (name, ty) (NameMap.mem_of_get? here)
        rw [there]
        exact .some isRelated
    | none =>
        -- The names of the first list take up all places in the second.
        have inOthers : names fields ⊆ names others := by
          intro key member
          obtain ⟨field, inFields, rfl⟩ := List.mem_map.mp member
          obtain ⟨other, there, _⟩ := matching.found field inFields
          exact NameMap.mem_names_iff.mpr ⟨other, there⟩
        have sameNames : (names fields).Perm (names others) :=
          (List.subperm_of_subset unique inOthers).perm_of_length_le
            (by simp [names, matching.length])
        cases there : get? others name with
        | none => exact .none
        | some other =>
            have named := sameNames.mem_iff.mpr (NameMap.mem_names_iff.mpr ⟨other, there⟩)
            obtain ⟨ty, found⟩ := NameMap.mem_names_iff.mp named
            rw [here] at found
            cases found
  · intro agree
    have sameNames : (names fields).Perm (names others) := by
      refine (List.perm_ext_iff_of_nodup unique uniqueOthers).mpr fun name => ?_
      rw [NameMap.mem_names_iff, NameMap.mem_names_iff]
      have atName := agree name
      generalize get? fields name = here, get? others name = there at atName
      cases atName <;> simp
    refine ⟨by simpa [names] using sameNames.length_eq, ?_⟩
    intro field member
    have atName := agree field.1
    rw [NameMap.get?_of_mem unique member] at atName
    generalize get? others field.1 = there at atName
    cases atName with
    | some isRelated => exact ⟨_, rfl, isRelated⟩

theorem FieldsMatch.refl (unique : (names fields).Nodup)
    (parts : ∀ part ∈ fields.map (·.2), related part part) : FieldsMatch related fields fields :=
  ⟨rfl, fun field member => ⟨field.2, NameMap.get?_of_mem unique member,
    parts field.2 (List.mem_map_of_mem member)⟩⟩

theorem FieldsMatch.symm (unique : (names fields).Nodup) (uniqueOthers : (names others).Nodup)
    (parts : ∀ part ∈ fields.map (·.2), ∀ other ∈ others.map (·.2),
      related part other → related other part)
    (matching : FieldsMatch related fields others) : FieldsMatch related others fields := by
  rw [fieldsMatch_iff unique uniqueOthers] at matching
  rw [fieldsMatch_iff uniqueOthers unique]
  intro name
  have atName := matching name
  cases here : get? fields name with
  | none =>
      cases there : get? others name with
      | none => exact .none
      | some other => simp [here, there] at atName
  | some ty =>
      cases there : get? others name with
      | none => simp [here, there] at atName
      | some other =>
          rw [here, there] at atName
          cases atName with
          | some isRelated =>
              exact .some (parts ty (List.mem_map_of_mem (NameMap.mem_of_get? here)) other
                (List.mem_map_of_mem (NameMap.mem_of_get? there)) isRelated)

theorem FieldsMatch.trans
    (parts : ∀ part ∈ fields.map (·.2), ∀ other last,
      related part other → related other last → related part last)
    (first : FieldsMatch related fields others) (second : FieldsMatch related others further) :
    FieldsMatch related fields further := by
  refine ⟨first.length.trans second.length, ?_⟩
  intro field member
  obtain ⟨other, there, isRelated⟩ := first.found field member
  obtain ⟨last, beyond, isRelatedToo⟩ := second.found (field.1, other) (NameMap.mem_of_get? there)
  exact ⟨last, beyond, parts field.2 (List.mem_map_of_mem member) other last isRelated isRelatedToo⟩

end

def NamesApart (ty : Ty) : Prop :=
  ∀ fields isOpen, ty.fields? = some (fields, isOpen) → (names fields).Nodup

section

variable {related : Ty → Ty → Prop} {left middle right : Ty}

theorem forall₂_symm {types others : List Ty} (each : List.Forall₂ related types others)
    (parts : ∀ part ∈ types, ∀ other ∈ others, related part other → related other part) :
    List.Forall₂ related others types := by
  induction each with
  | nil => exact .nil
  | cons isRelated _ ih =>
      refine .cons (parts _ List.mem_cons_self _ List.mem_cons_self isRelated) (ih ?_)
      intro part member other inOthers
      exact parts part (List.mem_cons_of_mem _ member) other (List.mem_cons_of_mem _ inOthers)

theorem forall₂_trans {types others further : List Ty} (first : List.Forall₂ related types others)
    (second : List.Forall₂ related others further)
    (parts : ∀ part ∈ types, ∀ other last,
      related part other → related other last → related part last) :
    List.Forall₂ related types further := by
  induction first generalizing further with
  | nil => exact second
  | cons isRelated _ ih =>
      cases second with
      | cons isRelatedToo rest =>
          obtain ⟨atFirst, atOthers⟩ := List.forall_mem_cons.mp parts
          exact .cons (atFirst _ _ isRelated isRelatedToo) (ih rest atOthers)

theorem Matches.refl {ty : Ty} (apart : ty.NamesApart)
    (parts : ∀ part ∈ ty.parts, related part part) : Matches related ty ty := by
  cases ty with
  | primitive _ _ => exact .primitive
  | union _ _ => exact .union (List.forall₂_same.mpr parts)
  | function _ _ _ => exact .function (parts _ (List.mem_singleton_self _))
  | list _ _ => exact .list (List.forall₂_same.mpr parts)
  | record _ _ _ => exact .record (.refl (apart _ _ rfl) parts)
  | table _ _ _ => exact .table (.refl (apart _ _ rfl) parts)
  | listType _ _ => exact .listType (parts _ (List.mem_singleton_self _))
  | recordType _ _ _ => exact .recordType (.refl (apart _ _ rfl) parts)
  | tableType _ _ _ => exact .tableType (.refl (apart _ _ rfl) parts)
  | typeValue _ _ => exact .typeValue (parts _ (List.mem_singleton_self _))

theorem Matches.symm (apartLeft : left.NamesApart) (apartRight : right.NamesApart)
    (parts : ∀ part ∈ left.parts, ∀ other ∈ right.parts, related part other → related other part)
    (alike : Matches related left right) : Matches related right left := by
  have lone : ∀ {part other : Ty}, left.parts = [part] → right.parts = [other] →
      related part other → related other part := by
    intro part other isPart isOther
    exact parts part (by simp [isPart]) other (by simp [isOther])
  cases alike with
  | primitive => exact .primitive
  | union members => exact .union (forall₂_symm members parts)
  | function result => exact .function (lone rfl rfl result)
  | list elements => exact .list (forall₂_symm elements parts)
  | record fields => exact .record (fields.symm (apartLeft _ _ rfl) (apartRight _ _ rfl) parts)
  | table fields => exact .table (fields.symm (apartLeft _ _ rfl) (apartRight _ _ rfl) parts)
  | listType item => exact .listType (lone rfl rfl item)
  | recordType fields =>
      exact .recordType (fields.symm (apartLeft _ _ rfl) (apartRight _ _ rfl) parts)
  | tableType fields =>
      exact .tableType (fields.symm (apartLeft _ _ rfl) (apartRight _ _ rfl) parts)
  | typeValue denoted => exact .typeValue (lone rfl rfl denoted)

theorem Matches.trans (first : Matches related left middle) (second : Matches related middle right)
    (parts : ∀ part ∈ left.parts, ∀ other last,
      related part other → related other last → related part last) :
    Matches related left right := by
  have lone : ∀ {part other last : Ty}, left.parts = [part] → related part other →
      related other last → related part last := by
    intro part other last isPart
    exact parts part (by simp [isPart]) other last
  cases first with
  | primitive => exact second
  | union members =>
      cases second with
      | union further => exact .union (forall₂_trans members further parts)
  | function result =>
      cases second with
      | function further => exact .function (lone rfl result further)
  | list elements =>
      cases second with
      | list further => exact .list (forall₂_trans elements further parts)
  | record fields =>
      cases second with
      | record further => exact .record (fields.trans parts further)
  | table fields =>
      cases second with
      | table further => exact .table (fields.trans parts further)
  | listType item =>
      cases second with
      | listType further => exact .listType (lone rfl item further)
  | recordType fields =>
      cases second with
      | recordType further => exact .recordType (fields.trans parts further)
  | tableType fields =>
      cases second with
      | tableType further => exact .tableType (fields.trans parts further)
  | typeValue denoted =>
      cases second with
      | typeValue further => exact .typeValue (lone rfl denoted further)

end

theorem sizeOf_part {ty part : Ty} (member : part ∈ ty.parts) : sizeOf part < sizeOf ty := by
  have inFields : ∀ {fields : List (String × Ty)}, part ∈ fields.map (·.2) →
      sizeOf part < sizeOf fields := by
    intro fields isField
    obtain ⟨field, inFields, rfl⟩ := List.mem_map.mp isField
    have smaller := List.sizeOf_lt_of_mem inFields
    have split : sizeOf field = 1 + sizeOf field.1 + sizeOf field.2 := rfl
    omega
  cases ty with
  | primitive _ _ => cases member
  | union members _ | list members _ =>
      have smaller : sizeOf part < sizeOf members := List.sizeOf_lt_of_mem member
      simp only [union.sizeOf_spec, list.sizeOf_spec]
      omega
  | function _ _ _ | listType _ _ | typeValue _ _ =>
      obtain rfl := List.mem_singleton.mp member
      simp only [function.sizeOf_spec, listType.sizeOf_spec, typeValue.sizeOf_spec]
      omega
  | record _ _ _ | table _ _ _ | recordType _ _ _ | tableType _ _ _ =>
      have smaller := inFields member
      simp only [record.sizeOf_spec, table.sizeOf_spec, recordType.sizeOf_spec,
        tableType.sizeOf_spec]
      omega

theorem parts_induction {holds : Ty → Prop}
    (step : ∀ ty : Ty, (∀ part ∈ ty.parts, holds part) → holds ty) (ty : Ty) : holds ty :=
  step ty fun part _ => parts_induction step part
termination_by sizeOf ty
decreasing_by exact sizeOf_part ‹_›

theorem same_trans {left middle right : Ty} (first : left.same middle)
    (second : middle.same right) : left.same right := by
  induction left using parts_induction generalizing middle right with
  | step left ih =>
      rw [same_iff] at first second ⊢
      exact first.trans second fun part member _ _ equal further => ih part member equal further

/-- Every field list that occurs in the type, however deep, has each of its names once. -/
inductive WellNamed : Ty → Prop
  | intro {ty : Ty} : ty.NamesApart → (∀ part ∈ ty.parts, WellNamed part) → WellNamed ty

theorem WellNamed.apart {ty : Ty} (named : ty.WellNamed) : ty.NamesApart := by
  obtain ⟨apart, _⟩ := named
  exact apart

theorem WellNamed.parts {ty part : Ty} (named : ty.WellNamed) (member : part ∈ ty.parts) :
    part.WellNamed := by
  obtain ⟨_, parts⟩ := named
  exact parts part member

theorem WellNamed.same_refl {ty : Ty} (named : ty.WellNamed) : ty.same ty := by
  induction named with
  | intro apart _ ih => exact same_iff.mpr (.refl apart ih)

theorem WellNamed.same_symm {left right : Ty} (namedLeft : left.WellNamed)
    (namedRight : right.WellNamed) (same : left.same right) : right.same left := by
  induction namedLeft generalizing right with
  | intro apart _ ih =>
      rw [same_iff] at same ⊢
      refine same.symm apart namedRight.apart fun part member other inOthers equal => ?_
      exact ih part member (namedRight.parts inOthers) equal

end FormulaInspection.Ty
