import FormulaInspection.Proofs.Combination
import FormulaInspection.Proofs.TypeEquality
import Mathlib.Data.List.Nodup

/-!
Operations and hints. The type of an operation and the hint for an operand that is not written yet
are read from one table in two ways: by both kinds, and by the left kind alone. No two lines of the
table have the same operands and operator, so both ways agree on which operations there are.
-/

namespace FormulaInspection

theorem foldl_fresh {α : Type} {step : List α → α → List α} {fresh : α → α → Prop}
    (adds : ∀ seen value, (∀ other ∈ seen, fresh other value) → step seen value = seen ++ [value])
    {seen values : List α} (apart : (seen ++ values).Pairwise fresh) :
    values.foldl step seen = seen ++ values := by
  induction values generalizing seen with
  | nil => simp
  | cons value rest ih =>
      have isNew : ∀ other ∈ seen, fresh other value := fun other member =>
        (List.pairwise_append.mp apart).2.2 other member value List.mem_cons_self
      rw [List.foldl_cons, adds seen value isNew, ih (by simpa using apart)]
      simp

namespace OperatorRule

def key (rule : OperatorRule) : TypeKind × Token × TypeKind :=
  (rule.left, rule.operator, rule.right)

theorem keys_nodup : (table.map key).Nodup := by
  decide +kernel

theorem table_definite : ∀ rule ∈ table,
    rule.right ≠ .unknown ∧ rule.right ≠ .any ∧ rule.right ≠ .none ∧ rule.result ≠ .none := by
  decide +kernel

def after (left : TypeKind) (operator : Token) : List OperatorRule :=
  table.filter fun rule => rule.left == left && rule.operator == operator

theorem mem_after {left : TypeKind} {operator : Token} {rule : OperatorRule} :
    rule ∈ after left operator ↔ rule ∈ table ∧ rule.left = left ∧ rule.operator = operator := by
  simp [after]

theorem after_rights_nodup (left : TypeKind) (operator : Token) :
    ((after left operator).map right).Nodup := by
  have keys : ((after left operator).map key).Nodup :=
    keys_nodup.sublist (List.filter_sublist.map key)
  have sameKeys : (after left operator).map key =
      ((after left operator).map right).map fun kind => (left, operator, kind) := by
    rw [List.map_map]
    refine List.map_congr_left fun rule member => ?_
    obtain ⟨-, rfl, rfl⟩ := mem_after.mp member
    rfl
  rw [sameKeys] at keys
  exact keys.of_map

end OperatorRule

section

variable {left right result : TypeKind} {operator : Token}

theorem resultKind?_eq_some :
    resultKind? left operator right = some result ↔
      ⟨left, operator, right, result⟩ ∈ OperatorRule.table := by
  constructor
  · intro found
    obtain ⟨rule, first, rfl⟩ := Option.map_eq_some_iff.mp found
    have operands := List.find?_some first
    simp only [Bool.and_eq_true, beq_iff_eq] at operands
    obtain ⟨⟨rfl, rfl⟩, rfl⟩ := operands
    exact List.mem_of_find?_eq_some first
  · intro listed
    cases first : OperatorRule.table.find? fun rule =>
        rule.left == left && rule.operator == operator && rule.right == right with
    | none => simpa using List.find?_eq_none.mp first _ listed
    | some rule =>
        have operands := List.find?_some first
        simp only [Bool.and_eq_true, beq_iff_eq] at operands
        have only : rule = ⟨left, operator, right, result⟩ :=
          List.inj_on_of_nodup_map OperatorRule.keys_nodup (List.mem_of_find?_eq_some first) listed
            (by simp [OperatorRule.key, operands])
        rw [resultKind?, first, only]
        rfl

theorem rightKinds_eq : rightKinds left operator =
    (OperatorRule.after left operator).map OperatorRule.right := by
  refine @foldl_fresh _ _ (· ≠ ·) ?_ [] _ (OperatorRule.after_rights_nodup left operator)
  intro seen kind isNew
  have absent : kind ∉ seen := fun member => isNew kind member rfl
  simp [absent]

theorem rightKinds_nodup (left : TypeKind) (operator : Token) :
    (rightKinds left operator).Nodup := by
  rw [rightKinds_eq]
  exact OperatorRule.after_rights_nodup left operator

theorem mem_rightKinds :
    right ∈ rightKinds left operator ↔ (resultKind? left operator right).isSome := by
  rw [rightKinds_eq, Option.isSome_iff_exists]
  simp only [List.mem_map, OperatorRule.mem_after, resultKind?_eq_some]
  constructor
  · rintro ⟨rule, ⟨listed, rfl, rfl⟩, rfl⟩
    exact ⟨rule.result, listed⟩
  · rintro ⟨result, listed⟩
    exact ⟨_, ⟨listed, rfl, rfl⟩, rfl⟩

theorem rightKinds_definite (member : right ∈ rightKinds left operator) :
    right ≠ .unknown ∧ right ≠ .any ∧ right ≠ .none := by
  obtain ⟨result, found⟩ := Option.isSome_iff_exists.mp (mem_rightKinds.mp member)
  have line := OperatorRule.table_definite _ (resultKind?_eq_some.mp found)
  exact ⟨line.1, line.2.1, line.2.2.1⟩

end

namespace Ty

def Definite (ty : Ty) : Prop :=
  ty.kind ≠ .unknown ∧ ty.kind ≠ .any

instance (ty : Ty) : Decidable ty.Definite :=
  inferInstanceAs (Decidable (_ ∧ _))

variable {left right : Ty} {operator : Token}

theorem operate_resultKind (leftDefinite : left.Definite) (rightDefinite : right.Definite) :
    (left.operate operator right).kind =
      (resultKind? left.kind operator right.kind).getD .none := by
  unfold operate
  rw [if_neg (by simp [isUnknown, leftDefinite.1, rightDefinite.1]),
    if_neg (by simp [leftDefinite.2, rightDefinite.2])]
  cases found : resultKind? left.kind operator right.kind with
  | none => rfl
  | some kind =>
      simp only [Option.getD_some]
      split
      · rename_i combines
        simp only [Bool.and_eq_true, beq_iff_eq, Bool.or_eq_true, or_assoc] at combines
        obtain ⟨rfl, structured⟩ := combines
        have operands := (resultKind?_ampersand.mp found).operands structured
        exact (combine_outside structured operands.1 operands.2).1
      · split <;> rfl

theorem operate_defined (leftDefinite : left.Definite) (rightDefinite : right.Definite) :
    (left.operate operator right).kind ≠ .none ↔ right.kind ∈ rightKinds left.kind operator := by
  rw [operate_resultKind leftDefinite rightDefinite, mem_rightKinds]
  cases found : resultKind? left.kind operator right.kind with
  | none => simp
  | some kind =>
      have line := OperatorRule.table_definite _ (resultKind?_eq_some.mp found)
      simpa using line.2.2.2

theorem mem_rightKinds_iff_operate (leftDefinite : left.Definite) {kind : TypeKind} :
    kind ∈ rightKinds left.kind operator ↔
      ∃ right : Ty, right.Definite ∧ right.kind = kind ∧
        (left.operate operator right).kind ≠ .none := by
  constructor
  · intro member
    obtain ⟨unknown, any, -⟩ := rightKinds_definite member
    have definite : (of kind).Definite := ⟨unknown, any⟩
    exact ⟨of kind, definite, rfl, (operate_defined leftDefinite definite).mpr member⟩
  · rintro ⟨right, definite, rfl, defined⟩
    exact (operate_defined leftDefinite definite).mp defined

def ofKinds : List TypeKind → Ty
  | [] => .none
  | [kind] => .of kind
  | kinds => .union (kinds.map of) (kinds.any TypeKind.isNullableByDefault)

theorem distinct_of_pairwise {types : List Ty}
    (apart : types.Pairwise fun one other => one.same other = false) : distinct types = types := by
  refine @foldl_fresh _ _ (fun one other => one.same other = false) ?_ [] _ apart
  intro seen ty isNew
  rw [addNew, if_neg]
  simpa using isNew

theorem oneOf_map_of {kinds : List TypeKind} (nodup : kinds.Nodup) :
    oneOf (kinds.map of) = ofKinds kinds := by
  have opened : (kinds.map of).flatMap alternatives = kinds.map of := by
    rw [List.flatMap_map]
    exact List.flatMap_pure_eq_map ..
  have apart : (kinds.map of).Pairwise fun one other => one.same other = false := by
    refine List.pairwise_map.mpr (nodup.imp fun different => ?_)
    exact Bool.eq_false_iff.mpr fun same => different (same_kind same)
  rw [oneOf, opened, distinct_of_pairwise apart]
  rcases kinds with _ | ⟨first, _ | ⟨second, rest⟩⟩
  · rfl
  · rfl
  · simp [ofKinds, List.any_map, isNullable, of, Function.comp_def]

theorem operandHint_eq (definite : left.Definite) :
    left.operandHint operator = ofKinds (rightKinds left.kind operator) := by
  rw [operandHint, if_neg (by simp [isUnknown, definite.1]), if_neg (by simp [definite.2]),
    oneOf_map_of (rightKinds_nodup left.kind operator)]

theorem ofKinds_eq_none {kinds : List TypeKind} (something : .none ∉ kinds) :
    ofKinds kinds = .none ↔ kinds = [] := by
  rcases kinds with _ | ⟨first, _ | ⟨second, rest⟩⟩
  · simp [ofKinds]
  · have different : first ≠ .none := fun same => something (by simp [same])
    simp [ofKinds, of, different]
  · simp [ofKinds, of]

theorem operandHint_eq_none (leftDefinite : left.Definite) :
    left.operandHint operator = .none ↔
      ∀ right : Ty, right.Definite → (left.operate operator right).kind = .none := by
  have something : .none ∉ rightKinds left.kind operator := fun member =>
    (rightKinds_definite member).2.2 rfl
  rw [operandHint_eq leftDefinite, ofKinds_eq_none something, List.eq_nil_iff_forall_not_mem]
  simp only [mem_rightKinds_iff_operate leftDefinite]
  constructor
  · intro nowhere right definite
    by_contra defined
    exact nowhere right.kind ⟨right, definite, rfl, defined⟩
  · rintro undefined kind ⟨right, definite, rfl, defined⟩
    exact defined (undefined right definite)

/-- The hint for a right operand names exactly the kinds that the operation is defined on, in the
order of the table, and the result of the operation has the kind that the table promises. -/
theorem operandHint_agrees (left : Ty) (operator : Token) (leftDefinite : left.Definite) :
    (∀ right : Ty, right.Definite →
      (∀ result, resultKind? left.kind operator right.kind = some result ↔
        ⟨left.kind, operator, right.kind, result⟩ ∈ OperatorRule.table) ∧
      (left.operate operator right).kind =
        (resultKind? left.kind operator right.kind).getD .none ∧
      ((left.operate operator right).kind ≠ .none ↔
        right.kind ∈ rightKinds left.kind operator)) ∧
    (left.operandHint operator = .none ↔
      ∀ right : Ty, right.Definite → (left.operate operator right).kind = .none) ∧
    ∃ kinds : List TypeKind,
      kinds = (OperatorRule.after left.kind operator).map OperatorRule.right ∧ kinds.Nodup ∧
      (∀ kind, kind ∈ kinds ↔ ∃ right : Ty, right.Definite ∧ right.kind = kind ∧
        (left.operate operator right).kind ≠ .none) ∧
      left.operandHint operator = .ofKinds kinds := by
  refine ⟨?_, operandHint_eq_none leftDefinite, rightKinds left.kind operator, rightKinds_eq,
    rightKinds_nodup left.kind operator, fun kind => mem_rightKinds_iff_operate leftDefinite,
    operandHint_eq leftDefinite⟩
  intro right rightDefinite
  exact ⟨fun result => resultKind?_eq_some, operate_resultKind leftDefinite rightDefinite,
    operate_defined leftDefinite rightDefinite⟩

theorem operandHint_agrees_list :
    let left : Ty := .list [.of .number] true
    let right : Ty := .record [("x", .any)] true false
    left.Definite ∧ right.Definite ∧ left.operandHint .equal = .union [.of .list, .null] true ∧
      (left.operate .equal right).kind = .none := by
  intro left right
  have leftDefinite : left.Definite := by decide
  have rightDefinite : right.Definite := by decide
  obtain ⟨compared, -, kinds, rfl, -, -, hint⟩ := operandHint_agrees left .equal leftDefinite
  exact ⟨leftDefinite, rightDefinite, hint, (compared right rightDefinite).2.1⟩

end Ty

end FormulaInspection
