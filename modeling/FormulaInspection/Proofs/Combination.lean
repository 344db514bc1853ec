import FormulaInspection.Proofs.NameMap
import FormulaInspection.Ty.Operator

/-!
Chains of `&`. An operand that is unknown settles the type of the whole chain, and so does `any` after
it. All others have to be of one kind: texts, lists, records or tables. What they make does not depend
on the order in which they are put together.
-/

namespace FormulaInspection

theorem OperatorRule.table_ampersand :
    (OperatorRule.table.filter fun rule => rule.operator == .ampersand) =
      OperatorRule.concatenation := by
  decide +kernel

def TypeKind.IsStructured (kind : TypeKind) : Prop :=
  kind = .list ∨ kind = .record ∨ kind = .table

inductive Joins : TypeKind → TypeKind → TypeKind → Prop
  | text : Joins .text .text .text
  | moment : Joins .date .time .dateTime
  | structured {kind : TypeKind} : kind.IsStructured → Joins kind kind kind

theorem resultKind?_ampersand {left right result : TypeKind} :
    resultKind? left .ampersand right = some result ↔ Joins left right result := by
  constructor
  · intro found
    obtain ⟨rule, first, rfl⟩ := Option.map_eq_some_iff.mp found
    have operands := List.find?_some first
    simp only [Bool.and_eq_true, beq_iff_eq] at operands
    obtain ⟨⟨rfl, isAmpersand⟩, rfl⟩ := operands
    have listed : rule ∈ OperatorRule.concatenation := by
      rw [← OperatorRule.table_ampersand]
      exact List.mem_filter.mpr ⟨List.mem_of_find?_eq_some first, beq_iff_eq.mpr isAmpersand⟩
    simp only [OperatorRule.concatenation, List.mem_cons, List.not_mem_nil, or_false] at listed
    rcases listed with rfl | rfl | rfl | rfl | rfl
    · exact .text
    · exact .moment
    · exact .structured (by simp [TypeKind.IsStructured])
    · exact .structured (by simp [TypeKind.IsStructured])
    · exact .structured (by simp [TypeKind.IsStructured])
  · intro joins
    cases joins with
    | text => rfl
    | moment => rfl
    | structured kinds => rcases kinds with rfl | rfl | rfl <;> rfl

theorem Joins.definite {left right whole : TypeKind} (joins : Joins left right whole) :
    ∀ kind ∈ [left, right, whole], kind ≠ .unknown ∧ kind ≠ .any ∧ kind ≠ .none := by
  cases joins with
  | text => decide
  | moment => decide
  | structured kinds => rcases kinds with rfl | rfl | rfl <;> decide

theorem Joins.operands {left right whole : TypeKind} (joins : Joins left right whole)
    (structured : whole.IsStructured) : left = whole ∧ right = whole := by
  cases joins with
  | text => exact ⟨rfl, rfl⟩
  | moment => simp [TypeKind.IsStructured] at structured
  | structured _ => exact ⟨rfl, rfl⟩

theorem Joins.homogeneous {left middle right between whole : TypeKind}
    (joins : (Joins left middle between ∧ Joins between right whole) ∨
      (Joins middle right between ∧ Joins left between whole)) :
    left = middle ∧ middle = right ∧ (right = .text ∨ right.IsStructured) := by
  rcases joins with ⟨first, second⟩ | ⟨first, second⟩ <;> cases first <;> cases second <;>
    simp_all [TypeKind.IsStructured]

namespace Ty

variable {a b c : Ty}

def knownElements? : Ty → Option (List Ty)
  | .list elements _ => some elements
  | _ => none

def combinedElements? (left right : Ty) : Option (List Ty) :=
  left.knownElements?.bind fun elements => right.knownElements?.map (elements ++ ·)

theorem combine_list (left : a.kind = .list) (right : b.kind = .list) :
    combine a b = (combinedElements? a b).elim (.primitive .list (a.isNullable && b.isNullable))
      fun elements => .list elements (a.isNullable && b.isNullable) := by
  unfold combine
  rw [left, right]
  cases a <;> cases b <;> rfl

theorem combine_record (left : a.kind = .record) (right : b.kind = .record) :
    combine a b = (combinedFields? a b).elim (.primitive .record (a.isNullable && b.isNullable))
      fun fields => .record fields true (a.isNullable && b.isNullable) := by
  unfold combine
  rw [left, right]
  cases combinedFields? a b <;> rfl

theorem combine_table (left : a.kind = .table) (right : b.kind = .table) :
    combine a b = (combinedFields? a b).elim (.primitive .table (a.isNullable && b.isNullable))
      fun fields => .table fields true (a.isNullable && b.isNullable) := by
  unfold combine
  rw [left, right]
  cases combinedFields? a b <;> rfl

theorem combine_apart (apart : ¬(a.kind = b.kind ∧ a.kind.IsStructured)) : combine a b = .none := by
  unfold combine
  simp only
  split
  · rfl
  · rename_i alike
    have notStructured : ¬a.kind.IsStructured := fun structured =>
      apart ⟨by simpa using alike, structured⟩
    split
    all_goals simp_all [TypeKind.IsStructured]

theorem combine_outside {kind : TypeKind} (structured : kind.IsStructured) (left : a.kind = kind)
    (right : b.kind = kind) :
    (combine a b).kind = kind ∧ (combine a b).isNullable = (a.isNullable && b.isNullable) := by
  rcases structured with rfl | rfl | rfl
  · rw [combine_list left right]
    cases combinedElements? a b <;> exact ⟨rfl, rfl⟩
  · rw [combine_record left right]
    cases combinedFields? a b <;> exact ⟨rfl, rfl⟩
  · rw [combine_table left right]
    cases combinedFields? a b <;> exact ⟨rfl, rfl⟩

theorem combine_knownElements? (left : a.kind = .list) (right : b.kind = .list) :
    (combine a b).knownElements? = combinedElements? a b := by
  rw [combine_list left right]
  cases combinedElements? a b <;> rfl

theorem combine_knownFields? {kind : TypeKind} (fielded : kind = .record ∨ kind = .table)
    (left : a.kind = kind) (right : b.kind = kind) :
    (combine a b).knownFields? = combinedFields? a b := by
  rcases fielded with rfl | rfl
  · rw [combine_record left right]
    cases combinedFields? a b <;> rfl
  · rw [combine_table left right]
    cases combinedFields? a b <;> rfl

theorem combinedElements?_assoc {first last : Ty}
    (elementsFirst : first.knownElements? = combinedElements? a b)
    (elementsLast : last.knownElements? = combinedElements? b c) :
    combinedElements? first c = combinedElements? a last := by
  unfold combinedElements? at *
  rw [elementsFirst, elementsLast]
  cases a.knownElements? <;> cases b.knownElements? <;> cases c.knownElements? <;> simp

def NamesOnce (ty : Ty) : Prop :=
  ∀ fields, ty.knownFields? = some fields → (NameMap.names fields).Nodup

theorem combinedFields?_assoc {first last : Ty} (once : b.NamesOnce)
    (fieldsFirst : first.knownFields? = combinedFields? a b)
    (fieldsLast : last.knownFields? = combinedFields? b c) :
    combinedFields? first c = combinedFields? a last := by
  unfold combinedFields? at *
  rw [fieldsFirst, fieldsLast]
  cases inMiddle : b.knownFields? with
  | none => cases a.knownFields? <;> cases c.knownFields? <;> rfl
  | some fields =>
      cases a.knownFields? <;> cases c.knownFields? <;>
        simp [NameMap.setAll_assoc (once fields inMiddle)]

theorem combine_assoc {kind : TypeKind} (structured : kind.IsStructured) (once : b.NamesOnce)
    (first : a.kind = kind) (second : b.kind = kind) (third : c.kind = kind) :
    combine (combine a b) c = combine a (combine b c) := by
  obtain ⟨kindFirst, nullableFirst⟩ := combine_outside structured first second
  obtain ⟨kindLast, nullableLast⟩ := combine_outside structured second third
  have nullable : ((combine a b).isNullable && c.isNullable) =
      (a.isNullable && (combine b c).isNullable) := by
    rw [nullableFirst, nullableLast, Bool.and_assoc]
  by_cases isList : kind = .list
  · subst isList
    have elements : combinedElements? (combine a b) c = combinedElements? a (combine b c) :=
      combinedElements?_assoc (combine_knownElements? first second)
        (combine_knownElements? second third)
    rw [combine_list kindFirst third, combine_list first kindLast, nullable, elements]
  · have fielded := structured.resolve_left isList
    have fields : combinedFields? (combine a b) c = combinedFields? a (combine b c) :=
      combinedFields?_assoc once (combine_knownFields? fielded first second)
        (combine_knownFields? fielded second third)
    rcases fielded with rfl | rfl
    · rw [combine_record kindFirst third, combine_record first kindLast, nullable, fields]
    · rw [combine_table kindFirst third, combine_table first kindLast, nullable, fields]

theorem kind_of (kind : TypeKind) : (of kind).kind = kind := rfl

theorem operate_unknown (operator : Token) (unknown : a.kind = .unknown ∨ b.kind = .unknown) :
    a.operate operator b = .unknown := by
  simp [operate, isUnknown, unknown]

theorem operate_any (operator : Token) (known : ¬(a.kind = .unknown ∨ b.kind = .unknown))
    (any : a.kind = .any ∨ b.kind = .any) : a.operate operator b = .any := by
  simp [operate, isUnknown, known, any]

theorem operate_joins {kind : TypeKind} (joins : Joins a.kind b.kind kind) :
    a.operate .ampersand b =
      if kind = .list ∨ kind = .record ∨ kind = .table then combine a b
      else .primitive kind (a.isNullable || b.isNullable) := by
  have definite := joins.definite
  have noEquality : Token.ampersand ∉ OperatorRule.equalityOperators := by decide
  simp only [List.mem_cons, List.not_mem_nil, or_false, forall_eq_or_imp, forall_eq] at definite
  simp [operate, isUnknown, resultKind?_ampersand.mpr joins, definite, noEquality, or_assoc]

theorem operate_apart (known : ¬(a.kind = .unknown ∨ b.kind = .unknown))
    (notAny : ¬(a.kind = .any ∨ b.kind = .any)) (apart : ∀ kind, ¬Joins a.kind b.kind kind) :
    a.operate .ampersand b = .none := by
  have noRule : resultKind? a.kind .ampersand b.kind = none :=
    Option.eq_none_iff_forall_ne_some.mpr fun kind found =>
      apart kind (resultKind?_ampersand.mp found)
  simp [operate, isUnknown, known, notAny, noRule]

theorem operate_kind {kind : TypeKind} (joins : Joins a.kind b.kind kind) :
    (a.operate .ampersand b).kind = kind := by
  rw [operate_joins joins]
  split
  · rename_i structured
    obtain ⟨left, right⟩ := joins.operands structured
    exact (combine_outside structured left right).1
  · rfl

theorem operate_kind_eq_unknown :
    (a.operate .ampersand b).kind = .unknown ↔ a.kind = .unknown ∨ b.kind = .unknown := by
  by_cases unknown : a.kind = .unknown ∨ b.kind = .unknown
  · simp [operate_unknown _ unknown, kind_of, unknown]
  by_cases any : a.kind = .any ∨ b.kind = .any
  · simp [operate_any _ unknown any, kind_of, unknown]
  by_cases joined : ∃ kind, Joins a.kind b.kind kind
  · obtain ⟨kind, joins⟩ := joined
    simp [operate_kind joins, joins.definite kind (by simp), unknown]
  · simp [operate_apart unknown any (not_exists.mp joined), kind_of, unknown]

theorem operate_kind_eq_any (known : ¬(a.kind = .unknown ∨ b.kind = .unknown)) :
    (a.operate .ampersand b).kind = .any ↔ a.kind = .any ∨ b.kind = .any := by
  by_cases any : a.kind = .any ∨ b.kind = .any
  · simp [operate_any _ known any, kind_of, any]
  by_cases joined : ∃ kind, Joins a.kind b.kind kind
  · obtain ⟨kind, joins⟩ := joined
    simp [operate_kind joins, joins.definite kind (by simp), any]
  · simp [operate_apart known any (not_exists.mp joined), kind_of, any]

theorem operate_structured {kind : TypeKind} (structured : kind.IsStructured)
    (left : a.kind = kind) (right : b.kind = kind) : a.operate .ampersand b = combine a b := by
  have joins : Joins a.kind b.kind kind := by
    rw [left, right]
    exact .structured structured
  rw [operate_joins joins]
  exact if_pos structured

theorem operate_text (left : a.kind = .text) (right : b.kind = .text) :
    a.operate .ampersand b = .primitive .text (a.isNullable || b.isNullable) := by
  have joins : Joins a.kind b.kind .text := by
    rw [left, right]
    exact .text
  rw [operate_joins joins, if_neg (by decide)]

theorem joins_of_operate (known : ¬(a.kind = .unknown ∨ b.kind = .unknown))
    (notAny : ¬(a.kind = .any ∨ b.kind = .any)) (something : (a.operate .ampersand b).kind ≠ .none) :
    Joins a.kind b.kind (a.operate .ampersand b).kind := by
  by_cases joined : ∃ kind, Joins a.kind b.kind kind
  · obtain ⟨kind, joins⟩ := joined
    rw [operate_kind joins]
    exact joins
  · rw [operate_apart known notAny (not_exists.mp joined)] at something
    exact absurd rfl something

/-- It does not matter which `&` of a chain is applied first. -/
theorem operate_ampersand_assoc (a b c : Ty) (once : b.NamesOnce) :
    (a.operate .ampersand b).operate .ampersand c =
      a.operate .ampersand (b.operate .ampersand c) := by
  by_cases unknown : a.kind = .unknown ∨ b.kind = .unknown ∨ c.kind = .unknown
  · rw [operate_unknown _ (by rwa [operate_kind_eq_unknown, or_assoc]),
      operate_unknown _ (by rwa [operate_kind_eq_unknown])]
  have knownFirst : ¬(a.kind = .unknown ∨ b.kind = .unknown) :=
    fun either => unknown (or_assoc.mp (Or.inl either))
  have knownLast : ¬(b.kind = .unknown ∨ c.kind = .unknown) := fun either => unknown (Or.inr either)
  have knownLeft : ¬((a.operate .ampersand b).kind = .unknown ∨ c.kind = .unknown) := by
    rwa [operate_kind_eq_unknown, or_assoc]
  have knownRight : ¬(a.kind = .unknown ∨ (b.operate .ampersand c).kind = .unknown) := by
    rwa [operate_kind_eq_unknown]
  by_cases any : a.kind = .any ∨ b.kind = .any ∨ c.kind = .any
  · rw [operate_any _ knownLeft (by rwa [operate_kind_eq_any knownFirst, or_assoc]),
      operate_any _ knownRight (by rwa [operate_kind_eq_any knownLast])]
  have notAnyFirst : ¬(a.kind = .any ∨ b.kind = .any) :=
    fun either => any (or_assoc.mp (Or.inl either))
  have notAnyLast : ¬(b.kind = .any ∨ c.kind = .any) := fun either => any (Or.inr either)
  by_cases oneKind : a.kind = b.kind ∧ b.kind = c.kind ∧ (c.kind = .text ∨ c.kind.IsStructured)
  · obtain ⟨sameFirst, sameLast, text | structured⟩ := oneKind
    · rw [operate_text (sameFirst.trans (sameLast.trans text)) (sameLast.trans text),
        operate_text (sameLast.trans text) text, operate_text rfl text,
        operate_text (sameFirst.trans (sameLast.trans text)) rfl]
      simp only [isNullable, Bool.or_assoc]
    · have kindFirst := (combine_outside structured (sameFirst.trans sameLast) sameLast).1
      have kindLast := (combine_outside structured sameLast rfl).1
      rw [operate_structured structured (sameFirst.trans sameLast) sameLast,
        operate_structured structured sameLast rfl, operate_structured structured kindFirst rfl,
        operate_structured structured (sameFirst.trans sameLast) kindLast,
        combine_assoc structured once (sameFirst.trans sameLast) sameLast rfl]
  have apartLeft : (a.operate .ampersand b).operate .ampersand c = .none := by
    refine operate_apart knownLeft (by rwa [operate_kind_eq_any knownFirst, or_assoc]) ?_
    intro whole joins
    have something := (joins.definite (a.operate .ampersand b).kind (by simp)).2.2
    have joinsFirst := joins_of_operate knownFirst notAnyFirst something
    exact oneKind (Joins.homogeneous (.inl ⟨joinsFirst, joins⟩))
  have apartRight : a.operate .ampersand (b.operate .ampersand c) = .none := by
    refine operate_apart knownRight (by rwa [operate_kind_eq_any knownLast]) ?_
    intro whole joins
    have something := (joins.definite (b.operate .ampersand c).kind (by simp)).2.2
    have joinsLast := joins_of_operate knownLast notAnyLast something
    exact oneKind (Joins.homogeneous (.inr ⟨joinsLast, joins⟩))
  rw [apartLeft, apartRight]

theorem operate_ampersand_assoc_records :
    let first : Ty := .record [("x", .of .text), ("y", .of .number)] false true
    let second : Ty := .record [("y", .of .date), ("z", .null)] false true
    let third : Ty := .record [("x", .of .time), ("z", .of .table), ("w", .any)] false false
    let whole : Ty :=
      .record [("x", .of .time), ("y", .of .date), ("z", .of .table), ("w", .any)] true false
    second.NamesOnce ∧ (first.operate .ampersand second).operate .ampersand third = whole ∧
      first.operate .ampersand (second.operate .ampersand third) = whole := by
  intro first second third whole
  have once : second.NamesOnce := by
    rintro fields ⟨rfl⟩
    decide
  have isStructured : TypeKind.record.IsStructured := Or.inr (Or.inl rfl)
  have fromLeft : (first.operate .ampersand second).operate .ampersand third = whole := by
    rw [operate_structured isStructured rfl rfl, operate_structured isStructured rfl rfl]
    rfl
  exact ⟨once, fromLeft, (operate_ampersand_assoc first second third once).symm.trans fromLeft⟩

end Ty

end FormulaInspection
