import FormulaInspection.Graph.Builder
import FormulaInspection.Proofs.Chains
import FormulaInspection.Proofs.Decimal

/-!
Indices that are written out. A literal in decimal digits takes exactly the element that it counts
to out of a list whose elements are known, and nothing past its end, as long as it fits into 64
bits. A longer literal is taken for an expression whose value is not known.
-/

namespace FormulaInspection

namespace Ty

def orNull (item : Ty) : Ty :=
  if item.isNone then item else item.withNullable true

variable {elements : List Ty} {isNullable isOptional : Bool} {index : Nat}

theorem accessItem_list (index? : Option Nat) :
    (list elements isNullable).accessItem index? isOptional =
      if isOptional then ((list elements isNullable).itemType index? true).orNull
      else (list elements isNullable).itemType index? false := by
  have known : (list elements isNullable).isUnknown = false := rfl
  have noAny : ((list elements isNullable).kind == .any) = false := rfl
  unfold accessItem orNull
  cases isOptional with
  | false => simp [known, noAny]
  | true => by_cases none : ((list elements isNullable).itemType index? true).isNone <;>
      simp [known, noAny, none]

theorem accessItem_counted :
    (list elements isNullable).accessItem (some index) isOptional =
      if isOptional then (elements[index]?.map orNull).getD .null
      else elements[index]?.getD .none := by
  rw [accessItem_list]
  cases isOptional with
  | false => rfl
  | true =>
      simp only [itemType]
      cases elements[index]? <;> rfl

theorem accessItem_uncounted :
    (list elements isNullable).accessItem none isOptional =
      if isOptional then (oneOf elements).orNull else oneOf elements := by
  rw [accessItem_list]
  rfl

end Ty

/-- What an access to the head of a chain takes out when its index is written out in decimal digits,
with or without zeros in front. -/
theorem inferType_literalIndex {graph : Graph} {chain head wrapper access content : Node}
    {rest : List Node} (isChain : graph.Chain chain head wrapper (access :: rest))
    (kind : access.kind = .itemAccessExpression)
    (written : graph.requiredChild? access Slot.wrappedContent = .ok (some content))
    {isOptional : Bool} (marked : graph.hasChild access.id Slot.wrappedOptional = .ok isOptional)
    {text : String} (literal : content.literal? = some (.numeric, text)) {zeros index : Nat}
    (spelled : text.toList = List.replicate zeros '0' ++ Nat.toDigits 10 index)
    {cache : InspectionCache} {elements : List Ty} {isNullable : Bool}
    (known : cache.types[head.id]? = some (.list elements isNullable))
    (unknown : access.id ∉ cache.types) {maxDepth : Nat} (room : 0 < maxDepth) :
    ∃ ty, (inferType graph access.id maxDepth cache .never).answer = .ok ty ∧
      (index < Decimal.bound64 →
        ty = if isOptional then (elements[index]?.map Ty.orNull).getD .null
          else elements[index]?.getD .none) ∧
      (Decimal.bound64 ≤ index →
        ty = if isOptional then (Ty.oneOf elements).orNull else .oneOf elements) := by
  have read : literalIndex? content = if index < Decimal.bound64 then some index else none := by
    rw [literalIndex?, literal]
    exact Decimal.ofText?_padded spelled
  have inferred := @Graph.Chain.inferType_last graph chain head wrapper
    [(access, .item (literalIndex? content) isOptional)] cache _ maxDepth _ rest access isChain rfl
    rfl (by simpa using .item kind written marked) known (by simpa using unknown) room
  refine ⟨_, inferred, ?_, ?_⟩
  · intro inRange
    rw [read, if_pos inRange]
    exact Ty.accessItem_counted
  · intro tooLong
    rw [read, if_neg (Nat.not_lt.mpr tooLong)]
    exact Ty.accessItem_uncounted

/-- The expression `{1, "t"}{text}`, where the index is a literal. -/
def indexSample (text : String) : Graph :=
  (show Build NodeId from do
    let one ← Builder.numericLiteral "1"
    let letter ← Builder.textLiteral "t"
    let list ← Builder.listExpression [one, letter]
    let index ← Builder.numericLiteral text
    let access ← Builder.itemAccess index false
    Builder.recursivePrimary list [access]).run .empty |>.2.graph

def indexSampleCache : InspectionCache :=
  { types := (∅ : IdMap Ty).insert 9 (.list [.of .number, .of .text] false), scopes := ∅ }

/-- The first literal beyond 64 bits counts past the end of the list, and still something is taken
out. -/
theorem indexSample_overflows :
    "18446744073709551616".toList = Nat.toDigits 10 Decimal.bound64 ∧
    [Ty.of .number, .of .text].length ≤ Decimal.bound64 ∧
    ((inferType (indexSample "18446744073709551616") 13 512 indexSampleCache .never).answer.map
      Ty.isNone) = .ok false := by
  decide +kernel

theorem indexSample_counts :
    (inferType (indexSample "0018446744073709551615") 13 512 indexSampleCache .never).answer =
      .ok .none := by
  let chain : Node := .ast ⟨15, .recursivePrimaryExpression, none, .none⟩
  let head : Node := .ast ⟨9, .listExpression, some 0, .none⟩
  let wrapper : Node := .ast ⟨14, .arrayWrapper, some 1, .none⟩
  let access : Node := .ast ⟨13, .itemAccessExpression, some 0, .none⟩
  let content : Node :=
    .ast ⟨10, .literalExpression, some 1, .literal .numeric "0018446744073709551615"⟩
  have isChain : (indexSample "0018446744073709551615").Chain chain head wrapper [access] :=
    ⟨by decide, by decide +kernel, by decide +kernel, by decide +kernel, by decide, by decide,
      by decide +kernel, by decide +kernel, by decide, by decide +kernel, by decide +kernel⟩
  have written : (indexSample "0018446744073709551615").requiredChild? access Slot.wrappedContent =
      .ok (some content) := by decide +kernel
  have marked : (indexSample "0018446744073709551615").hasChild access.id Slot.wrappedOptional =
      .ok false := by decide +kernel
  have spelled : "0018446744073709551615".toList =
      List.replicate 2 '0' ++ Nat.toDigits 10 18446744073709551615 := by decide +kernel
  obtain ⟨ty, inferred, inRange, -⟩ := inferType_literalIndex isChain rfl written marked rfl spelled
    (rfl : indexSampleCache.types[9]? = some (.list [.of .number, .of .text] false))
    (by decide : access.id ∉ indexSampleCache.types) (by decide : 0 < 512)
  rw [inRange (by decide)] at inferred
  exact inferred

end FormulaInspection
