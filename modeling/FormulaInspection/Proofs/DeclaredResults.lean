import FormulaInspection.Graph.Builder
import FormulaInspection.Proofs.Chains

/-!
Functions that declare what they return. A body that contradicts the declaration leaves the function
without a value. Otherwise the function returns what its body is known to be, or what is declared
where the body is not known, and so does every call of it.
-/

namespace FormulaInspection

theorem PrimitiveName.kind_ne_unknown (primitive : PrimitiveName) : primitive.kind ≠ .unknown := by
  cases primitive <;> decide

namespace Ty

variable {declared body result : Ty} {kind : TypeKind}

/-- The type is known, and some value of it is not of the kind. -/
def Contradicts (body : Ty) (kind : TypeKind) : Prop :=
  body.kind ≠ .unknown ∧ ¬body.isAny ∧
    ((∃ members, body.unionMembers? = some members ∧
        ∃ member ∈ members, ¬member.isAny ∧ member.kind ≠ kind) ∨
      body.unionMembers? = none ∧ body.kind ≠ kind)

/-- The type is of the kind, or a union of types that are or may be. -/
def Honours (result : Ty) (kind : TypeKind) : Prop :=
  result.kind = kind ∨ ∃ members, result.unionMembers? = some members ∧
    ∀ member ∈ members, member.isAny ∨ member.kind = kind

theorem kind_of_unionMembers? {ty : Ty} {members : List Ty}
    (isUnion : ty.unionMembers? = some members) : ty.kind = .any := by
  cases ty with
  | union _ _ => rfl
  | _ => cases isUnion

theorem reconcile_unknown (notAny : declared.kind ≠ .any)
    (unknown : body.kind = .unknown ∨ body.isAny) : reconcile declared body = some declared := by
  unfold reconcile
  rw [if_neg (by simpa using notAny), if_pos (by simpa [isUnknown] using unknown)]

theorem reconcile_known (notAny : declared.kind ≠ .any)
    (known : ¬(body.kind = .unknown ∨ body.isAny)) :
    reconcile declared body = some result ↔ body.Honours declared.kind ∧ body = result := by
  have compared : reconcile declared body =
      if (body.unionMembers?.elim (body.kind == declared.kind) fun members =>
        members.all fun member => member.isAny || member.kind == declared.kind) then some body
      else none := by
    unfold reconcile
    rw [if_neg (by simpa using notAny), if_neg (by simpa [isUnknown] using known)]
    cases body <;> rfl
  rw [compared]
  cases members : body.unionMembers? with
  | none => simp [Honours, members]
  | some _ =>
      have isUnion := kind_of_unionMembers? members
      simp [Honours, members, isUnion, Ne.symm notAny]

theorem contradicts_iff (known : ¬(body.kind = .unknown ∨ body.isAny)) (notAny : kind ≠ .any) :
    body.Contradicts kind ↔ ¬body.Honours kind := by
  rw [not_or] at known
  cases members : body.unionMembers? with
  | none => simp [Contradicts, Honours, members, known]
  | some _ =>
      have isUnion := kind_of_unionMembers? members
      simp [Contradicts, Honours, members, known, isUnion, Ne.symm notAny]

theorem reconcile_cases (notAny : declared.kind ≠ .any) (body : Ty) :
    body.Contradicts declared.kind ∧ reconcile declared body = none ∨
    ¬body.Contradicts declared.kind ∧ ∃ result, reconcile declared body = some result ∧
      result.Honours declared.kind ∧
      result = if body.kind = .unknown ∨ body.isAny then declared else body := by
  by_cases unknown : body.kind = .unknown ∨ body.isAny
  · refine Or.inr ⟨?_, declared, reconcile_unknown notAny unknown, Or.inl rfl,
      (if_pos unknown).symm⟩
    rintro ⟨known, notBare, -⟩
    exact unknown.elim known notBare
  · rw [contradicts_iff unknown notAny, not_not, if_neg unknown]
    by_cases honours : body.Honours declared.kind
    · exact Or.inr ⟨honours, body, (reconcile_known notAny unknown).mpr ⟨honours, rfl⟩, honours,
        rfl⟩
    · refine Or.inl ⟨honours, Option.eq_none_iff_forall_ne_some.mpr fun result reconciled => ?_⟩
      exact honours ((reconcile_known notAny unknown).mp reconciled).1

theorem Honours.kind_ne_unknown (honours : result.Honours kind) (known : kind ≠ .unknown) :
    result.kind ≠ .unknown := by
  rcases honours with same | ⟨members, isUnion, -⟩
  · rwa [same]
  · rw [kind_of_unionMembers? isUnion]
    decide

def declaring (parameters : List Parameter) (declared body : Ty) : Ty :=
  (reconcile declared body).elim .none fun result => .function parameters result false

theorem declaring_eq_none (parameters : List Parameter) (notAny : declared.kind ≠ .any) :
    declaring parameters declared body = .none ↔ body.Contradicts declared.kind := by
  unfold declaring
  rcases reconcile_cases notAny body with ⟨contradicts, nothing⟩ | ⟨fits, result, something, -⟩
  · simp [nothing, contradicts]
  · simp [something, fits, of]

theorem call_function (parameters : List Parameter) (isNullable : Bool)
    (known : result.kind ≠ .unknown) : (function parameters result isNullable).call = result := by
  have isKnown : ¬result.isUnknown := by simpa [isUnknown] using known
  exact if_neg isKnown

theorem declaring_honours (parameters : List Parameter) (notAny : declared.kind ≠ .any)
    (known : declared.kind ≠ .unknown) (fits : ¬body.Contradicts declared.kind) :
    ∃ result, declaring parameters declared body = .function parameters result false ∧
      (declaring parameters declared body).call = result ∧ result.Honours declared.kind ∧
      result.kind ≠ .unknown ∧
      result = if body.kind = .unknown ∨ body.isAny then declared else body := by
  rcases reconcile_cases notAny body with
    ⟨contradicts, -⟩ | ⟨-, result, something, honours, isResult⟩
  · exact absurd contradicts fits
  · have function : declaring parameters declared body = .function parameters result false := by
      rw [declaring, something]
      rfl
    have resultKnown := honours.kind_ne_unknown known
    rw [function]
    exact ⟨result, rfl, call_function parameters false resultKnown, honours, resultKnown, isResult⟩

end Ty

namespace Evaluator

variable {evaluator : Evaluator} {node body : Node} {signature : FunctionSignature}
  {primitive : PrimitiveName} {isNullable : Bool} {bodyType : Ty} {state : Progress}

theorem inferNode_function (kind : node.kind = .functionExpression)
    (read : evaluator.graph.functionSignature node = .ok signature)
    (declared : signature.returnType? = some (primitive, isNullable))
    (written : evaluator.graph.requiredChild? node Slot.functionBody = .ok (some body))
    (awaits : evaluator.Awaits body bodyType [node] state) :
    ∃ final, evaluator.inferNode node state =
      (.ok (.declaring (signature.parameters.map ParameterSignature.parameter)
        (primitive.declared isNullable) bodyType), final) := by
  obtain ⟨enters, inside⟩ := awaits.enter List.mem_cons_self (List.nil_subset _) Nat.zero_lt_one
    List.not_mem_nil
  have polled : (state.enter node.id).cancellation.poll = .ok .never := by
    rw [inside.never]
    rfl
  have typed := typesChild_written written (inferNode_known polled inside.known)
  have ran : evaluator.run evaluator.inferNode (evaluator.graph.typingRule node)
      (state.enter node.id) =
        (.ok (.declaring (signature.parameters.map ParameterSignature.parameter)
          (primitive.declared isNullable) bodyType), (state.enter node.id).polled .never) := by
    unfold Graph.typingRule Graph.functionType Ty.declaring
    simp only [kind, read, Demand.bind_read]
    rw [typed.run_bind]
    simp only [declared]
    cases (primitive.declared isNullable).reconcile bodyType <;> rfl
  exact enters.inferNode ran

end Evaluator

/-- A function with a declared result has the value that its declaration promises, and so has every
call of it, unless its body is known to contradict the declaration. -/
theorem inferType_declaredResult {graph : Graph} {id : NodeId} {node body : Node}
    {signature : FunctionSignature} {primitive : PrimitiveName} {isNullable : Bool}
    {cache : InspectionCache} {bodyType : Ty} {maxDepth : Nat} (found : graph.node? id = some node)
    (kind : node.kind = .functionExpression)
    (read : graph.functionSignature node = .ok signature)
    (declared : signature.returnType? = some (primitive, isNullable))
    (notAny : primitive.kind ≠ .any)
    (written : graph.requiredChild? node Slot.functionBody = .ok (some body))
    (known : cache.types[body.id]? = some bodyType) (unknown : node.id ∉ cache.types)
    (room : 0 < maxDepth) :
    ∃ ty, (inferType graph id maxDepth cache .never).answer = .ok ty ∧
      (ty = .none ↔ bodyType.Contradicts primitive.kind) ∧
      (¬bodyType.Contradicts primitive.kind → ∃ result,
        ty = .function (signature.parameters.map ParameterSignature.parameter) result false ∧
        ty.call = result ∧ result.Honours primitive.kind ∧ result.kind ≠ .unknown ∧
        result = if bodyType.kind = .unknown ∨ bodyType.isAny then primitive.declared isNullable
          else bodyType) ∧
      ∀ chain wrapper call rest, graph.Chain chain node wrapper (call :: rest) →
        call.kind = .invokeExpression → call.id ≠ node.id → call.id ∉ cache.types →
        1 < maxDepth →
        (inferType graph call.id maxDepth cache .never).answer = .ok ty.call := by
  have promised : (primitive.declared isNullable).kind ≠ .any := notAny
  have awaits := @Evaluator.awaits_initial body bodyType cache graph maxDepth [node] known
    (by simpa using unknown) room
  obtain ⟨_, inferred⟩ := Evaluator.inferNode_function kind read declared written awaits
  refine ⟨_, Evaluator.inferType_of_inferNode found inferred, Ty.declaring_eq_none _ promised,
    Ty.declaring_honours _ promised primitive.kind_ne_unknown, ?_⟩
  intro chain wrapper call rest isChain isCall apart uncalled roomForCall
  have awaitsCall := @Evaluator.awaits_initial body bodyType cache graph maxDepth [call, node] known
    (by simpa using ⟨uncalled, unknown⟩) roomForCall
  obtain ⟨enters, inside⟩ := awaitsCall.enter List.mem_cons_self (List.subset_cons_self _ _)
    (Nat.lt_succ_self _) (by simpa using apart)
  obtain ⟨_, function⟩ := Evaluator.inferNode_function kind read declared written inside
  obtain ⟨_, called⟩ := Evaluator.inferNode_element isChain (List.nil_append _).symm (.call isCall)
    enters function
  exact Evaluator.inferType_of_inferNode (isChain.found call List.mem_cons_self) called

/-- The call `((x as number, optional y) as nullable text => x)()`. -/
def declaredSample : Graph :=
  (show Build NodeId from do
    let x ← Builder.parameter "x" false (some (.number, false))
    let y ← Builder.parameter "y" true none
    let body ← Builder.identifierExpression "x"
    let function ← Builder.functionExpression [x, y] (some (.text, true)) body
    let call ← Builder.invoke []
    Builder.recursivePrimary function [call]).run .empty |>.2.graph

def declaredSampleBody : Ty :=
  .union [.any, .of .text] true

def declaredSampleCache : InspectionCache :=
  { types := (∅ : IdMap Ty).insert 10 declaredSampleBody, scopes := ∅ }

theorem declaredSample_honours :
    declaredSampleBody.Honours .text ∧
    (inferType declaredSample 24 512 declaredSampleCache .never).answer =
      .ok (.function [⟨"x", false, false, some .number⟩, ⟨"y", true, true, none⟩] declaredSampleBody
        false) ∧
    (inferType declaredSample 28 512 declaredSampleCache .never).answer =
      .ok declaredSampleBody := by
  let chain : Node := .ast ⟨30, .recursivePrimaryExpression, none, .none⟩
  let function : Node := .ast ⟨24, .functionExpression, some 0, .none⟩
  let wrapper : Node := .ast ⟨29, .arrayWrapper, some 1, .none⟩
  let call : Node := .ast ⟨28, .invokeExpression, some 0, .none⟩
  let body : Node := .ast ⟨10, .identifierExpression, some 3, .none⟩
  let signature : FunctionSignature :=
    ⟨[⟨5, "x", false, false, some .number⟩, ⟨8, "y", true, true, none⟩], some (.text, true)⟩
  have found : declaredSample.node? 24 = some function := by decide +kernel
  have read : declaredSample.functionSignature function = .ok signature := by decide +kernel
  have written : declaredSample.requiredChild? function Slot.functionBody = .ok (some body) := by
    decide +kernel
  have isChain : declaredSample.Chain chain function wrapper [call] :=
    ⟨by decide, by decide +kernel, by decide +kernel, by decide +kernel, by decide, by decide,
      by decide +kernel, by decide +kernel, by decide, by decide +kernel, by decide +kernel⟩
  have fits : ¬declaredSampleBody.Contradicts PrimitiveName.text.kind := by
    rintro ⟨-, -, ⟨members, isUnion, member, inside, notAny, other⟩ | ⟨noUnion, -⟩⟩
    · cases isUnion
      rcases List.mem_pair.mp inside with rfl | rfl
      · exact notAny rfl
      · exact other rfl
    · cases noUnion
  obtain ⟨ty, inferred, -, honours, called⟩ := inferType_declaredResult found rfl read rfl
    (by decide) written (rfl : declaredSampleCache.types[10]? = some declaredSampleBody)
    (by decide : function.id ∉ declaredSampleCache.types) (by decide : 0 < 512)
  obtain ⟨result, rfl, calls, resultHonours, -, rfl⟩ := honours fits
  have answered := called chain wrapper call [] isChain rfl (by decide) (by decide) (by decide)
  rw [calls] at answered
  exact ⟨resultHonours, inferred, answered⟩

end FormulaInspection
