import FormulaInspection.Graph.Builder
import FormulaInspection.Inference.Hint
import Mathlib.Order.Bounds.Basic

/-!
Where a hint comes from. A climb goes up as long as each node is in a slot and has no siblings: this
is the span that is still being typed. The hint is the highest expectation inside of the span, and
nothing above the span has a part in it.
-/

namespace FormulaInspection

def Graph.OnlyChildAt (graph : Graph) (path : List Node) (height : Nat) : Prop :=
  ∃ child parent, path[height]? = some child ∧ path[height + 1]? = some parent ∧
    (graph.childIds parent.id).length ≤ 1 ∧ child.slot.isSome

def expectationAt? (path : List Node) (height : Nat) : Option Ty := do
  let child ← path[height]?
  let parent ← path[height + 1]?
  let slot ← child.slot
  let expected := expectedType parent.kind slot
  if expected.kind = .notApplicable then none else some expected

def Graph.spanHeight (graph : Graph) : List Node → Nat
  | child :: parent :: rest =>
    if (graph.childIds parent.id).length ≤ 1 ∧ child.slot.isSome then
      graph.spanHeight (parent :: rest) + 1
    else 0
  | _ => 0

section

variable {graph : Graph} {path : List Node} {child : Node} {height : Nat} {ty : Ty}

theorem onlyChildAt_succ :
    graph.OnlyChildAt (child :: path) (height + 1) ↔ graph.OnlyChildAt path height := by
  simp [Graph.OnlyChildAt]

theorem expectationAt?_succ :
    expectationAt? (child :: path) (height + 1) = expectationAt? path height := by
  simp [expectationAt?]

theorem Graph.OnlyChildAt.exists_parent (only : graph.OnlyChildAt (child :: path) 0) :
    ∃ parent rest slot, path = parent :: rest ∧ (graph.childIds parent.id).length ≤ 1 ∧
      child.slot = some slot := by
  obtain ⟨_, parent, ⟨rfl⟩, isParent, alone, inSlot⟩ := only
  obtain ⟨slot, isSlot⟩ := Option.isSome_iff_exists.mp inSlot
  cases path with
  | nil => simp at isParent
  | cons above rest =>
      obtain rfl : above = parent := by simpa using isParent
      exact ⟨above, rest, slot, rfl, alone, isSlot⟩

theorem spanHeight_onward (only : graph.OnlyChildAt (child :: path) 0) :
    graph.spanHeight (child :: path) = graph.spanHeight path + 1 := by
  obtain ⟨parent, rest, slot, rfl, alone, inSlot⟩ := only.exists_parent
  simp [Graph.spanHeight, alone, inSlot]

theorem climbForHint_onward (only : graph.OnlyChildAt (child :: path) 0) (best? : Option Ty) :
    climbForHint graph best? (child :: path) =
      climbForHint graph ((expectationAt? (child :: path) 0).or best?) path := by
  obtain ⟨parent, rest, slot, rfl, alone, inSlot⟩ := only.exists_parent
  rw [climbForHint, if_neg (Nat.not_lt.mpr alone)]
  simp only [inSlot]
  congr 1
  by_cases unexpected : (expectedType parent.kind slot).kind = .notApplicable <;>
    simp [expectationAt?, inSlot, unexpected]

theorem not_onlyChildAt_cons {parent : Node} {rest : List Node}
    (stops : ¬graph.OnlyChildAt (child :: parent :: rest) 0) :
    1 < (graph.childIds parent.id).length ∨ child.slot = none := by
  by_contra goesOn
  rw [not_or, Nat.not_lt] at goesOn
  exact stops ⟨child, parent, rfl, rfl, goesOn.1, Option.isSome_iff_ne_none.mpr goesOn.2⟩

theorem spanHeight_stop (stops : ¬graph.OnlyChildAt path 0) : graph.spanHeight path = 0 := by
  rcases path with _ | ⟨child, _ | ⟨parent, rest⟩⟩
  · rfl
  · rfl
  · rw [Graph.spanHeight, if_neg]
    rcases not_onlyChildAt_cons stops with crowded | noSlot
    · omega
    · simp [noSlot]

theorem climbForHint_stop (stops : ¬graph.OnlyChildAt path 0) (best? : Option Ty) :
    climbForHint graph best? path = best? := by
  rcases path with _ | ⟨child, _ | ⟨parent, rest⟩⟩
  · rfl
  · rfl
  · rw [climbForHint]
    rcases not_onlyChildAt_cons stops with crowded | noSlot
    · rw [if_pos crowded]
    · simp [noSlot]

theorem climbForHint_eq_or (graph : Graph) (best? : Option Ty) (path : List Node) :
    climbForHint graph best? path = (hintAlong graph path).or best? := by
  unfold hintAlong
  induction path generalizing best? with
  | nil => rfl
  | cons child path ih =>
      by_cases only : graph.OnlyChildAt (child :: path) 0
      · rw [climbForHint_onward only, climbForHint_onward only, ih, ih (Option.or _ none),
          Option.or_none, Option.or_assoc]
      · rw [climbForHint_stop only, climbForHint_stop only, Option.none_or]

theorem hintAlong_onward (only : graph.OnlyChildAt (child :: path) 0) :
    hintAlong graph (child :: path) =
      (hintAlong graph path).or (expectationAt? (child :: path) 0) := by
  rw [hintAlong, climbForHint_onward only, Option.or_none, climbForHint_eq_or]

theorem spanHeight_spec (graph : Graph) (path : List Node) :
    (∀ height < graph.spanHeight path, graph.OnlyChildAt path height) ∧
      ¬graph.OnlyChildAt path (graph.spanHeight path) := by
  induction path with
  | nil => simp [Graph.spanHeight, Graph.OnlyChildAt]
  | cons child path ih =>
      by_cases only : graph.OnlyChildAt (child :: path) 0
      · rw [spanHeight_onward only, Nat.forall_lt_succ_left]
        simp only [onlyChildAt_succ]
        exact ⟨⟨only, ih.1⟩, ih.2⟩
      · rw [spanHeight_stop only]
        exact ⟨fun height below => absurd below (Nat.not_lt_zero height), only⟩

theorem spanHeight_isGreatest (graph : Graph) (path : List Node) :
    IsGreatest {span | ∀ height < span, graph.OnlyChildAt path height} (graph.spanHeight path) := by
  obtain ⟨inside, stops⟩ := spanHeight_spec graph path
  refine ⟨inside, fun span alsoInside => ?_⟩
  by_contra longer
  exact stops (alsoInside _ (Nat.not_le.mp longer))

theorem hintAlong_eq_none (graph : Graph) (path : List Node) :
    hintAlong graph path = none ↔
      ∀ height < graph.spanHeight path, expectationAt? path height = none := by
  induction path with
  | nil => simp [hintAlong, climbForHint, Graph.spanHeight]
  | cons child path ih =>
      by_cases only : graph.OnlyChildAt (child :: path) 0
      · rw [hintAlong_onward only, spanHeight_onward only, Nat.forall_lt_succ_left,
          Option.or_eq_none_iff, ih, and_comm]
        simp only [expectationAt?_succ]
      · rw [hintAlong, climbForHint_stop only, spanHeight_stop only]
        simp

def Graph.expectingHeights (graph : Graph) (path : List Node) : Set Nat :=
  {height | height < graph.spanHeight path ∧ (expectationAt? path height).isSome}

theorem exists_of_hintAlong_eq_some (found : hintAlong graph path = some ty) :
    ∃ height, IsGreatest (graph.expectingHeights path) height ∧
      expectationAt? path height = some ty := by
  induction path with
  | nil => cases found
  | cons child path ih =>
      by_cases only : graph.OnlyChildAt (child :: path) 0
      · have higher_iff : ∀ height, height + 1 ∈ graph.expectingHeights (child :: path) ↔
            height ∈ graph.expectingHeights path := by
          intro height
          simp [Graph.expectingHeights, spanHeight_onward only, expectationAt?_succ]
        rw [hintAlong_onward only, Option.or_eq_some_iff] at found
        rcases found with higher | ⟨nothing, here⟩
        · obtain ⟨height, ⟨inside, highest⟩, expected⟩ := ih higher
          refine ⟨height + 1, ⟨(higher_iff height).mpr inside, ?_⟩,
            expectationAt?_succ.trans expected⟩
          rintro (_ | other) member
          · exact Nat.zero_le _
          · exact Nat.succ_le_succ (highest ((higher_iff other).mp member))
        · refine ⟨0, ⟨⟨by simp [spanHeight_onward only], by simp [here]⟩, ?_⟩, here⟩
          rintro (_ | other) member
          · exact Nat.le_refl _
          · obtain ⟨inside, expects⟩ := (higher_iff other).mp member
            simp [(hintAlong_eq_none graph path).mp nothing other inside] at expects
      · rw [hintAlong, climbForHint_stop only] at found
        cases found

theorem hintAlong_eq_some : hintAlong graph path = some ty ↔
    ∃ height, IsGreatest (graph.expectingHeights path) height ∧
      expectationAt? path height = some ty := by
  refine ⟨exists_of_hintAlong_eq_some, ?_⟩
  rintro ⟨height, highest, expected⟩
  cases found : hintAlong graph path with
  | none =>
      have nothing := (hintAlong_eq_none graph path).mp found height highest.1.1
      simp [nothing] at expected
  | some other =>
      obtain ⟨_, highest', expected'⟩ := exists_of_hintAlong_eq_some found
      rw [highest'.unique highest] at expected'
      exact expected'.symm.trans expected

end

def Graph.appearance (graph : Graph) (node : Node) : NodeKind × Option Nat × Nat :=
  (node.kind, node.slot, (graph.childIds node.id).length)

def Graph.CrowdedAt (graph : Graph) (path : List Node) (height : Nat) : Prop :=
  ∃ node, path[height]? = some node ∧ 1 < (graph.childIds node.id).length

/-- Two paths are alike up to the first node above their starts that has more than one child. Where
the first path has such a node, or comes to its end, so does the second. -/
def AlikeSpans (graph : Graph) (path : List Node) (other : Graph) (otherPath : List Node) : Prop :=
  ∀ height, (∀ lower, 0 < lower → lower < height → ¬graph.CrowdedAt path lower) →
    (0 < height ∧ graph.CrowdedAt path height ∧ other.CrowdedAt otherPath height) ∨
      path[height]?.map graph.appearance = otherPath[height]?.map other.appearance

section

variable {graph other : Graph} {path otherPath : List Node} {child otherChild : Node} {height : Nat}

theorem Graph.OnlyChildAt.not_crowdedAt (only : graph.OnlyChildAt path height) :
    ¬graph.CrowdedAt path (height + 1) := by
  rintro ⟨node, found, crowded⟩
  obtain ⟨_, parent, -, isParent, alone, -⟩ := only
  obtain rfl := Option.some.inj (found.symm.trans isParent)
  omega

theorem appearance_cases (same : path[height]?.map graph.appearance =
      otherPath[height]?.map other.appearance) :
    path[height]? = none ∧ otherPath[height]? = none ∨
    ∃ node otherNode, path[height]? = some node ∧ otherPath[height]? = some otherNode ∧
      node.kind = otherNode.kind ∧ node.slot = otherNode.slot ∧
      (graph.childIds node.id).length = (other.childIds otherNode.id).length := by
  cases found : path[height]? with
  | none => exact Or.inl ⟨rfl, by simpa [found] using same⟩
  | some node =>
      rw [found, Option.map_some, eq_comm, Option.map_eq_some_iff] at same
      obtain ⟨otherNode, otherFound, looks⟩ := same
      simp only [Graph.appearance, Prod.mk.injEq] at looks
      exact Or.inr ⟨node, otherNode, rfl, otherFound, looks.1.symm, looks.2.1.symm, looks.2.2.symm⟩

theorem step_alike
    (child : path[height]?.map graph.appearance = otherPath[height]?.map other.appearance)
    (parent : path[height + 1]?.map graph.appearance =
      otherPath[height + 1]?.map other.appearance) :
    (graph.OnlyChildAt path height ↔ other.OnlyChildAt otherPath height) ∧
      expectationAt? path height = expectationAt? otherPath height := by
  unfold Graph.OnlyChildAt expectationAt?
  rcases appearance_cases child with ⟨ends, otherEnds⟩ | ⟨_, _, found, otherFound, -, slot, -⟩
  · simp [ends, otherEnds]
  · rcases appearance_cases parent with
      ⟨ends, otherEnds⟩ | ⟨_, _, parentFound, otherParentFound, kind, -, count⟩
    · simp [ends, otherEnds, found, otherFound]
    · simp [found, otherFound, parentFound, otherParentFound, kind, slot, count]

theorem AlikeSpans.start (alike : AlikeSpans graph path other otherPath) :
    path[0]?.map graph.appearance = otherPath[0]?.map other.appearance :=
  (alike 0 (by omega)).resolve_left (by omega)

theorem AlikeSpans.next (alike : AlikeSpans graph path other otherPath)
    (only : graph.OnlyChildAt path 0 ∨ other.OnlyChildAt otherPath 0) :
    path[1]?.map graph.appearance = otherPath[1]?.map other.appearance := by
  refine (alike 1 (by omega)).resolve_left ?_
  rintro ⟨-, crowded, otherCrowded⟩
  rcases only with only | otherOnly
  · exact only.not_crowdedAt crowded
  · exact otherOnly.not_crowdedAt otherCrowded

theorem AlikeSpans.onlyChildAt_iff (alike : AlikeSpans graph path other otherPath) :
    graph.OnlyChildAt path 0 ↔ other.OnlyChildAt otherPath 0 := by
  constructor
  · intro only
    exact (step_alike alike.start (alike.next (.inl only))).1.mp only
  · intro only
    exact (step_alike alike.start (alike.next (.inr only))).1.mpr only

theorem AlikeSpans.above (alike : AlikeSpans graph (child :: path) other (otherChild :: otherPath))
    (only : graph.OnlyChildAt (child :: path) 0) : AlikeSpans graph path other otherPath := by
  rintro (_ | height) uncrowded
  · exact Or.inr (alike.next (.inl only))
  · have below : ∀ lower, 0 < lower → lower < height + 2 →
        ¬graph.CrowdedAt (child :: path) lower := by
      rintro (_ | _ | lower) positive bound
      · omega
      · exact only.not_crowdedAt
      · exact uncrowded (lower + 1) (by omega) (by omega)
    rcases alike (height + 2) below with ⟨-, crowded⟩ | same
    · exact Or.inl ⟨by omega, crowded⟩
    · exact Or.inr same

theorem hintAlong_alike (alike : AlikeSpans graph path other otherPath) :
    hintAlong graph path = hintAlong other otherPath := by
  induction path generalizing otherPath with
  | nil =>
      have empty : otherPath = [] := by simpa using alike.start
      rw [empty]
      rfl
  | cons child path ih =>
      obtain ⟨otherChild, others, rfl⟩ : ∃ otherChild others, otherPath = otherChild :: others :=
        List.exists_cons_of_ne_nil fun empty => by simpa [empty] using alike.start
      by_cases only : graph.OnlyChildAt (child :: path) 0
      · have expected := (step_alike alike.start (alike.next (.inl only))).2
        rw [hintAlong_onward only, hintAlong_onward (alike.onlyChildAt_iff.mp only), expected,
          ih (alike.above only)]
      · have stops := mt alike.onlyChildAt_iff.mpr only
        rw [hintAlong, hintAlong, climbForHint_stop only, climbForHint_stop stops]

end

/-- The hint for a leaf is the highest expectation inside of the span that is still being typed, and
two paths with spans that are alike give the same hint, whatever lies above. -/
theorem hintAlong_span (graph : Graph) (path : List Node) :
    (∃ span, IsGreatest {span | ∀ height < span, graph.OnlyChildAt path height} span ∧
      (∀ ty, hintAlong graph path = some ty ↔ ∃ height,
        IsGreatest {height | height < span ∧ (expectationAt? path height).isSome} height ∧
          expectationAt? path height = some ty) ∧
      (hintAlong graph path = none ↔ ∀ height < span, expectationAt? path height = none)) ∧
    ∀ other otherPath, AlikeSpans graph path other otherPath →
      hintAlong graph path = hintAlong other otherPath :=
  ⟨⟨graph.spanHeight path, spanHeight_isGreatest graph path, fun _ => hintAlong_eq_some,
    hintAlong_eq_none graph path⟩, fun _ _ => hintAlong_alike⟩

/-- An unfinished `(x` behind a sign, inside of a construct that has begun with a word. -/
def typingSample (outer : NodeKind) : Graph :=
  (show Build NodeId from do
    let x ← Builder.identifierExpression "x"
    let opened ← Builder.context .parenthesizedExpression [(Slot.wrappedContent, x)]
    let signed ← Builder.context .unaryExpression [(Slot.unaryOperand, opened)]
    let word ← Builder.token .ifWord
    Builder.context outer [(0, word), (Slot.ifCondition, signed)]).run .empty |>.2.graph

def typingSamplePath (outer : NodeKind) : List Node :=
  [.ast ⟨2, .identifierExpression, some 1, .none⟩, .context ⟨3, .parenthesizedExpression, some 1⟩,
    .context ⟨4, .unaryExpression, some 1⟩, .context ⟨6, outer, none⟩]

/-- The condition of an `if` would be logical, but the word `if` is a sibling of it. -/
theorem typingSample_span :
    (typingSample .ifExpression).ancestry 2 = .ok (typingSamplePath .ifExpression) ∧
    hintAlong (typingSample .ifExpression) (typingSamplePath .ifExpression) =
      some (.oneOf [.of .number, .logical]) ∧
    hintAlong (typingSample .letExpression) (typingSamplePath .letExpression) =
      some (.oneOf [.of .number, .logical]) := by
  have hint : hintAlong (typingSample .letExpression) (typingSamplePath .letExpression) =
      some (.oneOf [.of .number, .logical]) := by rfl
  have alike : AlikeSpans (typingSample .ifExpression) (typingSamplePath .ifExpression)
      (typingSample .letExpression) (typingSamplePath .letExpression) := by
    rintro (_ | _ | _ | _ | height) uncrowded
    · exact Or.inr rfl
    · exact Or.inr rfl
    · exact Or.inr rfl
    · exact Or.inl ⟨by omega, ⟨_, rfl, by decide +kernel⟩, ⟨_, rfl, by decide +kernel⟩⟩
    · exact absurd ⟨_, rfl, by decide +kernel⟩ (uncrowded 3 (by omega) (by omega))
  obtain ⟨-, same⟩ := hintAlong_span (typingSample .ifExpression) (typingSamplePath .ifExpression)
  exact ⟨by decide +kernel, (same _ _ alike).trans hint, hint⟩

end FormulaInspection
