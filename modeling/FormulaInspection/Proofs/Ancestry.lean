import FormulaInspection.Proofs.TreeShape
import Mathlib.Data.List.Nodup

/-!
Paths to the root in any graph. Parent links lead up to a root, to an id that nothing is stored
under, or round in a circle for ever. A climb tells these apart with no more steps than there are
nodes: on the way to an end no id can come twice.
-/

namespace FormulaInspection.Graph

/-- Following parent links from an id leads through the ids `passed`, all of which exist, to the id
`last`, which may or may not. -/
inductive Leads (graph : Graph) : NodeId → List NodeId → NodeId → Prop
  | here {id} : Leads graph id [] id
  | onward {id parent passed last} : (graph.node? id).isSome → graph.parentId? id = some parent →
      Leads graph parent passed last → Leads graph id (id :: passed) last

def ReachesRoot (graph : Graph) (id : NodeId) (ids : List NodeId) : Prop :=
  ∃ passed root, graph.Leads id passed root ∧ (graph.node? root).isSome ∧
    graph.parentId? root = none ∧ ids = passed ++ [root]

def MeetsMissing (graph : Graph) (id missing : NodeId) : Prop :=
  ∃ passed, graph.Leads id passed missing ∧ graph.node? missing = none

def IsEnd (graph : Graph) (id : NodeId) : Prop :=
  (graph.node? id).isSome → graph.parentId? id = none

variable {graph : Graph} {id last other : NodeId} {passed others : List NodeId}

theorem Leads.stored (leads : graph.Leads id passed last) (member : other ∈ passed) :
    (graph.node? other).isSome := by
  induction leads with
  | here => cases member
  | onward stored _ _ ih =>
      rcases List.mem_cons.mp member with rfl | later
      · exact stored
      · exact ih later

theorem Leads.unique (leads : graph.Leads id passed last) (isEnd : graph.IsEnd last)
    (leads' : graph.Leads id others other) (isEnd' : graph.IsEnd other) : passed = others := by
  induction leads generalizing others with
  | here =>
      cases leads' with
      | here => rfl
      | onward stored hasParent _ => simp [isEnd stored] at hasParent
  | onward stored hasParent _ ih =>
      cases leads' with
      | here => simp [isEnd' stored] at hasParent
      | onward _ hasParent' further =>
          obtain rfl := Option.some.inj (hasParent.symm.trans hasParent')
          rw [ih isEnd further]

theorem Leads.rest (leads : graph.Leads id passed last) (member : other ∈ passed ++ [last]) :
    ∃ rest, graph.Leads other rest last ∧ rest.length ≤ passed.length := by
  induction leads with
  | here =>
      obtain rfl := List.mem_singleton.mp member
      exact ⟨[], .here, Nat.le_refl _⟩
  | onward stored hasParent further ih =>
      rcases List.mem_cons.mp member with rfl | later
      · exact ⟨_, .onward stored hasParent further, Nat.le_refl _⟩
      · obtain ⟨rest, leads, short⟩ := ih later
        exact ⟨rest, leads, Nat.le_succ_of_le short⟩

theorem Leads.nodup (leads : graph.Leads id passed last) (isEnd : graph.IsEnd last) :
    (passed ++ [last]).Nodup := by
  induction leads with
  | here => simp
  | onward stored hasParent further ih =>
      refine List.nodup_cons.mpr ⟨?_, ih isEnd⟩
      intro again
      obtain ⟨rest, leads, short⟩ := further.rest again
      have same := leads.unique isEnd (.onward stored hasParent further) isEnd
      simp only [same, List.length_cons] at short
      omega

theorem Leads.length_le_size (leads : graph.Leads id passed last) (isEnd : graph.IsEnd last) :
    passed.length ≤ graph.size :=
  Graph.length_le_size (leads.nodup isEnd).of_append_left fun _ member => leads.stored member

theorem Leads.below_last (leads : graph.Leads id passed last) : graph.Below id last := by
  induction leads with
  | here => exact .refl
  | onward _ hasParent _ ih => exact .head hasParent ih

section

variable {root : NodeId}

theorem below_of_below_root (noParent : graph.parentId? root = none) (toRoot : graph.Below id root)
    (below : graph.Below id other) : graph.Below other root := by
  rcases Relation.ReflTransGen.total_of_right_unique isParent_rightUnique below toRoot with
    onward | beyond
  · exact onward
  · rcases Relation.ReflTransGen.cases_head beyond with rfl | ⟨parent, link, -⟩
    · exact .refl
    · simp [IsParent, noParent] at link

theorem not_circle_of_below_root (noParent : graph.parentId? root = none)
    (toRoot : graph.Below id root) : ¬Relation.TransGen graph.IsParent id id := by
  induction toRoot using Relation.ReflTransGen.head_induction_on with
  | refl =>
      intro circle
      obtain ⟨parent, link, -⟩ := Relation.TransGen.head'_iff.mp circle
      simp [IsParent, noParent] at link
  | head link _ ih =>
      intro circle
      obtain ⟨parent, link', back⟩ := Relation.TransGen.head'_iff.mp circle
      obtain rfl := isParent_rightUnique link link'
      exact ih (.tail' back link)

end

theorem Leads.rootPath (leads : graph.Leads id passed last) (stored : (graph.node? last).isSome)
    (noParent : graph.parentId? last = none) :
    ∃ node above, graph.node? id = some node ∧ graph.RootPath id above ∧
      above.length = passed.length ∧ graph.nodes (passed ++ [last]) = .ok (node :: above) := by
  induction leads with
  | here =>
      obtain ⟨node, found⟩ := Option.isSome_iff_exists.mp stored
      exact ⟨node, [], found, .root noParent, rfl, nodes_cons found rfl⟩
  | onward storedHere hasParent _ ih =>
      obtain ⟨node, found⟩ := Option.isSome_iff_exists.mp storedHere
      obtain ⟨parent, above, foundParent, path, length, read⟩ := ih stored noParent
      exact ⟨node, parent :: above, found, .step hasParent foundParent path, by simp [length],
        nodes_cons found read⟩

theorem RootPath.reachesRoot {above : List Node} (path : graph.RootPath id above)
    (stored : (graph.node? id).isSome) : ∃ ids, graph.ReachesRoot id ids := by
  induction path with
  | root noParent => exact ⟨_, [], _, .here, stored, noParent, rfl⟩
  | step hasParent found _ ih =>
      obtain ⟨_, passed, root, leads, rootStored, noParent, -⟩ := ih (by simp [found])
      exact ⟨_, _, root, .onward stored hasParent leads, rootStored, noParent, rfl⟩

theorem Leads.read_eq_error {steps : Nat} {missing : NodeId}
    (leads : graph.Leads id passed missing) (isMissing : graph.node? missing = none)
    (enough : passed.length ≤ steps) :
    (do return (← graph.node id) :: (← graph.nodesAbove steps id)) =
      Except.error (.missingNode missing) := by
  induction leads generalizing steps with
  | here => exact read_cons_eq_error.mpr (.inl (node_eq_error.mpr ⟨isMissing, rfl⟩))
  | onward stored hasParent _ ih =>
      obtain ⟨node, found⟩ := Option.isSome_iff_exists.mp stored
      cases steps with
      | zero => simp at enough
      | succ steps =>
          refine read_cons_eq_error.mpr (.inr ⟨node, node_eq_ok.mpr found, ?_⟩)
          rw [nodesAbove_step hasParent]
          exact ih isMissing (by simpa using enough)

theorem nodesAbove_eq_error {steps : Nat} {failure : InspectionError}
    (failed : graph.nodesAbove steps id = .error failure) :
    ∃ missing, failure = .missingNode missing ∧ graph.Below id missing := by
  induction steps generalizing id with
  | zero =>
      cases hasParent : graph.parentId? id with
      | none => simp [nodesAbove_root hasParent] at failed
      | some parent =>
          simp only [nodesAbove, hasParent, Except.error.injEq] at failed
          exact ⟨parent, failed.symm, .single hasParent⟩
  | succ steps ih =>
      cases hasParent : graph.parentId? id with
      | none => simp [nodesAbove_root hasParent] at failed
      | some parent =>
          rw [nodesAbove_step hasParent] at failed
          rcases read_cons_eq_error.mp failed with unread | ⟨_, -, unclimbed⟩
          · exact ⟨parent, (node_eq_error.mp unread).2, .single hasParent⟩
          · obtain ⟨missing, isMissing, below⟩ := ih unclimbed
            exact ⟨missing, isMissing, .head hasParent below⟩

section

variable {ids : List NodeId} {missing : NodeId}

theorem ReachesRoot.nodup (reaches : graph.ReachesRoot id ids) : ids.Nodup := by
  obtain ⟨passed, root, leads, -, noParent, rfl⟩ := reaches
  exact leads.nodup fun _ => noParent

theorem ReachesRoot.ancestry_eq (reaches : graph.ReachesRoot id ids) :
    ∃ path, graph.ancestry id = .ok path ∧ graph.nodes ids = .ok path := by
  obtain ⟨passed, root, leads, stored, noParent, rfl⟩ := reaches
  obtain ⟨node, above, found, path, length, read⟩ := leads.rootPath stored noParent
  have short : above.length ≤ graph.size := by
    rw [length]
    exact leads.length_le_size fun _ => noParent
  exact ⟨node :: above, ancestry_of_rootPath found path short, read⟩

theorem ReachesRoot.not_circle (reaches : graph.ReachesRoot id ids) (below : graph.Below id other) :
    ¬Relation.TransGen graph.IsParent other other := by
  obtain ⟨passed, root, leads, -, noParent, -⟩ := reaches
  exact not_circle_of_below_root noParent (below_of_below_root noParent leads.below_last below)

theorem MeetsMissing.ancestry_eq (meets : graph.MeetsMissing id missing) :
    graph.ancestry id = .error (.missingNode missing) := by
  obtain ⟨passed, leads, isMissing⟩ := meets
  have short := leads.length_le_size fun stored => by simp [isMissing] at stored
  exact leads.read_eq_error isMissing short

theorem ancestry_eq_error {failure : InspectionError}
    (failed : graph.ancestry id = .error failure) :
    ∃ missing, failure = .missingNode missing ∧ graph.Below id missing := by
  rcases read_cons_eq_error.mp failed with unread | ⟨_, -, unclimbed⟩
  · exact ⟨id, (node_eq_error.mp unread).2, .refl⟩
  · exact nodesAbove_eq_error unclimbed

end

/-- The path of an id is found exactly when there is one, and it is the way along the parent links.
In all other cases, a circle among them, the failure names an id on the way: the first that is
missing, if there is one. -/
theorem ancestry_exact (graph : Graph) (id : NodeId) :
    ((∃ path, graph.ancestry id = .ok path) ↔ ∃ ids, graph.ReachesRoot id ids) ∧
    (∀ ids, graph.ReachesRoot id ids →
      ids.Nodup ∧ ∃ path, graph.ancestry id = .ok path ∧ graph.nodes ids = .ok path) ∧
    ((¬∃ ids, graph.ReachesRoot id ids) →
      ∃ missing, graph.ancestry id = .error (.missingNode missing) ∧ graph.Below id missing) ∧
    ((∃ high, graph.Below id high ∧ Relation.TransGen graph.IsParent high high) →
      ¬∃ ids, graph.ReachesRoot id ids) ∧
    ∀ missing, graph.MeetsMissing id missing →
      graph.ancestry id = .error (.missingNode missing) := by
  have found : (∃ path, graph.ancestry id = .ok path) ↔ ∃ ids, graph.ReachesRoot id ids := by
    constructor
    · rintro ⟨path, climbed⟩
      obtain ⟨node, above, -, stored, rootPath⟩ := ancestry_eq_ok climbed
      exact rootPath.reachesRoot (by simp [stored])
    · rintro ⟨ids, reaches⟩
      obtain ⟨path, climbed, -⟩ := reaches.ancestry_eq
      exact ⟨path, climbed⟩
  refine ⟨found, fun ids reaches => ⟨reaches.nodup, reaches.ancestry_eq⟩, ?_, ?_,
    fun missing meets => meets.ancestry_eq⟩
  · intro noRoot
    cases climbed : graph.ancestry id with
    | ok path => exact absurd (found.mp ⟨path, climbed⟩) noRoot
    | error failure =>
        obtain ⟨missing, rfl, below⟩ := ancestry_eq_error climbed
        exact ⟨missing, rfl, below⟩
  · rintro ⟨high, below, circle⟩ ⟨ids, reaches⟩
    exact reaches.not_circle below circle

/-- Node 1 leads into a circle, node 4 to an id that is missing, and node 6 to a root that is stored
under an id that is not its own. -/
def windingSample : Graph where
  astNodes :=
    ((((((∅ : IdMap AstNode).insert 1 ⟨1, .identifier, none, .none⟩).insert
      2 ⟨2, .identifier, none, .none⟩).insert 3 ⟨3, .identifier, none, .none⟩).insert
      4 ⟨4, .identifier, none, .none⟩).insert 5 ⟨5, .identifier, none, .none⟩).insert
      6 ⟨6, .identifier, none, .none⟩
  contextNodes := (∅ : IdMap ContextNode).insert 7 ⟨70, .letExpression, none⟩
  parents :=
    ((((((∅ : IdMap NodeId).insert 1 2).insert 2 3).insert 3 2).insert 4 5).insert 5 9).insert 6 7
  children := ∅
  leaves := ∅

theorem windingSample_exact :
    (∃ missing, windingSample.ancestry 1 = .error (.missingNode missing) ∧
      windingSample.Below 1 missing) ∧
    windingSample.ancestry 4 = .error (.missingNode 9) ∧
    ∃ path, windingSample.ancestry 6 = .ok path ∧ windingSample.nodes [6, 7] = .ok path := by
  obtain ⟨-, -, noRoot, circles, -⟩ := ancestry_exact windingSample 1
  obtain ⟨-, -, -, -, missing⟩ := ancestry_exact windingSample 4
  obtain ⟨-, root, -⟩ := ancestry_exact windingSample 6
  have toCircle : windingSample.parentId? 1 = some 2 := by decide +kernel
  have around : windingSample.parentId? 2 = some 3 := by decide +kernel
  have back : windingSample.parentId? 3 = some 2 := by decide +kernel
  have toMissing : windingSample.Leads 4 [4, 5] 9 :=
    .onward (by decide +kernel) (by decide +kernel : windingSample.parentId? 4 = some 5)
      (.onward (by decide +kernel) (by decide +kernel) .here)
  have toRoot : windingSample.Leads 6 [6] 7 :=
    .onward (by decide +kernel) (by decide +kernel) .here
  refine ⟨noRoot (circles ⟨2, .single toCircle, .tail (.single around) back⟩),
    missing 9 ⟨[4, 5], toMissing, by decide +kernel⟩,
    (root [6, 7] ⟨[6], 7, toRoot, by decide +kernel, by decide +kernel, rfl⟩).2⟩

end FormulaInspection.Graph
