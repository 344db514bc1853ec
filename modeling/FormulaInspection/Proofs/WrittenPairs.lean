import FormulaInspection.Proofs.Shape
import FormulaInspection.Proofs.WrittenArrays

/-!
Records, `let` expressions, sections and field lists read back as they were built: the same names
with the same nodes in the same order, repeated names included.
-/

namespace FormulaInspection

def KeyValuePair.entry (pair : KeyValuePair) : String × Option NodeId :=
  (pair.key, pair.value?.map Node.id)

def FieldSpecification.entry (field : FieldSpecification) : String × Bool × Option NodeId :=
  (field.name, field.isOptional, field.type?.map Node.id)

namespace Graph

variable {graph : Graph} {id key value : NodeId} {name : String} {kind keyKind : NodeKind}

def ReadsPair (graph : Graph) (kind : NodeKind) (entry : String × NodeId) (id : NodeId) : Prop :=
  ∃ node pair, graph.node? id = some node ∧ node.kind = kind ∧
    graph.keyValuePair? node = .ok (some pair) ∧ pair.entry = (entry.1, some entry.2)

theorem Written.readsPair (keyed : graph.Keyed) {equal : NodeId}
    (written : graph.Written id
      ⟨kind, some .none, [(Slot.pairKey, key), (1, equal), (Slot.pairValue, value)]⟩)
    (isPair : kind ∈ NodeKind.pairKinds)
    (keyWritten : graph.Written key ⟨keyKind, some (.identifier name), []⟩)
    (isKey : keyKind ∈ [NodeKind.identifier, .generalizedIdentifier]) :
    graph.ReadsPair kind (name, value) id := by
  obtain ⟨slot?, stored⟩ := written.complete
  obtain ⟨keySlot?, keyStored⟩ := keyWritten.complete
  obtain ⟨valueNode, valueStored⟩ :=
    written.exists_child (by simp : (Slot.pairValue, value) ∈ _)
  have keyRead := written.requiredChild?_eq stored (some [.identifier, .generalizedIdentifier])
    (by simp : (Slot.pairKey, key) ∈ _) keyStored (by simpa [Node.kind] using isKey)
  have valueRead := written.child?_eq none (by simp : (Slot.pairValue, value) ∈ _) valueStored
    (by simp)
  have checked : checkKind (.ast ⟨id, kind, slot?, .none⟩) NodeKind.pairKinds = .ok () := by
    rw [checkKind, if_pos (by simpa [Node.kind] using isPair)]
  let pair : KeyValuePair :=
    { pair := .ast ⟨id, kind, slot?, .none⟩
      key := name
      keyNode := .ast ⟨key, keyKind, keySlot?, .identifier name⟩
      value? := some valueNode }
  refine ⟨_, pair, stored, rfl, ?_, ?_⟩
  · rw [keyValuePair?, ← NodeKind.pairKinds, checked, keyRead]
    simp only [bind, Except.bind, Node.identifier?, Node.payload, Node.id]
    rw [valueRead]
    rfl
  · simp [pair, KeyValuePair.entry, keyed valueStored]

theorem keyValuePairs_eq {entries : List (String × NodeId)} {ids : List NodeId}
    (pairs : List.Forall₂ (graph.ReadsPair kind) entries ids) :
    ∃ nodes listed, graph.nodes ids = .ok nodes ∧ graph.keyValuePairs nodes = .ok listed ∧
      listed.map KeyValuePair.entry = entries.map fun entry => (entry.1, some entry.2) := by
  induction pairs with
  | nil => exact ⟨[], [], rfl, rfl, rfl⟩
  | cons first rest ih =>
      obtain ⟨node, pair, found, -, read, entry⟩ := first
      obtain ⟨nodes, listed, othersFound, othersRead, otherEntries⟩ := ih
      refine ⟨node :: nodes, pair :: listed, nodes_cons found othersFound, ?_, ?_⟩
      · simp [keyValuePairs, read, othersRead, bind, Except.bind, pure, Except.pure]
      · simp [entry, otherEntries]

theorem Written.pairsAt_eq {children : List (Nat × NodeId)} {slot : Nat} {array : NodeId}
    {owner : Node} {payload : Payload} {entries : List (String × NodeId)} {ids : List NodeId}
    {pairKind : NodeKind} (written : graph.Written id ⟨kind, some payload, children⟩)
    (isOwner : graph.node? id = some owner) (member : (slot, array) ∈ children)
    (holds : graph.HoldsArray array ids)
    (pairs : List.Forall₂ (graph.ReadsPair pairKind) entries ids) :
    ∃ listed, (do graph.keyValuePairs (← graph.contentsAt owner slot)) = .ok listed ∧
      listed.map KeyValuePair.entry = entries.map fun entry => (entry.1, some entry.2) := by
  obtain ⟨contents, contentsRead, found⟩ := written.contentsAt_eq isOwner member holds
  obtain ⟨nodes, listed, foundNodes, read, entries⟩ := keyValuePairs_eq pairs
  rw [found, Except.ok.injEq] at foundNodes
  subst foundNodes
  exact ⟨listed, by simp [contentsRead, read, bind, Except.bind], entries⟩

def ReadsPairs (graph : Graph) (accessor : Node → Except InspectionError (List KeyValuePair))
    (id : NodeId) (entries : List (String × NodeId)) : Prop :=
  ∃ owner listed, graph.node? id = some owner ∧ accessor owner = .ok listed ∧
    listed.map KeyValuePair.entry = entries.map fun entry => (entry.1, some entry.2)

def ReadsMember (graph : Graph) (entry : String × NodeId) (id : NodeId) : Prop :=
  ∃ member pairId pair, graph.node? id = some member ∧ member.kind = .sectionMember ∧
    graph.node? pairId = some pair ∧
    graph.requiredChild? member Slot.sectionMemberPair (some [.identifierPairedExpression]) =
      .ok (some pair) ∧
    graph.ReadsPair .identifierPairedExpression entry pairId

theorem opensTo_members {entries : List (String × NodeId)} {ids : List NodeId}
    (members : List.Forall₂ graph.ReadsMember entries ids) : graph.OpensTo ids ids := by
  induction members with
  | nil => exact .nil
  | cons first _ ih =>
      obtain ⟨member, _, _, found, isMember, -⟩ := first
      exact ih.plain found (by simp [isMember])

theorem memberPairs_eq {entries : List (String × NodeId)} {ids : List NodeId}
    (members : List.Forall₂ graph.ReadsMember entries ids) :
    ∃ nodes pairIds pairs, graph.nodes ids = .ok nodes ∧ graph.memberPairs nodes = .ok pairs ∧
      graph.nodes pairIds = .ok pairs ∧
      List.Forall₂ (graph.ReadsPair .identifierPairedExpression) entries pairIds := by
  induction members with
  | nil => exact ⟨[], [], [], rfl, rfl, rfl, .nil⟩
  | cons first rest ih =>
      obtain ⟨member, pairId, pair, found, isMember, pairFound, read, readsPair⟩ := first
      obtain ⟨nodes, pairIds, pairs, othersFound, othersRead, pairsFound, readPairs⟩ := ih
      refine ⟨member :: nodes, pairId :: pairIds, pair :: pairs, nodes_cons found othersFound, ?_,
        nodes_cons pairFound pairsFound, .cons readsPair readPairs⟩
      simp [memberPairs, checkKind, isMember, read, othersRead, bind, Except.bind, pure,
        Except.pure]

end Graph

namespace Builder

open FormulaInspection.Graph

theorem pair_makes (kind : NodeKind) (key value : NodeId) :
    Makes [key, value] (pair kind key value) fun graph id => ∃ equal, graph.Written id
      ⟨kind, some .none, [(Slot.pairKey, key), (1, equal), (Slot.pairValue, value)]⟩ := by
  apply Assembles.bindNew (leaf_makes _ _)
  intro equal
  exact .ast (by grind) (by simp +decide) fun _ _ _ written _ => ⟨equal, written⟩

theorem keyedPair_makes {kind keyKind : NodeKind} (name : String) (value : NodeId)
    (isPair : kind ∈ NodeKind.pairKinds)
    (isKey : keyKind ∈ [NodeKind.identifier, .generalizedIdentifier]) :
    Makes [value] (do pair kind (← ast keyKind (.identifier name) []) value) fun graph id =>
      graph.ReadsPair kind (name, value) id := by
  apply Assembles.bindNew (leaf_makes _ _)
  intro key
  refine (pair_makes kind key value).weaken ?_
  rintro graph keyed id ⟨equal, written⟩ keyWritten
  exact written.readsPair keyed isPair keyWritten isKey

theorem recordPairs_assembles {kind : NodeKind}
    (isPair : kind ∈ NodeKind.pairKinds)
    (entries : List (String × NodeId)) :
    Assembles (entries.map (·.2)) (recordPairs kind entries) (fun ids => ids) fun graph ids =>
      List.Forall₂ (graph.ReadsPair kind) entries ids := by
  induction entries with
  | nil => exact .pure (.refl _) fun _ => .nil
  | cons entry rest ih =>
      have first := keyedPair_makes entry.1 entry.2 isPair
        (by simp : NodeKind.generalizedIdentifier ∈ _)
      exact first.cons ih fun _ _ _ => List.Forall₂.cons

theorem wrapped_makes (kind : NodeKind) (opening : Token) (content : NodeId) (closing : Token)
    (isOptional : Bool) : Makes [content] (wrapped kind opening content closing isOptional)
      fun graph id => ∃ children, graph.Written id ⟨kind, some .none, children⟩ ∧
        (Slot.wrappedContent, content) ∈ children ∧
        graph.hasChild id Slot.wrappedOptional = .ok isOptional := by
  apply Assembles.bindNew (leaf_makes _ _)
  intro openingId
  apply Assembles.bindNew (leaf_makes _ _)
  intro closingId
  cases isOptional with
  | false =>
      refine .ast (by grind) (by simp +decide) ?_
      intro graph _ id written _ _
      refine ⟨_, written, by simp, ?_⟩
      rw [Graph.hasChild, written.child?_eq_none none (by simp +decide)]
      rfl
  | true =>
      apply Assembles.bindNew (leaf_makes _ _)
      intro questionMark
      refine .ast (by grind) (by simp +decide) ?_
      intro graph _ id written _ _ _
      refine ⟨_, written, by simp, ?_⟩
      have isMark : (Slot.wrappedOptional, questionMark) ∈ [(0, openingId),
          (Slot.wrappedContent, content), (2, closingId),
          (Slot.wrappedOptional, questionMark)] := by
        simp
      obtain ⟨mark, found⟩ := written.exists_child isMark
      rw [Graph.hasChild, written.child?_eq none isMark found (by simp)]
      rfl

theorem record_makes {pairKind : NodeKind} (kind : NodeKind)
    (isPair : pairKind ∈ NodeKind.pairKinds)
    (entries : List (String × NodeId)) :
    Makes (entries.map (·.2)) (record kind pairKind entries) fun graph id =>
      graph.ReadsPairs graph.recordPairs id entries := by
  apply (recordPairs_assembles isPair entries).bindAll
  intro ids
  apply (csvArray_makes ids).bindAll
  intro content
  refine (wrapped_makes _ _ content _ _).weaken ?_
  rintro graph keyed id ⟨children, written, member, -⟩ holds reads
  obtain ⟨slot?, stored⟩ := written.complete
  obtain ⟨listed, read, entriesRead⟩ := written.pairsAt_eq stored member holds reads
  exact ⟨_, listed, stored, read, entriesRead⟩

theorem letPairs_assembles (entries : List (String × NodeId)) :
    Assembles (entries.map (·.2)) (letPairs entries) (fun ids => ids) fun graph ids =>
      List.Forall₂ (graph.ReadsPair .identifierPairedExpression) entries ids := by
  induction entries with
  | nil => exact .pure (.refl _) fun _ => .nil
  | cons entry rest ih =>
      exact (keyedPair_makes entry.1 entry.2 (by decide) (by decide)).cons ih
        fun _ _ _ => List.Forall₂.cons

theorem letExpression_makes (entries : List (String × NodeId)) (body : NodeId) :
    Makes (entries.map (·.2) ++ [body]) (letExpression entries body) fun graph id =>
      graph.ReadsPairs graph.letPairs id entries := by
  apply (letPairs_assembles entries).bind
  intro ids
  apply Assembles.bindNew (leaf_makes _ _)
  intro letWord
  apply Assembles.bindPart (by grind : ([letWord] ++ (ids ++ [body])).Perm (ids ++ [letWord, body]))
    (csvArray_makes ids)
  intro content
  apply Assembles.bindNew (leaf_makes _ _)
  intro inWord
  refine .ast (by grind) (by simp +decide) ?_
  intro graph _ id written _ holds _ reads
  obtain ⟨slot?, stored⟩ := written.complete
  obtain ⟨listed, read, entriesRead⟩ := written.pairsAt_eq stored
    (by simp : (Slot.letBindings, content) ∈ _) holds reads
  exact ⟨_, listed, stored, read, entriesRead⟩

theorem sectionMember_makes (name : String) (value : NodeId) :
    Makes [value] (do
      let sharedWord ← token .sharedWord
      let pair ← identifierPairedExpression name value
      let semicolon ← token .semicolon
      node .sectionMember [(1, sharedWord), (Slot.sectionMemberPair, pair), (3, semicolon)])
      fun graph id => graph.ReadsMember (name, value) id := by
  apply Assembles.bindNew (leaf_makes _ _)
  intro sharedWord
  apply Assembles.bindPart (List.perm_append_comm : List.Perm _ ([value] ++ [sharedWord]))
    (keyedPair_makes name value (by decide) (by decide))
  intro pairId
  apply Assembles.bindNew (leaf_makes _ _)
  intro semicolon
  refine .ast (by grind) (by simp +decide) ?_
  intro graph _ id written _ readsPair _
  obtain ⟨slot?, stored⟩ := written.complete
  have ⟨pair, _, found, isPair, _⟩ := readsPair
  have read := written.requiredChild?_eq stored (some [.identifierPairedExpression])
    (by simp : (Slot.sectionMemberPair, pairId) ∈ _) found (by simp [isPair])
  exact ⟨_, pairId, pair, stored, rfl, found, read, readsPair⟩

theorem sectionMemberNodes_assembles (entries : List (String × NodeId)) :
    Assembles (entries.map (·.2)) (sectionMemberNodes entries) (fun ids => ids) fun graph ids =>
      List.Forall₂ graph.ReadsMember entries ids := by
  induction entries with
  | nil => exact .pure (.refl _) fun _ => .nil
  | cons entry rest ih =>
      have whole := (sectionMember_makes entry.1 entry.2).cons ih fun _ _ _ => List.Forall₂.cons
      simp only [bind_assoc] at whole
      exact whole

theorem sectionOf_makes (entries : List (String × NodeId)) :
    Makes (entries.map (·.2)) (sectionOf entries) fun graph id =>
      graph.ReadsPairs graph.sectionPairs id entries := by
  apply (sectionMemberNodes_assembles entries).bindAll
  intro ids
  apply Assembles.bindNew (leaf_makes _ _)
  intro sectionWord
  apply Assembles.bindNew (leaf_makes _ _)
  intro semicolon
  apply Assembles.bindPart
    (by grind : ([semicolon] ++ ([sectionWord] ++ ids)).Perm (ids ++ [semicolon, sectionWord]))
    (array_makes ids)
  intro array
  refine .ast (by grind) (by simp +decide) ?_
  intro graph _ id written arrayWritten _ _ members
  obtain ⟨slot?, stored⟩ := written.complete
  obtain ⟨contents, contentsRead, foundMembers⟩ := written.contentsAt_eq stored
    (by simp : (Slot.sectionMembers, array) ∈ _) (arrayWritten.holdsArray (opensTo_members members))
  obtain ⟨nodes, pairIds, pairs, found, pairsRead, foundPairs, reads⟩ := memberPairs_eq members
  obtain ⟨pairNodes, listed, foundNodes, read, entriesRead⟩ := keyValuePairs_eq reads
  rw [foundMembers, Except.ok.injEq] at found
  rw [foundPairs, Except.ok.injEq] at foundNodes
  subst found foundNodes
  refine ⟨_, listed, stored, ?_, entriesRead⟩
  simp [sectionPairs, contentsRead, pairsRead, read, bind, Except.bind]

end Builder

end FormulaInspection
