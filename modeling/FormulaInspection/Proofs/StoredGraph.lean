import FormulaInspection.Graph.Stored
import FormulaInspection.Proofs.JsonText

/-!
Reading a stored graph gives back the graph that was written, node for node and link for link, in
whatever order its tables were listed. All that the form asks is that ids and slots fit into 32
bits, and it never yields a graph of which that is not so.
-/

namespace FormulaInspection

theorem NodeKind.ofName?_name (kind : NodeKind) : ofName? kind.name = some kind := by
  have listed : kind ∈ all := by cases kind <;> decide
  have each : ∀ kind ∈ all, ofName? kind.name = some kind := by decide +kernel
  exact each kind listed

theorem Token.ofName?_name (token : Token) : ofName? token.name = some token := by
  have listed : token ∈ all := by cases token <;> decide
  have each : ∀ token ∈ all, ofName? token.name = some token := by decide +kernel
  exact each token listed

theorem LiteralKind.ofName?_name (kind : LiteralKind) : ofName? kind.name = some kind := by
  cases kind <;> rfl

theorem PrimitiveName.ofName?_name (primitive : PrimitiveName) :
    ofName? primitive.name = some primitive := by
  have listed : primitive ∈ all := by cases primitive <;> decide
  have each : ∀ primitive ∈ all, ofName? primitive.name = some primitive := by decide +kernel
  exact each primitive listed

namespace Json

variable {α : Type} {write : α → Json} {read : Json → Option α} {P : α → Prop}

structure Survives (write : α → Json) (read : Json → Option α) (value : α) : Prop where
  plain : (write value).Plain
  back : read (write value) = some value

theorem survives_nat {value : Nat} (fits : value < Decimal.bound32) :
    Survives ofNat nat32? value where
  plain := .int value
  back := by simp [ofNat, nat32?, fits]

theorem survives_text (text : String) : Survives ofText text? text where
  plain := .text text
  back := unescape?_escape text

theorem named?_ofText {ofName? : String → Option α} {text : String} {value : α}
    (known : ofName? text = some value) : named? ofName? .direct (ofText text) = some value := by
  simp [ofText, named?, unescape?_escape, known]

theorem survives_named {name : α → String} {ofName? : String → Option α} {value : α}
    (known : ofName? (name value) = some value) :
    Survives (fun value => ofText (name value)) (named? ofName?) value where
  plain := .text (name value)
  back := named?_ofText known

theorem survives_option {value? : Option α}
    (content : ∀ value ∈ value?, Survives write read value)
    (present : ∀ value, write value ≠ .null) :
    Survives (ofOption write) (nullable? read) value? := by
  cases value? with
  | none => exact ⟨.null, rfl⟩
  | some value =>
      have survives := content value rfl
      refine ⟨survives.plain, ?_⟩
      have back : nullable? read (write value) = (read (write value)).map some := by
        cases written : write value with
        | null => exact absurd written (present value)
        | _ => rfl
      simp [ofOption, back, survives.back]

theorem mapM_back {values : List α}
    (back : ∀ value ∈ values, read (write value) = some value) :
    (values.map write).mapM read = some values := by
  induction values with
  | nil => rfl
  | cons value values ih =>
      have rest := ih fun value member => back value (List.mem_cons_of_mem _ member)
      simp [back value List.mem_cons_self, rest]

theorem survives_list {values : List α}
    (content : ∀ value ∈ values, Survives write read value) :
    Survives (ofList write) (listOf? read) values where
  plain := .array (List.forall_mem_map.mpr fun value member => (content value member).plain)
  back := mapM_back fun value member => (content value member).back

theorem plain_object {members : List (String × Json)}
    (keys : (members.map fun member => escape member.1) = members.map (·.1))
    (values : ∀ member ∈ members, member.2.Plain) : Plain (.object members) :=
  .object (fun member listed => ⟨member.1, (List.map_inj_left.mp keys member listed).symm⟩) values

def TableFits (P : α → Prop) (table : IdMap α) : Prop :=
  ∀ id value, table[id]? = some value → id < Decimal.bound32 ∧ P value

def ofEntries (write : α → Json) (entries : List (NodeId × α)) : Json :=
  .object (entries.map fun entry => (Nat.repr entry.1, write entry.2))

theorem addMembers?_entries {entries : List (NodeId × α)}
    (content : ∀ entry ∈ entries,
      entry.1 < Decimal.bound32 ∧ Survives write read entry.2) (table : IdMap α) :
    addMembers? read table (entries.map fun entry => (Nat.repr entry.1, write entry.2)) =
      some (table.insertMany entries) := by
  induction entries generalizing table with
  | nil => simp [addMembers?]
  | cons entry entries ih =>
      obtain ⟨fits, survives⟩ := content entry List.mem_cons_self
      have rest := ih fun entry member => content entry (List.mem_cons_of_mem _ member)
      rw [Std.ExtTreeMap.insertMany_cons]
      simp [addMembers?, Decimal.ofPlain?_repr fits, survives.back, rest]

theorem insertMany_entries {table : IdMap α} {entries : List (NodeId × α)}
    (listed : entries.Perm table.toList) : (∅ : IdMap α).insertMany entries = table := by
  have distinct : entries.Pairwise fun a b => ¬compare a.1 b.1 = .eq :=
    listed.symm.pairwise Std.ExtTreeMap.distinct_keys_toList fun apart same =>
      apart (Std.OrientedCmp.eq_comm.mp same)
  refine Std.ExtTreeMap.ext_getElem? fun id => ?_
  cases stored : table[id]? with
  | some value =>
      have member : (id, value) ∈ entries :=
        listed.mem_iff.mpr (Std.ExtTreeMap.mem_toList_iff_getElem?_eq_some.mpr stored)
      exact Std.ExtTreeMap.getElem?_insertMany_list_of_mem Std.ReflCmp.compare_self distinct member
  | none =>
      rw [Std.ExtTreeMap.getElem?_insertMany_list_of_contains_eq_false]
      · simp
      · rw [Bool.eq_false_iff, ne_eq, List.contains_iff_mem]
        intro listedId
        obtain ⟨⟨_, value⟩, member, rfl⟩ := List.mem_map.mp listedId
        have held := Std.ExtTreeMap.mem_toList_iff_getElem?_eq_some.mp (listed.mem_iff.mp member)
        simp [stored] at held

theorem survives_table (content : ∀ value, P value → Survives write read value) {table : IdMap α}
    (fits : TableFits P table) {entries : List (NodeId × α)} (listed : entries.Perm table.toList) :
    (ofEntries write entries).Plain ∧ idMap? read (ofEntries write entries) = some table := by
  have each : ∀ entry ∈ entries, entry.1 < Decimal.bound32 ∧ Survives write read entry.2 := by
    intro entry member
    have stored := Std.ExtTreeMap.mem_toList_iff_getElem?_eq_some.mp (listed.mem_iff.mp member)
    exact (fits _ _ stored).imp_right (content _)
  constructor
  · refine .object (List.forall_mem_map.mpr fun entry _ => ?_)
      (List.forall_mem_map.mpr fun entry member => (each entry member).2.plain)
    exact ⟨Nat.repr entry.1, (escape_repr entry.1).symm⟩
  · rw [ofEntries, idMap?, addMembers?_entries each, insertMany_entries listed]

theorem nat32?_fits {json : Json} {value : Nat} (read : nat32? json = some value) :
    value < Decimal.bound32 := by
  cases json with
  | int number =>
      cases number with
      | ofNat number =>
          obtain ⟨fits, rfl⟩ : number < Decimal.bound32 ∧ number = value := by
            simpa [nat32?] using read
          exact fits
      | negSucc number => simp [nat32?] at read
  | _ => simp [nat32?] at read

theorem nullable?_forall (each : ∀ json value, read json = some value → P value) {json : Json}
    {value? : Option α} (readIt : nullable? read json = some value?) :
    ∀ value ∈ value?, P value := by
  unfold nullable? at readIt
  split at readIt
  · obtain rfl : none = value? := by simpa using readIt
    simp
  · obtain ⟨value, readValue, rfl⟩ := Option.map_eq_some_iff.mp readIt
    simpa using each _ value readValue

theorem mapM_forall (each : ∀ json value, read json = some value → P value) {items : List Json}
    {values : List α} (readAll : items.mapM read = some values) : ∀ value ∈ values, P value := by
  induction items generalizing values with
  | nil =>
      obtain rfl : [] = values := by simpa using readAll
      simp
  | cons item items ih =>
      obtain ⟨value, first, rest, others, rfl⟩ :
          ∃ value, read item = some value ∧ ∃ rest, items.mapM read = some rest ∧
            value :: rest = values := by
        simpa [Option.bind_eq_some_iff] using readAll
      rw [List.forall_mem_cons]
      exact ⟨each item value first, ih others⟩

theorem listOf?_forall (each : ∀ json value, read json = some value → P value) {json : Json}
    {values : List α} (readAll : listOf? read json = some values) : ∀ value ∈ values, P value := by
  cases json with
  | array items => exact mapM_forall each readAll
  | _ => simp [listOf?] at readAll

theorem ofPlain?_fits {key : String} {id : NodeId}
    (plain : Decimal.ofPlain? Decimal.bound32 key = some id) : id < Decimal.bound32 := by
  unfold Decimal.ofPlain? at plain
  split at plain
  · obtain rfl : 0 = id := by simpa using plain
    decide
  · simp at plain
  · simpa using (Option.filter_eq_some_iff.mp plain).2

theorem tableFits_empty (P : α → Prop) : TableFits P ∅ :=
  fun id value stored => by simp at stored

theorem TableFits.insert {table : IdMap α} (fits : TableFits P table) {id : NodeId}
    {value : α} (idFits : id < Decimal.bound32) (holds : P value) :
    TableFits P (table.insert id value) := by
  intro other value' stored
  rw [Std.ExtTreeMap.getElem?_insert] at stored
  split at stored
  · rename_i same
    obtain rfl := Std.LawfulEqCmp.eq_of_compare same
    obtain rfl := Option.some.inj stored
    exact ⟨idFits, holds⟩
  · exact fits other value' stored

theorem addMembers?_fits (each : ∀ json value, read json = some value → P value)
    {members : List (String × Json)} {table table' : IdMap α} (fits : TableFits P table)
    (readAll : addMembers? read table members = some table') : TableFits P table' := by
  induction members generalizing table with
  | nil =>
      obtain rfl : table = table' := by simpa [addMembers?] using readAll
      exact fits
  | cons member members ih =>
      obtain ⟨key, json⟩ := member
      obtain ⟨id, plain, value, first, others⟩ :
          ∃ id, Decimal.ofPlain? Decimal.bound32 key = some id ∧
            ∃ value, read json = some value ∧
              addMembers? read (table.insert id value) members = some table' := by
        simpa [addMembers?, Option.bind_eq_some_iff] using readAll
      exact ih (fits.insert (ofPlain?_fits plain) (each json value first)) others

theorem idMap?_fits (each : ∀ json value, read json = some value → P value) {json : Json}
    {table : IdMap α} (readAll : idMap? read json = some table) : TableFits P table := by
  cases json with
  | object members => exact addMembers?_fits each (tableFits_empty P) readAll
  | _ => simp [idMap?] at readAll

end Json

namespace Payload

def tagged (tag : String) (content : Json) : Json :=
  .object [("type", .ofText tag), ("value", content)]

theorem plain_tagged (tag : String) {content : Json} (plain : content.Plain) :
    (tagged tag content).Plain :=
  Json.plain_object (by simp only [List.map]; decide) (by simp [Json.Plain.text, plain])

theorem ofJson?_tagged {tag : String} {sort : PayloadTag}
    (known : PayloadTag.ofName? tag = some sort) (content : Json) :
    ofJson? (tagged tag content) = ofContent? .direct sort (some content) := by
  have members : ∀ tag : Json, Json.readMembers? [("type", tag), ("value", content)] =
      some [("type", tag), ("value", content)] := fun _ => rfl
  have read : ∀ tag : Json, ofMembers? [("type", tag), ("value", content)] =
      (tag.named? PayloadTag.ofName?).bind fun sort => ofContent? .direct sort (some content) :=
    fun _ => rfl
  rw [tagged, ofJson?, members]
  simp only [Option.bind_eq_bind, Option.bind_some]
  rw [read, Json.named?_ofText known, Option.bind_some]

theorem survives_tagged {payload : Payload} {tag : String} {sort : PayloadTag} {content : Json}
    (written : payload.toJson = tagged tag content) (known : PayloadTag.ofName? tag = some sort)
    (plain : content.Plain) (back : ofContent? .direct sort (some content) = some payload) :
    Json.Survives toJson ofJson? payload where
  plain := by
    rw [written]
    exact plain_tagged tag plain
  back := by rw [written, ofJson?_tagged known, back]

theorem survives (payload : Payload) : Json.Survives toJson ofJson? payload := by
  cases payload with
  | none =>
      refine ⟨Json.plain_object ?_ ?_, rfl⟩
      · simp only [List.map]
        decide
      · simp [Json.Plain.text]
  | token token =>
      have content := Json.survives_named token.ofName?_name
      exact survives_tagged rfl rfl content.plain (by simp [ofContent?, content.back])
  | identifier name =>
      have content := Json.survives_text name
      exact survives_tagged rfl rfl content.plain (by simp [ofContent?, content.back])
  | literal kind text =>
      have kindContent := Json.survives_named kind.ofName?_name
      have textContent := Json.survives_text text
      have fields : ∀ kind text : Json,
          Json.objectFields? ["kind", "literal"] (.object [("kind", kind), ("literal", text)]) =
            some [some kind, some text] := fun _ _ => rfl
      refine survives_tagged rfl rfl (Json.plain_object ?_ ?_) ?_
      · simp only [List.map]
        decide
      · simp [kindContent.plain, textContent.plain]
      · rw [ofContent?, literalOfJson?, fields]
        simp [kindContent.back, textContent.back]
  | primitive primitive =>
      have content := Json.survives_named primitive.ofName?_name
      exact survives_tagged rfl rfl content.plain (by simp [ofContent?, content.back])

end Payload

def SlotFits (slot : Option Nat) : Prop :=
  ∀ place ∈ slot, place < Decimal.bound32

theorem survives_slot {slot : Option Nat} (fits : SlotFits slot) :
    Json.Survives (.ofOption .ofNat) (Json.nullable? Json.nat32?) slot :=
  Json.survives_option (fun place member => Json.survives_nat (fits place member))
    fun _ isNull => by simp [Json.ofNat] at isNull

theorem slotOfJson?_fits {json? : Option Json} {slot : Option Nat}
    (read : slotOfJson? json? = some slot) : SlotFits slot := by
  cases json? with
  | none =>
      obtain rfl : none = slot := by simpa [slotOfJson?] using read
      simp [SlotFits]
  | some json => exact Json.nullable?_forall (fun _ _ => Json.nat32?_fits) read

structure ContextNode.Fits (node : ContextNode) : Prop where
  id : node.id < Decimal.bound32
  slot : SlotFits node.slot

structure AstNode.Fits (node : AstNode) : Prop where
  id : node.id < Decimal.bound32
  slot : SlotFits node.slot

theorem ContextNode.survives {node : ContextNode} (fits : node.Fits) :
    Json.Survives toJson ofJson? node := by
  have id := Json.survives_nat fits.id
  have kind := Json.survives_named node.kind.ofName?_name
  have slot := survives_slot fits.slot
  constructor
  · refine Json.plain_object (by simp only [List.map]; decide) ?_
    simp [id.plain, kind.plain, slot.plain]
  · have fields : ∀ id kind slot : Json,
        Json.structFields? ["id", "kind", "maybe_attribute_index"] 0
            (.object [("id", id), ("kind", kind), ("maybe_attribute_index", slot)]) =
          some [some id, some kind, some slot] := fun _ _ _ => rfl
    rw [toJson, ofJson?, fields]
    simp [id.back, kind.back, slotOfJson?, slot.back]

theorem AstNode.survives {node : AstNode} (fits : node.Fits) :
    Json.Survives toJson ofJson? node := by
  have id := Json.survives_nat fits.id
  have kind := Json.survives_named node.kind.ofName?_name
  have slot := survives_slot fits.slot
  have payload := node.payload.survives
  constructor
  · refine Json.plain_object (by simp only [List.map]; decide) ?_
    simp [id.plain, kind.plain, slot.plain, payload.plain]
  · have fields : ∀ id kind slot payload : Json,
        Json.structFields? ["id", "kind", "maybe_attribute_index", "payload"] 1
            (.object [("id", id), ("kind", kind), ("maybe_attribute_index", slot),
              ("payload", payload)]) =
          some [some id, some kind, some slot, some payload] := fun _ _ _ _ => rfl
    rw [toJson, ofJson?, fields]
    simp [id.back, kind.back, slotOfJson?, slot.back, payloadOfJson?, payload.back]

theorem ContextNode.ofJson?_fits {json : Json} {node : ContextNode}
    (read : ofJson? json = some node) : node.Fits := by
  unfold ofJson? at read
  obtain ⟨fields, _, read⟩ := Option.bind_eq_some_iff.mp read
  split at read
  · simp only [Option.bind_eq_bind, Option.bind_eq_some_iff, Option.pure_def,
      Option.some.injEq] at read
    obtain ⟨id, readId, kind, _, slot, readSlot, rfl⟩ := read
    exact ⟨Json.nat32?_fits readId, slotOfJson?_fits readSlot⟩
  · simp at read

theorem AstNode.ofJson?_fits {json : Json} {node : AstNode} (read : ofJson? json = some node) :
    node.Fits := by
  unfold ofJson? at read
  obtain ⟨fields, _, read⟩ := Option.bind_eq_some_iff.mp read
  split at read
  · simp only [Option.bind_eq_bind, Option.bind_eq_some_iff, Option.pure_def,
      Option.some.injEq] at read
    obtain ⟨id, readId, kind, _, slot, readSlot, payload, _, rfl⟩ := read
    exact ⟨Json.nat32?_fits readId, slotOfJson?_fits readSlot⟩
  · simp at read

namespace Graph

/-- All ids and slots of the graph fit into 32 bits. Nothing is asked of how its tables go
together. -/
structure Fits (graph : Graph) : Prop where
  astNodes : Json.TableFits AstNode.Fits graph.astNodes
  contextNodes : Json.TableFits ContextNode.Fits graph.contextNodes
  parents : Json.TableFits (· < Decimal.bound32) graph.parents
  children : Json.TableFits (fun ids => ∀ id ∈ ids, id < Decimal.bound32) graph.children
  leaves : ∀ id ∈ graph.leaves, id < Decimal.bound32

def form (astNodes : List (NodeId × AstNode)) (contextNodes : List (NodeId × ContextNode))
    (parents : List (NodeId × NodeId)) (children : List (NodeId × List NodeId))
    (leaves : List NodeId) : Json :=
  .object
    [("ast_node_by_id", .ofEntries AstNode.toJson astNodes),
      ("context_node_by_id", .ofEntries ContextNode.toJson contextNodes),
      ("parent_id_by_id", .ofEntries .ofNat parents),
      ("child_ids_by_id", .ofEntries (.ofList .ofNat) children),
      ("leaf_node_ids", .ofList .ofNat leaves)]

/-- The forms in which a graph may be stored. The entries of a table and the leaves are listed in
any order, the children of a node in theirs. -/
inductive StoredAs (graph : Graph) : Json → Prop
  | form {astNodes contextNodes parents children leaves} :
      astNodes.Perm graph.astNodes.toList → contextNodes.Perm graph.contextNodes.toList →
      parents.Perm graph.parents.toList → children.Perm graph.children.toList →
      leaves.Perm graph.leaves.toList →
      StoredAs graph (form astNodes contextNodes parents children leaves)

theorem storedAs_toJson (graph : Graph) : graph.StoredAs graph.toJson :=
  .form (.refl _) (.refl _) (.refl _) (.refl _) (.refl _)

theorem ofList_leaves {leaves : Std.ExtTreeSet NodeId} {listed : List NodeId}
    (same : listed.Perm leaves.toList) : Std.ExtTreeSet.ofList listed = leaves := by
  refine Std.ExtTreeSet.ext_mem fun id => ?_
  rw [Std.ExtTreeSet.mem_ofList, List.contains_iff_mem, same.mem_iff, Std.ExtTreeSet.mem_toList]

theorem survives_storedAs {graph : Graph} (fits : graph.Fits) {json : Json}
    (stored : graph.StoredAs json) : json.Plain ∧ ofJson? json = some graph := by
  cases stored with
  | form astNodes contextNodes parents children leaves =>
      have nat : ∀ id < Decimal.bound32, Json.Survives .ofNat Json.nat32? id :=
        fun _ => Json.survives_nat
      have ids : ∀ ids : List NodeId, (∀ id ∈ ids, id < Decimal.bound32) →
          Json.Survives (.ofList .ofNat) (Json.listOf? Json.nat32?) ids :=
        fun _ all => Json.survives_list fun id member => nat id (all id member)
      have ast := Json.survives_table (fun _ => AstNode.survives) fits.astNodes astNodes
      have context := Json.survives_table (fun _ => ContextNode.survives) fits.contextNodes
        contextNodes
      have parents := Json.survives_table nat fits.parents parents
      have children := Json.survives_table ids fits.children children
      have listed := ids _ fun id member =>
        fits.leaves id (Std.ExtTreeSet.mem_toList.mp (leaves.mem_iff.mp member))
      constructor
      · refine Json.plain_object (by simp only [List.map]; decide) ?_
        simp [ast.1, context.1, parents.1, children.1, listed.plain]
      · have fields : ∀ ast context parents children leaves : Json,
            Json.structFields? ["ast_node_by_id", "context_node_by_id", "parent_id_by_id",
                "child_ids_by_id", "leaf_node_ids"] 0
                (.object [("ast_node_by_id", ast), ("context_node_by_id", context),
                  ("parent_id_by_id", parents), ("child_ids_by_id", children),
                  ("leaf_node_ids", leaves)]) =
              some [some ast, some context, some parents, some children, some leaves] :=
          fun _ _ _ _ _ => rfl
        rw [form, ofJson?, fields]
        simp [ast.2, context.2, parents.2, children.2, listed.back, ofList_leaves leaves]

theorem ofJson?_fits {json : Json} {graph : Graph} (read : ofJson? json = some graph) :
    graph.Fits := by
  unfold ofJson? at read
  obtain ⟨fields, _, read⟩ := Option.bind_eq_some_iff.mp read
  split at read
  · simp only [Option.bind_eq_bind, Option.bind_eq_some_iff, Option.pure_def,
      Option.some.injEq] at read
    obtain ⟨astNodes, readAst, contextNodes, readContext, parents, readParents, children,
      readChildren, leaves, readLeaves, rfl⟩ := read
    refine ⟨Json.idMap?_fits (fun _ _ => AstNode.ofJson?_fits) readAst,
      Json.idMap?_fits (fun _ _ => ContextNode.ofJson?_fits) readContext,
      Json.idMap?_fits (fun _ _ => Json.nat32?_fits) readParents,
      Json.idMap?_fits (fun _ _ => Json.listOf?_forall fun _ _ => Json.nat32?_fits) readChildren,
      ?_⟩
    intro id member
    rw [Std.ExtTreeSet.mem_ofList, List.contains_iff_mem] at member
    exact Json.listOf?_forall (fun _ _ => Json.nat32?_fits) readLeaves id member
  · simp at read

/-- Whatever form a graph is stored in, reading it gives the graph back, both from the value and
from its text, exactly if its ids and slots fit. -/
theorem read_stored (graph : Graph) :
    graph.StoredAs graph.toJson ∧
      (graph.Fits ↔ ∀ json, graph.StoredAs json →
        ofJson? json = some graph ∧ parse? json.compact = some graph) := by
  refine ⟨graph.storedAs_toJson, ?_, ?_⟩
  · intro fits json stored
    obtain ⟨plain, back⟩ := survives_storedAs fits stored
    exact ⟨back, by rw [parse?, Json.parse?_compact plain, Option.bind_some, back]⟩
  · intro readBack
    exact ofJson?_fits (readBack graph.toJson graph.storedAs_toJson).1

/-- A graph whose tables do not go together: nodes under ids that are not their own, an id with a
complete and a context node, links to nowhere and an empty list of children. -/
def looseSample : Graph where
  astNodes :=
    ((∅ : IdMap AstNode).insert 0 ⟨7, .identifier, some 1, .identifier "\"a\\b\"\n"⟩).insert
      4294967295 ⟨0, .literalExpression, none, .literal .text "\x01é"⟩
  contextNodes := (∅ : IdMap ContextNode).insert 0 ⟨0, .recordExpression, some 4294967295⟩
  parents := (∅ : IdMap NodeId).insert 5 6
  children := ((∅ : IdMap (List NodeId)).insert 0 []).insert 1 [9, 0, 9]
  leaves := {3, 0}

theorem read_looseSample :
    looseSample.Fits ∧ parse? looseSample.toJson.compact = some looseSample := by
  have noSlot : SlotFits none := by simp [SlotFits]
  have slot : ∀ place < Decimal.bound32, SlotFits (some place) := by simp [SlotFits]
  have fits : looseSample.Fits := {
    astNodes :=
      ((Json.tableFits_empty _).insert (by decide) ⟨by decide, slot 1 (by decide)⟩).insert
        (by decide) ⟨by decide, noSlot⟩
    contextNodes :=
      (Json.tableFits_empty _).insert (by decide) ⟨by decide, slot 4294967295 (by decide)⟩
    parents := (Json.tableFits_empty _).insert (by decide) (by decide)
    children :=
      ((Json.tableFits_empty _).insert (by decide) (by decide)).insert (by decide) (by decide)
    leaves := by
      intro id member
      obtain rfl | rfl : 3 = id ∨ 0 = id := by simpa [looseSample] using member
      all_goals decide }
  have stored := read_stored looseSample
  exact ⟨fits, (stored.2.mp fits _ stored.1).2⟩

end Graph

end FormulaInspection
