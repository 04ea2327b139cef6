import Dataflow.Proofs.Archive.RoundTrip

/-!
# Archiving as text

The text of a model is read as a model with the same nodes, in which every element became what its
digits are read as.  Where no element changes, the model computes the same as before.
-/

namespace Dataflow

/-! ## Nodes -/

/-- The operator with the elements that come back from a text. -/
def Operator.reread : Operator → Operator
  | .constant values shape => .constant values.reread shape
  | .coordinatewise type op values => .coordinatewise type op (values.map type.reread)
  | operator => operator

namespace Node

/-- The node with the elements that come back from a text. -/
def reread (node : Node) : Node :=
  { node with operator := node.operator.reread }

/-- Every element that the node holds comes back from a text. -/
def Faithful (node : Node) : Prop :=
  node.operator.elements.Same node.operator.elements.reread

/-- Single precision floats, booleans and doubles with short texts come back. -/
theorem faithful_of_hasShortTexts {node : Node} (short : node.operator.elements.HasShortTexts) :
    node.Faithful :=
  Buffer.same_reread short

end Node

section Nodes

variable {first second : Registry} {node restored : Node} {id : NodeId} {version : Version}

@[simp]
theorem Node.typeName_reread (node : Node) : node.reread.typeName = node.typeName := by
  cases node with
  | mk operator wiring => cases operator <;> simp [Node.reread, Operator.reread, Node.typeName, Operator.typeName, Operator.kind?]

@[simp]
theorem Node.inputs_reread (node : Node) : node.reread.inputs = node.inputs := by
  cases node with
  | mk operator wiring => cases operator <;> rfl

@[simp]
theorem Node.outputs_reread (node : Node) : node.reread.outputs = node.outputs := by
  cases node with
  | mk operator wiring =>
      cases operator <;> simp [Node.reread, Operator.reread, Node.outputs, Operator.outputs]

theorem Node.Standard.reread (standard : node.Standard) : node.reread.Standard := by
  cases standard with
  | constant values shape fits => exact .constant _ _ (fits.trans values.size_reread.symm)
  | coordinatewise type op values input fits =>
      exact .coordinatewise _ _ _ _ (fits.trans (Array.size_map ..).symm)
  | input type size => exact .input type size
  | arithmetic type op left right same => exact .arithmetic type op left right same
  | comparison type predicate left right same => exact .comparison type predicate left right same
  | sum type groups => exact .sum type groups
  | concatenation type shape input same => exact .concatenation type shape input same
  | hamming type input => exact .hamming type input
  | sink type name notifies input trigger single =>
      exact .sink type name notifies input trigger single

/-- A node whose elements come back is restored as if it had not been a text. -/
theorem Node.RestoresTo.of_reread (restores : node.reread.RestoresTo version restored)
    (faithful : node.Faithful) : node.RestoresTo version restored := by
  refine ⟨restores.1, ?_⟩
  have own := restores.2
  obtain ⟨operator, wiring⟩ := node
  cases operator with
  | constant values shape =>
      obtain ⟨others, same, eq⟩ := own
      rw [Buffer.size_reread] at eq
      exact ⟨others, faithful.trans same, eq⟩
  | coordinatewise type op values =>
      obtain ⟨others, same, eq⟩ := own
      refine ⟨others, Buffer.Same.trans ?_ same, eq⟩
      cases type <;> exact faithful
  | _ => exact own

/-- Reading the fields of a node that went through a text. -/
theorem exists_readNode_reread (standard : node.Standard) (fits : node.FitsWords)
    {kind : NodeKind} (isKind : node.operator.kind? = some kind)
    (record : Record) :
    ∃ restored, (node.writeFields record).reread.readNode kind = .ok restored ∧
      node.reread.RestoresTo record.version restored := by
  have wires : ∀ elements ∈ node.wiring, (toJson elements).Kept 2 := fun _ => fits.kept
  have shapes : ∀ port ∈ node.outputs, (toJson port.layout.active).Kept 1 := fun port mem =>
    Json.kept_shape (fits.1 port mem)
  cases standard with
  | input type size =>
      have kept : (toJson size).Kept 0 :=
        Json.kept_nat (fits.1 _ List.mem_cons_self size List.mem_cons_self)
      rw [Node.writeFields, Record.reread_write _ _ kept]
      exact exists_readNode (.input type size) fits isKind record.reread
  | constant values shape same =>
      obtain rfl := Option.some.inj isKind
      have read : (record.reread.set "values" values.archived.reread).readElements values.type
          "values" = .ok values.reread := Record.readElements_reread values
      by_cases shaped : 2 ≤ record.version.number
      · have dims : Recovered shape := recovered_shape (fits.1 _ List.mem_cons_self)
        have kept : (toJson shape).Kept 1 := shapes _ List.mem_cons_self
        have written : (Node.writeFields ⟨.constant values shape, []⟩ record).reread =
            (record.reread.set "values" values.archived.reread).write "shape" shape := by
          rw [← Record.reread_set, ← Record.reread_write _ _ kept]
          change _ = ((record.writeElements "values" values).write "shape" shape).reread
          simp [Node.writeFields, shaped]
        have values_read : ((record.reread.set "values" values.archived.reread).write "shape"
            shape).readElements values.type "values" = .ok values.reread :=
          (Record.readElements_set_of_ne (by decide)).trans read
        refine ⟨⟨.constant values.reread shape, []⟩, ?_, rfl, values.reread, Buffer.Same.refl _,
          by rw [if_pos shaped]⟩
        have version : (record.reread.set "values" values.archived.reread).version =
            record.version := rfl
        simp [written, Record.readNode, version, shaped, values_read, Record.read_write dims,
          archivedNode, shapedConstant_eq_ok_iff, same]
      · have written : (Node.writeFields ⟨.constant values shape, []⟩ record).reread =
            record.reread.set "values" values.archived.reread := by
          rw [← Record.reread_set]
          change _ = (record.writeElements "values" values).reread
          simp [Node.writeFields, shaped]
        refine ⟨Node.constant values.reread, ?_, rfl, values.reread, Buffer.Same.refl _,
          by rw [if_neg shaped]; rfl⟩
        have version : (record.reread.set "values" values.archived.reread).version =
            record.version := rfl
        simp [written, Record.readNode, version, shaped, read]
  | arithmetic type op left right same =>
      rw [Node.writeFields, Record.reread_write _ _ (wires _ (by simp)),
        Record.reread_write _ _ (wires _ (by simp)), Record.reread_write _ _ (Json.kept_string _)]
      exact exists_readNode (.arithmetic type op left right same) fits isKind record.reread
  | comparison type predicate left right same =>
      rw [Node.writeFields, Record.reread_write _ _ (wires _ (by simp)),
        Record.reread_write _ _ (wires _ (by simp)), Record.reread_write _ _ (Json.kept_string _)]
      exact exists_readNode (.comparison type predicate left right same) fits isKind record.reread
  | coordinatewise type op values input same =>
      obtain rfl := Option.some.inj isKind
      let before := (record.reread.write "operation" op.name).set "values"
        (Buffer.ofReals type values).archived.reread
      have written : (Node.writeFields ⟨.coordinatewise type op values, [input]⟩ record).reread =
          before.write "coordinates" input := by
        rw [Node.writeFields, Record.reread_write _ _ (wires _ (by simp)), Record.writeElements,
          Record.reread_set, Record.reread_write _ _ (Json.kept_string _)]
        rfl
      have operation : (before.write "coordinates" input).read "operation" = .ok op.name :=
        (Record.readWith_set_of_ne (by decide)).trans ((Record.readWith_set_of_ne (by decide)).trans
          (Record.read_write (recovered_string op.name)))
      have elements_read : (before.write "coordinates" input).readReals type "values" =
          .ok (values.map type.reread) := by
        refine (Record.readReals_set_of_ne (by decide)).trans ?_
        cases type <;> exact Record.readReals_reread _ values
      refine ⟨⟨.coordinatewise type op (values.map type.reread), [input]⟩, ?_, rfl,
        values.map type.reread, Buffer.Same.refl _, rfl⟩
      simp [written, Record.readNode, operation, CoordinateOp.parse, elements_read,
        Record.read_write (fits.recovered (List.mem_singleton.mpr rfl)), archivedNode,
        coordinatewise_eq_ok_iff, same]
  | sum type groups =>
      rw [Node.writeFields, Record.reread_write _ _ (Json.kept_list wires)]
      exact exists_readNode (.sum type groups) fits isKind record.reread
  | concatenation type shape input same =>
      have kept : (toJson shape).Kept 1 := shapes _ List.mem_cons_self
      rw [Node.writeFields, Record.reread_write _ _ kept,
        Record.reread_write _ _ (wires _ (by simp))]
      exact exists_readNode (.concatenation type shape input same) fits isKind record.reread
  | hamming type input =>
      rw [Node.writeFields, Record.reread_write _ _ (wires _ (by simp))]
      exact exists_readNode (.hamming type input) fits isKind record.reread
  | sink type name notifies input trigger single =>
      rw [Node.writeFields, Record.reread_write _ _ (Json.kept_string _),
        Record.reread_write _ _ (wires _ (by simp)), Record.reread_write _ _ (wires _ (by simp))]
      exact exists_readNode (.sink type name notifies input trigger single) fits isKind record.reread

/-- The record of a standard node comes back from its text as a record of the reread node. -/
theorem exists_archiveNode_reread (firstComplete : first.Complete)
    (secondComplete : second.Complete) (standard : node.Standard) (small : id < Json.wordBound)
    (fits : node.FitsWords) :
    ∃ record, first.archiveNode id node = .ok record ∧
      (record.version.number < Json.halfWordBound ∧ (toJson record).depth ≤ 5) ∧
      first.ReadsBack second (id, node.reread) record.reread := by
  obtain ⟨kind, version, carries⟩ := exists_carries firstComplete secondComplete standard
  have kept : (node.heading id version).reread = node.heading id version := by
    rw [Node.heading, Record.reread_write _ _ (Json.kept_nat small)]
    rfl
  have continues := continues_writeFields standard fits (node.heading id version)
  obtain ⟨restored, read, restores⟩ :=
    exists_readNode_reread standard fits carries.isKind (node.heading id version)
  refine ⟨_, archiveNode_eq carries.current, ⟨?_, ?_⟩, ?_⟩
  · rw [continues.version_eq]
    exact Registry.number_lt_of_accepted carries.accepted
  · apply Record.depth_toJson_le
    intro member mem
    rcases continues.mem_payload mem with own | writes
    · obtain rfl : member = ("id", toJson id) := List.mem_singleton.mp own
      exact (Json.kept_nat small).shallow.trans (by decide)
    · exact writes.depth_le
  · refine readsBack_of_continues carries small (kept ▸ continues.reread) ?_ node.typeName_reread
      read restores
    rintro field value ⟨written, writes, rfl⟩
    exact ⟨writes.ne_id, writes.isValue_reread⟩

end Nodes

/-! ## Models -/

/-- Rereading leaves alone what nodes read and offer. -/
theorem Closed.reread {nodes : List (NodeId × Node)} (closed : Closed nodes) :
    Closed (nodes.map fun pair => (pair.1, pair.2.reread)) := by
  intro left pair right split input inputMem coordinate coordinateMem
  obtain ⟨before, after, rfl, rfl, later⟩ := List.map_eq_append_iff.mp split
  obtain ⟨own, rest, rfl, rfl, rfl⟩ := List.map_eq_cons_iff.mp later
  rw [Node.inputs_reread] at inputMem
  obtain ⟨node, mem, port, ported, inside⟩ :=
    closed before own rest rfl input inputMem coordinate coordinateMem
  exact ⟨node.reread, List.mem_map.mpr ⟨_, mem, rfl⟩, port, by rwa [Node.outputs_reread], inside⟩

namespace Model

variable {first second : Registry} {model : Model}

/-- The nodes of a model with the elements that come back from a text. -/
def rereadNodes (model : Model) : List (NodeId × Node) :=
  model.skeleton.map fun pair => (pair.1, pair.2.reread)

/-- The record of a model comes back from its text as that of the reread records. -/
theorem ofText?_records {records : List Record}
    (bounded : ∀ record ∈ records,
      record.version.number < Json.halfWordBound ∧ (toJson record).depth ≤ 5)
    (recovered : Recovered (records.map Record.reread)) :
    Record.ofText? ((Record.start "model" modelTag Registry.modelVersion).write "nodes"
        records).prettyText =
      some ((Record.start "model" modelTag Registry.modelVersion).write "nodes"
        (records.map Record.reread)) := by
  have forms : (toJson records).reread = toJson (records.map Record.reread) := by
    simp only [toJson, Json.reread, Json.rereadItems_eq_map, List.map_map]
    congr 1
    apply List.map_congr_left
    intro record mem
    exact Record.reread_toJson (bounded record mem).1
  have reread : ((Record.start "model" modelTag Registry.modelVersion).write "nodes"
      records).reread = (Record.start "model" modelTag Registry.modelVersion).write "nodes"
        (records.map Record.reread) := by
    rw [Record.write, Record.reread_set, forms]
    rfl
  have small : Registry.modelVersion.number < Json.halfWordBound := by decide
  have limit : 6 + 2 ≤ Json.depthLimit := by decide
  rw [Record.ofText?_prettyText small, reread]
  · refine (Record.depth_toJson_le fun member mem => ?_).trans limit
    obtain rfl : member = ("nodes", toJson records) := List.mem_singleton.mp mem
    apply Json.depth_array_le
    intro item itemMem
    obtain ⟨record, recordMem, rfl⟩ := List.mem_map.mp itemMem
    exact (bounded record recordMem).2
  · rw [reread]
    exact (Record.clean_start _ _ _).write recovered

/-- The text of a model is read as its reread nodes. -/
theorem exists_archiveText (firstComplete : first.Complete) (secondComplete : second.Complete)
    (wellFormed : model.WellFormed) (standard : model.Standard) (fits : model.FitsWords) :
    ∃ text restored, first.archiveText model = .ok text ∧
      second.unarchiveText text = .ok restored ∧ restored.WellFormed ∧
      List.Forall₂ (Restored first) model.rereadNodes restored.skeleton := by
  have nodesStandard := standard_iff_skeleton.mp standard
  have each : ∀ pair ∈ model.skeleton, ∃ record,
      first.archiveNode pair.1 pair.2 = .ok record ∧
        (record.version.number < Json.halfWordBound ∧ (toJson record).depth ≤ 5) ∧
        first.ReadsBack second (pair.1, pair.2.reread) record.reread :=
    fun pair mem => exists_archiveNode_reread firstComplete secondComplete (nodesStandard pair mem)
      (fits pair mem).1 (fits.node wellFormed standard mem)
  obtain ⟨records, pointwise⟩ := exists_forall₂ each
  have archived := archiveModel_eq (pointwise.imp fun _ _ all => all.1)
  have bounded : ∀ record ∈ records,
      record.version.number < Json.halfWordBound ∧ (toJson record).depth ≤ 5 := by
    intro record mem
    obtain ⟨_, _, all⟩ := exists_of_mem_right pointwise mem
    exact all.2.1
  have reads : List.Forall₂ (first.ReadsBack second) model.rereadNodes
      (records.map Record.reread) := by
    rw [rereadNodes, List.forall₂_map_left_iff, List.forall₂_map_right_iff]
    exact pointwise.imp fun _ _ all => all.2.2
  have recovered : Recovered (records.map Record.reread) := recovered_list fun record mem => by
    obtain ⟨_, _, readsBack⟩ := exists_of_mem_right reads mem
    exact readsBack.1
  have rereadStandard : ∀ pair ∈ model.rereadNodes, pair.2.Standard := by
    intro pair mem
    obtain ⟨own, ownMem, rfl⟩ := List.mem_map.mp mem
    exact (nodesStandard own ownMem).reread
  have increasing : (model.rereadNodes.map Prod.fst).Pairwise (· < ·) := by
    rw [rereadNodes, List.map_map]
    exact wellFormed.increasing_skeleton
  obtain ⟨restored, read, restoredWellFormed, back⟩ :=
    exists_unarchiveModel reads rereadStandard wellFormed.closed.reread increasing
  have written : first.archiveText model = .ok
      ((Record.start "model" modelTag Registry.modelVersion).write "nodes" records).prettyText := by
    simp [Registry.archiveText, archived]
  refine ⟨_, restored, written, ?_, restoredWellFormed, back⟩
  rw [Registry.unarchiveText, ofText?_records bounded recovered]
  exact read

/-- What is restored from a text of faithful nodes is the model. -/
theorem restored_of_rereadNodes {restored : Model}
    (back : List.Forall₂ (Restored first) model.rereadNodes restored.skeleton)
    (faithful : ∀ pair ∈ model.skeleton, pair.2.Faithful) :
    List.Forall₂ (Restored first) model.skeleton restored.skeleton := by
  rw [rereadNodes, List.forall₂_map_left_iff] at back
  have listed := (List.forall₂_and_left model.skeleton _).mpr ⟨fun _ mem => mem, back⟩
  apply listed.imp
  rintro pair twin ⟨mem, same, version, current, restores⟩
  exact ⟨same, version, pair.2.typeName_reread ▸ current, restores.of_reread (faithful pair mem)⟩

/-- Archiving a model as text and reading the text back, with registries that came from the standard
one by changes of current versions.  A model with the same ids in the same order is read.  Each node
comes back with its wiring and its operator, up to what a record does not hold, and its elements are
what their digits are read as.  Where all of these are the elements that were written, which single
precision floats and doubles with short texts are, both models compute the same outputs. -/
theorem unarchived_text {model : Model} (wellFormed : model.WellFormed) (standard : model.Standard)
    (fits : model.FitsWords) (changes others : List (String × Version)) :
    ∃ text restored, (Registry.standard.retuned changes).archiveText model = .ok text ∧
      (Registry.standard.retuned others).unarchiveText text = .ok restored ∧
      restored.WellFormed ∧
      List.Forall₂ (Restored (Registry.standard.retuned changes)) model.rereadNodes
        restored.skeleton ∧
      ((∀ pair ∈ model.skeleton, pair.2.Faithful) → ∀ values, model.Accepts values →
        restored.Accepts values ∧ RunsAlike model restored values) := by
  obtain ⟨text, restored, archived, read, restoredWellFormed, back⟩ :=
    exists_archiveText (Registry.complete_standard.retuned changes)
      (Registry.complete_standard.retuned others) wellFormed standard fits
  exact ⟨text, restored, archived, read, restoredWellFormed, back, fun faithful values accepts =>
    runsAlike_of_restored wellFormed standard restoredWellFormed
      (restored_of_rereadNodes back faithful) accepts⟩

end Model

end Dataflow
