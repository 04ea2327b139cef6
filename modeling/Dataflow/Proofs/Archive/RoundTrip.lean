import Dataflow.Proofs.Archive.Decoding
import Dataflow.Proofs.Archive.NodeRecords
import Dataflow.Proofs.Graph.Likeness

/-!
# Archiving and reading back

A record that one registry writes can be read with another one, as long as both came from the
standard registry by changes of current versions: these choose what is written and never what can
be read.  The model that is read has the nodes of the model that was written, up to what a record
does not hold, and computes the same outputs.
-/

namespace Dataflow

/-! ## Registries -/

@[simp]
theorem NodeKind.ofTag?_tag (kind : NodeKind) : ofTag? kind.tag = some kind := by
  have all : ∀ kind ∈ all, ofTag? kind.tag = some kind := by decide +kernel
  exact all kind (mem_all kind)

namespace Registry

/-- A registry after changes of current versions.  A change that is refused changes nothing. -/
def retuned (registry : Registry) (changes : List (String × Version)) : Registry :=
  changes.foldl
    (fun registry change => (registry.setCurrentVersion? change.1 change.2).getD registry) registry

/-- A registry that reads what the standard registry reads, and writes one of these versions. -/
def Complete (registry : Registry) : Prop :=
  ∀ kind, ∃ current, registry.registration? kind =
      some ⟨current, (standardRegistration kind).accepted⟩ ∧
    current ∈ (standardRegistration kind).accepted

theorem complete_standard : standard.Complete := by
  have all : ∀ kind ∈ NodeKind.all,
      standard.registration? kind = some (standardRegistration kind) := by decide +kernel
  intro kind
  refine ⟨(standardRegistration kind).current, all kind (NodeKind.mem_all kind), ?_⟩
  have current : ∀ kind ∈ NodeKind.all,
      (standardRegistration kind).current ∈ (standardRegistration kind).accepted := by decide
  exact current kind (NodeKind.mem_all kind)

theorem registration?_register (registry : Registry) (kind other : NodeKind)
    (registration : Registration) :
    (registry.register kind registration).registration? other =
      if other = kind then some registration else registry.registration? other := by
  simp only [registration?, register, List.lookup_cons]
  by_cases same : other = kind
  · simp [same]
  · have different : (other == kind) = false := by simpa using same
    simp [different, same]

theorem Complete.find?_tag {registry : Registry} (complete : registry.Complete) (kind : NodeKind) :
    ∃ current, registry.find? kind.tag =
        some (kind, ⟨current, (standardRegistration kind).accepted⟩) ∧
      current ∈ (standardRegistration kind).accepted := by
  obtain ⟨current, found, accepted⟩ := complete kind
  exact ⟨current, by simp [find?, found], accepted⟩

theorem Complete.setCurrentVersion? {registry after : Registry} (complete : registry.Complete)
    {tag : String} {version : Version} (set : registry.setCurrentVersion? tag version = some after) :
    after.Complete := by
  simp only [Registry.setCurrentVersion?, Option.bind_eq_bind, Option.bind_eq_some_iff,
    Prod.exists] at set
  obtain ⟨kind, registration, found, set⟩ := set
  simp only [find?, Option.bind_eq_bind, Option.bind_eq_some_iff, Option.pure_def,
    Option.some.injEq, Prod.mk.injEq] at found
  obtain ⟨own, _, _, registered, isKind, rfl⟩ := found
  subst own
  split at set
  · rename_i accepted
    obtain rfl := Option.some.inj set
    intro other
    rw [registration?_register]
    by_cases same : other = kind
    · subst same
      obtain ⟨current, isRegistered, _⟩ := complete other
      obtain rfl := Option.some.inj (isRegistered.symm.trans registered)
      exact ⟨version, by simp, accepted⟩
    · rw [if_neg same]
      exact complete other
  · simp at set

theorem Complete.retuned {registry : Registry} (complete : registry.Complete)
    (changes : List (String × Version)) : (registry.retuned changes).Complete := by
  induction changes generalizing registry with
  | nil => exact complete
  | cons change rest ih =>
      have step : ((registry.setCurrentVersion? change.1 change.2).getD registry).Complete := by
        cases set : registry.setCurrentVersion? change.1 change.2 with
        | none => exact complete
        | some after => exact complete.setCurrentVersion? set
      exact ih step

theorem number_lt_of_accepted {kind : NodeKind} {version : Version}
    (accepted : version ∈ (standardRegistration kind).accepted) :
    version.number < Json.halfWordBound := by
  have small : ∀ kind ∈ NodeKind.all, ∀ version ∈ (standardRegistration kind).accepted,
      version.number < Json.halfWordBound := by decide
  exact small kind (NodeKind.mem_all kind) version accepted

end Registry

/-! ## Nodes -/

section Nodes

variable {first second : Registry} {node : Node} {id : NodeId}

theorem typeName_of_kind? {kind : NodeKind} (isKind : node.operator.kind? = some kind) :
    node.typeName = kind.tag := by
  unfold Node.typeName
  cases operator : node.operator <;> rw [operator] at isKind <;> cases isKind <;> rfl

/-- A record is read as a node under an id, up to what a record of its version does not hold. -/
def Registry.ReadsBack (first second : Registry) (pair : NodeId × Node) (record : Record) : Prop :=
  Recovered record ∧ ∃ version restored, first.currentVersion pair.2.typeName = .ok version ∧
    second.unarchiveNode record = .ok (pair.1, restored) ∧ pair.2.RestoresTo version restored

/-- The kind of a node and the version in which the first registry writes it, which the second one
reads. -/
structure Registry.Carries (first second : Registry) (node : Node) (kind : NodeKind)
    (version : Version) : Prop where
  isKind : node.operator.kind? = some kind
  current : first.currentVersion node.typeName = .ok version
  accepted : version ∈ (standardRegistration kind).accepted
  found : ∃ other, second.find? kind.tag = some (kind, ⟨other, (standardRegistration kind).accepted⟩)

theorem exists_carries (firstComplete : first.Complete) (secondComplete : second.Complete)
    (standard : node.Standard) : ∃ kind version, first.Carries second node kind version := by
  obtain ⟨kind, isKind⟩ := Option.isSome_iff_exists.mp standard.isSome_kind?
  obtain ⟨version, found, accepted⟩ := firstComplete.find?_tag kind
  obtain ⟨other, secondFound, _⟩ := secondComplete.find?_tag kind
  refine ⟨kind, version, isKind, ?_, accepted, other, secondFound⟩
  simp [Registry.currentVersion, typeName_of_kind? isKind, found]

/-- The record of a node before its fields. -/
def Node.heading (node : Node) (id : NodeId) (version : Version) : Record :=
  (Record.start s!"node_{id}" node.typeName version).write "id" id

theorem clean_heading (small : id < Json.wordBound) (version : Version) :
    (node.heading id version).Clean :=
  (Record.clean_start _ _ _).write (recovered_nat small)

theorem archiveNode_eq {version : Version} (current : first.currentVersion node.typeName = .ok version) :
    first.archiveNode id node = .ok (node.writeFields (node.heading id version)) := by
  simp [Registry.archiveNode, current, Node.heading]

/-- A record that starts like that of a node, and from whose fields an image of the node is read, is
read as the image under the id. -/
theorem readsBack_of_continues {kind : NodeKind} {version : Version}
    {Allowed : String → Json → Prop} {record : Record} {image restored : Node}
    (carries : first.Carries second node kind version) (small : id < Json.wordBound)
    (continues : (node.heading id version).Continues Allowed record)
    (allowed : ∀ field value, Allowed field value → "id" ≠ field ∧ value.IsValue)
    (named : image.typeName = node.typeName) (read : record.readNode kind = .ok restored)
    (restores : image.RestoresTo version restored) : first.ReadsBack second (id, image) record := by
  have sameVersion : record.version = version := continues.version_eq
  refine ⟨?_, version, restored, named ▸ carries.current, ?_, restores⟩
  · apply (continues.clean (clean_heading small version)
      fun field value own => (allowed field value own).2).recovered
    rw [sameVersion]
    exact Registry.number_lt_of_accepted carries.accepted
  · apply Registry.unarchiveNode_eq_ok_iff.mpr
    obtain ⟨other, found⟩ := carries.found
    refine ⟨?_, kind, ⟨other, (Registry.standardRegistration kind).accepted⟩, ?_, ?_, read⟩
    · exact (continues.readWith_eq fun field value own => (allowed field value own).1).trans
        (Record.read_write (recovered_nat small))
    · rw [continues.typeTag_eq]
      exact (congrArg second.find? (typeName_of_kind? carries.isKind)).trans found
    · rw [sameVersion]
      exact carries.accepted

/-- The record of a standard node is read as the node. -/
theorem exists_archiveNode (firstComplete : first.Complete) (secondComplete : second.Complete)
    (standard : node.Standard) (small : id < Json.wordBound) (fits : node.FitsWords) :
    ∃ record, first.archiveNode id node = .ok record ∧ first.ReadsBack second (id, node) record := by
  obtain ⟨kind, version, carries⟩ := exists_carries firstComplete secondComplete standard
  obtain ⟨restored, read, restores⟩ :=
    exists_readNode standard fits carries.isKind (node.heading id version)
  refine ⟨_, archiveNode_eq carries.current, ?_⟩
  exact readsBack_of_continues carries small (continues_writeFields standard fits _)
    (fun _ _ writes => ⟨writes.ne_id, writes.isValue⟩) rfl read restores

/-- The ways in which a node can come back. -/
inductive Node.ComesBack : Node → Node → Prop
  | same (node : Node) : ComesBack node node
  | constant {values others : Buffer} {shape kept : Shape} (same : values.Same others)
      (count : kept.elementCount = shape.elementCount) :
      ComesBack ⟨.constant values shape, []⟩ ⟨.constant others kept, []⟩
  | coordinatewise {type : RealType} {op : CoordinateOp} {values others : Array type.Carrier}
      {input : Elements} (same : (Buffer.ofReals type values).Same (.ofReals type others)) :
      ComesBack ⟨.coordinatewise type op values, [input]⟩ ⟨.coordinatewise type op others, [input]⟩
  | sink {type : ScalarType} {name : String} {size : Nat} {notifies : Bool} {wiring : List Elements} :
      ComesBack ⟨.sink type name size notifies, wiring⟩ ⟨.sink type name size false, wiring⟩

theorem Node.RestoresTo.comesBack {version : Version} {restored : Node}
    (restores : node.RestoresTo version restored) (standard : node.Standard) :
    node.ComesBack restored := by
  obtain ⟨operator, wiring⟩ := restored
  obtain ⟨sameWiring, sameOperator⟩ := restores
  simp only at sameWiring sameOperator
  subst sameWiring
  cases standard with
  | constant values shape fits =>
      obtain ⟨others, same, rfl⟩ := sameOperator
      refine .constant same ?_
      split
      · rfl
      · rw [Shape.elementCount_vector, fits]
  | coordinatewise type op values input _ =>
      obtain ⟨others, same, rfl⟩ := sameOperator
      exact .coordinatewise same
  | sink type name notifies input trigger _ =>
      obtain rfl := sameOperator
      exact .sink
  | _ =>
      obtain rfl := sameOperator
      exact .same _

namespace Node.ComesBack

variable {restored : Node}

/-- What comes back is a standard node. -/
theorem standard (back : node.ComesBack restored) (standard : node.Standard) :
    restored.Standard := by
  cases back with
  | same => exact standard
  | constant same count =>
      cases standard with
      | constant _ _ fits => exact .constant _ _ (count.trans (fits.trans same.size_eq))
  | coordinatewise same =>
      cases standard with
      | coordinatewise _ _ _ _ fits =>
          exact .coordinatewise _ _ _ _ (fits.trans (by simpa using same.size_eq))
  | sink =>
      cases standard with
      | sink _ _ _ _ _ single => exact .sink _ _ _ _ _ single

/-- What comes back reads the same. -/
theorem inputs_eq (back : node.ComesBack restored) : restored.inputs = node.inputs := by
  cases back <;> rfl

/-- What comes back has output ports of the same types and sizes. -/
theorem outputs_same (back : node.ComesBack restored) :
    List.Forall₂ (fun port twin => twin.type = port.type ∧ twin.size = port.size)
      node.outputs restored.outputs := by
  cases back with
  | same => exact List.forall₂_same.mpr fun _ _ => ⟨rfl, rfl⟩
  | constant same count => exact .cons ⟨same.1.symm, count⟩ .nil
  | coordinatewise same =>
      refine .cons ⟨rfl, ?_⟩ .nil
      have sizes := same.size_eq
      simp only [Buffer.size_ofReals] at sizes
      rw [size_vector, size_vector, sizes]
  | sink => exact .cons ⟨rfl, rfl⟩ .nil

theorem alike (back : node.ComesBack restored) : node.Alike restored := by
  refine ⟨back.inputs_eq, by cases back <;> rfl, ?_⟩
  intro inputs others values sameInputs computed
  cases back with
  | same => exact node.operator.value_same sameInputs computed
  | constant same count =>
      simp only [Operator.value, pure_eq_ok_iff, Option.some.injEq] at computed
      subst computed
      exact ⟨_, rfl, same⟩
  | @coordinatewise type op fixed twins input same =>
      simp only [Operator.value, bind_eq_ok_iff, pure_eq_ok_iff, Option.some.injEq] at computed
      obtain ⟨reals, read, rfl⟩ := computed
      obtain ⟨images, imagesRead, sameReals⟩ := realInput_same sameInputs read
      refine ⟨.ofReals type (Array.zipWith op.binaryOp.apply twins images), ?_, ?_⟩
      · simp [Operator.value, imagesRead]
      · rw [same_ofReals_iff, Array.toList_zipWith, Array.toList_zipWith]
        exact forall₂_zipWith (BinaryOp.apply_same _) (same_ofReals_iff.mp same) sameReals
  | sink => exact Operator.value_same (.sink _ _ _ false) sameInputs computed

end Node.ComesBack

end Nodes

/-! ## Models -/

namespace Model

variable {first second : Registry} {model : Model}

/-- All numbers of a model fit in a word. -/
def FitsWords (model : Model) : Prop :=
  ∀ pair ∈ model.skeleton, pair.1 < Json.wordBound ∧
    ∀ port ∈ pair.2.outputs, port.size < Json.wordBound ∧
      ∀ dim ∈ port.layout.active.dims, dim < Json.wordBound

/-- Coordinates name ids, ports and elements of the model, so they fit too. -/
theorem FitsWords.node (fits : model.FitsWords) (wellFormed : model.WellFormed)
    (standard : model.Standard) {pair : NodeId × Node} (mem : pair ∈ model.skeleton) :
    pair.2.FitsWords := by
  refine ⟨fun port portMem => ((fits pair mem).2 port portMem).2, ?_⟩
  obtain ⟨entry, entryMem, rfl⟩ : ∃ entry ∈ model.entries, (entry.id, entry.node) = pair := by
    simpa [skeleton] using mem
  intro elements elementsMem coordinate coordinateMem
  rw [← (standard entry entryMem).elements_inputs] at elementsMem
  obtain ⟨input, inputMem, rfl⟩ := List.mem_map.mp elementsMem
  obtain ⟨_, source, sourceMem, sourceId, port, ported, inside, _⟩ :=
    wellFormed.provided entry entryMem input inputMem coordinate coordinateMem
  obtain ⟨small, ports⟩ := fits _ (mem_skeleton_iff.mpr ⟨source, sourceMem, sourceId, rfl⟩)
  have single : coordinate.port < source.node.outputs.length :=
    (List.getElem?_eq_some_iff.mp ported).1
  have few := (standard source sourceMem).length_outputs
  have bound : maxOutputPorts < Json.wordBound := by decide
  exact ⟨small, by omega, inside.trans (ports port (List.mem_of_getElem? ported)).1⟩

/-- A node comes back under its id. -/
def Restored (first : Registry) (pair twin : NodeId × Node) : Prop :=
  twin.1 = pair.1 ∧ ∃ version, first.currentVersion pair.2.typeName = .ok version ∧
    pair.2.RestoresTo version twin.2

theorem Restored.comesBack {pair twin : NodeId × Node} (restored : Restored first pair twin)
    (standard : pair.2.Standard) : pair.2.ComesBack twin.2 :=
  restored.2.choose_spec.2.comesBack standard

/-- Restored nodes offer what the nodes offer. -/
theorem offers_of_restored {nodes : List (NodeId × Node)}
    (restored : List.Forall₂ (Restored first) nodes model.skeleton)
    (standard : ∀ pair ∈ nodes, pair.2.Standard) {type : ScalarType} {coordinate : Coordinate}
    (offered : Offered nodes type coordinate) : model.Offers type coordinate := by
  obtain ⟨node, mem, port, ported, inside, rfl⟩ := offered
  obtain ⟨⟨id, image⟩, twinMem, back⟩ := exists_of_mem_left restored mem
  obtain ⟨twin, twinPorted, sameType, sameSize⟩ :=
    exists_getElem?_left (back.comesBack (standard _ mem)).outputs_same ported
  obtain rfl : id = coordinate.node := back.1
  exact ⟨image, twinMem, twin, twinPorted, sameSize ▸ inside, sameType⟩

/-- The induction is on the records that are left; what their nodes read is inserted already. -/
theorem exists_insertNodes (done : List (NodeId × Node)) {rest : List (NodeId × Node)}
    {records : List Record} {model : Model} (wellFormed : model.WellFormed)
    (restored : List.Forall₂ (Restored first) done model.skeleton)
    (reads : List.Forall₂ (first.ReadsBack second) rest records)
    (standard : ∀ pair ∈ done ++ rest, pair.2.Standard) (closed : Closed (done ++ rest))
    (increasing : (rest.map Prod.fst).Pairwise (· < ·))
    (later : ∀ pair ∈ rest, model.nextId ≤ pair.1) :
    ∃ after, second.insertNodes records model = .ok after ∧ after.WellFormed ∧
      List.Forall₂ (Restored first) (done ++ rest) after.skeleton := by
  induction reads generalizing done model with
  | nil => exact ⟨model, rfl, wellFormed, by simpa using restored⟩
  | @cons pair record rest records reads _ ih =>
      obtain ⟨_, version, twin, current, read, restores⟩ := reads
      have pairStandard := standard pair (by simp)
      have back := restores.comesBack pairStandard
      have offered : ∀ input ∈ twin.inputs, ∀ coordinate ∈ input.elements,
          model.Offers input.type coordinate := by
        rw [back.inputs_eq]
        intro input inputMem coordinate coordinateMem
        exact offers_of_restored restored
          (fun other mem => standard other (List.mem_append_left _ mem))
          (closed done pair rest rfl input inputMem coordinate coordinateMem)
      obtain ⟨next, inserted, nextWellFormed, nextId, skeleton⟩ :=
        wellFormed.exists_insert (later pair List.mem_cons_self)
          (back.standard pairStandard).length_outputs offered
      have split : done ++ pair :: rest = done ++ [pair] ++ rest := by simp
      rw [split] at standard closed ⊢
      rw [List.map_cons, List.pairwise_cons] at increasing
      obtain ⟨after, others, afterWellFormed, all⟩ := ih (done ++ [pair]) nextWellFormed
        (by
          rw [skeleton]
          exact List.rel_append restored (.cons ⟨rfl, version, current, restores⟩ .nil))
        standard closed increasing.2
        (fun other mem => nextId ▸ increasing.1 _ (List.mem_map_of_mem mem))
      exact ⟨after, Registry.insertNodes_cons_eq_ok_iff.mpr
        ⟨pair.1, twin, next, read, inserted, others⟩, afterWellFormed, all⟩

theorem alike_of_restored {nodes twins : List (NodeId × Node)}
    (back : List.Forall₂ (Restored first) nodes twins) (standard : ∀ pair ∈ nodes, pair.2.Standard) :
    List.Forall₂ (fun pair twin => twin.1 = pair.1 ∧ pair.2.Alike twin.2) nodes twins := by
  have listed := (List.forall₂_and_left nodes _).mpr ⟨fun _ mem => mem, back⟩
  exact listed.imp fun pair twin own =>
    ⟨own.2.1, (own.2.comesBack (standard pair own.1)).alike⟩

/-- The record of a model has the records of its nodes. -/
theorem archiveModel_eq {records : List Record}
    (written : List.Forall₂ (fun pair record => first.archiveNode pair.1 pair.2 = .ok record)
      model.skeleton records) :
    first.archiveModel model =
      .ok ((Record.start "model" modelTag Registry.modelVersion).write "nodes" records) := by
  have all : (model.entries.mapM fun entry => first.archiveNode entry.id entry.node) =
      .ok records := by
    rw [mapM_eq_ok_iff]
    simpa [skeleton] using written
  simp [Registry.archiveModel, all]

/-- A model is read from records of nodes that read nothing but nodes before them. -/
theorem exists_unarchiveModel {nodes : List (NodeId × Node)} {records : List Record}
    (reads : List.Forall₂ (first.ReadsBack second) nodes records)
    (standard : ∀ pair ∈ nodes, pair.2.Standard) (closed : Closed nodes)
    (increasing : (nodes.map Prod.fst).Pairwise (· < ·)) :
    ∃ restored, second.unarchiveModel
        ((Record.start "model" modelTag Registry.modelVersion).write "nodes" records) =
          .ok restored ∧ restored.WellFormed ∧
      List.Forall₂ (Restored first) nodes restored.skeleton := by
  have recovered : Recovered records := recovered_list fun record mem => by
    obtain ⟨_, _, readsBack⟩ := exists_of_mem_right reads mem
    exact readsBack.1
  obtain ⟨restored, inserted, restoredWellFormed, all⟩ :=
    exists_insertNodes [] wellFormed_empty .nil reads standard closed increasing
      (fun _ _ => Nat.zero_le _)
  exact ⟨restored, Registry.unarchiveModel_eq_ok_iff.mpr
    ⟨rfl, rfl, records, Record.read_write recovered, inserted⟩, restoredWellFormed, all⟩

theorem WellFormed.increasing_skeleton (wellFormed : model.WellFormed) :
    (model.skeleton.map Prod.fst).Pairwise (· < ·) :=
  model.ids_eq_skeleton ▸ wellFormed.ids_increasing

/-- A well-formed model of standard nodes is written, and its nodes are read back one by one. -/
theorem exists_archiveModel {model : Model} (firstComplete : first.Complete)
    (secondComplete : second.Complete) (wellFormed : model.WellFormed) (standard : model.Standard)
    (fits : model.FitsWords) :
    ∃ record restored, first.archiveModel model = .ok record ∧
      second.unarchiveModel record = .ok restored ∧ restored.WellFormed ∧
      List.Forall₂ (Restored first) model.skeleton restored.skeleton := by
  have nodesStandard := standard_iff_skeleton.mp standard
  have each : ∀ pair ∈ model.skeleton, ∃ record,
      first.archiveNode pair.1 pair.2 = .ok record ∧ first.ReadsBack second pair record :=
    fun pair mem => exists_archiveNode firstComplete secondComplete (nodesStandard pair mem)
      (fits pair mem).1 (fits.node wellFormed standard mem)
  obtain ⟨records, pointwise⟩ := exists_forall₂ each
  obtain ⟨restored, read, restoredWellFormed, back⟩ :=
    exists_unarchiveModel (pointwise.imp fun _ _ both => both.2) nodesStandard wellFormed.closed
      wellFormed.increasing_skeleton
  exact ⟨_, restored, archiveModel_eq (pointwise.imp fun _ _ both => both.1), read,
    restoredWellFormed, back⟩

/-- What comes back takes the same buffers. -/
theorem accepts_of_restored {restored : Model}
    (back : List.Forall₂ (Restored first) model.skeleton restored.skeleton)
    (standard : model.Standard) {values : List Buffer} (accepts : model.Accepts values) :
    restored.Accepts values := by
  have nodesStandard := standard_iff_skeleton.mp standard
  unfold Accepts
  rw [← inputIds_skeleton, inputIds_of_alike (alike_of_restored back nodesStandard),
    inputIds_skeleton]
  apply accepts.imp
  intro id buffer takes
  obtain ⟨⟨twinId, twin⟩, twinMem, same, _, _, wiring, operator⟩ := exists_of_mem_left back takes
  obtain rfl : twinId = id := same
  obtain ⟨twinOperator, twinWiring⟩ := twin
  obtain rfl := wiring
  obtain rfl := operator
  exact twinMem

/-- A model and the one that comes back run, and end with the same buffers. -/
def RunsAlike (model restored : Model) (values : List Buffer) : Prop :=
  ∃ original copy, model.run values = .ok original ∧ restored.run values = .ok copy ∧
    original.result = .ok () ∧ copy.result = .ok () ∧
    List.Forall₂ (fun entry twin => twin.id = entry.id ∧
      List.Forall₂ Buffer.Same entry.outputs twin.outputs)
      original.model.entries copy.model.entries

/-- What comes back computes the same. -/
theorem runsAlike_of_restored {restored : Model} (wellFormed : model.WellFormed)
    (standard : model.Standard) (restoredWellFormed : restored.WellFormed)
    (back : List.Forall₂ (Restored first) model.skeleton restored.skeleton) {values : List Buffer}
    (accepts : model.Accepts values) : restored.Accepts values ∧ RunsAlike model restored values := by
  have nodesStandard := standard_iff_skeleton.mp standard
  have restoredStandard : restored.Standard := by
    apply standard_iff_skeleton.mpr
    intro twin mem
    obtain ⟨pair, pairMem, own⟩ := exists_of_mem_right back mem
    exact (own.comesBack (nodesStandard pair pairMem)).standard (nodesStandard pair pairMem)
  have restoredAccepts := accepts_of_restored back standard accepts
  obtain ⟨original, run, done, assigned, _⟩ := wellFormed.exists_run standard accepts
  obtain ⟨copy, copyRun, copyDone, copyAssigned, _⟩ :=
    restoredWellFormed.exists_run restoredStandard restoredAccepts
  have twins := assigned.twins copyAssigned standard restoredStandard
    (alike_of_restored back nodesStandard)
  exact ⟨restoredAccepts, original, copy, run, copyRun, done, copyDone, twins.entries_same⟩

/-- Archiving a model and reading the record back.  Whatever versions two registries derived from
the standard one write, the first writes every well-formed model of standard nodes, and the second
reads a model with the same ids in the same order.  Each node comes back with its wiring and its
operator; only callbacks of sinks, the bits of undefined floats and the shapes of constants that
are written at version 1 are lost.  With the same buffers written to their inputs, both models
compute the same outputs. -/
theorem unarchived_archive {model : Model} (wellFormed : model.WellFormed)
    (standard : model.Standard) (fits : model.FitsWords) (changes others : List (String × Version)) :
    ∃ record restored, (Registry.standard.retuned changes).archiveModel model = .ok record ∧
      (Registry.standard.retuned others).unarchiveModel record = .ok restored ∧
      restored.WellFormed ∧
      List.Forall₂ (Restored (Registry.standard.retuned changes)) model.skeleton
        restored.skeleton ∧
      ∀ values, model.Accepts values → restored.Accepts values ∧ ∃ original copy,
        model.run values = .ok original ∧ restored.run values = .ok copy ∧
        original.result = .ok () ∧ copy.result = .ok () ∧
        List.Forall₂ (fun entry twin => twin.id = entry.id ∧
          List.Forall₂ Buffer.Same entry.outputs twin.outputs)
          original.model.entries copy.model.entries := by
  obtain ⟨record, restored, archived, read, restoredWellFormed, back⟩ :=
    exists_archiveModel (Registry.complete_standard.retuned changes)
      (Registry.complete_standard.retuned others) wellFormed standard fits
  exact ⟨record, restored, archived, read, restoredWellFormed, back, fun values accepts =>
    runsAlike_of_restored wellFormed standard restoredWellFormed back accepts⟩

/-- A model that adds the second entry of a two by one constant to its input. -/
def ledger : Model where
  arena := ⟨#[
    some ⟨0, .input .f64 1, [.f64 #[0]]⟩,
    some ⟨1, ⟨.constant (.f64 #[0, 1]) ⟨[2, 1]⟩, []⟩, [.f64 #[0, 0]]⟩,
    some ⟨2, ⟨.arithmetic .f64 .add 1, [[⟨0, 0, 0⟩], [⟨1, 0, 1⟩]]⟩, [.f64 #[0]]⟩]⟩
  order := [0, 1, 2]
  keys := [(2, 2), (1, 1), (0, 0)]
  nextId := 3

theorem sound_ledger : ledger.Sound := by
  have first : Model.Sound _ :=
    sound_empty.add (.inl (.input .f64 1)) (rfl : _ = Except.ok (0, _))
  have second : Model.Sound _ := first.add
    (.inl (.constant (.f64 #[0, 1]) ⟨[2, 1]⟩ rfl)) (rfl : _ = Except.ok (1, _))
  exact second.add
    (.inl (.arithmetic .f64 .add [⟨0, 0, 0⟩] [⟨1, 0, 1⟩] rfl)) (rfl : _ = Except.ok (2, _))

/-- The ledger comes back from a registry that writes its constant without the shape, and computes
the same. -/
theorem unarchived_ledger :
    ∃ record restored original copy,
      (Registry.standard.retuned [("ConstantNode<f64>", ⟨1⟩)]).archiveModel ledger = .ok record ∧
      (Registry.standard.retuned []).unarchiveModel record = .ok restored ∧
      ledger.run [.f64 #[1]] = .ok original ∧ restored.run [.f64 #[1]] = .ok copy ∧
      List.Forall₂ (fun entry twin => twin.id = entry.id ∧
        List.Forall₂ Buffer.Same entry.outputs twin.outputs)
        original.model.entries copy.model.entries := by
  have standard : ledger.Standard := fun entry mem =>
    (sound_ledger.made entry mem).standard (by revert entry; decide)
  have fits : ledger.FitsWords := by
    unfold FitsWords
    decide
  obtain ⟨record, restored, archived, read, _, _, computes⟩ :=
    unarchived_archive sound_ledger.wellFormed standard fits [("ConstantNode<f64>", ⟨1⟩)] []
  obtain ⟨_, original, copy, run, copyRun, _, _, same⟩ :=
    computes [.f64 #[1]] (.cons (.head _) .nil)
  exact ⟨record, restored, original, copy, archived, read, run, copyRun, same⟩

end Model

end Dataflow
