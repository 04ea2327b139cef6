import Dataflow.Proofs.Archive.Reading
import Dataflow.Proofs.Archive.Rereading

/-!
# Records of nodes

The record of a standard node is read as that node, up to what a record does not hold: elements
keep their values but undefined floats lose their bits, callbacks of sinks are gone, and constants
of the first version come back without their shape.
-/

namespace Dataflow

/-- What an operator is read as from a record of a version. -/
def Operator.RestoresTo (version : Version) : Operator → Operator → Prop
  | .constant values shape, restored =>
      ∃ others, values.Same others ∧
        restored = .constant others (if 2 ≤ version.number then shape else .vector values.size)
  | .coordinatewise type op values, restored =>
      ∃ others, (Buffer.ofReals type values).Same (.ofReals type others) ∧
        restored = .coordinatewise type op others
  | .sink type name size _, restored => restored = .sink type name size false
  | operator, restored => restored = operator

/-- What a node is read as from a record of a version. -/
def Node.RestoresTo (version : Version) (node restored : Node) : Prop :=
  restored.wiring = node.wiring ∧ node.operator.RestoresTo version restored.operator

/-- All numbers that a node holds fit in a word. -/
def Node.FitsWords (node : Node) : Prop :=
  (∀ port ∈ node.outputs, ∀ dim ∈ port.layout.active.dims, dim < Json.wordBound) ∧
    ∀ elements ∈ node.wiring, ∀ coordinate ∈ elements, coordinate.FitsWords

theorem Node.FitsWords.recovered {node : Node} (fits : node.FitsWords) {elements : Elements}
    (mem : elements ∈ node.wiring) : Recovered elements :=
  recovered_list fun coordinate inside => recovered_coordinate (fits.2 elements mem coordinate inside)

theorem Node.FitsWords.kept {node : Node} (fits : node.FitsWords) {elements : Elements}
    (mem : elements ∈ node.wiring) : (toJson elements).Kept 2 :=
  Json.kept_list fun coordinate inside => Json.kept_coordinate (fits.2 elements mem coordinate inside)

@[simp]
theorem Node.wires_zero (operator : Operator) (first : Elements) (others : List Elements) :
    Node.wires ⟨operator, first :: others⟩ 0 = first :=
  rfl

@[simp]
theorem Node.wires_one (operator : Operator) (first second : Elements) (others : List Elements) :
    Node.wires ⟨operator, first :: second :: others⟩ 1 = second :=
  rfl

/-! ## Writing -/

section Writing

variable {record after : Record} {node : Node} {Allowed : String → Json → Prop}

/-- The elements that an operator holds itself. -/
def Operator.elements : Operator → Buffer
  | .constant values _ => values
  | .coordinatewise type _ values => .ofReals type values
  | _ => .bool #[]

/-- What a node writes to its fields: the forms of numbers, names and coordinates, and the elements
that it holds. -/
inductive Node.Writes (node : Node) : String → Json → Prop
  | form {α : Type} [JsonForm α] {field : String} {value : α} (other : "id" ≠ field)
      (form : Recovered value ∧ (toJson value).Kept 3) : Writes node field (toJson value)
  | elements : Writes node "values" node.operator.elements.archived

/-- A record with further fields, each of which is allowed. -/
inductive Record.Continues (Allowed : String → Json → Prop) (record : Record) : Record → Prop
  | refl : Continues Allowed record record
  | set {before : Record} {field : String} {value : Json}
      (continues : Continues Allowed record before) (allowed : Allowed field value) :
      Continues Allowed record (before.set field value)

namespace Record.Continues

theorem write {α : Type} [JsonForm α] {field : String} {value : α}
    (continues : record.Continues node.Writes after) (other : "id" ≠ field)
    (form : Recovered value ∧ (toJson value).Kept 3) :
    record.Continues node.Writes (after.write field value) :=
  continues.set (.form other form)

theorem typeTag_eq (continues : record.Continues Allowed after) :
    after.typeTag = record.typeTag := by
  induction continues with
  | refl => rfl
  | set _ _ ih => exact ih

theorem version_eq (continues : record.Continues Allowed after) :
    after.version = record.version := by
  induction continues with
  | refl => rfl
  | set _ _ ih => exact ih

theorem clean (continues : record.Continues Allowed after) (clean : record.Clean)
    (values : ∀ field value, Allowed field value → value.IsValue) : after.Clean := by
  induction continues with
  | refl => exact clean
  | set _ allowed ih => exact ih.set (values _ _ allowed)

theorem readWith_eq {α : Type} {read? : Json → Option α} {field : String}
    (continues : record.Continues Allowed after)
    (others : ∀ other value, Allowed other value → field ≠ other) :
    after.readWith read? field = record.readWith read? field := by
  induction continues with
  | refl => rfl
  | set continues allowed ih => rw [readWith_set_of_ne (others _ _ allowed), ih]

/-- Every field was there before, or is allowed. -/
theorem mem_payload (continues : record.Continues Allowed after) {member : String × Json}
    (mem : member ∈ after.payload) : member ∈ record.payload ∨ Allowed member.1 member.2 := by
  induction continues with
  | refl => exact .inl mem
  | set _ allowed ih =>
      rcases Json.mem_insertMember mem with rfl | old
      · exact .inr allowed
      · exact ih old

/-- The fields that come back from a text. -/
theorem reread (continues : record.Continues Allowed after) :
    record.reread.Continues (fun field value => ∃ written, Allowed field written ∧
      value = written.reread) after.reread := by
  induction continues with
  | refl => exact .refl
  | set _ allowed ih =>
      rw [reread_set]
      exact ih.set ⟨_, allowed, rfl⟩

end Record.Continues

theorem Node.Writes.ne_id {field : String} {value : Json} (writes : node.Writes field value) :
    "id" ≠ field := by
  cases writes with
  | form other _ => exact other
  | elements => decide

theorem Node.Writes.isValue {field : String} {value : Json} (writes : node.Writes field value) :
    value.IsValue := by
  cases writes with
  | form _ form => exact form.1.isValue
  | elements => exact isValue_archived _

theorem Node.Writes.isValue_reread {field : String} {value : Json}
    (writes : node.Writes field value) :
    value.reread.IsValue := by
  cases writes with
  | form _ form => exact form.2.reread.symm ▸ form.1.isValue
  | elements => exact isValue_reread_archived _

theorem Node.Writes.depth_le {field : String} {value : Json} (writes : node.Writes field value) :
    value.depth ≤ 3 := by
  cases writes with
  | form _ form => exact form.2.shallow
  | elements => exact (depth_archived_le _).trans (by decide)

/-- The fields of a standard node. -/
theorem continues_writeFields (standard : node.Standard) (fits : node.FitsWords)
    (record : Record) : record.Continues node.Writes (node.writeFields record) := by
  have elements : ∀ elements ∈ node.wiring, Recovered elements ∧ (toJson elements).Kept 3 :=
    fun elements mem => ⟨fits.recovered mem, (fits.kept mem).mono (by decide)⟩
  have shapes : ∀ port ∈ node.outputs,
      Recovered port.layout.active ∧ (toJson port.layout.active).Kept 3 := fun port mem =>
    ⟨recovered_shape (fits.1 port mem), (Json.kept_shape (fits.1 port mem)).mono (by decide)⟩
  have text : ∀ name : String, Recovered name ∧ (toJson name).Kept 3 := fun name =>
    ⟨recovered_string name, (Json.kept_string name).mono (by decide)⟩
  cases standard with
  | input type size =>
      have small : size < Json.wordBound := fits.1 _ List.mem_cons_self size List.mem_cons_self
      exact Record.Continues.refl.write (by decide)
        ⟨recovered_nat small, (Json.kept_nat small).mono (by decide)⟩
  | constant values shape _ =>
      have written : record.Continues (Node.Writes ⟨.constant values shape, []⟩)
          (record.writeElements "values" values) := Record.Continues.refl.set .elements
      simp only [Node.writeFields]
      split
      · exact written.write (by decide) (shapes _ List.mem_cons_self)
      · exact written
  | arithmetic type op left right _ =>
      exact ((Record.Continues.refl.write (by decide) (text op.name)).write (by decide)
        (elements left (by simp))).write (by decide) (elements right (by simp))
  | comparison type predicate left right _ =>
      exact ((Record.Continues.refl.write (by decide) (text predicate.name)).write (by decide)
        (elements left (by simp))).write (by decide) (elements right (by simp))
  | coordinatewise type op values input _ =>
      exact ((Record.Continues.refl.write (by decide) (text op.name)).set .elements).write
        (by decide) (elements input (by simp))
  | sum type groups =>
      exact Record.Continues.refl.write (by decide)
        ⟨recovered_list fun _ => fits.recovered, Json.kept_list fun _ => fits.kept⟩
  | concatenation type shape input _ =>
      exact (Record.Continues.refl.write (by decide) (elements input (by simp))).write (by decide)
        (shapes _ List.mem_cons_self)
  | hamming type input =>
      exact Record.Continues.refl.write (by decide) (elements input (by simp))
  | sink type name notifies input trigger _ =>
      exact ((Record.Continues.refl.write (by decide) (elements input (by simp))).write (by decide)
        (elements trigger (by simp))).write (by decide) (text name)

end Writing

/-! ## Reading -/

section Reading

variable {record : Record} {node : Node} {field other : String} {α : Type} [JsonForm α]

theorem Record.read_write {value : α} (recovered : Recovered value) :
    (record.write field value).read field = .ok value :=
  readWith_set recovered.read

theorem Record.read_write_of_ne {β : Type} [JsonForm β] {value : β} (different : field ≠ other) :
    (record.write other value).read (α := α) field = record.read field :=
  readWith_set_of_ne different

/-- A record of a standard node is read as the node. -/
theorem exists_readNode (standard : node.Standard) (fits : node.FitsWords) {kind : NodeKind}
    (isKind : node.operator.kind? = some kind) (record : Record) :
    ∃ restored, (node.writeFields record).readNode kind = .ok restored ∧
      node.RestoresTo record.version restored := by
  have elements : ∀ elements ∈ node.wiring, Recovered elements := fun _ => fits.recovered
  have shapes : ∀ port ∈ node.outputs, Recovered port.layout.active := fun port mem =>
    recovered_shape (fits.1 port mem)
  cases standard with
  | input type size =>
      obtain rfl := Option.some.inj isKind
      have small : size < Json.wordBound := fits.1 _ List.mem_cons_self size List.mem_cons_self
      refine ⟨Node.input type size, ?_, rfl, rfl⟩
      simp [Node.writeFields, Record.readNode, Record.read_write (recovered_nat small)]
  | constant values shape same =>
      obtain rfl := Option.some.inj isKind
      obtain ⟨others, read, restored⟩ := record.exists_readElements "values" values
      have size := restored.size_eq
      by_cases shaped : 2 ≤ record.version.number
      · have dims : Recovered shape := shapes _ List.mem_cons_self
        have values_read : ((record.writeElements "values" values).write "shape" shape).readElements
            values.type "values" = .ok others :=
          (Record.readElements_set_of_ne (by decide)).trans read
        refine ⟨⟨.constant others shape, []⟩, ?_, rfl, others, restored, by rw [if_pos shaped]⟩
        simp [Node.writeFields, Record.readNode, shaped, values_read, Record.read_write dims,
          archivedNode, shapedConstant_eq_ok_iff, same, size]
      · refine ⟨Node.constant others, ?_, rfl, others, restored, by rw [if_neg shaped, size]; rfl⟩
        simp [Node.writeFields, Record.readNode, shaped, read]
  | arithmetic type op left right same =>
      obtain rfl := Option.some.inj isKind
      refine ⟨_, ?_, rfl, rfl⟩
      simp (disch := decide) [Node.writeFields, Record.readNode, Record.read_write_of_ne,
        Record.read_write (recovered_string op.name), Record.read_write (elements left (by simp)),
        Record.read_write (elements right (by simp)), archivedNode, BinaryOp.parse,
        arithmetic_eq_ok_iff, same]
  | comparison type predicate left right same =>
      obtain rfl := Option.some.inj isKind
      refine ⟨_, ?_, rfl, rfl⟩
      simp (disch := decide) [Node.writeFields, Record.readNode, Record.read_write_of_ne,
        Record.read_write (recovered_string predicate.name),
        Record.read_write (elements left (by simp)), Record.read_write (elements right (by simp)),
        archivedNode, Predicate.parse, comparison_eq_ok_iff, same]
  | sum type groups =>
      obtain rfl := Option.some.inj isKind
      refine ⟨Node.sum type groups, ?_, rfl, rfl⟩
      simp [Node.writeFields, Record.readNode, Record.read_write (recovered_list elements)]
  | concatenation type shape input same =>
      obtain rfl := Option.some.inj isKind
      have dims : Recovered shape := shapes _ List.mem_cons_self
      refine ⟨_, ?_, rfl, rfl⟩
      simp (disch := decide) [Node.writeFields, Record.readNode, Record.read_write_of_ne,
        Record.read_write (elements input (by simp)), Record.read_write dims, archivedNode,
        shapedConcatenation_eq_ok_iff, same]
  | hamming type input =>
      obtain rfl := Option.some.inj isKind
      refine ⟨Node.hamming type input, ?_, rfl, rfl⟩
      simp [Node.writeFields, Record.readNode, Record.read_write (elements input (by simp))]
  | sink type name notifies input trigger single =>
      obtain rfl := Option.some.inj isKind
      refine ⟨⟨.sink type name input.length false, [input, trigger]⟩, ?_, rfl, rfl⟩
      simp (disch := decide) [Node.writeFields, Record.readNode, Record.read_write_of_ne,
        Record.read_write (elements input (by simp)), Record.read_write (elements trigger (by simp)),
        Record.read_write (recovered_string name), archivedNode, sink_eq_ok_iff, single]
  | coordinatewise type op values input same =>
      obtain rfl := Option.some.inj isKind
      obtain ⟨others, read, restored⟩ :=
        (record.write "operation" op.name).exists_readReals "values" type values
      have size : values.size = others.size := by simpa using restored.size_eq
      refine ⟨⟨.coordinatewise type op others, [input]⟩, ?_, rfl, others, restored, rfl⟩
      let before := (record.write "operation" op.name).writeElements "values" (.ofReals type values)
      have operation : (before.write "coordinates" input).read "operation" = .ok op.name :=
        (Record.readWith_set_of_ne (by decide)).trans ((Record.readWith_set_of_ne (by decide)).trans
          (Record.read_write (recovered_string op.name)))
      have elements_read : (before.write "coordinates" input).readReals type "values" = .ok others :=
        (Record.readReals_set_of_ne (by decide)).trans read
      simp [Node.writeFields, Record.readNode, operation, CoordinateOp.parse, elements_read,
        Record.read_write (elements input (by simp)), archivedNode, coordinatewise_eq_ok_iff, same,
        size, before]

end Reading

end Dataflow
