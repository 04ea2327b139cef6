import Dataflow.Archive.Models
import Dataflow.Proofs.Actions
import Dataflow.Proofs.Scalar.Precision
import Dataflow.Proofs.Scalar.Sameness

/-!
# Fields of records

What is written to a field is read from it, and the other fields stay as they are.  A written value
has to survive two things: its own reader, and the record being taken for the value that it
denotes, which fails for malformed parts and drops repeated keys.
-/

namespace Dataflow

namespace Json

/-! ## Values -/

/-- A tree that denotes itself. -/
def IsValue (json : Json) : Prop :=
  json.denoted? = some json

section Members

variable {key other : String} {value : Json} {members : List (String × Json)}

theorem insertMember_eq_append (fresh : key ∉ members.map Prod.fst) :
    insertMember members key value = members ++ [(key, value)] := by
  induction members with
  | nil => rfl
  | cons member rest ih =>
      simp only [List.map_cons, List.mem_cons, not_or] at fresh
      simp [insertMember, Ne.symm fresh.1, ih fresh.2]

theorem keys_insertMember (members : List (String × Json)) (key : String) (value : Json) :
    (insertMember members key value).map Prod.fst =
      if key ∈ members.map Prod.fst then members.map Prod.fst
      else members.map Prod.fst ++ [key] := by
  induction members with
  | nil => rfl
  | cons member rest ih =>
      by_cases same : member.1 = key
      · simp [insertMember, same]
      · simp only [insertMember, same, if_false, List.map_cons, List.mem_cons, Ne.symm same,
          false_or, ih]
        split <;> rfl

theorem mem_insertMember {member : String × Json}
    (mem : member ∈ insertMember members key value) : member = (key, value) ∨ member ∈ members := by
  induction members with
  | nil => exact .inl (List.mem_singleton.mp mem)
  | cons first rest ih =>
      simp only [insertMember] at mem
      split at mem
      · rcases List.mem_cons.mp mem with rfl | old
        · exact .inl rfl
        · exact .inr (List.mem_cons_of_mem _ old)
      · rcases List.mem_cons.mp mem with rfl | later
        · exact .inr List.mem_cons_self
        · exact (ih later).imp_right (List.mem_cons_of_mem _)

/-- The inserted value is found under its key, and the other keys keep theirs. -/
theorem lookup?_insertMember :
    lookup? (insertMember members key value) other =
      if other = key then some value else lookup? members other := by
  induction members with
  | nil =>
      by_cases same : other = key
      · simp [insertMember, lookup?, same]
      · simp [insertMember, lookup?, same, Ne.symm same]
  | cons member rest ih =>
      simp only [lookup?] at ih
      by_cases own : member.1 = key
      · by_cases same : other = key
        · simp [insertMember, lookup?, own, same]
        · simp [insertMember, lookup?, own, same, Ne.symm same]
      · simp only [insertMember, own, if_false, lookup?, List.find?_cons]
        by_cases found : member.1 = other
        · simp [found, show other ≠ key from found ▸ own]
        · simp [found, ih]

end Members

theorem isValue_array {items : List Json} (values : ∀ item ∈ items, item.IsValue) :
    (array items).IsValue := by
  have denoted : denotedItems? items = some items := by
    induction items with
    | nil => rfl
    | cons item rest ih =>
        have first : item.denoted? = some item := values item List.mem_cons_self
        simp [denotedItems?, first, ih fun other mem => values other (List.mem_cons_of_mem _ mem)]
  simp [IsValue, denoted?, denoted]

/-- The induction is on the members that are left; those before are in the list already. -/
theorem denotedMembers?_eq {members : List (String × Json)} (before : List (String × Json))
    (values : ∀ member ∈ members, member.2.IsValue)
    (once : ((before ++ members).map Prod.fst).Nodup) :
    denotedMembers? members before = some (before ++ members) := by
  induction members generalizing before with
  | nil => simp [denotedMembers?]
  | cons member rest ih =>
      have first : member.2.denoted? = some member.2 := values member List.mem_cons_self
      have fresh : member.1 ∉ before.map Prod.fst := by
        intro old
        rw [List.map_append, List.nodup_append] at once
        exact once.2.2 _ old _ List.mem_cons_self rfl
      have next := ih (before ++ [member])
        (fun other mem => values other (List.mem_cons_of_mem _ mem)) (by simpa using once)
      simpa [denotedMembers?, first, insertMember_eq_append fresh] using next

theorem isValue_object {members : List (String × Json)}
    (values : ∀ member ∈ members, member.2.IsValue) (once : (members.map Prod.fst).Nodup) :
    (object members).IsValue := by
  simp [IsValue, denoted?, denotedMembers?_eq [] values (by simpa using once)]

end Json

/-! ## Forms -/

/-- A value that is read from the form that it is written in. -/
structure Recovered {α : Type} [JsonForm α] (value : α) : Prop where
  read : ofJson? (toJson value) = some value
  isValue : (toJson value).IsValue

theorem recovered_nat {value : Nat} (small : value < Json.wordBound) : Recovered value :=
  ⟨by simp [toJson, ofJson?, Json.nat, Json.natBelow?, small], rfl⟩

theorem recovered_string (value : String) : Recovered value :=
  ⟨rfl, rfl⟩

section Lists

variable {α β : Type}

/-- The items of an array are read one by one. -/
theorem Json.list?_map {item? : Json → Option β} {write : α → Json} {read : α → β}
    {values : List α} (reads : ∀ value ∈ values, item? (write value) = some (read value)) :
    Json.list? item? (.array (values.map write)) = some (values.map read) := by
  rw [Json.list?]
  induction values with
  | nil => rfl
  | cons value rest ih =>
      have others := ih fun other mem => reads other (List.mem_cons_of_mem _ mem)
      simp [reads value List.mem_cons_self, others]

theorem recovered_list [JsonForm α] {values : List α} (each : ∀ value ∈ values, Recovered value) :
    Recovered values := by
  constructor
  · have items : ofJson? (toJson values) = some (values.map id) :=
      Json.list?_map fun value mem => (each value mem).read
    rwa [List.map_id] at items
  · apply Json.isValue_array
    intro item mem
    rcases List.mem_map.mp mem with ⟨value, valueMem, rfl⟩
    exact (each value valueMem).isValue

end Lists

/-- All numbers of a coordinate fit in a word. -/
def Coordinate.FitsWords (coordinate : Coordinate) : Prop :=
  coordinate.node < Json.wordBound ∧ coordinate.port < Json.wordBound ∧
    coordinate.element < Json.wordBound

theorem recovered_coordinate {coordinate : Coordinate} (fits : coordinate.FitsWords) :
    Recovered coordinate := by
  rcases fits with ⟨node, port, element⟩
  constructor
  · simp only [toJson, ofJson?]
    simp [Json.nat, Json.natBelow?, node, port, element]
  · apply Json.isValue_array
    intro item mem
    simp only [List.mem_cons, List.not_mem_nil, or_false] at mem
    rcases mem with rfl | rfl | rfl <;> rfl

theorem recovered_shape {shape : Shape} (small : ∀ dim ∈ shape.dims, dim < Json.wordBound) :
    Recovered shape := by
  have dims : Recovered shape.dims := recovered_list fun dim mem => recovered_nat (small dim mem)
  constructor
  · change Shape.mk <$> ofJson? (toJson shape.dims) = some shape
    rw [dims.read]
    rfl
  · exact dims.isValue

/-! ## Records -/

namespace Record

variable {record : Record} {field other : String} {α : Type}

/-- A record whose fields survive being taken for the values that they denote. -/
structure Clean (record : Record) : Prop where
  values : ∀ member ∈ record.payload, member.2.IsValue
  once : (record.payload.map Prod.fst).Nodup

theorem clean_start (key typeTag : String) (version : Version) : (start key typeTag version).Clean :=
  ⟨fun member mem => by simp [start] at mem, List.nodup_nil⟩

theorem Clean.set (clean : record.Clean) {value : Json} (isValue : value.IsValue) :
    (record.set field value).Clean := by
  constructor
  · intro member mem
    rcases Json.mem_insertMember mem with rfl | old
    · exact isValue
    · exact clean.values member old
  · rw [Record.set, Json.keys_insertMember]
    split
    · exact clean.once
    · rename_i fresh
      exact List.nodup_append.mpr ⟨clean.once, List.nodup_singleton _, fun key mem last lastMem same =>
        fresh (by rwa [← List.mem_singleton.mp lastMem, ← same])⟩

theorem Clean.write [JsonForm α] (clean : record.Clean) {value : α} (recovered : Recovered value) :
    (record.write field value).Clean :=
  clean.set recovered.isValue

/-- A clean record is read from the form that it is written in. -/
theorem Clean.recovered (clean : record.Clean) (small : record.version.number < Json.halfWordBound) :
    Recovered record := by
  have payload := Json.isValue_object clean.values clean.once
  constructor
  · have version : ofJson? (toJson record.version) = some record.version := by
      simp [toJson, ofJson?, Json.nat, Json.natBelow?, small]
    have fields : Json.fields? ["key", "type_tag", "version", "payload"] (toJson record) =
        some [some (toJson record.key), some (toJson record.typeTag),
          some (toJson record.version), some (.object record.payload)] := by
      simp [toJson, Json.fields?, Json.lookup?]
    have denoted : (Json.object record.payload).denoted? = some (.object record.payload) := payload
    have key : ofJson? (toJson record.key) = some record.key := rfl
    have typeTag : ofJson? (toJson record.typeTag) = some record.typeTag := rfl
    rw [JsonForm.ofJson?]
    simp [instJsonFormRecord, fields, denoted, Json.required?, key, typeTag, version]
  · apply Json.isValue_object
    · intro member mem
      simp only [List.mem_cons, List.not_mem_nil, or_false] at mem
      rcases mem with rfl | rfl | rfl | rfl
      · rfl
      · rfl
      · rfl
      · exact payload
    · change ["key", "type_tag", "version", "payload"].Nodup
      decide

@[simp]
theorem version_write [JsonForm α] (value : α) :
    (record.write field value).version = record.version :=
  rfl

@[simp]
theorem version_writeElements (values : Buffer) :
    (record.writeElements field values).version = record.version :=
  rfl

/-- Reading a field that was written last. -/
theorem readWith_set {read? : Json → Option α} {value : Json} {result : α}
    (reads : read? value = some result) : (record.set field value).readWith read? field = .ok result := by
  simp [readWith, set, Json.lookup?_insertMember, reads]

/-- Writing a field leaves the others as they are. -/
theorem readWith_set_of_ne {read? : Json → Option α} {value : Json} (different : field ≠ other) :
    (record.set other value).readWith read? field = record.readWith read? field := by
  simp [readWith, set, Json.lookup?_insertMember, different]

theorem readArchived_set_of_ne {value? : Json → Option α} {ofName? : String → Option α}
    {value : Json} (different : field ≠ other) :
    (record.set other value).readArchived value? ofName? field =
      record.readArchived value? ofName? field := by
  simp only [readArchived, readWith_set_of_ne different]
  rfl

theorem readReals_set_of_ne {type : RealType} {value : Json} (different : field ≠ other) :
    (record.set other value).readReals type field = record.readReals type field := by
  simp only [readReals, readArchived_set_of_ne different]

theorem readElements_set_of_ne {type : ScalarType} {value : Json} (different : field ≠ other) :
    (record.set other value).readElements type field = record.readElements type field := by
  cases type <;>
    simp only [readElements, readBools, readReals_set_of_ne different,
      readArchived_set_of_ne different]

end Record

/-! ## Elements -/

section Elements

open Float.Model (UnpackedFloat)

/-- An infinite float is one of two. -/
theorem eq_of_isInf {value : Float} (infinite : value.isInf = true) :
    value = if 0 < value then 1 / 0 else -1 / 0 := by
  obtain ⟨sign, unpacked⟩ : ∃ sign, value.toModel.unpack = .infinity sign := by
    unfold Float.isInf at infinite
    cases unpacked : value.toModel.unpack <;>
      simp_all [Float.Model.isInf, UnpackedFloat.isInf]
  have bits : value.toBits.toBitVec = UnpackedFloat.pack .binary64 (.infinity sign) := by
    rw [← unpacked]
    exact (UnpackedFloat.pack_unpack_of_valid value.toModel.valid).symm
  have eq : ∀ other : Float, other.toBits.toBitVec = UnpackedFloat.pack .binary64 (.infinity sign) →
      value = other :=
    fun other same => Float.toBits_inj.mp (UInt64.toBitVec_inj.mp (bits.trans same.symm))
  cases sign with
  | positive =>
      rw [eq (1 / 0) (by decide +kernel)]
      decide +kernel
  | negative =>
      rw [eq (-1 / 0) (by decide +kernel)]
      decide +kernel

/-- A name stands for the float that has it. -/
theorem ofSpecialName?_of_specialName? {value : Float} {name : String}
    (special : specialName? value = some name) : ofSpecialName? name = some value := by
  unfold specialName? at special
  split_ifs at special with undefined infinite positive
  · obtain rfl := Option.some.inj special
    rw [Float.isNaN_eq_decide_eq_nan, decide_eq_true_eq] at undefined
    rw [undefined]
    decide +kernel
  · obtain rfl := Option.some.inj special
    rw [eq_of_isInf infinite, if_pos positive]
    rfl
  · obtain rfl := Option.some.inj special
    rw [eq_of_isInf infinite, if_neg positive]
    rfl

/-- A float keeps its value on the way to double precision and back. -/
theorem same_ofFloat_toFloat (type : RealType) (value : type.Carrier) :
    type.Same value (type.ofFloat (type.toFloat value)) := by
  cases type
  · apply Single.same_iff.mpr
    simp [RealType.ofFloat, RealType.toFloat]
  · apply Double.same_iff.mpr
    simp [RealType.ofFloat, RealType.toFloat]

/-- The element that an archived float is read as. -/
def archivedElement (type : RealType) (value : type.Carrier) : ArchivedElement type.Carrier :=
  match specialName? (type.toFloat value) with
  | some name => .named name
  | none => .value (type.ofFloat (type.toFloat value))

theorem ofJson?_archivedReal (type : RealType) (value : type.Carrier) :
    ArchivedElement.ofJson? (Json.real? type) (archivedReal type value) =
      some (archivedElement type value) := by
  simp only [archivedReal, archivedElement]
  cases specialName? (type.toFloat value) with
  | some name => rfl
  | none => cases type <;> rfl

theorem isValue_archived (values : Buffer) : values.archived.IsValue := by
  have real : ∀ (type : RealType) (value : type.Carrier), (archivedReal type value).IsValue := by
    intro type value
    simp only [archivedReal]
    split <;> exact rfl
  cases values <;> apply Json.isValue_array <;> intro item mem <;>
    obtain ⟨value, _, rfl⟩ := List.mem_map.mp mem
  · exact real .f32 value
  · exact real .f64 value
  · rfl

variable {record : Record} {field : String}

/-- Archived elements are read in their order. -/
theorem Record.readArchived_set {α β : Type} {value? : Json → Option β} {ofName? : String → Option β}
    {write : α → Json} {element : α → ArchivedElement β} {read : α → β} {values : List α}
    (reads : ∀ value ∈ values, ArchivedElement.ofJson? value? (write value) = some (element value))
    (resolves : ∀ value ∈ values, element value = .value (read value) ∨
      ∃ name, element value = .named name ∧ ofName? name = some (read value)) :
    (record.set field (.array (values.map write))).readArchived value? ofName? field =
      .ok (values.map read) := by
  have elements : Json.list? (ArchivedElement.ofJson? value?) (.array (values.map write)) =
      some (values.map element) := Json.list?_map reads
  simp only [readArchived, readWith_set elements, bind_eq_ok_iff, Except.ok.injEq, exists_eq_left',
    mapM_eq_ok_iff, List.forall₂_map_left_iff, List.forall₂_map_right_iff]
  apply List.forall₂_same.mpr
  intro value mem
  rcases resolves value mem with plain | ⟨name, named, found⟩
  · simp [plain]
  · simp [named, found]

/-- Written floats are read with their values. -/
theorem Record.exists_readReals (record : Record) (field : String) (type : RealType)
    (values : Array type.Carrier) :
    ∃ restored, (record.writeElements field (.ofReals type values)).readReals type field =
        .ok restored ∧
      (Buffer.ofReals type values).Same (.ofReals type restored) := by
  have elements : (Buffer.ofReals type values).archived =
      .array (values.toList.map (archivedReal type)) := by
    cases type <;> rfl
  have archived : (record.set field (.array (values.toList.map (archivedReal type)))).readArchived
      (Json.real? type) (fun name => (ofSpecialName? name).map type.ofFloat) field =
        .ok (values.toList.map fun value => type.ofFloat (type.toFloat value)) := by
    apply Record.readArchived_set fun value _ => ofJson?_archivedReal type value
    intro value _
    simp only [archivedElement]
    cases special : specialName? (type.toFloat value) with
    | none => exact .inl rfl
    | some name => exact .inr ⟨name, rfl, by simp [ofSpecialName?_of_specialName? special]⟩
  refine ⟨values.map fun value => type.ofFloat (type.toFloat value), ?_, ?_⟩
  · simp only [readReals, writeElements, elements, archived, bind_eq_ok_iff, pure_eq_ok_iff,
      Except.ok.injEq, exists_eq_left']
    rw [← List.map_toArray, Array.toArray_toList]
  · apply Buffer.same_iff_get?.mpr
    refine ⟨by simp, by simp, ?_⟩
    intro index left right leftFound rightFound
    simp only [Buffer.get?_ofReals, Array.getElem?_map, Option.map_map,
      Option.map_eq_some_iff] at leftFound rightFound
    obtain ⟨value, found, rfl⟩ := leftFound
    obtain ⟨other, otherFound, rfl⟩ := rightFound
    obtain rfl := Option.some.inj (found.symm.trans otherFound)
    exact Scalar.same_toScalar_iff.mpr (same_ofFloat_toFloat type value)

/-- Written elements are read with their values. -/
theorem Record.exists_readElements (record : Record) (field : String) (values : Buffer) :
    ∃ restored, (record.writeElements field values).readElements values.type field = .ok restored ∧
      values.Same restored := by
  cases values with
  | f32 elements =>
      obtain ⟨restored, read, same⟩ := record.exists_readReals field .f32 elements
      exact ⟨.f32 restored, map_eq_ok_iff.mpr ⟨restored, read, rfl⟩, same⟩
  | f64 elements =>
      obtain ⟨restored, read, same⟩ := record.exists_readReals field .f64 elements
      exact ⟨.f64 restored, map_eq_ok_iff.mpr ⟨restored, read, rfl⟩, same⟩
  | bool elements =>
      have archived : (record.set field (.array (elements.toList.map .bool))).readArchived
          Json.bool? (fun _ => none) field = .ok (elements.toList.map id) :=
        Record.readArchived_set (fun value _ => rfl) fun value _ => .inl rfl
      rw [List.map_id] at archived
      refine ⟨.bool elements, map_eq_ok_iff.mpr ⟨elements, ?_, rfl⟩, Buffer.Same.refl _⟩
      simp [readBools, writeElements, Buffer.archived, archived, pure, Except.pure, bind, Except.bind]

end Elements

end Dataflow
