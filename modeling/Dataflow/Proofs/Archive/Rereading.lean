import Dataflow.Proofs.Archive.Fields
import Dataflow.Proofs.Json.Doubles

/-!
# Records that went through texts

A record comes back from its text with its numbers reread.  Word sized integers are read as they
were written, so only elements of buffers can change, and each becomes what its digits are read as.
-/

namespace Dataflow

open Float.Model.UnpackedFloat (Sign)

namespace Json

/-! ## Trees that texts keep -/

/-- A tree that is read as it was written, and that is not deeper than a bound. -/
structure Kept (bound : Nat) (json : Json) : Prop where
  reread : json.reread = json
  shallow : json.depth ≤ bound

section Kept

variable {bound : Nat} {items : List Json} {members : List (String × Json)}

theorem depth_array_le (each : ∀ item ∈ items, item.depth ≤ bound) :
    (array items).depth ≤ bound + 1 := by
  suffices depthItems items ≤ bound by simpa [depth] using this
  induction items with
  | nil => exact Nat.zero_le _
  | cons item rest ih =>
      obtain ⟨own, others⟩ := List.forall_mem_cons.mp each
      exact Nat.max_le.mpr ⟨own, ih others⟩

theorem depth_object_le (each : ∀ member ∈ members, member.2.depth ≤ bound) :
    (object members).depth ≤ bound + 1 := by
  suffices depthMembers members ≤ bound by simpa [depth] using this
  induction members with
  | nil => exact Nat.zero_le _
  | cons member rest ih =>
      obtain ⟨own, others⟩ := List.forall_mem_cons.mp each
      exact Nat.max_le.mpr ⟨own, ih others⟩

theorem kept_array (each : ∀ item ∈ items, item.Kept bound) : (array items).Kept (bound + 1) := by
  constructor
  · rw [reread, rereadItems_eq_map, List.map_congr_left fun item mem => (each item mem).reread,
      List.map_id']
  · exact depth_array_le fun item mem => (each item mem).shallow

theorem Kept.mono {json : Json} {other : Nat} (kept : json.Kept bound) (less : bound ≤ other) :
    json.Kept other :=
  ⟨kept.reread, kept.shallow.trans less⟩

/-- A number of at most 64 bits is read as it was written. -/
theorem kept_nat {value : Nat} (small : value < wordBound) : (toJson value).Kept 0 := by
  have limit : wordBound = 2 ^ 64 := rfl
  have literal : (Numeral.ofInt value).value? = some (.integer value) :=
    Numeral.value?_ofInt (by omega) (by omega)
  constructor
  · change Number.reread (.integer value) = .number (.integer value)
    rw [Number.reread, Number.text, read?_toString]
    simp [literal]
  · exact Nat.le_refl 0

theorem kept_string (value : String) : (toJson value).Kept 0 :=
  ⟨rfl, Nat.le_refl 0⟩

theorem kept_list {α : Type} [JsonForm α] {values : List α}
    (each : ∀ value ∈ values, (toJson value).Kept bound) : (toJson values).Kept (bound + 1) := by
  apply kept_array
  intro item mem
  rcases List.mem_map.mp mem with ⟨value, valueMem, rfl⟩
  exact each value valueMem

theorem kept_coordinate {coordinate : Coordinate} (fits : coordinate.FitsWords) :
    (toJson coordinate).Kept 1 := by
  rcases fits with ⟨node, port, element⟩
  apply kept_array
  intro item mem
  simp only [List.mem_cons, List.not_mem_nil, or_false] at mem
  rcases mem with rfl | rfl | rfl
  · exact kept_nat node
  · exact kept_nat port
  · exact kept_nat element

theorem kept_shape {shape : Shape} (small : ∀ dim ∈ shape.dims, dim < wordBound) :
    (toJson shape).Kept 1 :=
  kept_list fun dim mem => kept_nat (small dim mem)

end Kept

end Json

/-! ## Elements -/

/-- What a float is read as from its text.  A float without a number is read from its name. -/
def RealType.reread (type : RealType) (value : type.Carrier) : type.Carrier :=
  match Json.Number.reread (.double (type.toFloat value)) with
  | .number (.double image) => type.ofFloat image
  | _ => type.ofFloat (type.toFloat value)

/-- The elements that come back from a text. -/
def Buffer.reread : Buffer → Buffer
  | f32 elements => f32 (elements.map RealType.f32.reread)
  | f64 elements => f64 (elements.map RealType.f64.reread)
  | bool elements => bool elements

section Elements

variable {type : RealType} {value : type.Carrier} {values : Buffer} {record : Record} {field : String}

@[simp]
theorem Buffer.size_reread (values : Buffer) : values.reread.size = values.size := by
  cases values <;> simp [Buffer.reread, Buffer.size]

@[simp]
theorem Buffer.type_reread (values : Buffer) : values.reread.type = values.type := by
  cases values <;> rfl

/-- The floats without a name are the finite ones. -/
theorem specialName?_eq_none_iff {value : Float} :
    specialName? value = none ↔ value.isFinite = true := by
  have split : value.isFinite = (!value.isNaN && !value.isInf) := by
    unfold Float.isFinite Float.Model.isFinite Float.isNaN Float.Model.isNaN Float.isInf
      Float.Model.isInf
    cases value.toModel.unpack <;> rfl
  rw [split, specialName?]
  cases value.isNaN <;> cases value.isInf <;> simp

theorem reread_of_number {image : Float}
    (plain : Json.Number.reread (.double (type.toFloat value)) = .number (.double image)) :
    type.reread value = type.ofFloat image := by
  rw [RealType.reread, plain]

/-- The text of a float without a name is read as a double. -/
theorem exists_reread_number (plain : specialName? (type.toFloat value) = none) :
    ∃ image, Json.Number.reread (.double (type.toFloat value)) = .number (.double image) ∧
      type.reread value = type.ofFloat image := by
  obtain ⟨image, read⟩ := Json.exists_reread_double (specialName?_eq_none_iff.mp plain)
  exact ⟨image, read, reread_of_number read⟩

/-- A float with a name is read from it. -/
theorem reread_of_specialName? {name : String}
    (special : specialName? (type.toFloat value) = some name) :
    type.reread value = type.ofFloat (type.toFloat value) := by
  have infinite : ¬(type.toFloat value).isFinite = true := by
    rw [← specialName?_eq_none_iff, special]
    exact Option.some_ne_none name
  have null : Json.Number.reread (.double (type.toFloat value)) = .null := by
    rw [Json.Number.reread, Json.Number.text, if_neg infinite]
    rfl
  rw [RealType.reread, null]

/-- A single precision float comes back from its text. -/
theorem same_reread_single (value : Single) : RealType.f32.Same value (RealType.f32.reread value) := by
  cases special : specialName? (RealType.f32.toFloat value) with
  | some name =>
      rw [reread_of_specialName? special]
      exact same_ofFloat_toFloat .f32 value
  | none =>
      obtain ⟨image, plain, narrowed⟩ := Json.narrow_reread (specialName?_eq_none_iff.mp special)
      have read : RealType.f32.reread value = .ofValue (narrow image) := reread_of_number plain
      rw [read, narrowed]
      apply Single.same_iff.mpr
      simp

/-- The digits of a double and the power of ten that scales them are doubles. -/
def Double.HasShortText (double : Double) : Prop :=
  ∀ numeral, Json.Numeral.read? (Json.Number.double double.value).text.toList = some numeral →
    numeral.significand < 2 ^ 53 ∧ numeral.scale.natAbs ≤ 22

/-- A double with a short text comes back from it. -/
theorem same_reread_double {value : Double} (short : value.HasShortText) :
    RealType.f64.Same value (RealType.f64.reread value) := by
  cases special : specialName? (RealType.f64.toFloat value) with
  | some name =>
      rw [reread_of_specialName? special]
      exact same_ofFloat_toFloat .f64 value
  | none =>
      have finite := specialName?_eq_none_iff.mp special
      have read : RealType.f64.reread value = .ofValue value.value :=
        reread_of_number (Json.reread_double_self finite short)
      rw [read]
      exact same_ofFloat_toFloat .f64 value

/-- The sixteen digits of this double are no double, and it is read as its neighbour. -/
example : ¬RealType.f64.Same ⟨0x3fefb1500752de59⟩ (RealType.f64.reread ⟨0x3fefb1500752de59⟩) := by
  decide +kernel

/-- A double in the middle of the range keeps its sign and changes by less than one part in `2 ^ 49`. -/
theorem close_reread_double {value : Double} {sign : Sign} {mantissa : Nat} {exponent : Int}
    {positive : 0 < mantissa}
    (unpacked : value.value.toModel.unpack = .finite sign mantissa exponent positive)
    (low : (2 : ℚ) ^ (-1020 : Int) ≤ mantissa * 2 ^ exponent)
    (high : (mantissa : ℚ) * 2 ^ exponent < 2 ^ (1023 : Int)) :
    ∃ image near, RealType.f64.reread value = .ofValue (Json.withSign sign image) ∧
      Measures image near ∧ Close (1 / 2 ^ 49) near (mantissa * 2 ^ exponent) := by
  obtain ⟨image, near, plain, measures, close⟩ := Json.exists_reread_close unpacked low high
  exact ⟨image, near, reread_of_number plain, measures, close⟩

/-- Every double among the elements has a short text. -/
def Buffer.HasShortTexts : Buffer → Prop
  | f64 elements => ∀ value ∈ elements.toList, value.HasShortText
  | _ => True

/-- Elements come back from their texts, unless they are doubles with long ones. -/
theorem Buffer.same_reread (short : values.HasShortTexts) : values.Same values.reread := by
  refine ⟨values.type_reread.symm, ?_⟩
  cases values <;>
    simp only [toList, reread, Array.toList_map, List.forall₂_map_left_iff,
      List.forall₂_map_right_iff, List.forall₂_same]
  · exact fun value _ => .f32 (same_reread_single value)
  · exact fun value mem => .f64 (same_reread_double (short value mem))
  · exact fun scalar _ => Scalar.Same.refl scalar

/-- The element that a float is read as from its text. -/
def rereadElement (type : RealType) (value : type.Carrier) : ArchivedElement type.Carrier :=
  match specialName? (type.toFloat value) with
  | some name => .named name
  | none => .value (type.reread value)

theorem ofJson?_reread_archivedReal (type : RealType) (value : type.Carrier) :
    ArchivedElement.ofJson? (Json.real? type) (archivedReal type value).reread =
      some (rereadElement type value) := by
  simp only [archivedReal, rereadElement]
  cases special : specialName? (type.toFloat value) with
  | some name => rfl
  | none =>
      obtain ⟨image, plain, read⟩ := exists_reread_number special
      rw [Json.reread, plain, read]
      cases type <;> rfl

/-- The texts of elements are values. -/
theorem isValue_reread_archived (values : Buffer) : values.archived.reread.IsValue := by
  have real : ∀ (type : RealType) (value : type.Carrier),
      (archivedReal type value).reread.IsValue := by
    intro type value
    simp only [archivedReal]
    cases special : specialName? (type.toFloat value) with
    | some name => rfl
    | none =>
        obtain ⟨image, plain, -⟩ := exists_reread_number special
        simp only [Json.reread, plain]
        rfl
  cases values <;> rw [Buffer.archived, Json.reread, Json.rereadItems_eq_map, List.map_map] <;>
    apply Json.isValue_array <;> intro item mem <;>
    obtain ⟨value, _, rfl⟩ := List.mem_map.mp mem
  · exact real .f32 value
  · exact real .f64 value
  · rfl

theorem depth_archived_le (values : Buffer) : values.archived.depth ≤ 1 := by
  have real : ∀ (type : RealType) (value : type.Carrier), (archivedReal type value).depth ≤ 0 := by
    intro type value
    simp only [archivedReal]
    split <;> exact Nat.le_refl 0
  cases values <;> apply Json.depth_array_le <;> intro item mem <;>
    obtain ⟨value, _, rfl⟩ := List.mem_map.mp mem
  · exact real .f32 value
  · exact real .f64 value
  · exact Nat.le_refl 0

/-! ## Records -/

namespace Record

/-- The record with its numbers reread. -/
def reread (record : Record) : Record :=
  { record with payload := Json.rereadMembers record.payload }

@[simp]
theorem version_reread (record : Record) : record.reread.version = record.version :=
  rfl

@[simp]
theorem typeTag_reread (record : Record) : record.reread.typeTag = record.typeTag :=
  rfl

theorem reread_set (record : Record) (field : String) (value : Json) :
    (record.set field value).reread = record.reread.set field value.reread := by
  have members : ∀ members : List (String × Json),
      Json.rereadMembers (Json.insertMember members field value) =
        Json.insertMember (Json.rereadMembers members) field value.reread := by
    intro members
    induction members with
    | nil => rfl
    | cons member rest ih =>
        by_cases same : member.1 = field
        · simp [Json.insertMember, Json.rereadMembers, same]
        · simp [Json.insertMember, Json.rereadMembers, same, ih]
  simp [reread, set, members]

theorem reread_write {α : Type} [JsonForm α] {value : α} {bound : Nat} (record : Record)
    (field : String) (kept : (toJson value).Kept bound) :
    (record.write field value).reread = record.reread.write field value := by
  rw [write, reread_set, kept.reread, write]

theorem reread_toJson (small : record.version.number < Json.halfWordBound) :
    (toJson record).reread = toJson record.reread := by
  have wide : record.version.number < Json.wordBound := small.trans (by decide)
  have version : (toJson record.version).reread = toJson record.version := (Json.kept_nat wide).reread
  simp only [toJson] at version ⊢
  simp [Json.reread, Json.rereadMembers, reread, version]

theorem depth_toJson_le {bound : Nat} (each : ∀ member ∈ record.payload, member.2.depth ≤ bound) :
    (toJson record).depth ≤ bound + 2 := by
  apply Json.depth_object_le
  intro member mem
  simp only [List.mem_cons, List.not_mem_nil, or_false] at mem
  rcases mem with rfl | rfl | rfl | rfl
  · exact Nat.zero_le _
  · exact Nat.zero_le _
  · exact Nat.zero_le _
  · exact Json.depth_object_le each

/-- A record comes back from its text with its numbers reread. -/
theorem ofText?_prettyText (small : record.version.number < Json.halfWordBound)
    (shallow : (toJson record).depth ≤ Json.depthLimit) (clean : record.reread.Clean) :
    ofText? record.prettyText = some record.reread := by
  rw [ofText?, prettyText, Json.read?_pretty shallow, reread_toJson small]
  exact (clean.recovered small).read

theorem readReals_reread (type : RealType) (values : Array type.Carrier) :
    (record.set field (Json.array (values.toList.map (archivedReal type))).reread).readReals type
      field = .ok (values.map type.reread) := by
  have archived : (record.set field (.array (values.toList.map fun value =>
      (archivedReal type value).reread))).readArchived (Json.real? type)
        (fun name => (ofSpecialName? name).map type.ofFloat) field =
          .ok (values.toList.map type.reread) := by
    apply readArchived_set fun value _ => ofJson?_reread_archivedReal type value
    intro value _
    simp only [rereadElement]
    cases special : specialName? (type.toFloat value) with
    | none => exact .inl rfl
    | some name =>
        refine .inr ⟨name, rfl, ?_⟩
        simp [ofSpecialName?_of_specialName? special, reread_of_specialName? special]
  rw [Json.reread, Json.rereadItems_eq_map, List.map_map]
  simp only [readReals, bind_eq_ok_iff, pure_eq_ok_iff]
  exact ⟨_, archived, by rw [← List.map_toArray, Array.toArray_toList]⟩

/-- Elements are read from a text. -/
theorem readElements_reread (values : Buffer) :
    (record.set field values.archived.reread).readElements values.type field =
      .ok values.reread := by
  cases values with
  | f32 elements => exact map_eq_ok_iff.mpr ⟨_, readReals_reread .f32 elements, rfl⟩
  | f64 elements => exact map_eq_ok_iff.mpr ⟨_, readReals_reread .f64 elements, rfl⟩
  | bool elements =>
      have archived : (record.set field (.array (elements.toList.map .bool))).readArchived
          Json.bool? (fun _ => none) field = .ok (elements.toList.map id) :=
        readArchived_set (fun value _ => rfl) fun value _ => .inl rfl
      have kept : (Buffer.bool elements).archived.reread = .array (elements.toList.map .bool) := by
        rw [Buffer.archived, Json.reread, Json.rereadItems_eq_map, List.map_map]
        rfl
      rw [kept]
      simp [readElements, readBools, archived, Buffer.type, Buffer.reread]

end Record

end Elements

end Dataflow
