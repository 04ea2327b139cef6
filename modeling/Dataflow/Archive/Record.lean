import Dataflow.Archive.Error
import Dataflow.Json.Reader
import Dataflow.Json.Writer
import Dataflow.Scalar.JsonForm

/-!
# Records

An archive is a tree of records.  A record names its type and version before its
fields, so a reader knows what to expect of the fields.

Elements of buffers are numbers or booleans.  Floats without a JSON number are
written by their names, and single precision floats by the digits of the double
with their value.
-/

namespace Dataflow

/-- An archived object. -/
structure Record where
  key : String
  typeTag : String
  version : Version
  /-- The fields, in order; no key comes twice. -/
  payload : List (String × Json)
  deriving Repr, Inhabited

instance : JsonForm Record where
  toJson record :=
    .object
      [("key", toJson record.key), ("type_tag", toJson record.typeTag),
        ("version", toJson record.version), ("payload", .object record.payload)]
  ofJson? value := do
    match ← Json.fields? ["key", "type_tag", "version", "payload"] value with
    | [key, typeTag, version, some payload] =>
        match ← payload.denoted? with
        | .object fields =>
            return ⟨← Json.required? key, ← Json.required? typeTag, ← Json.required? version,
              fields⟩
        | _ => none
    | _ => none

/-! ## Elements -/

/-- The name of a float that has no JSON number. -/
def specialName? (value : Float) : Option String :=
  if value.isNaN then some "NaN"
  else if value.isInf then some (if 0 < value then "inf" else "-inf")
  else none

/-- The float with a name. -/
def ofSpecialName? : String → Option Float
  | "NaN" => some (0 / 0)
  | "inf" => some (1 / 0)
  | "-inf" => some (-1 / 0)
  | _ => none

/-- An archived float. -/
def archivedReal (type : RealType) (value : type.Carrier) : Json :=
  let double := type.toFloat value
  match specialName? double with
  | some name => .string name
  | none => .number (.double double)

/-- The archived elements of a buffer. -/
def Buffer.archived : Buffer → Json
  | f32 elements => .array (elements.toList.map (archivedReal .f32))
  | f64 elements => .array (elements.toList.map (archivedReal .f64))
  | bool elements => .array (elements.toList.map .bool)

/-- An element that is read from an archive: a value or a name. -/
inductive ArchivedElement (α : Type)
  | value (value : α)
  | named (name : String)

/-- Reads an element whose values have a reader. -/
def ArchivedElement.ofJson? {α : Type} (value? : Json → Option α) :
    Json → Option (ArchivedElement α)
  | .string name => some (.named name)
  | json => value <$> value? json

namespace Record

/-! ## Writing -/

/-- A record without fields. -/
def start (key typeTag : String) (version : Version) : Record :=
  ⟨key, typeTag, version, []⟩

/-- Sets a field.  A field that is there already keeps its place. -/
def set (record : Record) (field : String) (value : Json) : Record :=
  { record with payload := Json.insertMember record.payload field value }

/-- Writes a value to a field. -/
def write {α : Type} [JsonForm α] (record : Record) (field : String) (value : α) : Record :=
  record.set field (toJson value)

/-- Writes the elements of a buffer to a field. -/
def writeElements (record : Record) (field : String) (values : Buffer) : Record :=
  record.set field values.archived

/-! ## Reading -/

/-- Whether there is a field. -/
def has (record : Record) (field : String) : Bool :=
  (Json.lookup? record.payload field).isSome

/-- Reads a field with a reader. -/
def readWith {α : Type} (read? : Json → Option α) (record : Record) (field : String) :
    Except ArchiveError α :=
  match Json.lookup? record.payload field with
  | none => .error (.missingField record.typeTag field)
  | some value =>
      match read? value with
      | some value => .ok value
      | none => .error (.malformedField record.typeTag field)

/-- Reads a field. -/
def read {α : Type} [JsonForm α] (record : Record) (field : String) : Except ArchiveError α :=
  record.readWith ofJson? field

/-- Reads a field that may be missing. -/
def readOr {α : Type} [JsonForm α] (record : Record) (field : String) (default : α) :
    Except ArchiveError α :=
  if record.has field then record.read field else .ok default

/-- Reads archived elements.  All of them are read before names are looked up. -/
def readArchived {α : Type} (value? : Json → Option α) (ofName? : String → Option α)
    (record : Record) (field : String) : Except ArchiveError (List α) := do
  let elements ← record.readWith (Json.list? (ArchivedElement.ofJson? value?)) field
  elements.mapM fun element =>
    match element with
    | .value value => .ok value
    | .named name =>
        match ofName? name with
        | some value => .ok value
        | none => .error (.unknownElement record.typeTag field name)

/-- Reads archived floats. -/
def readReals (type : RealType) (record : Record) (field : String) :
    Except ArchiveError (Array type.Carrier) := do
  let ofName? := fun name => (ofSpecialName? name).map type.ofFloat
  return (← record.readArchived (Json.real? type) ofName? field).toArray

/-- Reads archived booleans. -/
def readBools (record : Record) (field : String) : Except ArchiveError (Array Bool) := do
  return (← record.readArchived Json.bool? (fun _ => none) field).toArray

/-- Reads archived elements of a type. -/
def readElements (type : ScalarType) (record : Record) (field : String) :
    Except ArchiveError Buffer :=
  match type with
  | .f32 => .f32 <$> record.readReals .f32 field
  | .f64 => .f64 <$> record.readReals .f64 field
  | .bool => .bool <$> record.readBools field

/-! ## Texts -/

/-- The record in a text. -/
def ofText? (text : String) : Option Record :=
  Json.read? text >>= ofJson?

/-- The compact text of a record. -/
def compactText (record : Record) : String :=
  (toJson record).compact

/-- The pretty text of a record. -/
def prettyText (record : Record) : String :=
  (toJson record).pretty

end Record

end Dataflow
