import SchemaQuery.ErrorKind
import SchemaQuery.Schema.Catalog
import SchemaQuery.Schema.Document
import SchemaQuery.Schema.FieldType
import SchemaQuery.Schema.Identifier

/-!
# Registries

A `Registry` is a schema that was checked as a whole: every name in it is a plain identifier,
models and the fields of a model have distinct names, and every model has its primary key
among its fields.  These facts are part of the types, so a registry cannot be had otherwise.

## Main definitions

* `Field`, `Model`, `Registry` - the checked schema.
* `FieldDefect`, `ModelDefect`, `SchemaDefect` - why a document describes none.
* `Registry.ofSchema` - checks a schema document; the first defect refuses it as a whole.
* `SchemaError`, `Registry.ofText` - the same from the text of a document.
* `LookupError` and the look-ups of models and fields.
-/

namespace SchemaQuery

/-! ## The checked schema -/

/-- A field of a model with what queries may do with it. -/
structure Field where
  name : Identifier
  type : FieldType
  nullable : Bool
  filterable : Bool
  groupable : Bool
  aggregatable : Bool
  deriving DecidableEq

/-- The name of a field as text. -/
def Field.key (f : Field) : String := f.name.text

/-- A model: a table with its fields in declaration order. -/
structure Model where
  name : Identifier
  table : TableName
  primaryKey : String
  fields : Catalog Field Field.key
  primaryKey_declared : fields.contains primaryKey = true

namespace Model

/-- The name of a model as text. -/
def key (m : Model) : String := m.name.text

/-- The field of a name. -/
def field? (m : Model) (name : String) : Option Field := m.fields.find? name

/-- Whether the model has a field of a name. -/
def hasField (m : Model) (name : String) : Bool := m.fields.contains name

/-- The field that is the primary key. -/
def primaryKeyField (m : Model) : Field :=
  (m.field? m.primaryKey).get m.primaryKey_declared

end Model

/-- A checked schema: at least one model, all of distinct names. -/
structure Registry where
  models : Catalog Model Model.key
  nonempty : models.entries ≠ []

/-! ## Defects -/

/-- Why an entry describes no field. -/
inductive FieldDefect where
  | nameMissing
  | nameInvalid (name : String)
  | typeMissing (name : String)
  | typeUnknown (name type : String)
  deriving DecidableEq, Repr

/-- Why an entry describes no model. -/
inductive ModelDefect where
  | nameMissing
  | nameInvalid
  | tableMissing
  | tableInvalid (table : String)
  | primaryKeyMissing
  | noFields
  | field (index : Nat) (defect : FieldDefect)
  | duplicateField (name : String)
  | primaryKeyUnknown (name : String)
  deriving DecidableEq, Repr

/-- Why a document describes no schema. -/
inductive SchemaDefect where
  | noModels
  | model (index : Nat) (name : String) (defect : ModelDefect)
  | duplicateModel (name : String)
  deriving DecidableEq, Repr

/-- A natural number in brackets, as messages write positions. -/
def bracketed (index : Nat) : String :=
  "[" ++ String.ofList (Numeric.decimalText index) ++ "]"

/-- The wording of a field's defect. -/
def FieldDefect.message : FieldDefect → String
  | nameMissing => "name is required"
  | nameInvalid name => name ++ ": name is not a valid identifier"
  | typeMissing name => name ++ ": type is required"
  | typeUnknown name type => name ++ ": invalid type " ++ Text.quote type

/-- The wording of a model's defect, without the name of the model. -/
def ModelDefect.message : ModelDefect → String
  | nameMissing => "name is required"
  | nameInvalid => "name is not a valid identifier"
  | tableMissing => "table is required"
  | tableInvalid table => "table " ++ Text.quote table ++ " is not a valid identifier"
  | primaryKeyMissing => "primaryKey is required"
  | noFields => "at least one field is required"
  | field index defect => "field" ++ bracketed index ++ " " ++ defect.message
  | duplicateField name => "duplicate field name: " ++ name
  | primaryKeyUnknown name => "primaryKey " ++ name ++ " not found in fields"

/-- The wording of a schema's defect.  A model without a name is given by its position
alone. -/
def SchemaDefect.message : SchemaDefect → String
  | noModels => "no models defined in config"
  | model index _ .nameMissing =>
    "model" ++ bracketed index ++ ": " ++ ModelDefect.nameMissing.message
  | model index name defect =>
    "model" ++ bracketed index ++ " " ++ name ++ ": " ++ defect.message
  | duplicateModel name => "duplicate model name: " ++ name

/-! ## Checking a document -/

/-- Checks one field entry.  Flags that are not given take their defaults: a field can be
filtered and grouped by, and aggregated if it is numeric. -/
def Field.ofEntry (entry : FieldEntry) : Except FieldDefect Field :=
  if entry.name = "" then .error .nameMissing
  else
    match Identifier.ofText? entry.name with
    | none => .error (.nameInvalid entry.name)
    | some name =>
      if entry.type = "" then .error (.typeMissing entry.name)
      else
        match FieldType.ofName? entry.type with
        | none => .error (.typeUnknown entry.name entry.type)
        | some type =>
          .ok
            { name, type
              nullable := entry.nullable
              filterable := entry.filterable.getD true
              groupable := entry.groupable.getD true
              aggregatable := entry.aggregatable.getD type.isNumeric }

/-- Adds checked field entries, the first of them at position `index`, to the fields so far. -/
def Model.addFields (index : Nat) (fields : Catalog Field Field.key) :
    List FieldEntry → Except ModelDefect (Catalog Field Field.key)
  | [] => .ok fields
  | entry :: rest =>
    match Field.ofEntry entry with
    | .error defect => .error (.field index defect)
    | .ok field =>
      match fields.add? field with
      | none => .error (.duplicateField entry.name)
      | some fields => Model.addFields (index + 1) fields rest

/-- Checks one model entry. -/
def Model.ofEntry (entry : ModelEntry) : Except ModelDefect Model :=
  if entry.name = "" then .error .nameMissing
  else
    match Identifier.ofText? entry.name with
    | none => .error .nameInvalid
    | some name =>
      if entry.table = "" then .error .tableMissing
      else
        match TableName.ofText? entry.table with
        | none => .error (.tableInvalid entry.table)
        | some table =>
          if entry.primaryKey = "" then .error .primaryKeyMissing
          else if entry.fields = [] then .error .noFields
          else do
            let fields ← Model.addFields 0 Catalog.empty entry.fields
            if declared : fields.contains entry.primaryKey = true then
              return ⟨name, table, entry.primaryKey, fields, declared⟩
            else .error (.primaryKeyUnknown entry.primaryKey)

namespace Registry

/-- Adds checked model entries, the first of them at position `index`, to the models so far. -/
def addModels (index : Nat) (models : Catalog Model Model.key) :
    List ModelEntry → Except SchemaDefect (Catalog Model Model.key)
  | [] => .ok models
  | entry :: rest =>
    match Model.ofEntry entry with
    | .error defect => .error (.model index entry.name defect)
    | .ok model =>
      match models.add? model with
      | none => .error (.duplicateModel entry.name)
      | some models => addModels (index + 1) models rest

/-- Checks a schema document.  The first defect in the order of the document refuses it. -/
def ofSchema (schema : SchemaDocument) : Except SchemaDefect Registry := do
  let models ← addModels 0 Catalog.empty schema.models
  if nonempty : models.entries ≠ [] then return ⟨models, nonempty⟩
  else .error .noModels

end Registry

/-! ## From text -/

/-- Why no registry could be had from a file or text. -/
inductive SchemaError where
  /-- The file could not be read, for the given reason. -/
  | unreadable (path reason : String)
  /-- The text is not JSON. -/
  | malformed
  /-- The text is JSON of another shape. -/
  | wrongShape (fault : Json.Fault)
  /-- The document describes no schema. -/
  | invalid (defect : SchemaDefect)

namespace SchemaError

/-- Every failure to build a registry is one of configuration. -/
def kind (_ : SchemaError) : ErrorKind := .configInvalid

/-- The wording of the failure. -/
def message : SchemaError → String
  | unreadable path reason => "failed to read models file " ++ path ++ ": " ++ reason
  | malformed => "failed to parse models document"
  | wrongShape fault => "failed to parse models document: " ++ fault.message
  | invalid defect => "invalid models config: " ++ defect.message

/-- The failure to read a schema document. -/
def ofDecodeError : Json.DecodeError → SchemaError
  | .malformed => .malformed
  | .data _ fault => .wrongShape fault

end SchemaError

/-- Reads a schema document from its text. -/
def SchemaDocument.read (s : String) : Except SchemaError SchemaDocument :=
  (SchemaDocument.ofText s).mapError .ofDecodeError

/-! ## Look-ups -/

/-- A look-up of something that the registry does not have. -/
inductive LookupError where
  | modelNotFound (model : String)
  | fieldNotFound (model field : String)
  deriving DecidableEq, Repr

namespace LookupError

/-- The kind of a failed look-up. -/
def kind : LookupError → ErrorKind
  | modelNotFound _ => .unknownModel
  | fieldNotFound _ _ => .unknownField

/-- The wording of a failed look-up. -/
def message : LookupError → String
  | modelNotFound model => "model not found: " ++ model
  | fieldNotFound model field => "field not found: " ++ model ++ "." ++ field

end LookupError

namespace Registry

/-- Builds a registry from the text of a schema document. -/
def ofText (s : String) : Except SchemaError Registry := do
  let schema ← SchemaDocument.read s
  (ofSchema schema).mapError .invalid

/-- The model of a name. -/
def model? (r : Registry) (name : String) : Option Model := r.models.find? name

/-- Whether there is a model of a name. -/
def hasModel (r : Registry) (name : String) : Bool := r.models.contains name

/-- Whether a model has a field; no model, no field. -/
def hasField (r : Registry) (model field : String) : Bool :=
  match r.model? model with
  | some m => m.hasField field
  | none => false

/-- A field of a model. -/
def field (r : Registry) (model field : String) : Except LookupError Field :=
  match r.model? model with
  | none => .error (.modelNotFound model)
  | some m =>
    match m.field? field with
    | none => .error (.fieldNotFound model field)
    | some f => .ok f

/-- The fields of a model in declaration order. -/
def fieldsOf (r : Registry) (model : String) : Except LookupError (List Field) :=
  match r.model? model with
  | none => .error (.modelNotFound model)
  | some m => .ok m.fields.entries

/-- The models in increasing order of their names. -/
def sortedModels (r : Registry) : List Model :=
  r.models.entries.mergeSort fun m n => decide (m.key ≤ n.key)

/-- The names of the models in increasing order. -/
def sortedNames (r : Registry) : List String := r.sortedModels.map Model.key

/-- The number of models. -/
def size (r : Registry) : Nat := r.models.size

end Registry

end SchemaQuery
