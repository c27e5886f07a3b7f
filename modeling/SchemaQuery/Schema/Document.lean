import SchemaQuery.Json.Decode
import SchemaQuery.Json.Writer

/-!
# Schema documents

A schema document lists models with their tables, primary keys and fields.  Here only its
shape is read; whether it describes a schema is decided when a registry is built from it.

## Main definitions

* `SchemaDocument`, `ModelEntry`, `FieldEntry` - the document.
* `SchemaDocument.ofDocument` - reads it.
* `SchemaDocument.toTree` - writes it.
-/

namespace SchemaQuery

open Json (Document Record Decoded Tree)

/-- A field of a model in a schema document.  The last three flags have defaults that depend
on the type. -/
structure FieldEntry where
  name : String := ""
  type : String := ""
  nullable : Bool := false
  filterable : Option Bool := none
  groupable : Option Bool := none
  aggregatable : Option Bool := none
  deriving DecidableEq, Repr

/-- A model in a schema document. -/
structure ModelEntry where
  name : String := ""
  table : String := ""
  primaryKey : String := ""
  fields : List FieldEntry := []
  deriving DecidableEq, Repr

/-- A schema document. -/
structure SchemaDocument where
  models : List ModelEntry := []
  deriving DecidableEq, Repr

namespace FieldEntry

/-- How a field is written in documents. -/
def record : Record FieldEntry where
  title := "struct FieldConfig"
  members :=
    [("name", .defaulted), ("type", .defaulted), ("nullable", .defaulted),
      ("filterable", .defaulted), ("groupable", .defaulted), ("aggregatable", .defaulted)]
  blank := {}
  place entry name value :=
    match name with
    | "name" => return { entry with name := ← value.toText }
    | "type" => return { entry with type := ← value.toText }
    | "nullable" => return { entry with nullable := ← value.toBool }
    | "filterable" => return { entry with filterable := ← value.toOption Document.toBool }
    | "groupable" => return { entry with groupable := ← value.toOption Document.toBool }
    | "aggregatable" => return { entry with aggregatable := ← value.toOption Document.toBool }
    | _ => return entry

/-- A flag as a member, left out when it is not given. -/
def flagMember (name : String) : Option Bool → List (String × Tree)
  | some flag => [(name, .bool flag)]
  | none => []

/-- The field as JSON. -/
def toTree (entry : FieldEntry) : Tree :=
  .object ([("name", .text entry.name), ("type", .text entry.type),
      ("nullable", .bool entry.nullable)]
    ++ flagMember "filterable" entry.filterable
    ++ flagMember "groupable" entry.groupable
    ++ flagMember "aggregatable" entry.aggregatable)

end FieldEntry

namespace ModelEntry

/-- How a model is written in documents. -/
def record : Record ModelEntry where
  title := "struct ModelConfig"
  members :=
    [("name", .defaulted), ("table", .defaulted), ("primaryKey", .defaulted),
      ("fields", .defaulted)]
  blank := {}
  place entry name value :=
    match name with
    | "name" => return { entry with name := ← value.toText }
    | "table" => return { entry with table := ← value.toText }
    | "primaryKey" => return { entry with primaryKey := ← value.toText }
    | "fields" =>
      return { entry with fields := ← value.toList (Document.toRecord FieldEntry.record .text) }
    | _ => return entry

/-- The model as JSON. -/
def toTree (entry : ModelEntry) : Tree :=
  .object
    [("name", .text entry.name), ("table", .text entry.table),
      ("primaryKey", .text entry.primaryKey), ("fields", .array (entry.fields.map (·.toTree)))]

end ModelEntry

namespace SchemaDocument

/-- How the whole is written in documents. -/
def record : Record SchemaDocument where
  title := "struct ModelsConfig"
  members := [("models", .defaulted)]
  blank := {}
  place schema name value :=
    match name with
    | "models" =>
      return { schema with models := ← value.toList (Document.toRecord ModelEntry.record .text) }
    | _ => return schema

/-- Reads a schema document. -/
def ofDocument (d : Document) : Decoded SchemaDocument := d.toRecord record .text

/-- Reads a schema document from its text. -/
def ofText (s : String) : Decoded SchemaDocument := Document.decodeText ofDocument s

/-- The schema document as JSON. -/
def toTree (schema : SchemaDocument) : Tree :=
  .object [("models", .array (schema.models.map (·.toTree)))]

end SchemaDocument

end SchemaQuery
