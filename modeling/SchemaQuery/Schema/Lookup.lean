import SchemaQuery.Schema.Registry

/-!
# Look-ups in a registry

The questions that can be asked of a registry, as data, with their answers.

## Main definitions

* `Lookup`, `LookupAnswer` - a question and an answer.
* `Lookup.answer` - the answer of a registry.
-/

namespace SchemaQuery

/-- A question to a registry. -/
inductive Lookup where
  | modelNames
  | size
  | hasModel (model : String)
  | hasField (model field : String)
  | model (model : String)
  | field (model field : String)
  | fields (model : String)
  deriving DecidableEq, Repr

/-- What a registry answers. -/
inductive LookupAnswer where
  | names (sorted : List String)
  | size (models : Nat)
  | truth (value : Bool)
  | model (found : Option Model)
  | field (found : Except LookupError Field)
  | fields (found : Except LookupError (List Field))

/-- The answer of a registry to a question. -/
def Lookup.answer (r : Registry) : Lookup → LookupAnswer
  | modelNames => .names r.sortedNames
  | size => .size r.size
  | hasModel m => .truth (r.hasModel m)
  | hasField m f => .truth (r.hasField m f)
  | model m => .model (r.model? m)
  | field m f => .field (r.field m f)
  | fields m => .fields (r.fieldsOf m)

end SchemaQuery
