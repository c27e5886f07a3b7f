/-!
# Kinds of errors

Every failure that a caller sees carries one of seven kinds.

## Main definitions

* `ErrorKind` - the kinds, with `name` and the table `table` of all of them.
* `ErrorKind.isUserError` - whether the caller's input is to blame.
-/

namespace SchemaQuery

/-- The kind of a failure. -/
inductive ErrorKind where
  | configInvalid
  | unknownModel
  | unknownField
  | capabilityDenied
  | operatorTypeMismatch
  | shapeError
  | emitError
  deriving DecidableEq, Repr

namespace ErrorKind

/-- The name by which documents and answers call a kind. -/
def name : ErrorKind → String
  | configInvalid => "config_invalid"
  | unknownModel => "unknown_model"
  | unknownField => "unknown_field"
  | capabilityDenied => "capability_denied"
  | operatorTypeMismatch => "operator_type_mismatch"
  | shapeError => "shape_error"
  | emitError => "emit_error"

/-- All kinds. -/
def all : List ErrorKind :=
  [configInvalid, unknownModel, unknownField, capabilityDenied, operatorTypeMismatch, shapeError,
    emitError]

/-- All kinds by name. -/
def table : List (String × ErrorKind) := all.map fun kind => (kind.name, kind)

/-- Whether the caller's input is to blame, rather than the deployment or the program. -/
def isUserError : ErrorKind → Bool
  | configInvalid => false
  | emitError => false
  | _ => true

end ErrorKind

end SchemaQuery
