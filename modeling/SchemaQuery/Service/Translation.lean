import SchemaQuery.Digest.Sha256
import SchemaQuery.Plan.Document
import SchemaQuery.Plan.Lowering
import SchemaQuery.Query.Validation
import SchemaQuery.Sql.Emission

/-!
# Translation

The whole way of a query against one registry: it is validated, planned and written as SQL,
and the first stage that fails answers for it.

## Main definitions

* `Plan.fingerprint` - the hash of the text of a plan.
* `Translation`, `TranslationError` - the two outcomes.
* `translate` - the pipeline.
-/

namespace SchemaQuery

/-- The hash of the text of a plan, which identifies the query. -/
def Plan.fingerprint (plan : Plan) : String := Digest.sha256 plan.toText

/-- A translated query. -/
structure Translation where
  plan : Plan
  emitted : Sql.Emitted

namespace Translation

/-- The SQL text. -/
def sql (t : Translation) : String := t.emitted.sql

/-- The parameters of the SQL text. -/
def params (t : Translation) : List Json.Value := t.emitted.params

/-- The fingerprint of the plan. -/
def fingerprint (t : Translation) : String := t.plan.fingerprint

end Translation

/-- Why a query was not translated, by the stage that refused it. -/
inductive TranslationError where
  | validation (error : ValidationError)
  | plan (error : PlanError)
  | emit (error : EmitError)

namespace TranslationError

/-- The name of the stage. -/
def stage : TranslationError → String
  | validation _ => "validate"
  | plan _ => "plan"
  | emit _ => "emit"

/-- The kind of the failure. -/
def kind : TranslationError → ErrorKind
  | validation error => error.kind
  | plan error => error.kind
  | emit error => error.kind

/-- The wording of the failure. -/
def message : TranslationError → String
  | validation error => error.message
  | plan error => error.message
  | emit error => error.message

end TranslationError

/-- A query that one registry validates, planned with another. -/
def planAcross (validator planner : Registry) (query : Query) : Except TranslationError Plan := do
  (query.validate validator).mapError .validation
  (Plan.ofQuery planner query).mapError .plan

/-- Translates a query with one registry. -/
def translate (registry : Registry) (query : Query) : Except TranslationError Translation := do
  let plan ← planAcross registry registry query
  let emitted ← (Sql.emit plan).mapError .emit
  return ⟨plan, emitted⟩

end SchemaQuery
