import SchemaQuery.Http.Body
import SchemaQuery.Http.Route
import SchemaQuery.Service.Handle
import SchemaQuery.Service.Metrics

/-!
# Replies

What the service answers, first as data and then as a response with status, headers and body.

## Main definitions

* `Reply` - the answer as data.
* `Response`, `Reply.response` - the answer as it is sent.

## Design notes

Objects are written with their keys sorted, but for a translation, whose members are the SQL
text, its parameters, the fingerprint and, where it was asked for, the plan.
-/

namespace SchemaQuery.Http

open Json (Tree)

/-- What the service answers to a request. -/
inductive Reply where
  | health (size : Nat)
  | models (all : List Model)
  | model (m : Model)
  | translation (t : Translation) (withPlan : Bool)
  | reloaded (size : Nat)
  | metrics (m : Metrics)
  | failure (status : Nat) (kind : ErrorKind) (message : String)
  /-- The path names a model in bytes that are not UTF-8. -/
  | undecodablePath
  | notFound
  | methodNotAllowed (access : Access)

/-- A response as it is sent. -/
structure Response where
  status : Nat
  contentType : Option String
  body : String
  /-- The methods that would have been allowed. -/
  allow : Option String := none
  deriving DecidableEq, Repr

/-- A field as JSON. -/
def fieldTree (f : Field) : Tree :=
  .object
    [("aggregatable", .bool f.aggregatable), ("filterable", .bool f.filterable),
      ("groupable", .bool f.groupable), ("name", .text f.key), ("nullable", .bool f.nullable),
      ("type", .text f.type.name)]

/-- A model as JSON. -/
def modelTree (m : Model) : Tree :=
  .object
    [("fields", .array (m.fields.entries.map fieldTree)), ("name", .text m.key),
      ("primary_key", .text m.primaryKey), ("table", .text m.table.text)]

/-- A translation as JSON, with its plan as the last member if it was asked for. -/
def translationTree (t : Translation) (withPlan : Bool) : Tree :=
  .object ([("sql", .text t.sql), ("params", .array (t.params.map (·.tree))),
      ("fingerprint", .text t.fingerprint)]
    ++ if withPlan then [("plan", t.plan.toTree)] else [])

/-- A failure as JSON. -/
def failureTree (kind : ErrorKind) (message : String) : Tree :=
  .object [("error", .object [("kind", .text kind.name), ("message", .text message)])]

/-- A response with a JSON body. -/
def jsonResponse (status : Nat) (body : Tree) : Response :=
  ⟨status, some "application/json", body.toText, none⟩

/-- The response of a service that started at the given time. -/
def Reply.response (startedAt : String) : Reply → Response
  | health size =>
    jsonResponse 200 (.object
      [("models", .ofInt size), ("started_at", .text startedAt), ("status", .text "ok")])
  | models all => jsonResponse 200 (.array (all.map modelTree))
  | model m => jsonResponse 200 (modelTree m)
  | translation t withPlan => jsonResponse 200 (translationTree t withPlan)
  | reloaded size =>
    jsonResponse 200 (.object [("models", .ofInt size), ("status", .text "reloaded")])
  | metrics m => ⟨200, some "text/plain; version=0.0.4", m.text, none⟩
  | failure status kind message => jsonResponse status (failureTree kind message)
  | undecodablePath =>
    ⟨400, some "text/plain; charset=utf-8", "Invalid URL: Invalid UTF-8 in `name`", none⟩
  | notFound => ⟨404, none, "", none⟩
  | methodNotAllowed access => ⟨405, none, "", some access.allow⟩

end SchemaQuery.Http
