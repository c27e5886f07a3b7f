import SchemaQuery.Http.MediaType
import SchemaQuery.Http.Reply

/-!
# The server

The server answers requests from the registry in force, counts the translations it makes, and
replaces the registry when it is told to read the schema file again.  Its state changes in no
other way.

## Main definitions

* `Request`, `Event` - what happens to a server: a request, or a change of the schema file.
* `Request.query` - the query that is read from a request.
* `Server` - the state.
* `Server.load`, `Server.publish` - the two halves of a reload.
* `Server.handle`, `Server.step`, `Server.run` - one request, one event, and a sequence of
  events.

## Design notes

How long a translation took is measured outside and comes with the request.  A reload reads
the file first and publishes what it read afterwards; the halves are separate functions
because other events may come between them.
-/

namespace SchemaQuery.Http

open Numeric (Binary64)

/-- A request. -/
structure Request where
  method : String
  target : String
  contentType : Option String
  body : List UInt8
  /-- How long the translation of its query takes, in seconds. -/
  elapsed : Binary64

/-- The query of a request, which has to announce JSON. -/
def Request.query (r : Request) : Except BodyError Query :=
  if announcesJson r.contentType then queryOfBody r.body else .error .notJson

/-- Something that happens to a server or to the file its schema is read from. -/
inductive Event where
  | request (r : Request)
  | writeSchema (text : String)
  | removeSchema

/-- The state of a server together with its schema file. -/
structure Server where
  handle : Handle
  metrics : Metrics
  /-- The text of the schema file, if there is one. -/
  schemaFile : Option String
  schemaPath : String
  startedAt : String

namespace Server

/-- A server that starts with a registry and without a schema file. -/
def start (registry : Registry) (schemaPath startedAt : String) : Server :=
  ⟨.start registry, .empty, none, schemaPath, startedAt⟩

/-- The registry in force. -/
def registry (s : Server) : Registry := s.handle.current.registry

/-- The first half of a reload: reads the schema file. -/
def load (s : Server) : Except SchemaError Registry :=
  match s.schemaFile with
  | none => .error (.unreadable s.schemaPath "No such file or directory (os error 2)")
  | some text => Registry.ofText text

/-- The second half of a reload: publishes what was read. -/
def publish (s : Server) (registry : Registry) : Server :=
  { s with handle := s.handle.replace registry }

@[simp] theorem registry_start (registry : Registry) (schemaPath startedAt : String) :
    (start registry schemaPath startedAt).registry = registry := rfl

/-- Replaces the registry by that of the schema file; a file that cannot be used changes
nothing. -/
def reload (s : Server) : Reply × Server :=
  match s.load with
  | .ok registry => (.reloaded registry.size, s.publish registry)
  | .error e => (.failure 500 e.kind e.message, s)

/-- The status of a failed translation: the caller's fault or the server's. -/
def statusOf (kind : ErrorKind) : Nat := if kind.isUserError then 400 else 500

/-- The outcome that a failed translation counts as. -/
def outcomeOf (kind : ErrorKind) : Outcome := if kind.isUserError then .rejected else .error

/-- Translates the query of a request and counts the outcome.  A request from which no query
is read is not counted. -/
def translateBody (s : Server) (r : Request) (withPlan : Bool) : Reply × Server :=
  match r.query with
  | .error e => (.failure 400 .shapeError e.message, s)
  | .ok query =>
    match translate s.registry query with
    | .ok t =>
      (.translation t withPlan, { s with metrics := s.metrics.record .ok r.elapsed })
    | .error e =>
      (.failure (statusOf e.kind) e.kind e.message,
        { s with metrics := s.metrics.record (outcomeOf e.kind) r.elapsed })

/-- The model that a path segment names. -/
def modelReply (s : Server) (segment : List Char) : Reply :=
  match segmentText? segment with
  | none => .undecodablePath
  | some name =>
    match s.registry.model? name with
    | some m => .model m
    | none =>
      let e := LookupError.modelNotFound name
      .failure 404 e.kind e.message

/-- Answers a request on a route that admits its method. -/
def answer (s : Server) (r : Request) : Route → Reply × Server
  | .health => (.health s.registry.size, s)
  | .models => (.models s.registry.sortedModels, s)
  | .model segment => (s.modelReply segment, s)
  | .query => s.translateBody r false
  | .explain => s.translateBody r true
  | .reload => s.reload
  | .metrics => (.metrics s.metrics, s)

/-- Answers a request. -/
def reply (s : Server) (r : Request) : Reply × Server :=
  match Route.ofTarget? r.target with
  | none => (.notFound, s)
  | some route =>
    if route.access.admits r.method then s.answer r route
    else (.methodNotAllowed route.access, s)

/-- Answers a request with a response; only the head of it is sent when that was asked for. -/
def handleRequest (s : Server) (r : Request) : Response × Server :=
  let (reply, next) := s.reply r
  let response := reply.response s.startedAt
  (if r.method = "HEAD" then { response with body := "" } else response, next)

/-- What happens at an event; only requests have a response. -/
def step (s : Server) : Event → Option Response × Server
  | .request r =>
    let (response, next) := s.handleRequest r
    (some response, next)
  | .writeSchema text => (none, { s with schemaFile := some text })
  | .removeSchema => (none, { s with schemaFile := none })

/-- The responses to a sequence of events. -/
def run (s : Server) : List Event → List (Option Response)
  | [] => []
  | event :: rest =>
    let (response, next) := s.step event
    response :: next.run rest

end Server

end SchemaQuery.Http
