import SchemaQuery.Schema.Lookup
import SchemaQuery.Service.Translation

/-!
# Publishing registries

A handle holds the registry that is in force.  A client takes a snapshot of it and keeps
working with that, whatever is published meanwhile.  Publications are numbered, so that two
snapshots can be told apart even if the same schema was published twice.

## Main definitions

* `Snapshot`, `Handle` - a numbered registry, and the one in force.
* `Handle.replace`, `Handle.replaceText` - publish another registry.
* `Session`, `Session.step` - a handle with the snapshots that were taken from it.
-/

namespace SchemaQuery

/-- A published registry with the number of publications before it. -/
structure Snapshot where
  registry : Registry
  number : Nat

/-- Whether two snapshots are of the same publication. -/
def Snapshot.isSame (a b : Snapshot) : Bool := a.number = b.number

/-- The publication in force. -/
structure Handle where
  current : Snapshot

namespace Handle

/-- The handle whose first publication is the given registry. -/
def start (registry : Registry) : Handle := ⟨⟨registry, 0⟩⟩

/-- Publishes a registry in place of the current one. -/
def replace (h : Handle) (registry : Registry) : Handle := ⟨⟨registry, h.current.number + 1⟩⟩

/-- Publishes the registry of a schema document; an invalid document changes nothing. -/
def replaceText (h : Handle) (schema : String) : Except SchemaError Handle := do
  return h.replace (← Registry.ofText schema)

end Handle

/-- A handle and the snapshots taken from it, the oldest first. -/
structure Session where
  handle : Handle
  taken : List Snapshot

namespace Session

/-- What is asked of a registry: a look-up or the translation of a query text. -/
inductive Question where
  | lookup (l : Lookup)
  | translation (query : String)

/-- What a registry answers. -/
inductive Reply where
  | lookup (answer : LookupAnswer)
  | undecodable (error : Json.DecodeError)
  | translation (result : Except TranslationError Translation)

/-- The reply of a registry to a question. -/
def Question.reply (r : Registry) : Question → Reply
  | .lookup l => .lookup (l.answer r)
  | .translation text =>
    match Query.ofText text with
    | .ok q => .translation (translate r q)
    | .error e => .undecodable e

/-- A step of a client. -/
inductive Step where
  | snapshot
  | replace (schema : String)
  | same (index : Nat)
  | ask (question : Question) (snapshot : Option Nat)

/-- The answer to a step. -/
inductive Answer where
  | taken (index : Nat) (snapshot : Snapshot)
  | replaced (previous current : Snapshot)
  | refused (error : SchemaError)
  | same (result : Option Bool)
  | reply (r : Reply)

/-- The session of a fresh handle. -/
def start (registry : Registry) : Session := ⟨.start registry, []⟩

/-- The snapshot at a position, or the current publication if there is none. -/
def snapshotOr (s : Session) (index : Option Nat) : Snapshot :=
  ((index.bind fun i => s.taken[i]?)).getD s.handle.current

/-- Carries out a step. -/
def step (s : Session) : Step → Answer × Session
  | .snapshot =>
    (.taken s.taken.length s.handle.current, { s with taken := s.taken ++ [s.handle.current] })
  | .replace schema =>
    match s.handle.replaceText schema with
    | .ok handle => (.replaced s.handle.current handle.current, { s with handle })
    | .error e => (.refused e, s)
  | .same index => (.same (s.taken[index]?.map (·.isSame s.handle.current)), s)
  | .ask question index => (.reply (question.reply (s.snapshotOr index).registry), s)

/-- Carries out steps in order and collects their answers. -/
def run (s : Session) : List Step → List Answer
  | [] => []
  | first :: rest =>
    let (answer, next) := s.step first
    answer :: next.run rest

end Session

end SchemaQuery
