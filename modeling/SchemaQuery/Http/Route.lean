import SchemaQuery.Text.Hexadecimal
import SchemaQuery.Text.Utf8

/-!
# Routes

The paths that the service answers on.  A route admits either reading or posting; reading
includes asking for the head of the answer alone.

## Main definitions

* `Route`, `Route.ofTarget?` - a route, and the one of a request target.
* `Access`, `Route.access` - how a route may be used.
* `percentDecode` - the bytes that a path segment stands for.
-/

namespace SchemaQuery.Http

/-- A path of the service.  The name of a model is kept as it is written in the path. -/
inductive Route where
  | health
  | models
  | model (segment : List Char)
  | query
  | explain
  | reload
  | metrics
  deriving DecidableEq, Repr

/-- How a route may be used. -/
inductive Access where
  | read
  | post
  deriving DecidableEq, Repr

/-- The methods that an access admits, as the `Allow` header lists them. -/
def Access.allow : Access → String
  | read => "GET,HEAD"
  | post => "POST"

/-- Whether an access admits a method. -/
def Access.admits : Access → String → Bool
  | read, method => method = "GET" || method = "HEAD"
  | post, method => method = "POST"

namespace Route

/-- How a route may be used. -/
def access : Route → Access
  | query | explain | reload => .post
  | _ => .read

/-- The model of a path below `/models/`: one segment that is not empty. -/
def ofSegment? (segment : List Char) : Option Route :=
  if segment.isEmpty || segment.contains '/' then none else some (.model segment)

/-- A request target from its path on.  A target that starts with a slash has nothing before
its path, and an absolute one names a scheme and an authority first; any other target has no
path. -/
def fromPath (target : List Char) : List Char :=
  match target with
  | '/' :: _ => target
  | _ =>
    match target.dropWhile fun c => c.isAlphanum || c = '+' || c = '-' || c = '.' with
    | ':' :: '/' :: '/' :: rest =>
      match rest.dropWhile fun c => c ≠ '/' && c ≠ '?' && c ≠ '#' with
      | '/' :: path => '/' :: path
      -- an absolute target without a path stands for the root
      | rest => '/' :: rest
    | _ => []

/-- The path of a request target, without the query string and the fragment. -/
def pathOf (target : String) : List Char :=
  (fromPath target.toList).takeWhile fun c => c ≠ '?' && c ≠ '#'

/-- The route of a request target, if there is one. -/
def ofTarget? (target : String) : Option Route :=
  let path := pathOf target
  if path = "/health".toList then some .health
  else if path = "/models".toList then some .models
  else if path = "/query".toList then some .query
  else if path = "/query/explain".toList then some .explain
  else if path = "/admin/reload".toList then some .reload
  else if path = "/metrics".toList then some .metrics
  else if "/models/".toList.isPrefixOf path then ofSegment? (path.drop "/models/".length)
  else none

end Route

/-- The byte of an ASCII character. -/
def byteOf (c : Char) : UInt8 := UInt8.ofNat c.toNat

/-- The value of a hexadecimal digit given as a byte. -/
def hexByte? (byte : UInt8) : Option Nat := Text.hexValue? (Char.ofNat byte.toNat)

/-- The byte that the two hexadecimal digits at the head of a sequence stand for. -/
def escapedByte? : List UInt8 → Option UInt8
  | high :: low :: _ => do
    let high ← hexByte? high
    let low ← hexByte? low
    return UInt8.ofNat (high * 16 + low)
  | _ => none

/-- Replaces the escapes `%hh` by the bytes they stand for; a broken escape stays as it is. -/
def percentDecode : List UInt8 → List UInt8
  | [] => []
  | byte :: rest =>
    match if byte = byteOf '%' then escapedByte? rest else none with
    | some escaped => escaped :: percentDecode (rest.drop 2)
    | none => byte :: percentDecode rest
termination_by bytes => bytes.length
decreasing_by
  · simp only [List.length_drop, List.length_cons]; omega
  · simp

/-- The text that a path segment stands for; `none` if its bytes are not UTF-8. -/
def segmentText? (segment : List Char) : Option String :=
  Text.decode? (percentDecode (String.ofList segment).toUTF8.toList)

end SchemaQuery.Http
