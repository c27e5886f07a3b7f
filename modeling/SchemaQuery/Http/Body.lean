import SchemaQuery.Query.Document
import SchemaQuery.Text.Utf8

/-!
# Request bodies

A body holds a query in JSON.  What follows the JSON value is ignored, and bytes that are not
UTF-8 only matter where the text is used.  A body that is longer than a limit is refused
unread.

## Main definitions

* `bodyText` - the characters of a body.
* `bodyLimit` - how many bytes a body may have.
* `BodyError` - why no query is read from a body.
* `queryOfBody` - the query of a body.
-/

namespace SchemaQuery.Http

open Json (Document)

/-- What stands in a text for a byte that is not UTF-8.  It is no JSON outside of strings, no
escape after a backslash, and inside a string it ends in half of a surrogate pair: so it is
only accepted inside a string that is not read. -/
def strayMark : List Char := ['x', '\\', 'u', 'd', 'c', '0', '0']

/-- The characters of a body. -/
def bodyText (bytes : List UInt8) : List Char :=
  (Text.symbols bytes).flatMap fun
    | .char c => [c]
    | .stray _ => strayMark

/-- How many bytes a body may have: two mebibytes. -/
def bodyLimit : Nat := 2 * 1024 * 1024

/-- Why no query is read from a body. -/
inductive BodyError where
  /-- The request does not announce JSON. -/
  | notJson
  /-- The body has more bytes than it may have. -/
  | tooLong
  /-- The body is not JSON. -/
  | malformed
  /-- The body is JSON of another shape. -/
  | wrongShape (path : List Json.Step) (fault : Json.Fault)

/-- The wording of the error. -/
def BodyError.message : BodyError → String
  | notJson => "Expected request with `Content-Type: application/json`"
  | tooLong => "Failed to buffer the request body: length limit exceeded"
  | malformed => "Failed to parse the request body as JSON"
  | wrongShape path fault =>
    "Failed to deserialize the JSON body into the target type: "
      ++ (if path.isEmpty then "" else Json.pathText path ++ ": ") ++ fault.message

/-- The query of a body that announces JSON. -/
def queryOfBody (bytes : List UInt8) : Except BodyError Query :=
  if bodyLimit < bytes.length then .error .tooLong
  else
    match Document.decodeStart Query.ofDocument (bodyText bytes) with
    | .ok (query, _) => .ok query
    | .error .malformed => .error .malformed
    | .error (.data path fault) => .error (.wrongShape path fault)

end SchemaQuery.Http
