/-!
# Media types of request bodies

A body is taken for JSON when its `Content-Type` is `application/json`, or another type of
`application` with the suffix `+json`.  Parameters are allowed but have to be well formed.

## Main definitions

* `MediaType`, `MediaType.parse?` - a media type without its parameters.
* `MediaType.isJson` - whether it announces JSON.
* `announcesJson` - the same for the text of the header.
-/

namespace SchemaQuery.Http

/-- A media type in lower case, its parameters forgotten. -/
structure MediaType where
  type : List Char
  /-- The subtype up to its last plus sign. -/
  subtype : List Char
  /-- What follows the last plus sign of the subtype. -/
  suffix : Option (List Char)
  deriving DecidableEq, Repr

/-- The characters of names in headers. -/
def isTokenChar (c : Char) : Bool :=
  c.isAlphanum || "!#$%&'*+-.^_`|~".toList.contains c

/-- The characters that may stand in a quoted parameter value. -/
def isQuotedChar (c : Char) : Bool := 0x20 ≤ c.toNat && c.toNat < 0x7f

/-- Whether blanks lead to the end or to the next parameter, which is returned. -/
def afterQuoted? : List Char → Option (List Char)
  | [] => some []
  | ' ' :: rest => afterQuoted? rest
  | ';' :: rest => some rest
  | _ => none

/-- Reads a quoted value after its opening quotation mark.  A value has at least one
character, so a quotation mark that comes first belongs to it, and the next one closes it. -/
def afterQuotedValue? : List Char → Option (List Char)
  | first :: rest =>
    match rest.dropWhile fun c => isQuotedChar c && c ≠ '"' with
    | '"' :: after => if isQuotedChar first then afterQuoted? after else none
    | _ => none
  | [] => none

/-- Reads the value of a parameter and returns what follows it: the next parameter or
nothing. -/
def afterValue? (cs : List Char) : Option (List Char) :=
  match cs with
  | '"' :: rest => afterQuotedValue? rest
  | cs =>
    match cs.dropWhile isTokenChar with
    | [] => some []
    | ';' :: after => if (cs.takeWhile isTokenChar).isEmpty then none else some after
    | _ => none

/-- Whether a list of parameters, each `name=value`, is well formed.  The bound is the length
of the list, which every parameter shortens. -/
def areParameters : (bound : Nat) → List Char → Bool
  | _, [] => true
  | 0, _ => false
  | bound + 1, ' ' :: rest => areParameters bound rest
  | bound + 1, cs =>
    match cs.dropWhile isTokenChar with
    | '=' :: rest =>
      !(cs.takeWhile isTokenChar).isEmpty &&
        match afterValue? rest with
        | some after => areParameters bound after
        | none => false
    | _ => false

/-- Splits a subtype at its last plus sign, if one stands after its first character. -/
def splitSuffix (subtype : List Char) : List Char × Option (List Char) :=
  -- from the end, so that the first plus sign met is the last one
  let reversed := subtype.reverse
  match reversed.dropWhile (· ≠ '+') with
  | '+' :: before =>
    if before.isEmpty then (subtype, none)
    else (before.reverse, some (reversed.takeWhile (· ≠ '+')).reverse)
  | _ => (subtype, none)

namespace MediaType

/-- Reads a media type. -/
def parse? (s : String) : Option MediaType :=
  let cs := s.toList.map Char.toLower
  let type := cs.takeWhile isTokenChar
  match cs.dropWhile isTokenChar with
  | '/' :: rest =>
    let subtype := rest.takeWhile isTokenChar
    let parameters :=
      match rest.dropWhile isTokenChar with
      | [] => true
      | ';' :: parameters => !subtype.isEmpty && areParameters parameters.length parameters
      | _ => false
    if type.isEmpty || !parameters then none
    else some ⟨type, (splitSuffix subtype).1, (splitSuffix subtype).2⟩
  | _ => none

/-- Whether the media type announces JSON. -/
def isJson (m : MediaType) : Bool :=
  m.type = "application".toList &&
    (m.subtype = "json".toList || m.suffix = some "json".toList)

end MediaType

/-- Whether a request announces a JSON body. -/
def announcesJson (contentType : Option String) : Bool :=
  match contentType.bind MediaType.parse? with
  | some m => m.isJson
  | none => false

end SchemaQuery.Http
