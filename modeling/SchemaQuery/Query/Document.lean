import SchemaQuery.Json.Decode
import SchemaQuery.Json.Writer
import SchemaQuery.Query.Basic

/-!
# Query documents

Queries are exchanged as JSON.  Every part is read straight from the text but the filter: which
kind of filter it is shows only in the set of its keys, so it is read as a free value first.

## Main definitions

* `FilterShape` - the four ways in which the keys of a filter name no kind of filter.
* `Comparison.ofValue`, `Filter.ofValue` - read filters from free values.
* `Query.ofDocument`, `Query.ofText` - read queries.
* `Query.toTree` - writes queries.
-/

namespace SchemaQuery

open Json (Document Record Decoded Tree Value Fault DecodeError offend)

/-! ## Filters -/

/-- Keys that name no kind of filter. -/
inductive FilterShape where
  /-- A connective with other keys beside it. -/
  | connectiveNotAlone
  /-- A field together with connectives. -/
  | fieldWithConnective
  /-- Neither a field nor a connective. -/
  | noKind
  /-- Several connectives. -/
  | severalConnectives
  deriving DecidableEq, Repr

/-- Why such keys are refused. -/
def FilterShape.message : FilterShape → String
  | connectiveNotAlone => "logical filter must contain only one of `and`, `or`, `not`"
  | fieldWithConnective =>
    "ambiguous filter: `field` cannot be combined with `and`, `or`, `not`"
  | noKind => "filter must contain `field` or one of `and`, `or`, `not`"
  | severalConnectives => "ambiguous filter: only one of `and`, `or`, `not` may be present"

/-- Fails because a value is not of the expected kind. -/
def mismatchValue {α : Type} (v : Value) (expected : String) : Decoded α :=
  offend (.wrongType v.tree.found expected)

/-- The text that a value has to be. -/
def textOfValue (v : Value) : Decoded String :=
  match v.view with
  | .text s => .ok s
  | _ => mismatchValue v "a string"

/-- An optional value; `null` stands for none. -/
def optionOfValue (v : Value) : Option Value := if v.isNull then none else some v

namespace Comparison

/-- The members of a comparison in documents. -/
def memberNames : List String := ["field", "op", "value"]

/-- Reads one member into a comparison; no other members are allowed. -/
def place (c : Comparison) (name : String) (v : Value) : Decoded Comparison :=
  match name with
  | "field" => return { c with field := ← textOfValue v }
  | "op" => return { c with op := ← textOfValue v }
  | "value" => return { c with value := optionOfValue v }
  | _ => offend (.unknownMember name memberNames)

/-- Reads a comparison from an object, or from an array of at most its three members in
order. -/
def ofValue (v : Value) : Decoded Comparison :=
  match v.view with
  | .object members => members.foldlM (fun c member => c.place member.1 member.2) {}
  | .array items => do
    let c ← (memberNames.zip items).foldlM (fun c member => c.place member.1 member.2) {}
    if items.length ≤ memberNames.length then return c
    else offend (.wrongLength items.length "fewer elements in array")
  | _ => mismatchValue v "struct Comparison"

/-- The comparison as JSON; a value that is not given is left out. -/
def toTree (c : Comparison) : Tree :=
  .object ([("field", .text c.field), ("op", .text c.op)] ++
    match c.value with
    | some value => [("value", value.tree)]
    | none => [])

end Comparison

namespace Filter

/-- The keys of logical filters. -/
def connectiveKeys : List String := ["and", "or", "not"]

/-- Reads the branches of a logical filter. -/
def branchesOfValue (v : Value) : Decoded (List Comparison) :=
  match v.view with
  | .array items => items.mapM Comparison.ofValue
  | _ => mismatchValue v "a sequence"

/-- Reads a logical filter from its one member. -/
def ofConnective (key : String) (v : Value) : Decoded Filter :=
  match key with
  | "and" => return .and (← branchesOfValue v)
  | "or" => return .or (← branchesOfValue v)
  | _ => return .not (← Comparison.ofValue v)

/-- Reads a filter.  The key `field` marks a comparison, a connective as the only key a logical
filter. -/
def ofValue (v : Value) : Decoded Filter :=
  match v.view with
  | .object members =>
    let keys := members.map (·.1)
    if "field" ∈ keys then
      if (connectiveKeys.any (· ∈ keys)) then
        offend (.rejected FilterShape.fieldWithConnective.message)
      else return .comparison (← Comparison.ofValue v)
    else
      match (connectiveKeys.filter (· ∈ keys)), members with
      | [], _ => offend (.rejected FilterShape.noKind.message)
      | [_], [(key, value)] => ofConnective key value
      | [_], _ => offend (.rejected FilterShape.connectiveNotAlone.message)
      | _, _ => offend (.rejected FilterShape.severalConnectives.message)
  | _ => mismatchValue v "a map"

/-- The filter as JSON. -/
def toTree : Filter → Tree
  | .comparison c => c.toTree
  | .and branches => .object [("and", .array (branches.map (·.toTree)))]
  | .or branches => .object [("or", .array (branches.map (·.toTree)))]
  | .not c => .object [("not", c.toTree)]

/-- Reads a filter where one object, the query, is open. -/
def ofDocument : Document → Decoded Filter
  | .object members => do
    let value ← Document.toValue 1 (.object members)
    ofValue value
  | d => d.mismatch "a map"

end Filter

/-! ## The other clauses -/

/-- How an aggregate is written in documents. -/
def Aggregate.record : Record Aggregate where
  title := "struct Aggregate"
  members := [("fn", .defaulted), ("field", .defaulted), ("alias", .defaulted)]
  blank := {}
  place aggregate name value :=
    match name with
    | "fn" => return { aggregate with function := ← value.toText }
    | "field" => return { aggregate with field := ← value.toOption Document.toText }
    | "alias" => return { aggregate with label := ← value.toText }
    | _ => return aggregate

/-- The aggregate as JSON; a field that is not given is left out. -/
def Aggregate.toTree (aggregate : Aggregate) : Tree :=
  .object ([("fn", .text aggregate.function)]
    ++ (match aggregate.field with
      | some field => [("field", .text field)]
      | none => [])
    ++ [("alias", .text aggregate.label)])

/-- How a sort is written in documents. -/
def SortKey.record : Record SortKey where
  title := "struct Sort"
  members := [("field", .defaulted), ("direction", .defaulted)]
  blank := {}
  place sort name value :=
    match name with
    | "field" => return { sort with field := ← value.toText }
    | "direction" => return { sort with direction := ← value.toText }
    | _ => return sort

/-- The sort as JSON; an empty direction is left out. -/
def SortKey.toTree (sort : SortKey) : Tree :=
  .object ([("field", .text sort.field)] ++
    if sort.direction = "" then [] else [("direction", .text sort.direction)])

/-- How a pagination is written in queries, where both numbers have a default. -/
def Pagination.record : Record Pagination where
  title := "struct Pagination"
  members := [("limit", .defaulted), ("offset", .defaulted)]
  blank := {}
  place pagination name value :=
    match name with
    | "limit" => return { pagination with limit := ← value.toInt64 }
    | "offset" => return { pagination with offset := ← value.toInt64 }
    | _ => return pagination

/-- The pagination as JSON. -/
def Pagination.toTree (pagination : Pagination) : Tree :=
  .object
    [("limit", .ofInt pagination.limit.toInt), ("offset", .ofInt pagination.offset.toInt)]

/-! ## The query -/

/-- A list as a member of an object, left out when it is empty. -/
def listMember {α : Type} (name : String) (write : α → Tree) (items : List α) :
    List (String × Tree) :=
  if items.isEmpty then [] else [(name, .array (items.map write))]

/-- An optional value as a member of an object, left out when there is none. -/
def optionMember {α : Type} (name : String) (write : α → Tree) : Option α → List (String × Tree)
  | some value => [(name, write value)]
  | none => []

namespace Query

/-- How a query is written in documents. -/
def record : Record Query where
  title := "struct Query"
  members :=
    [("model", .defaulted), ("fields", .defaulted), ("filters", .defaulted),
      ("group_by", .defaulted), ("aggregates", .defaulted), ("sort", .defaulted),
      ("pagination", .defaulted)]
  blank := {}
  place query name value :=
    match name with
    | "model" => return { query with model := ← value.toText }
    | "fields" => return { query with fields := ← value.toList Document.toText }
    | "filters" => return { query with filters := ← value.toOption Filter.ofDocument }
    | "group_by" => return { query with groupBy := ← value.toList Document.toText }
    | "aggregates" =>
      return { query with
        aggregates := ← value.toList (Document.toRecord Aggregate.record .text) }
    | "sort" =>
      return { query with sort := ← value.toList (Document.toRecord SortKey.record .text) }
    | "pagination" =>
      return { query with
        pagination := ← value.toOption (Document.toRecord Pagination.record .text) }
    | _ => return query

/-- Reads a query. -/
def ofDocument (d : Document) : Decoded Query := d.toRecord record .text

/-- Reads a query from its text. -/
def ofText (s : String) : Decoded Query := Document.decodeText ofDocument s

/-- The query as JSON.  Empty lists and clauses that are not given are left out. -/
def toTree (query : Query) : Tree :=
  .object ([("model", .text query.model)]
    ++ listMember "fields" .text query.fields
    ++ optionMember "filters" Filter.toTree query.filters
    ++ listMember "group_by" .text query.groupBy
    ++ listMember "aggregates" Aggregate.toTree query.aggregates
    ++ listMember "sort" SortKey.toTree query.sort
    ++ optionMember "pagination" Pagination.toTree query.pagination)

end Query

end SchemaQuery
