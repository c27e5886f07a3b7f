import SchemaQuery.Plan.Basic
import SchemaQuery.Query.Document

/-!
# Plan documents

Plans are exchanged as JSON, and their text is what identifies a query.  A condition says its
kind in a member `kind` beside its other members, so the whole of it is read before its parts
are; a sort target keeps its kind and its content in two members, in either order.

## Main definitions

* `Plan.toTree`, `Plan.toText` - write a plan.
* `Plan.ofDocument`, `Plan.ofText` - read a plan.
-/

namespace SchemaQuery.Plan

open Json (Document Record Decoded Tree Value Origin offend under)

/-! ## Columns and the queried model -/

namespace Column

/-- A column before it is read. -/
def blank : Column := ⟨"", "", .string⟩

/-- How a column is written in documents. -/
def record (origin : Origin) : Record Column where
  title := "struct ColumnRef"
  members :=
    [("table_alias", .required), ("column_name", .required), ("data_type", .required)]
  blank := blank
  place column name value :=
    match name with
    | "table_alias" => return { column with tableAlias := ← value.toText }
    | "column_name" => return { column with name := ← value.toText }
    | "data_type" => return { column with type := ← value.toVariant FieldType.table origin }
    | _ => return column

/-- Reads a column. -/
def ofDocument (origin : Origin) (d : Document) : Decoded Column :=
  d.toRecord (record origin) origin

/-- The column as JSON. -/
def toTree (c : Column) : Tree :=
  .object
    [("table_alias", .text c.tableAlias), ("column_name", .text c.name),
      ("data_type", .text c.type.name)]

end Column

/-- How the queried model is written in documents. -/
def Root.record : Record Root where
  title := "struct ModelRef"
  members :=
    [("name", .required), ("table", .required), ("alias", .required), ("primary_key", .required)]
  blank := ⟨"", "", "", Column.blank⟩
  place root name value :=
    match name with
    | "name" => return { root with model := ← value.toText }
    | "table" => return { root with table := ← value.toText }
    | "alias" => return { root with tableAlias := ← value.toText }
    | "primary_key" => return { root with primaryKey := ← Column.ofDocument .text value }
    | _ => return root

/-- The queried model as JSON. -/
def Root.toTree (root : Root) : Tree :=
  .object
    [("name", .text root.model), ("table", .text root.table), ("alias", .text root.tableAlias),
      ("primary_key", root.primaryKey.toTree)]

/-- How a column of the result is written in documents. -/
def Selection.record : Record Selection where
  title := "struct SelectExpr"
  members := [("column", .required), ("alias", .required), ("is_aggregate", .defaulted)]
  blank := ⟨Column.blank, "", false⟩
  place selection name value :=
    match name with
    | "column" => return { selection with column := ← Column.ofDocument .text value }
    | "alias" => return { selection with label := ← value.toText }
    | "is_aggregate" => return { selection with isAggregate := ← value.toBool }
    | _ => return selection

/-- The column of the result as JSON. -/
def Selection.toTree (selection : Selection) : Tree :=
  .object
    [("column", selection.column.toTree), ("alias", .text selection.label),
      ("is_aggregate", .bool selection.isAggregate)]

/-! ## Conditions -/

/-- How a typed value is written in documents. -/
def TypedValue.record : Record TypedValue where
  title := "struct TypedValue"
  members := [("value", .required), ("data_type", .required)]
  blank := ⟨.null, .string⟩
  place typed name value :=
    match name with
    | "value" => return { typed with value := ← value.toValue 0 }
    | "data_type" => return { typed with type := ← value.toVariant FieldType.table .memory }
    | _ => return typed

/-- The typed value as JSON. -/
def TypedValue.toTree (typed : TypedValue) : Tree :=
  .object [("value", typed.value.tree), ("data_type", .text typed.type.name)]

namespace Condition

/-- The kinds of conditions. -/
inductive Kind where
  | comparison
  | logical
  deriving DecidableEq, Repr

/-- The kinds by name. -/
def Kind.table : List (String × Kind) := [("comparison", .comparison), ("logical", .logical)]

/-- Separates the kind of a condition from its other members, which are read whole where
`outer` arrays and objects are open. -/
def splitKind (origin : Origin) (outer : Nat) (kind : Option Kind) :
    List (Option String × Document) → Decoded (Kind × List (Option String × Document))
  | [] =>
    match kind with
    | some kind => return (kind, [])
    | none => offend (.missingMember "kind")
  | (none, _) :: _ => .error .malformed
  | (some name, value) :: rest =>
    if name = "kind" then
      if kind.isSome then offend (.duplicateMember "kind")
      else do
        let kind ← value.toIdentifier Kind.table origin
        splitKind origin outer (some kind) rest
    else if value.isDecodable outer then do
      let (kind, others) ← splitKind origin outer kind rest
      return (kind, (some name, value) :: others)
    else .error .malformed

/-- How the members of a comparison other than its kind are written. -/
def comparisonRecord : Record (Column × Operator × Option TypedValue) where
  title := "struct variant FilterExpr::Comparison"
  members := [("left", .required), ("op", .required), ("value", .nullable)]
  blank := (Column.blank, .eq, none)
  place
    | (left, op, typed), name, value =>
      match name with
      | "left" => return (← Column.ofDocument .memory value, op, typed)
      | "op" => return (left, ← value.toVariant Operator.table .memory, typed)
      | "value" =>
        return (left, op, ← value.toOption (Document.toRecord TypedValue.record .memory))
      | _ => return (left, op, typed)

/-- How the members of a logical condition other than its kind are written, given how its nodes
are. -/
def logicalRecord (node : Document → Decoded Condition) :
    Record (Connective × List Condition) where
  title := "struct variant FilterExpr::Logical"
  members := [("op", .required), ("nodes", .required)]
  blank := (.and, [])
  place
    | (op, nodes), name, value =>
      match name with
      | "op" => return (← value.toVariant Connective.table .memory, nodes)
      | "nodes" => return (op, ← value.toList node)
      | _ => return (op, nodes)

/-- The condition with the given members of a comparison. -/
def ofComparison : Column × Operator × Option TypedValue → Condition
  | (left, op, value) => .comparison left op value

/-- The condition with the given members of a logical one. -/
def ofLogical : Connective × List Condition → Condition
  | (op, nodes) => .logical op nodes

/-- Reads a condition that nests less than `bound` conditions, where `outer` arrays and
objects are open. -/
def ofDocumentWithin : (bound : Nat) → Origin → (outer : Nat) → Document → Decoded Condition
  | 0, _, _, _ => .error .malformed
  | bound + 1, origin, outer, d =>
    -- the nodes were held in memory with this document, so their depth is checked already
    let logical := logicalRecord (ofDocumentWithin bound .memory 0)
    match d with
    | .object members => do
      let (kind, others) ← splitKind origin (outer + 1) none members
      match kind with
      | .comparison => return ofComparison (← comparisonRecord.ofMembers others)
      | .logical => return ofLogical (← logical.ofMembers others)
    | .array [] => offend (.missingMember "kind")
    | .array (first :: items) => do
      let kind ← first.toIdentifier Kind.table origin
      if items.all (·.isDecodable (outer + 1)) then
        match kind with
        | .comparison => return ofComparison (← comparisonRecord.ofItems .memory items)
        | .logical => return ofLogical (← logical.ofItems .memory items)
      else .error .malformed
    | d => d.mismatch "internally tagged enum FilterExpr"

/-- Reads a condition where one object, the plan, is open.  Conditions nest no deeper than the
arrays and objects they are written with. -/
def ofDocument (d : Document) : Decoded Condition := ofDocumentWithin (d.depth + 1) .text 1 d

mutual

/-- The condition as JSON. -/
def toTree : Condition → Tree
  | .comparison left op value =>
    .object ([("kind", .text "comparison"), ("left", left.toTree), ("op", .text op.name)]
      ++ optionMember "value" TypedValue.toTree value)
  | .logical op nodes =>
    .object [("kind", .text "logical"), ("op", .text op.sql), ("nodes", .array (toTrees nodes))]

/-- Conditions as JSON, one by one. -/
def toTrees : List Condition → List Tree
  | [] => []
  | node :: rest => node.toTree :: toTrees rest

end

end Condition

/-! ## Grouping and aggregates -/

/-- How a grouping column is written in documents. -/
def groupRecord : Record Column where
  title := "struct GroupExpr"
  members := [("column", .required)]
  blank := Column.blank
  place column name value :=
    match name with
    | "column" => Column.ofDocument .text value
    | _ => return column

/-- A grouping column as JSON. -/
def groupTree (c : Column) : Tree := .object [("column", c.toTree)]

namespace Aggregation

/-- How an aggregate is written in documents. -/
def record (origin : Origin) : Record Aggregation where
  title := "struct AggregateExpr"
  members := [("function", .required), ("column", .nullable), ("alias", .required)]
  blank := ⟨.count, none, ""⟩
  place aggregation name value :=
    match name with
    | "function" =>
      return { aggregation with function := ← value.toVariant AggregateFunction.table origin }
    | "column" =>
      return { aggregation with column := ← value.toOption (Column.ofDocument origin) }
    | "alias" => return { aggregation with label := ← value.toText }
    | _ => return aggregation

/-- The aggregate as JSON. -/
def toTree (a : Aggregation) : Tree :=
  .object ([("function", .text a.function.sql)]
    ++ optionMember "column" Column.toTree a.column
    ++ [("alias", .text a.label)])

end Aggregation

/-! ## Sorts -/

namespace SortTarget

/-- The kinds of sort targets. -/
inductive Kind where
  | column
  | aggregate
  deriving DecidableEq, Repr

/-- The kinds by name. -/
def Kind.table : List (String × Kind) := [("COLUMN", .column), ("AGGREGATE", .aggregate)]

/-- Reads the content of a target of a known kind. -/
def ofContent (kind : Kind) (origin : Origin) (d : Document) : Decoded SortTarget :=
  match kind with
  | .column => return .column (← Column.ofDocument origin d)
  | .aggregate => return .aggregate (← d.toRecord (Aggregation.record origin) origin)

/-- How far a sort target has been read. -/
inductive Progress where
  | nothing
  | kind (k : Kind)
  /-- The content came before the kind and waits for it. -/
  | content (d : Document)
  | both (target : SortTarget)

/-- Reads the members of a sort target in the order of the text. -/
def ofMembers : Progress → List (Option String × Document) → Decoded SortTarget
  | progress, [] =>
    match progress with
    | .both target => return target
    | .kind _ => offend (.missingMember "ref")
    | _ => offend (.missingMember "target")
  | _, (none, _) :: _ => .error .malformed
  | progress, (some name, value) :: rest =>
    if name = "target" then
      match progress with
      | .nothing => do
        let kind ← under (.member name) (value.toVariant Kind.table .text)
        ofMembers (.kind kind) rest
      | .content held => do
        let kind ← under (.member name) (value.toVariant Kind.table .text)
        let target ← ofContent kind .memory held
        ofMembers (.both target) rest
      | _ => offend (.duplicateMember name)
    else if name = "ref" then
      match progress with
      | .nothing =>
        -- four arrays and objects are open: the plan, its list of sorts, the sort and the
        -- target
        if value.isDecodable 4 then ofMembers (.content value) rest else .error .malformed
      | .kind kind => do
        let target ← under (.member name) (ofContent kind .text value)
        ofMembers (.both target) rest
      | _ => offend (.duplicateMember name)
    else ofMembers progress rest

/-- What messages call a sort target. -/
def title : String := "adjacently tagged enum SortTarget"

/-- Reads a sort target from an object, or from an array of its kind and its content.  In an
array the kind is only named, while in an object it may have any form of a choice. -/
def ofDocument : Document → Decoded SortTarget
  | .object members => ofMembers .nothing members
  | .array [] => offend (.wrongLength 0 title)
  | .array (first :: rest) => do
    let kind ← under (.item 0) (first.toIdentifier Kind.table .text)
    match rest with
    | [] => offend (.wrongLength 1 title)
    | second :: rest =>
      let target ← under (.item 1) (ofContent kind .text second)
      if rest.isEmpty then return target else .error .malformed
  | d => d.mismatch title

/-- The sort target as JSON. -/
def toTree : SortTarget → Tree
  | .column c => .object [("target", .text "COLUMN"), ("ref", c.toTree)]
  | .aggregate a => .object [("target", .text "AGGREGATE"), ("ref", a.toTree)]

end SortTarget

/-- How a sort is written in documents. -/
def Ordering.record : Record Ordering where
  title := "struct SortExpr"
  members := [("target", .required), ("direction", .required)]
  blank := ⟨.column Column.blank, .asc⟩
  place ordering name value :=
    match name with
    | "target" => return { ordering with target := ← SortTarget.ofDocument value }
    | "direction" =>
      return { ordering with direction := ← value.toVariant Direction.table .text }
    | _ => return ordering

/-- The sort as JSON. -/
def Ordering.toTree (ordering : Ordering) : Tree :=
  .object [("target", ordering.target.toTree), ("direction", .text ordering.direction.sql)]

/-! ## The plan -/

/-- How a pagination is written in plans, where both numbers have to be given. -/
def paginationRecord : Record Pagination :=
  { Pagination.record with members := [("limit", .required), ("offset", .required)] }

/-- How a plan is written in documents. -/
def record : Record Plan where
  title := "struct QueryPlan"
  members :=
    [("root_model", .required), ("select", .defaulted), ("filters", .nullable),
      ("group_by", .defaulted), ("aggregates", .defaulted), ("sort", .defaulted),
      ("pagination", .required)]
  blank := ⟨⟨"", "", "", Column.blank⟩, [], none, [], [], [], defaultPagination⟩
  place plan name value :=
    match name with
    | "root_model" => return { plan with root := ← value.toRecord Root.record .text }
    | "select" =>
      return { plan with select := ← value.toList (Document.toRecord Selection.record .text) }
    | "filters" => return { plan with filters := ← value.toOption Condition.ofDocument }
    | "group_by" =>
      return { plan with groupBy := ← value.toList (Document.toRecord groupRecord .text) }
    | "aggregates" =>
      return { plan with
        aggregates := ← value.toList (Document.toRecord (Aggregation.record .text) .text) }
    | "sort" =>
      return { plan with sort := ← value.toList (Document.toRecord Ordering.record .text) }
    | "pagination" => return { plan with pagination := ← value.toRecord paginationRecord .text }
    | _ => return plan

/-- Reads a plan. -/
def ofDocument (d : Document) : Decoded Plan := d.toRecord record .text

/-- Reads a plan from its text. -/
def ofText (s : String) : Decoded Plan := Document.decodeText ofDocument s

/-- The plan as JSON.  Empty lists and a filter that is not given are left out. -/
def toTree (plan : Plan) : Tree :=
  .object ([("root_model", plan.root.toTree)]
    ++ listMember "select" Selection.toTree plan.select
    ++ optionMember "filters" Condition.toTree plan.filters
    ++ listMember "group_by" groupTree plan.groupBy
    ++ listMember "aggregates" Aggregation.toTree plan.aggregates
    ++ listMember "sort" Ordering.toTree plan.sort
    ++ [("pagination", plan.pagination.toTree)])

/-- The text of a plan. -/
def toText (plan : Plan) : String := plan.toTree.toText

end SchemaQuery.Plan
