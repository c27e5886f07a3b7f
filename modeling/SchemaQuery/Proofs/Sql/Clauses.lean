import SchemaQuery.Proofs.Sql.Reading
import SchemaQuery.Proofs.Sql.Selection

/-!
# The clauses of a plan are read back

The text of a plan is cut into lexemes clause by clause, since clauses are separated by spaces
and the items of a list by commas.  The lexemes are those of the statement that was written,
so that the one reading of the text gives back the clauses of the plan: what is selected and
under which labels, the table, the grouping and the order, and whether there is a condition.

## Main definitions

* `Plan.HasPlainNames` - the names that a plan puts into its text are plain.
* `Plan.Outline` - what a text says of a plan besides the tests of its condition.

## Main statements

* `Statement.selects_render` - a statement with plain names is read as it was written.
* `statement_reads_back` - **the text of a plan has one reading, and this gives back the plan's
  clauses.**
-/

namespace SchemaQuery

/-- A column as it is read. -/
def Plan.Column.reference (c : Plan.Column) : Sql.Reference := ⟨c.tableAlias, c.name⟩

namespace Sql

open Json (Value)

/-! ## Items -/

/-- An item of a select list as it is read. -/
def Output.item : Output → Item
  | .column c label => .column c.reference label
  | .aggregate function c label => .aggregate function (c.map (·.reference)) label

/-- What a sort goes by, as it is read. -/
def SortKey.key : SortKey → Key
  | .column c => .column c.reference
  | .label name => .label name

theorem lex_name {s : String} (h : isIdentifier s = true) : lex s = some [word s] :=
  lex_of_scan (scan_identifier h)

theorem lex_qualified {c : Plan.Column} (h : c.HasPlainNames) :
    lex c.qualified = some c.reference.lexemes :=
  lex_of_scan (scan_qualified h)

theorem lex_placeholder (before : Nat) :
    lex (placeholder before) = some [.token (.placeholder (before + 1))] :=
  lex_of_scan (scan_placeholder before)

theorem hasPlainNames_of_names {c : Plan.Column} (h : ∀ name ∈ c.names, isIdentifier name = true) :
    c.HasPlainNames :=
  ⟨h _ (by simp [Plan.Column.names]), h _ (by simp [Plan.Column.names])⟩

/-- **An item of a select list is cut into the lexemes of that item.** -/
theorem Output.lex_render {o : Output} (h : ∀ name ∈ o.names, isIdentifier name = true) :
    lex o.render = some o.item.lexemes := by
  match o with
  | .column c none => exact lex_qualified (hasPlainNames_of_names (by simpa [names] using h))
  | .column c (some label) =>
      have hcolumn : c.HasPlainNames := hasPlainNames_of_names fun name hname =>
        h name (List.mem_append_left _ hname)
      have hlabel : lex label = some [word label] := lex_name (h label (by simp [names]))
      have has : lex " AS " = some [word "AS"] := rfl
      have hall := lex_separated (lex_qualified hcolumn) has hlabel (by decide)
      rwa [List.append_assoc] at hall
  | .aggregate function (some c) label =>
      have hcolumn : c.HasPlainNames := hasPlainNames_of_names fun name hname =>
        h name (by simp [names, hname])
      have hlabel : lex label = some [word label] := lex_name (h label (by simp [names]))
      have hfunction : lex function.sql = some [word function.sql] := by cases function <;> rfl
      have hopening : lex "(" = some [.token .opening] := rfl
      have hclosing : lex ") AS " = some [.token .closing, word "AS"] := rfl
      have hcall := lex_separated hfunction hopening (lex_qualified hcolumn) (by decide)
      have hall := lex_separated hcall hclosing hlabel (by decide)
      rwa [List.append_assoc] at hall
  | .aggregate function none label =>
      have hlabel : lex label = some [word label] := lex_name (h label (by simp [names]))
      have hfunction : lex function.sql = some [word function.sql] := by cases function <;> rfl
      have hrows : lex "(*) AS "
          = some [.token .opening, .star, .token .closing, word "AS"] := rfl
      exact lex_separated hfunction hrows hlabel (by decide)

/-- An item of an order list is cut into the lexemes of that item. -/
theorem lex_order {key : SortKey} (h : ∀ name ∈ key.names, isIdentifier name = true)
    (direction : Direction) :
    lex (key.render ++ " " ++ direction.sql) = some (orderLexemes (key.key, direction)) := by
  have hspace : lex " " = some [] := rfl
  have hdirection : lex direction.sql = some [word direction.sql] := by cases direction <;> rfl
  have hkey : lex key.render = some key.key.lexemes := by
    cases key with
    | column c => exact lex_qualified (hasPlainNames_of_names h)
    | label name => exact lex_name (h name (List.mem_singleton_self name))
  have hall := lex_separated hkey hspace hdirection (by decide)
  rwa [List.append_nil] at hall

theorem lex_table (name : TableName) : lex name.text = some (tableLexemes name) := by
  obtain ⟨schema, table⟩ := name
  cases schema with
  | none => exact lex_name table.valid
  | some schema =>
      have hpoint : lex "." = some [.token .point] := rfl
      exact lex_separated (lex_name schema.valid) hpoint (lex_name table.valid) (by decide)

/-! ## Clauses -/

/-- Texts are cut into lexemes one after another. -/
def LexesTo (items : List String) (xs : List Lexeme) : Prop :=
  ∃ parts, List.Forall₂ (fun s part => lex s = some part) items parts ∧ parts.flatten = xs

theorem LexesTo.nil : LexesTo [] [] := ⟨[], .nil, rfl⟩

theorem LexesTo.single {s : String} {xs : List Lexeme} (h : lex s = some xs) : LexesTo [s] xs :=
  ⟨[xs], .cons h .nil, List.flatten_singleton⟩

theorem LexesTo.append {items items' : List String} {xs ys : List Lexeme} (h : LexesTo items xs)
    (h' : LexesTo items' ys) : LexesTo (items ++ items') (xs ++ ys) := by
  obtain ⟨parts, hparts, rfl⟩ := h
  obtain ⟨parts', hparts', rfl⟩ := h'
  exact ⟨parts ++ parts', List.rel_append hparts hparts', List.flatten_append⟩

/-- Clauses are cut one after another. -/
theorem LexesTo.lex_intercalate {items : List String} {xs : List Lexeme} (h : LexesTo items xs) :
    lex (" ".intercalate items) = some xs := by
  obtain ⟨parts, hparts, rfl⟩ := h
  have hspace : lex " " = some [] := rfl
  have hflatten : ([] : List Lexeme).intercalate parts = parts.flatten := by
    clear hparts
    induction parts with
    | nil => rfl
    | cons part rest ih =>
        cases rest with
        | nil => simp
        | cons next rest =>
            rw [List.intercalate_cons_cons, ih, List.append_nil]
            rfl
  rw [Sql.lex_intercalate hspace (by decide) hparts, hflatten]

theorem lex_list {items : List String} {parts : List (List Lexeme)}
    (h : List.Forall₂ (fun s part => lex s = some part) items parts) :
    lex (", ".intercalate items) = some (separated parts) := by
  have hcomma : lex ", " = some [.comma] := rfl
  exact lex_intercalate hcomma (by decide) h

theorem lexesTo_listClause {text keyword : String} {items : List String}
    {parts : List (List Lexeme)} (htext : lex text = some [word keyword, word "BY"])
    (hlast : LoneLast text) (h : List.Forall₂ (fun s part => lex s = some part) items parts) :
    LexesTo (listClause text items) (clauseLexemes keyword parts) := by
  cases h with
  | nil => exact .nil
  | cons hs hrest => exact .single (lex_after htext hlast (lex_list (.cons hs hrest)))

variable {α : Type}

theorem lex_selectClause {s : Statement α}
    (h : ∀ o ∈ s.outputs, ∀ name ∈ o.names, isIdentifier name = true) :
    lex s.selectClause = some (word "SELECT" :: itemsLexemes (s.outputs.map Output.item)) := by
  have hselect : lex "SELECT " = some [word "SELECT"] := rfl
  unfold Statement.selectClause itemsLexemes
  cases houtputs : s.outputs with
  | nil => rfl
  | cons o os =>
      have hitems : List.Forall₂ (fun s part => lex s = some part)
          ((o :: os).map Output.render) (((o :: os).map Output.item).map Item.lexemes) := by
        rw [List.map_map, List.forall₂_map_left_iff, List.forall₂_map_right_iff,
          List.forall₂_same]
        exact fun o ho => Output.lex_render (h o (houtputs ▸ ho))
      exact lex_after hselect (by decide) (lex_list hitems)

theorem lex_limitClause (before : Nat) :
    lex (Statement.limitClause before)
      = some [word "LIMIT", .token (.placeholder (before + 1)), word "OFFSET",
          .token (.placeholder (before + 2))] := by
  have hlimit : lex "LIMIT " = some [word "LIMIT"] := rfl
  have hoffset : lex " OFFSET " = some [word "OFFSET"] := rfl
  have hfirst := lex_after hlimit (by decide) (lex_placeholder before)
  exact lex_separated hfirst hoffset (lex_placeholder (before + 1)) (by decide)

/-! ## Statements -/

/-- A statement as it is read, given the name of its table and the reading of its condition. -/
def Statement.select (s : Statement α) (table : TableName) (condition : Option Expr) : Select where
  items := s.outputs.map Output.item
  table := table
  tableAlias := s.tableAlias
  condition := condition
  groupBy := s.groupBy.map (·.reference)
  orderBy := s.orderBy.map fun (key, direction) => (key.key, direction)
  limit := s.conditionValues.length + 1
  offset := s.conditionValues.length + 2

/-- The names of a statement outside of its condition are plain. -/
structure Statement.HasPlainNames (s : Statement α) : Prop where
  outputs : ∀ o ∈ s.outputs, ∀ name ∈ o.names, isIdentifier name = true
  tableAlias : isIdentifier s.tableAlias = true
  groupBy : ∀ c ∈ s.groupBy, c.HasPlainNames
  orderBy : ∀ item ∈ s.orderBy, ∀ name ∈ item.1.names, isIdentifier name = true

/-- **A statement with plain names is read as it was written**, if its condition is. -/
theorem Statement.selects_render {s : Statement α} (names : s.HasPlainNames) {table : TableName}
    (htable : table.text = s.table) {clause : List Lexeme} {condition : Option Expr}
    (hlex : LexesTo s.whereClause clause) (hreads : ReadsClause clause condition) :
    ∃ xs, lex s.render = some xs ∧ Selects xs (s.select table condition) := by
  have hfrom : lex ("FROM " ++ s.table ++ " " ++ s.tableAlias)
      = some (word "FROM" :: (tableLexemes table ++ [word s.tableAlias])) := by
    have hkeyword : lex "FROM " = some [word "FROM"] := rfl
    have hspace : lex " " = some [] := rfl
    have hname := lex_after hkeyword (by decide) (htable ▸ lex_table table)
    have hall := lex_separated hname hspace (lex_name names.tableAlias) (by decide)
    rwa [List.append_nil] at hall
  have hgroup : LexesTo (listClause "GROUP BY " (s.groupBy.map (·.qualified)))
      (clauseLexemes "GROUP" ((s.groupBy.map (·.reference)).map Reference.lexemes)) := by
    refine lexesTo_listClause rfl (by decide) ?_
    rw [List.map_map, List.forall₂_map_left_iff, List.forall₂_map_right_iff, List.forall₂_same]
    exact fun c hc => lex_qualified (names.groupBy c hc)
  have horder : LexesTo
      (listClause "ORDER BY "
        (s.orderBy.map fun (key, direction) => key.render ++ " " ++ direction.sql))
      (clauseLexemes "ORDER"
        ((s.orderBy.map fun (key, direction) => (key.key, direction)).map orderLexemes)) := by
    refine lexesTo_listClause rfl (by decide) ?_
    rw [List.map_map, List.forall₂_map_left_iff, List.forall₂_map_right_iff, List.forall₂_same]
    exact fun item hitem => lex_order (names.orderBy item hitem) item.2
  have hhead := (LexesTo.single (lex_selectClause names.outputs)).append (.single hfrom)
  have hbody := (((hhead.append hlex).append hgroup).append horder).append
    (.single (lex_limitClause s.conditionValues.length))
  have hsemicolon : lex ";" = some [.semicolon] := rfl
  refine ⟨_, lex_before hbody.lex_intercalate hsemicolon rfl, ?_⟩
  have hselects : Selects ((s.select table condition).lexemes clause) (s.select table condition) :=
    .select _ hreads
  convert hselects using 1
  simp [Select.lexemes, Select.fromGroup, Select.fromOrder, Select.limitLexemes, select]

end Sql

/-! ## Plans -/

/-- The name that a sort puts into the text of a plan is plain. -/
def Plan.SortTarget.HasPlainNames : Plan.SortTarget → Prop
  | .column c => c.HasPlainNames
  | .aggregate a => isIdentifier a.label = true

instance (target : Plan.SortTarget) : Decidable target.HasPlainNames :=
  match target with
  | .column c => inferInstanceAs (Decidable c.HasPlainNames)
  | .aggregate a => inferInstanceAs (Decidable (isIdentifier a.label = true))

/-- The names that a plan puts into its text are plain; that of the table may have a schema. -/
structure Plan.HasPlainNames (plan : Plan) : Prop where
  table : ∃ name : TableName, name.text = plan.root.table
  tableAlias : isIdentifier plan.root.tableAlias = true
  select : ∀ s ∈ plan.select, s.column.HasPlainNames ∧ isIdentifier s.label = true
  filters : ∀ leaf ∈ plan.leaves, leaf.column.HasPlainNames
  groupBy : ∀ c ∈ plan.groupBy, c.HasPlainNames
  aggregates : ∀ a ∈ plan.aggregates,
    (∀ c ∈ a.column, c.HasPlainNames) ∧ isIdentifier a.label = true
  sort : ∀ s ∈ plan.sort, s.target.HasPlainNames

/-- What the text of a plan says of it besides the tests of its condition. -/
structure Plan.Outline where
  items : List Sql.Item
  table : String
  tableAlias : String
  isFiltered : Bool
  groupBy : List Sql.Reference
  orderBy : List (Sql.Key × Direction)
  deriving DecidableEq

/-- The columns that a plan selects, each with its label where that is not its name; without
any, those that it groups by. -/
def Plan.selectedItems (plan : Plan) : List Sql.Item :=
  if plan.select = [] then plan.groupBy.map fun c => .column c.reference none
  else plan.select.map fun s =>
    .column s.column.reference (if s.label = s.column.name then none else some s.label)

/-- The aggregates of a plan. -/
def Plan.aggregateItems (plan : Plan) : List Sql.Item :=
  plan.aggregates.map fun a => .aggregate a.function (a.column.map (·.reference)) a.label

/-- Whether an item is a column. -/
def Sql.Item.isColumn : Sql.Item → Bool
  | .column _ _ => true
  | .aggregate _ _ _ => false

/-- The selected columns and the aggregates of a plan can be told from each other. -/
theorem Plan.filter_isColumn (plan : Plan) :
    (plan.selectedItems ++ plan.aggregateItems).filter Sql.Item.isColumn = plan.selectedItems ∧
      (plan.selectedItems ++ plan.aggregateItems).filter (!·.isColumn) = plan.aggregateItems := by
  have hselected : ∀ item ∈ plan.selectedItems, item.isColumn = true := by
    intro item hitem
    unfold selectedItems at hitem
    split at hitem <;> obtain ⟨_, -, rfl⟩ := List.mem_map.mp hitem <;> rfl
  have haggregate : ∀ item ∈ plan.aggregateItems, item.isColumn = false := by
    intro item hitem
    obtain ⟨_, -, rfl⟩ := List.mem_map.mp hitem
    rfl
  rw [List.filter_append, List.filter_append, List.filter_eq_self.mpr hselected,
    List.filter_eq_nil_iff.mpr fun item hitem => by simp [haggregate item hitem],
    List.filter_eq_nil_iff.mpr fun item hitem => by simp [hselected item hitem],
    List.filter_eq_self.mpr fun item hitem => by simp [haggregate item hitem]]
  simp

/-- What a plan sorts by. -/
def Plan.SortTarget.key : Plan.SortTarget → Sql.Key
  | .column c => .column c.reference
  | .aggregate a => .label a.label

/-- The outline of a plan. -/
def Plan.outline (plan : Plan) : Outline where
  items := plan.selectedItems ++ plan.aggregateItems
  table := plan.root.table
  tableAlias := plan.root.tableAlias
  isFiltered := plan.filters.isSome
  groupBy := plan.groupBy.map (·.reference)
  orderBy := plan.sort.map fun s => (s.target.key, s.direction)

namespace Sql

open Json (Value)

/-- The outline of a statement as it was read. -/
def Select.outline (s : Select) : Plan.Outline where
  items := s.items
  table := s.table.text
  tableAlias := s.tableAlias
  isFiltered := s.condition.isSome
  groupBy := s.groupBy
  orderBy := s.orderBy

theorem names_of_hasPlainNames {c : Plan.Column} (h : c.HasPlainNames) :
    ∀ name ∈ c.names, isIdentifier name = true :=
  List.forall_mem_cons.mpr ⟨h.1, List.forall_mem_singleton.mpr h.2⟩

/-- The statement of a plan with plain names has plain names. -/
theorem hasPlainNames_statement {plan : Plan} (names : plan.HasPlainNames)
    (c : Option (Condition Value)) : (statement plan c).HasPlainNames where
  outputs := by
    intro o ho
    rcases List.mem_append.mp ho with hcolumn | haggregate
    · split at hcolumn
      · obtain ⟨g, hg, rfl⟩ := List.mem_map.mp hcolumn
        intro name hname
        exact names_of_hasPlainNames (names.groupBy g hg) name (by simpa [Output.names] using hname)
      · obtain ⟨s, hs, rfl⟩ := List.mem_map.mp hcolumn
        obtain ⟨hcolumn, hlabel⟩ := names.select s hs
        intro name hname
        rcases List.mem_append.mp hname with hname | hname
        · exact names_of_hasPlainNames hcolumn name hname
        · split at hname
          · cases hname
          · exact List.mem_singleton.mp hname ▸ hlabel
    · obtain ⟨a, ha, rfl⟩ := List.mem_map.mp haggregate
      obtain ⟨hcolumn, hlabel⟩ := names.aggregates a ha
      intro name hname
      rcases List.mem_append.mp hname with hname | hname
      · cases hargument : a.column with
        | none =>
            rw [hargument] at hname
            cases hname
        | some d =>
            rw [hargument] at hname
            exact names_of_hasPlainNames (hcolumn d hargument) name hname
      · exact List.mem_singleton.mp hname ▸ hlabel
  tableAlias := names.tableAlias
  groupBy := names.groupBy
  orderBy := by
    intro item hitem
    obtain ⟨s, hs, rfl⟩ := List.mem_map.mp hitem
    have hsort := names.sort s hs
    obtain ⟨target, direction⟩ := s
    cases target with
    | column c => exact names_of_hasPlainNames hsort
    | aggregate a => exact List.forall_mem_singleton.mpr hsort

/-- The condition clause of a plan is there when the plan has a filter, and can be read. -/
theorem exists_readsClause {plan : Plan} {c : Option (Condition Value)}
    (hc : conditionOf plan.filters = .ok c) (names : plan.HasPlainNames) :
    ∃ clause condition, LexesTo (statement plan c).whereClause clause ∧
      ReadsClause clause condition ∧ condition.isSome = plan.filters.isSome := by
  rcases conditionOf_eq_ok_iff.mp hc with ⟨hnone, rfl⟩ | ⟨f, d, hsome, hd, rfl⟩
  · exact ⟨[], none, .nil, .absent, by rw [hnone]; rfl⟩
  · have hleaves : ∀ leaf ∈ f.leaves, leaf.column.HasPlainNames := by
      have hfilters := names.filters
      rwa [Plan.leaves, hsome] at hfilters
    obtain ⟨e, hreading, -, -⟩ := readsAs_render hd hleaves 0
    obtain ⟨ts, hscan, hreads⟩ := hreading.single .or
    have hwhere : lex "WHERE " = some [word "WHERE"] := rfl
    exact ⟨_, some e, .single (lex_after hwhere (by decide) (lex_of_scan hscan)), .given hreads,
      by rw [hsome]; rfl⟩

/-- The outline of a plan is that of its statement as it is read. -/
theorem outline_select {plan : Plan} {c : Option (Condition Value)} {table : TableName}
    {condition : Option Expr} (htable : table.text = plan.root.table)
    (hcondition : condition.isSome = plan.filters.isSome) :
    ((statement plan c).select table condition).outline = plan.outline := by
  have hitems : (outputs plan).map Output.item = plan.selectedItems ++ plan.aggregateItems := by
    unfold outputs Plan.selectedItems Plan.aggregateItems
    split <;> simp [Output.item, Output.ofSelection, Function.comp_def]
  have horder : (orderKeys plan).map (fun (key, direction) => (key.key, direction))
      = plan.sort.map fun s => (s.target.key, s.direction) := by
    rw [orderKeys, List.map_map]
    refine List.map_congr_left fun s _ => ?_
    obtain ⟨target, direction⟩ := s
    cases target <;> rfl
  rw [Select.outline, Plan.outline, ← hitems, ← horder, ← htable, ← hcondition]
  rfl

/-- The text of a plan with plain names is read as a statement with the plan's outline, and
the last two parameters are bound to its limit and its offset. -/
theorem exists_selects_of_emit {plan : Plan} {e : Emitted} (built : emit plan = .ok e)
    (names : plan.HasPlainNames) :
    ∃ lexemes s, lex e.sql = some lexemes ∧ Selects lexemes s ∧ s.outline = plan.outline ∧
      s.limit + 1 = e.params.length ∧ s.offset = e.params.length := by
  obtain ⟨-, c, hc, rfl⟩ := emit_eq_ok_iff.mp built
  obtain ⟨clause, condition, hlex, hreads, hsome⟩ := exists_readsClause hc names
  obtain ⟨table, htable⟩ := names.table
  obtain ⟨lexemes, hlexemes, hselects⟩ :=
    (statement plan c).selects_render (hasPlainNames_statement names c) htable hlex hreads
  refine ⟨lexemes, _, hlexemes, hselects, outline_select htable hsome, ?_, ?_⟩ <;>
    simp [Statement.select, Statement.values]

/-- **The text of a plan loses none of its clauses.**  Where the names of a plan are plain,
its text falls into lexemes that have exactly one reading as a statement.  What this statement
selects, its table, its grouping and its order are those of the plan; it has a condition just
when the plan has a filter, and it selects everything just when the plan names nothing to
select; and the last two parameters are bound to its limit and its offset.  So plans of equal
text agree in all of this. -/
theorem statement_reads_back {plan : Plan} {e : Emitted} (built : emit plan = .ok e)
    (names : plan.HasPlainNames) :
    ∃ lexemes s, lex e.sql = some lexemes ∧ Selects lexemes s ∧
      (∀ s', Selects lexemes s' → s' = s) ∧ s.outline = plan.outline ∧
      (s.items = [] ↔ plan.select = [] ∧ plan.groupBy = [] ∧ plan.aggregates = []) ∧
      s.limit + 1 = e.params.length ∧ s.offset = e.params.length ∧
      ∀ plan' e', emit plan' = .ok e' → plan'.HasPlainNames → e'.sql = e.sql →
        plan'.outline = plan.outline ∧ plan'.selectedItems = plan.selectedItems ∧
          plan'.aggregateItems = plan.aggregateItems := by
  obtain ⟨lexemes, s, hlexemes, hselects, houtline, hlimit, hoffset⟩ :=
    exists_selects_of_emit built names
  refine ⟨lexemes, s, hlexemes, hselects, fun s' hs' => hs'.unique hselects, houtline, ?_, hlimit,
    hoffset, ?_⟩
  · have hitems : s.items = plan.selectedItems ++ plan.aggregateItems :=
      congrArg Plan.Outline.items houtline
    rw [hitems, List.append_eq_nil_iff, Plan.selectedItems, Plan.aggregateItems]
    split <;> simp_all
  · intro plan' e' built' names' hsql
    obtain ⟨lexemes', s', hlexemes', hselects', houtline', -, -⟩ :=
      exists_selects_of_emit built' names'
    -- equal texts have the same lexemes, and these have one reading
    obtain rfl : lexemes = lexemes' := by
      rw [hsql, hlexemes] at hlexemes'
      exact Option.some.inj hlexemes'
    have hsame : plan'.outline = plan.outline := by
      rw [← houtline, ← houtline', hselects'.unique hselects]
    have hitems : plan'.selectedItems ++ plan'.aggregateItems
        = plan.selectedItems ++ plan.aggregateItems := congrArg Plan.Outline.items hsame
    refine ⟨hsame, ?_, ?_⟩
    · rw [← plan'.filter_isColumn.1, hitems, plan.filter_isColumn.1]
    · rw [← plan'.filter_isColumn.2, hitems, plan.filter_isColumn.2]

/-! ## Names that are keywords -/

namespace Keywords

/-- A column of a table whose alias is a keyword. -/
def column (name : String) : Plan.Column := ⟨"WHERE", name, .string⟩

/-- A plan all of whose names are spelled like words of the language. -/
def plan : Plan where
  root := ⟨"m", "SELECT.FROM", "WHERE", column "id"⟩
  select := [⟨column "AS", "AS", false⟩, ⟨column "FROM", "AS", false⟩, ⟨column "AS", "AS", false⟩]
  filters := some (.comparison (column "NOT") .between (Nested.range "a" "b"))
  groupBy := [column "GROUP"]
  aggregates := [⟨.count, none, "COUNT"⟩, ⟨.max, some (column "ORDER"), "LIMIT"⟩]
  sort := [⟨.aggregate ⟨.count, none, "ASC"⟩, .desc⟩, ⟨.column (column "BY"), .asc⟩]
  pagination := Plan.defaultPagination

end Keywords

/-- No word of the language is taken for a keyword where it is a name. -/
theorem statement_reads_back_keywords :
    Keywords.plan.HasPlainNames ∧ ∃ e lexemes s, emit Keywords.plan = .ok e ∧
      lex e.sql = some lexemes ∧ Selects lexemes s ∧ (∀ s', Selects lexemes s' → s' = s) ∧
      s.outline =
        { items :=
            [.column ⟨"WHERE", "AS"⟩ none, .column ⟨"WHERE", "FROM"⟩ (some "AS"),
              .column ⟨"WHERE", "AS"⟩ none, .aggregate .count none "COUNT",
              .aggregate .max (some ⟨"WHERE", "ORDER"⟩) "LIMIT"]
          table := "SELECT.FROM"
          tableAlias := "WHERE"
          isFiltered := true
          groupBy := [⟨"WHERE", "GROUP"⟩]
          orderBy := [(.label "ASC", .desc), (.column ⟨"WHERE", "BY"⟩, .asc)] } ∧
      s.limit = 3 ∧ s.offset = 4 := by
  have names : Keywords.plan.HasPlainNames :=
    { table := ⟨⟨some ⟨"SELECT", by decide⟩, ⟨"FROM", by decide⟩⟩, rfl⟩
      tableAlias := by decide
      select := by decide
      filters := by decide
      groupBy := by decide
      aggregates := by decide
      sort := by decide }
  have built : ∃ e, emit Keywords.plan = .ok e := ⟨_, rfl⟩
  obtain ⟨e, he⟩ := built
  obtain ⟨lexemes, s, hlex, hselects, hunique, houtline, -, hlimit, hoffset, -⟩ :=
    statement_reads_back he names
  have hparams : e.params.length = 4 := by
    rw [params_eq he]
    rfl
  exact ⟨names, e, lexemes, s, he, hlex, hselects, hunique, houtline, by omega, by omega⟩

end Sql

end SchemaQuery
