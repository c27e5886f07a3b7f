import SchemaQuery.Proofs.Plan.Typing
import SchemaQuery.Proofs.Sql.Clauses
import SchemaQuery.Proofs.Translation.Names

/-!
# Sorting by a label

A sort by an aggregate is written as the bare label of the aggregate.  Names are written
without quotes, a server reads such names in lower case, and it looks a bare name up among the
names of the output columns.  So the label finds its aggregate just when no other output
column has that name in any letter case.

Validation compares labels letter by letter, with each other and with the fields of the model.
What it excludes is therefore a repeated label and a label that is spelled like a field, and
no more: two labels that differ in letter case alone pass, and a sort by either of them finds
both.

## Main definitions

* `Sql.Select.denoted` - the output columns that a bare name denotes.
* `Query.Distinguishes` - no other output column of a query has a label's name in any letter
  case.

## Main statements

* `Plan.hasPlainNames_of_accepted` - the plan of an accepted query has plain names.
* `Plan.denoted_label_iff` - what the label of an aggregate denotes in the text of a plan.
* `sort_label_denotes_iff` - **a sort by a label denotes its aggregate alone exactly when the
  query distinguishes the label.**
-/

namespace SchemaQuery

open Outcome

/-! ## The names of an accepted plan -/

theorem isIdentifier_rootAlias : isIdentifier Plan.rootAlias = true := by decide

/-- A field has a plain name, and so has the table that it is qualified with. -/
theorem Field.hasPlainNames_column (f : Field) : f.column.HasPlainNames :=
  ⟨isIdentifier_rootAlias, f.name.valid⟩

namespace Plan

variable {m : Model}

/-- The names of a column that was looked up are the alias of the table and a field. -/
theorem hasPlainNames_of_columnOf {name : String} {c : Column} (h : columnOf m name = .ok c) :
    c.HasPlainNames := by
  obtain ⟨f, -, rfl⟩ := columnOf_eq_ok_iff.mp h
  exact f.hasPlainNames_column

theorem hasPlainNames_of_conditionOf {filter : Filter} {g : Condition}
    (h : conditionOf m filter = .ok g) : ∀ leaf ∈ g.leaves, leaf.column.HasPlainNames := by
  obtain ⟨nodes, hnodes, hleaves⟩ := leaves_of_conditionOf h
  intro leaf hleaf
  obtain ⟨node, hnode, hleaf⟩ := Condition.mem_leavesOf.mp (hleaves ▸ hleaf)
  obtain ⟨c, -, hc⟩ := exists_of_mem_mapM hnodes hnode
  obtain ⟨f, op, -, -, rfl⟩ := comparisonOf_eq_ok_iff.mp hc
  obtain rfl := List.mem_singleton.mp hleaf
  exact f.hasPlainNames_column

/-- **The plan of an accepted query has plain names**, those of the model by the schema and
those of the aggregates by validation. -/
theorem hasPlainNames_of_accepted {registry : Registry} {q : Query} {plan : Plan}
    (accepted : q.validate registry = .ok ()) (hplan : ofQuery registry q = .ok plan) :
    plan.HasPlainNames := by
  obtain ⟨-, m, hm, -, -, -, haggregates, -, -⟩ := validate_eq_ok_iff.mp accepted
  obtain ⟨m', hm', hroot, hselect, hfilters, hgroupBy, haggregated, hsort, -⟩ :=
    ofQuery_eq_ok_iff.mp hplan
  obtain rfl : m = m' := Option.some.inj (hm.symm.trans hm')
  obtain ⟨hfree, -, -⟩ := Validation.checkAggregates_eq_ok_iff.mp haggregates
  obtain ⟨key, -, hroot⟩ := rootOf_eq_ok_iff.mp hroot
  have hlabel : ∀ b ∈ plan.aggregates, isIdentifier b.label = true := by
    intro b hb
    obtain ⟨a, ha, hb⟩ := exists_of_mem_mapM haggregated hb
    rw [(aggregationOf_spec hb).1]
    exact (hfree a ha).1.identifier
  refine ⟨⟨m.table, hroot ▸ rfl⟩, hroot ▸ isIdentifier_rootAlias, ?_, ?_, ?_, ?_, ?_⟩
  · intro s hs
    obtain ⟨name, -, hs⟩ := exists_of_mem_mapM hselect hs
    obtain ⟨f, hf, rfl⟩ := selectionOf_eq_ok_iff.mp hs
    exact ⟨f.hasPlainNames_column, Model.key_of_field? hf ▸ f.name.valid⟩
  · intro leaf hleaf
    rcases optional_eq_ok_iff.mp hfilters with ⟨-, hnone⟩ | ⟨filter, g, -, hg, hsome⟩
    · rw [leaves, hnone] at hleaf
      cases hleaf
    · rw [leaves, hsome] at hleaf
      exact hasPlainNames_of_conditionOf hg leaf hleaf
  · intro c hc
    obtain ⟨name, -, hc⟩ := exists_of_mem_mapM hgroupBy hc
    exact hasPlainNames_of_columnOf hc
  · intro b hb
    refine ⟨fun c hc => ?_, hlabel b hb⟩
    obtain ⟨a, -, hb⟩ := exists_of_mem_mapM haggregated hb
    obtain ⟨-, hcolumn, -, -⟩ := aggregationOf_eq_ok_iff.mp hb
    rcases optional_eq_ok_iff.mp hcolumn with ⟨-, hnone⟩ | ⟨name, d, -, hd, hsome⟩
    · rw [hnone] at hc
      cases hc
    · obtain rfl : d = c := Option.some.inj (hsome.symm.trans hc)
      exact hasPlainNames_of_columnOf hd
  · intro o ho
    obtain ⟨s, -, ho⟩ := exists_of_mem_mapM hsort ho
    obtain ⟨-, htarget⟩ := orderingOf_eq_ok_iff.mp ho
    rcases sortTargetOf_eq_ok_iff.mp htarget with ⟨f, -, htarget⟩ | ⟨-, a, ha, htarget⟩
    · rw [htarget]
      exact f.hasPlainNames_column
    · rw [htarget]
      exact hlabel a (List.mem_of_find?_eq_some ha)

end Plan

/-! ## Output columns -/

namespace Sql

/-- The name of an output column. -/
def Item.outputName : Item → String
  | .column c none => c.name
  | .column _ (some label) => label
  | .aggregate _ _ label => label

/-- The output columns that a bare name denotes.  Neither the name nor those of the columns are
quoted, so letter case is not seen. -/
def Select.denoted (s : Select) (name : String) : List Item :=
  s.items.filter fun item => lowerCase item.outputName = lowerCase name

end Sql

namespace Plan

/-- An aggregate as an item of a select list. -/
def Aggregation.item (a : Aggregation) : Sql.Item :=
  .aggregate a.function (a.column.map (·.reference)) a.label

/-- A bare label denotes its aggregate alone exactly when no other aggregate and no column of
the result has its name in any letter case. -/
theorem denoted_label_iff {plan : Plan} (hdistinct : (plan.aggregates.map (·.label)).Nodup)
    {s : Sql.Select} (hitems : s.items = plan.selectedItems ++ plan.aggregateItems)
    {a : Aggregation} (ha : a ∈ plan.aggregates) :
    s.denoted a.label = [a.item] ↔
      (∀ b ∈ plan.aggregates, lowerCase b.label = lowerCase a.label → b.label = a.label) ∧
        ∀ item ∈ plan.selectedItems, lowerCase item.outputName ≠ lowerCase a.label := by
  have haggregates : plan.aggregateItems = plan.aggregates.map Aggregation.item := rfl
  constructor
  · intro hdenoted
    have honly : ∀ item ∈ s.items, lowerCase item.outputName = lowerCase a.label →
        item = a.item := by
      intro item hitem hname
      have hmem : item ∈ s.denoted a.label := List.mem_filter.mpr ⟨hitem, by simpa using hname⟩
      rw [hdenoted] at hmem
      exact List.mem_singleton.mp hmem
    refine ⟨fun b hb hname => ?_, fun item hitem hname => ?_⟩
    · have hsame : b.item = a.item := honly b.item
        (hitems ▸ List.mem_append_right _ (haggregates ▸ List.mem_map_of_mem hb)) hname
      exact congrArg Sql.Item.outputName hsame
    · have hcolumn : item.isColumn = true := by
        rw [← plan.filter_isColumn.1] at hitem
        exact (List.mem_filter.mp hitem).2
      rw [honly item (hitems ▸ List.mem_append_left _ hitem) hname] at hcolumn
      cases hcolumn
  · rintro ⟨hlabels, hcolumns⟩
    have hnone : plan.selectedItems.filter
        (fun item => lowerCase item.outputName = lowerCase a.label) = [] :=
      List.filter_eq_nil_iff.mpr fun item hitem => by simpa using hcolumns item hitem
    have hone : plan.aggregateItems.filter
        (fun item => lowerCase item.outputName = lowerCase a.label) = [a.item] := by
      have hsame : plan.aggregates.filter (fun b => lowerCase b.label = lowerCase a.label)
          = plan.aggregates.filter (·.label = a.label) :=
        List.filter_congr fun b hb => decide_eq_decide.mpr ⟨hlabels b hb, fun h => by rw [h]⟩
      rw [haggregates, List.filter_map]
      exact congrArg (List.map Aggregation.item)
        (hsame.trans (filter_label_eq_singleton hdistinct ha))
    rw [Sql.Select.denoted, hitems, List.filter_append, hnone, hone, List.nil_append]

end Plan

/-! ## Queries -/

namespace Query

/-- The fields that a query selects: those it projects or, without any, those it groups by. -/
def selectedFields (q : Query) : List String := if q.fields = [] then q.groupBy else q.fields

/-- No other aggregate of a query and none of the fields that it selects has the name of a
label in any letter case. -/
structure Distinguishes (q : Query) (label : String) : Prop where
  labels : ∀ a ∈ q.aggregates, lowerCase a.label = lowerCase label → a.label = label
  fields : ∀ name ∈ q.selectedFields, lowerCase name ≠ lowerCase label

end Query

namespace Plan

variable {m : Model}

/-- The columns of the result that are no aggregates have the names of the selected fields. -/
theorem outputNames_selectedItems {q : Query} {plan : Plan}
    (hselect : q.fields.mapM (selectionOf m) = .ok plan.select)
    (hgroupBy : q.groupBy.mapM (columnOf m) = .ok plan.groupBy) :
    plan.selectedItems.map Sql.Item.outputName = q.selectedFields := by
  have hempty : plan.select = [] ↔ q.fields = [] := by
    rw [← List.length_eq_zero_iff, ← List.length_eq_zero_iff,
      (mapM_eq_ok_iff.mp hselect).length_eq]
  unfold selectedItems Query.selectedFields
  by_cases hnone : q.fields = []
  · rw [if_pos (hempty.mpr hnone), if_pos hnone, List.map_map, ← List.map_id q.groupBy]
    refine map_eq_of_mapM hgroupBy fun name c hc => ?_
    obtain ⟨f, hf, rfl⟩ := columnOf_eq_ok_iff.mp hc
    exact Model.key_of_field? hf
  · rw [if_neg (hempty.not.mpr hnone), if_neg hnone, List.map_map, ← List.map_id q.fields]
    refine map_eq_of_mapM hselect fun name s hs => ?_
    obtain ⟨f, hf, rfl⟩ := selectionOf_eq_ok_iff.mp hs
    have hkey : f.key = name := Model.key_of_field? hf
    simp [Sql.Item.outputName, Column.reference, Field.column, hkey]

/-- **The label of an aggregate denotes it alone exactly when the query distinguishes the
label.** -/
theorem denoted_label_iff_distinguishes {registry : Registry} {q : Query} {plan : Plan}
    (accepted : q.validate registry = .ok ()) (hplan : ofQuery registry q = .ok plan)
    {s : Sql.Select} (hitems : s.items = plan.selectedItems ++ plan.aggregateItems)
    {a : Aggregation} (ha : a ∈ plan.aggregates) :
    s.denoted a.label = [a.item] ↔ q.Distinguishes a.label := by
  obtain ⟨-, m, hm, -, -, -, haggregates, -, -⟩ := validate_eq_ok_iff.mp accepted
  obtain ⟨m', hm', -, hselect, -, hgroupBy, haggregated, -, -⟩ := ofQuery_eq_ok_iff.mp hplan
  obtain rfl : m = m' := Option.some.inj (hm.symm.trans hm')
  obtain ⟨-, hdistinct, -⟩ := Validation.checkAggregates_eq_ok_iff.mp haggregates
  have hlabels : plan.aggregates.map (·.label) = q.aggregates.map (·.label) :=
    map_eq_of_mapM haggregated fun _ _ hb => (aggregationOf_spec hb).1
  have hnames := outputNames_selectedItems hselect hgroupBy
  rw [denoted_label_iff (hlabels ▸ hdistinct) hitems ha,
    ← List.forall_mem_map (f := fun b : Aggregation => b.label)
      (P := fun label => lowerCase label = lowerCase a.label → label = a.label),
    ← List.forall_mem_map (f := Sql.Item.outputName)
      (P := fun name => lowerCase name ≠ lowerCase a.label), hlabels, hnames, List.forall_mem_map]
  exact ⟨fun h => ⟨h.1, h.2⟩, fun h => ⟨h.labels, h.fields⟩⟩

/-- A sort that resolves to an aggregate resolves to one of the plan. -/
theorem mem_aggregates_of_sort {registry : Registry} {q : Query} {plan : Plan}
    (hplan : ofQuery registry q = .ok plan) {o : Ordering} (ho : o ∈ plan.sort) {a : Aggregation}
    (htarget : o.target = .aggregate a) : a ∈ plan.aggregates := by
  obtain ⟨m, -, -, -, -, -, -, hsort, -⟩ := ofQuery_eq_ok_iff.mp hplan
  obtain ⟨s, -, ho⟩ := exists_of_mem_mapM hsort ho
  obtain ⟨-, hresolved⟩ := orderingOf_eq_ok_iff.mp ho
  rw [htarget] at hresolved
  rcases sortTargetOf_eq_ok_iff.mp hresolved with ⟨f, -, hcolumn⟩ | ⟨-, b, hb, haggregate⟩
  · cases hcolumn
  · obtain rfl : a = b := SortTarget.aggregate.inj haggregate
    exact List.mem_of_find?_eq_some hb

end Plan

/-- The text of an accepted query is read as a statement with the outline of its plan. -/
theorem exists_selects_of_accepted {registry : Registry} {q : Query}
    (accepted : q.validate registry = .ok ()) :
    ∃ t lexemes s, translate registry q = .ok t ∧ Plan.ofQuery registry q = .ok t.plan ∧
      Sql.lex t.sql = some lexemes ∧ Sql.Selects lexemes s ∧ s.outline = t.plan.outline := by
  obtain ⟨plan, emitted, hplan, hemitted, htranslated⟩ := translate_of_validate accepted
  obtain ⟨lexemes, s, hlex, hselects, houtline, -, -⟩ :=
    Sql.exists_selects_of_emit hemitted (Plan.hasPlainNames_of_accepted accepted hplan)
  exact ⟨⟨plan, emitted⟩, lexemes, s, htranslated, hplan, hlex, hselects, houtline⟩

/-- **What a sort by a label denotes.**  The text of an accepted query has one reading, which
orders by what the plan sorts by.  The labels of the query differ from one another and from
every field of the model, letter by letter; a bare label among the order keys denotes the
aggregate that the plan sorts by, and nothing else, exactly when the query distinguishes the
label in any letter case. -/
theorem sort_label_denotes_iff {registry : Registry} {q : Query}
    (accepted : q.validate registry = .ok ()) :
    ∃ m t lexemes s, registry.model? q.model = some m ∧ translate registry q = .ok t ∧
      Sql.lex t.sql = some lexemes ∧ Sql.Selects lexemes s ∧
      (∀ s', Sql.Selects lexemes s' → s' = s) ∧
      (q.aggregates.map (·.label)).Nodup ∧ (∀ a ∈ q.aggregates, m.hasField a.label = false) ∧
      s.orderBy = t.plan.sort.map (fun o => (o.target.key, o.direction)) ∧
      ∀ o ∈ t.plan.sort, ∀ a, o.target = .aggregate a →
        a ∈ t.plan.aggregates ∧ (s.denoted a.label = [a.item] ↔ q.Distinguishes a.label) := by
  obtain ⟨-, m, hm, -, -, -, haggregates, -, -⟩ := validate_eq_ok_iff.mp accepted
  obtain ⟨hfree, hdistinct, -⟩ := Validation.checkAggregates_eq_ok_iff.mp haggregates
  obtain ⟨t, lexemes, s, htranslated, hplan, hlex, hselects, houtline⟩ :=
    exists_selects_of_accepted accepted
  refine ⟨m, t, lexemes, s, hm, htranslated, hlex, hselects, fun s' hs' => hs'.unique hselects,
    hdistinct, fun a ha => (hfree a ha).1.unshadowing, congrArg Plan.Outline.orderBy houtline, ?_⟩
  intro o ho a htarget
  have ha : a ∈ t.plan.aggregates := Plan.mem_aggregates_of_sort hplan ho htarget
  exact ⟨ha, Plan.denoted_label_iff_distinguishes accepted hplan
    (congrArg Plan.Outline.items houtline) ha⟩

namespace Orders

/-- The amounts and the number of the orders of a status, under labels that differ in the case
of one letter. -/
def rivals : Query where
  model := "orders"
  groupBy := ["status"]
  aggregates := [⟨"sum", some "amount", "total"⟩, ⟨"count", none, "Total"⟩]
  sort := [⟨"total", "desc"⟩]

end Orders

/-- A sort by the number of orders finds it alone.  A sort by the amounts does not find them
alone once the number of orders has their label in another letter case. -/
theorem sort_label_denotes_iff_orders :
    (∃ t lexemes s,
        translate Orders.registry (Orders.query "paid" (Sql.textRange "a" "b") none) = .ok t ∧
        Sql.lex t.sql = some lexemes ∧ Sql.Selects lexemes s ∧
        s.denoted "n" = [.aggregate .count none "n"]) ∧
      ∃ t lexemes s, translate Orders.registry Orders.rivals = .ok t ∧
        Sql.lex t.sql = some lexemes ∧ Sql.Selects lexemes s ∧
        s.denoted "total" ≠ [.aggregate .sum (some ⟨"t0", "amount"⟩) "total"] := by
  constructor
  · have accepted : (Orders.query "paid" (Sql.textRange "a" "b") none).validate Orders.registry
        = .ok () := by decide
    obtain ⟨m, t, lexemes, s, -, ht, hlex, hselects, -, -, -, -, hsort⟩ :=
      sort_label_denotes_iff accepted
    obtain ⟨plan, hplan, hmem⟩ : ∃ plan, Plan.ofQuery Orders.registry
        (Orders.query "paid" (Sql.textRange "a" "b") none) = .ok plan ∧
          ⟨.aggregate ⟨.count, none, "n"⟩, .desc⟩ ∈ plan.sort := ⟨_, rfl, by decide⟩
    obtain rfl : plan = t.plan := Except.ok.inj (hplan.symm.trans (ofQuery_of_translate ht).2)
    exact ⟨t, lexemes, s, ht, hlex, hselects,
      (hsort _ hmem _ rfl).2.mpr ⟨by decide, by decide⟩⟩
  · have accepted : Orders.rivals.validate Orders.registry = .ok () := by decide
    obtain ⟨m, t, lexemes, s, -, ht, hlex, hselects, -, -, -, -, hsort⟩ :=
      sort_label_denotes_iff accepted
    obtain ⟨plan, hplan, hmem⟩ : ∃ plan, Plan.ofQuery Orders.registry Orders.rivals = .ok plan ∧
        ⟨.aggregate ⟨.sum, some ⟨"t0", "amount", .decimal⟩, "total"⟩, .desc⟩ ∈ plan.sort :=
      ⟨_, rfl, by decide⟩
    obtain rfl : plan = t.plan := Except.ok.inj (hplan.symm.trans (ofQuery_of_translate ht).2)
    refine ⟨t, lexemes, s, ht, hlex, hselects, fun hdenoted => ?_⟩
    have hdistinguished := (hsort _ hmem _ rfl).2.mp hdenoted
    exact absurd (hdistinguished.labels ⟨"count", none, "Total"⟩ (by decide) (by decide))
      (by decide)

/-- **Validation lets a sort through that denotes two aggregates**, since their labels differ
in the case of one letter. -/
theorem sort_label_ambiguous :
    Orders.rivals.validate Orders.registry = .ok () ∧
      ¬ (Orders.rivals.aggregates.map fun a => lowerCase a.label).Nodup ∧
      ∃ t lexemes s, translate Orders.registry Orders.rivals = .ok t ∧
        Sql.lex t.sql = some lexemes ∧ Sql.Selects lexemes s ∧
        s.orderBy = [(.label "total", .desc)] ∧
        s.denoted "total" = [.aggregate .sum (some ⟨"t0", "amount"⟩) "total",
          .aggregate .count none "Total"] := by
  have accepted : Orders.rivals.validate Orders.registry = .ok () := by decide
  obtain ⟨t, lexemes, s, ht, htplan, hlex, hselects, houtline⟩ :=
    exists_selects_of_accepted accepted
  obtain ⟨plan, hplan, hitems, hkeys⟩ : ∃ plan,
      Plan.ofQuery Orders.registry Orders.rivals = .ok plan ∧
        plan.outline.items = [.column ⟨"t0", "status"⟩ none,
          .aggregate .sum (some ⟨"t0", "amount"⟩) "total", .aggregate .count none "Total"] ∧
        plan.outline.orderBy = [(.label "total", .desc)] := ⟨_, rfl, rfl, rfl⟩
  obtain rfl : plan = t.plan := Except.ok.inj (hplan.symm.trans htplan)
  have hselected : s.items = t.plan.outline.items := congrArg Plan.Outline.items houtline
  have hordered : s.orderBy = t.plan.outline.orderBy := congrArg Plan.Outline.orderBy houtline
  refine ⟨accepted, by decide, t, lexemes, s, ht, hlex, hselects, hordered.trans hkeys, ?_⟩
  rw [Sql.Select.denoted, hselected, hitems]
  decide

end SchemaQuery
