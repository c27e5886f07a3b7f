import SchemaQuery.Proofs.Query.Decoding
import SchemaQuery.Proofs.Translation.Totality

/-!
# Plans are well typed

A plan carries no names that are still to be looked up: its columns have types, its operators
and functions are what they name.  A plan is well typed against a model if all of this agrees
with the declarations of the model, whatever query it comes from, and the plans of decoded
queries are.

What was checked on names has to survive that planning looks every name up once more.  It does
since both look-ups go through the same catalog; what an accepted comparison resolves to is
the witness of its acceptance (`Comparison.Admissible`), and so the leaf is typed by the very
field that was checked.  Only that no value is `null` is not checked at all: it comes from
decoding.

## Main definitions

* `Plan.Leaf.WellTyped`, `Plan.Condition.WellTyped` - comparisons and trees of them.
* `Plan.Aggregation.WellTyped`, `Plan.SortTarget.WellTyped` - functions of columns, and sorts.
* `Plan.WellTyped` - the whole plan agrees with a model.

## Main statements

* `Plan.wellTyped_of_ofQuery` - an accepted query without `null` has a well typed plan.
* `wellTyped_of_translate` - so does every decoded query that is translated.
-/

namespace SchemaQuery

open Json (Document Value)
open Outcome

/-! ## Well typed plans -/

namespace Plan

/-- A comparison is about a filterable column, a pattern about a text, and its value, which
bears the type of the column and is not `null`, is one that the operator compares with. -/
structure Leaf.WellTyped (m : Model) (leaf : Leaf) : Prop where
  column : ∃ f ∈ m.fields.entries, leaf.column = f.column ∧ f.filterable = true
  suits : leaf.op.isPattern = true → leaf.column.type = .string
  admitted : leaf.op.Admits (leaf.value.map (·.value))
  value : ∀ typed ∈ leaf.value, typed.type = leaf.column.type ∧ typed.value.isNull = false

mutual

/-- The comparisons of a tree are well typed; a negation has one node, a conjunction or
disjunction at least one. -/
def Condition.WellTyped (m : Model) : Condition → Prop
  | .comparison left op value => (⟨left, op, value⟩ : Leaf).WellTyped m
  | .logical .not nodes => nodes.length = 1 ∧ Condition.AreWellTyped m nodes
  | .logical _ nodes => nodes ≠ [] ∧ Condition.AreWellTyped m nodes

/-- `Condition.WellTyped` of every tree of a list. -/
def Condition.AreWellTyped (m : Model) : List Condition → Prop
  | [] => True
  | node :: rest => node.WellTyped m ∧ Condition.AreWellTyped m rest

end

/-- A function is applied to an aggregatable column, which is numeric where the function adds
values up.  Only a count may lack the column. -/
def Aggregation.WellTyped (m : Model) (a : Aggregation) : Prop :=
  match a.column with
  | none => a.function = .count
  | some column => ∃ f ∈ m.fields.entries, column = f.column ∧ f.aggregatable = true ∧
      (a.function = .sum ∨ a.function = .avg → f.type.isNumeric = true)

/-- A sort is by a column of the model, or by the one aggregate that bears its label. -/
def SortTarget.WellTyped (m : Model) (aggregates : List Aggregation) : SortTarget → Prop
  | .column c => ∃ f ∈ m.fields.entries, c = f.column
  | .aggregate a => aggregates.filter (·.label = a.label) = [a]

/-- Every column of a plan is that of a field of the model which admits the use that is made
of it, and rows are asked for and skipped in sensible numbers. -/
structure WellTyped (m : Model) (plan : Plan) : Prop where
  root : ∃ key ∈ m.fields.entries, key.key = m.primaryKey ∧
    plan.root = ⟨m.key, m.table.text, rootAlias, key.column⟩
  select : ∀ s ∈ plan.select, ∃ f ∈ m.fields.entries, s = ⟨f.column, f.key, false⟩
  filters : ∀ condition ∈ plan.filters, condition.WellTyped m
  groupBy : ∀ c ∈ plan.groupBy, ∃ f ∈ m.fields.entries, c = f.column ∧ f.groupable = true
  aggregates : ∀ a ∈ plan.aggregates, a.WellTyped m
  sort : ∀ o ∈ plan.sort, o.target.WellTyped m plan.aggregates
  limit : 0 < plan.pagination.limit
  offset : 0 ≤ plan.pagination.offset

/-! ## Filters -/

variable {m : Model}

theorem Condition.areWellTyped_iff {nodes : List Condition} :
    Condition.AreWellTyped m nodes ↔ ∀ node ∈ nodes, node.WellTyped m := by
  induction nodes with
  | nil => simp [Condition.AreWellTyped]
  | cons node rest ih => rw [Condition.AreWellTyped, ih, List.forall_mem_cons]

/-- The field and the operator that admit a comparison type the leaf that it becomes. -/
theorem wellTyped_of_comparisonOf {c : Comparison} {g : Condition} {f : Field} {op : Operator}
    (hc : c.Admissible m f op) (hnull : c.HasNoNull) (h : comparisonOf m c = .ok g) :
    g.WellTyped m := by
  obtain rfl := Except.ok.inj ((comparisonOf_of_admissible hc).symm.trans h)
  have hdeclared : f ∈ m.fields.entries := (Model.field?_eq_some_iff.mp hc.field).1
  refine ⟨⟨f, hdeclared, rfl, hc.filterable⟩, hc.suits, ?_, ?_⟩
  · simpa [Option.map_map, Function.comp_def] using hc.value
  · intro typed htyped
    obtain ⟨v, hv, rfl⟩ := Option.map_eq_some_iff.mp htyped
    exact ⟨rfl, hnull v hv⟩

/-- Admissible comparisons become well typed nodes, one for each. -/
theorem wellTyped_of_mapM_comparisonOf {cs : List Comparison} {nodes : List Condition}
    (hcs : ∀ c ∈ cs, ∃ f op, c.Admissible m f op) (hnull : ∀ c ∈ cs, c.HasNoNull)
    (h : cs.mapM (comparisonOf m) = .ok nodes) :
    nodes.length = cs.length ∧ Condition.AreWellTyped m nodes := by
  refine ⟨(mapM_eq_ok_iff.mp h).length_eq.symm, Condition.areWellTyped_iff.mpr fun node mem => ?_⟩
  obtain ⟨c, hc, hnode⟩ := exists_of_mem_mapM h mem
  obtain ⟨f, op, hadmissible⟩ := hcs c hc
  exact wellTyped_of_comparisonOf hadmissible (hnull c hc) hnode

/-- **An accepted filter without `null` becomes a well typed tree.** -/
theorem wellTyped_of_conditionOf {filter : Filter} {g : Condition}
    (hfilter : Validation.checkFilter m filter = .ok ()) (hnull : filter.HasNoNull)
    (h : conditionOf m filter = .ok g) : g.WellTyped m := by
  obtain ⟨hne, hcs⟩ := Validation.checkFilter_eq_ok_iff.mp hfilter
  cases filter with
  | comparison c =>
      obtain ⟨f, op, hc⟩ := hcs c (List.mem_singleton.mpr rfl)
      exact wellTyped_of_comparisonOf hc (hnull c (List.mem_singleton.mpr rfl)) h
  | and branches =>
      obtain ⟨nodes, hnodes, h⟩ := bind_eq_ok_iff.mp h
      obtain rfl := Except.ok.inj h
      obtain ⟨hlength, htyped⟩ := wellTyped_of_mapM_comparisonOf hcs hnull hnodes
      exact ⟨List.ne_nil_of_length_pos (hlength ▸ List.length_pos_of_ne_nil hne), htyped⟩
  | or branches =>
      obtain ⟨nodes, hnodes, h⟩ := bind_eq_ok_iff.mp h
      obtain rfl := Except.ok.inj h
      obtain ⟨hlength, htyped⟩ := wellTyped_of_mapM_comparisonOf hcs hnull hnodes
      exact ⟨List.ne_nil_of_length_pos (hlength ▸ List.length_pos_of_ne_nil hne), htyped⟩
  | not c =>
      obtain ⟨node, hnode, h⟩ := bind_eq_ok_iff.mp h
      obtain rfl := Except.ok.inj h
      obtain ⟨f, op, hc⟩ := hcs c (List.mem_singleton.mpr rfl)
      exact ⟨rfl, wellTyped_of_comparisonOf hc (hnull c (List.mem_singleton.mpr rfl)) hnode,
        trivial⟩

/-! ## Aggregates and sorts -/

/-- **An applicable aggregate becomes a well typed one.** -/
theorem wellTyped_of_aggregationOf {a : Aggregate} {b : Aggregation} (ha : a.Applicable m)
    (h : aggregationOf m a = .ok b) : b.WellTyped m := by
  obtain ⟨hfunction, hcolumn, hemit, -⟩ := aggregationOf_eq_ok_iff.mp h
  obtain ⟨function, hnamed, happlies⟩ := ha
  obtain rfl : function = b.function := Option.some.inj (hnamed.symm.trans hfunction)
  unfold Aggregation.WellTyped
  rcases optional_eq_ok_iff.mp hcolumn with ⟨-, hnone⟩ | ⟨name, column, hname, hlooked, hsome⟩
  · rw [hnone]
    exact hemit hnone
  · rw [hsome]
    rw [hname] at happlies
    obtain ⟨f, hf, hnumeric, haggregatable⟩ := happlies
    obtain ⟨f', hf', rfl⟩ := columnOf_eq_ok_iff.mp hlooked
    obtain rfl : f = f' := Option.some.inj (hf.symm.trans hf')
    exact ⟨f, (Model.field?_eq_some_iff.mp hf).1, rfl, haggregatable,
      fun hadds => hnumeric (AggregateFunction.requiresNumeric_iff.mpr hadds)⟩

/-- Where labels are distinct, an aggregate is the only one of its label. -/
theorem filter_label_eq_singleton {aggregates : List Aggregation}
    (hdistinct : (aggregates.map (·.label)).Nodup) {a : Aggregation} (ha : a ∈ aggregates) :
    aggregates.filter (·.label = a.label) = [a] := by
  induction aggregates with
  | nil => cases ha
  | cons b rest ih =>
      obtain ⟨hb, hrest⟩ := List.nodup_cons.mp hdistinct
      have hother (c : Aggregation) (hc : c ∈ rest) : c.label ≠ b.label := fun hsame =>
        hb (List.mem_map.mpr ⟨c, hc, hsame⟩)
      rcases List.mem_cons.mp ha with rfl | ha
      · rw [List.filter_cons_of_pos (by simp), List.filter_eq_nil_iff.mpr]
        simpa using hother
      · rw [List.filter_cons_of_neg (by simpa using (hother a ha).symm), ih hrest ha]

/-- A sort resolves to a column, or to the one aggregate of its label. -/
theorem wellTyped_of_orderingOf {aggregates : List Aggregation} {s : SortKey} {o : Ordering}
    (hdistinct : (aggregates.map (·.label)).Nodup) (h : orderingOf m aggregates s = .ok o) :
    o.target.WellTyped m aggregates := by
  obtain ⟨-, htarget⟩ := orderingOf_eq_ok_iff.mp h
  rcases sortTargetOf_eq_ok_iff.mp htarget with ⟨f, hf, htarget⟩ | ⟨-, a, ha, htarget⟩
  · rw [htarget]
    exact ⟨f, (Model.field?_eq_some_iff.mp hf).1, rfl⟩
  · rw [htarget]
    exact filter_label_eq_singleton hdistinct (List.mem_of_find?_eq_some ha)

/-! ## The whole plan -/

/-- **An accepted query without `null` has a well typed plan.** -/
theorem wellTyped_of_ofQuery {registry : Registry} {q : Query} {plan : Plan}
    (hvalid : q.validate registry = .ok ()) (hnull : q.HasNoNull)
    (hplan : ofQuery registry q = .ok plan) :
    ∃ m ∈ registry.models.entries, m.key = q.model ∧ plan.WellTyped m := by
  obtain ⟨-, m, hm, -, hfilters, hgroups, haggregates, -, hpagination⟩ :=
    validate_eq_ok_iff.mp hvalid
  obtain ⟨m', hm', hroot, hselect, hcondition, hgroupBy, haggregated, hsorted, hpages⟩ :=
    ofQuery_eq_ok_iff.mp hplan
  obtain rfl : m = m' := Option.some.inj (hm.symm.trans hm')
  rw [Validation.checkOption_eq_ok_iff] at hfilters hpagination
  rw [Validation.checkAll_eq_ok_iff] at hgroups
  obtain ⟨happlicable, hlabels, -⟩ := Validation.checkAggregates_eq_ok_iff.mp haggregates
  obtain ⟨hmem, hkey⟩ := Registry.model?_eq_some_iff.mp hm
  have hdistinct : (plan.aggregates.map (·.label)).Nodup := by
    rwa [map_eq_of_mapM haggregated fun _ _ hb => (aggregationOf_spec hb).1]
  have hpage : 0 < plan.pagination.limit ∧ 0 ≤ plan.pagination.offset := by
    rw [hpages]
    cases hgiven : q.pagination with
    | none => exact ⟨by decide, by decide⟩
    | some p => exact Validation.checkPagination_eq_ok_iff.mp (hpagination p hgiven)
  refine ⟨m, hmem, hkey, ?_, ?_, ?_, ?_, ?_, ?_, hpage.1, hpage.2⟩
  · obtain ⟨key, hfound, hroot⟩ := rootOf_eq_ok_iff.mp hroot
    obtain ⟨hdeclared, hnamed⟩ := Model.field?_eq_some_iff.mp hfound
    exact ⟨key, hdeclared, hnamed, hroot⟩
  · intro s hs
    obtain ⟨name, -, hs⟩ := exists_of_mem_mapM hselect hs
    obtain ⟨f, hf, rfl⟩ := selectionOf_eq_ok_iff.mp hs
    obtain ⟨hdeclared, rfl⟩ := Model.field?_eq_some_iff.mp hf
    exact ⟨f, hdeclared, rfl⟩
  · intro condition hfound
    rcases optional_eq_ok_iff.mp hcondition with ⟨-, hnone⟩ | ⟨filter, g, hfilter, hg, hsome⟩
    · rw [hnone] at hfound
      cases hfound
    · obtain rfl : g = condition := Option.some.inj (hsome.symm.trans hfound)
      exact wellTyped_of_conditionOf (hfilters filter hfilter) (hnull filter hfilter) hg
  · intro c hc
    obtain ⟨name, hname, hc⟩ := exists_of_mem_mapM hgroupBy hc
    obtain ⟨f, hf, rfl⟩ := columnOf_eq_ok_iff.mp hc
    obtain ⟨f', hf', hgroupable⟩ := Validation.checkGroup_eq_ok_iff.mp (hgroups name hname)
    obtain rfl : f = f' := Option.some.inj (hf.symm.trans hf')
    exact ⟨f, (Model.field?_eq_some_iff.mp hf).1, rfl, hgroupable⟩
  · intro b hb
    obtain ⟨a, ha, hb⟩ := exists_of_mem_mapM haggregated hb
    exact wellTyped_of_aggregationOf (happlicable a ha).2 hb
  · intro o ho
    obtain ⟨s, -, ho⟩ := exists_of_mem_mapM hsorted ho
    exact wellTyped_of_orderingOf hdistinct ho

end Plan

/-- **A decoded query that is translated has a plan that is well typed** against the model
that it names. -/
theorem wellTyped_of_translate {registry : Registry} {d : Document} {q : Query} {t : Translation}
    (decoded : Query.ofDocument d = .ok q) (translated : translate registry q = .ok t) :
    ∃ m ∈ registry.models.entries, m.key = q.model ∧ t.plan.WellTyped m := by
  obtain ⟨hvalid, hplan⟩ := ofQuery_of_translate translated
  exact Plan.wellTyped_of_ofQuery hvalid (Query.hasNoNull_of_ofDocument decoded) hplan

namespace Orders

/-- A query as a document: the total of the orders that are paid in part or have an amount. -/
def document : Document :=
  .object [(some "model", .text (some "orders")),
    (some "filters", .object [(some "or", .array [
      .object [(some "field", .text (some "status")), (some "op", .text (some "contains")),
        (some "value", .text (some "paid"))],
      .object [(some "field", .text (some "amount")), (some "op", .text (some "not_null")),
        (some "value", .null)]])]),
    (some "aggregates", .array [.object [(some "fn", .text (some "sum")),
      (some "field", .text (some "amount")), (some "alias", .text (some "total"))]]),
    (some "sort", .array [.object [(some "field", .text (some "total"))]])]

/-- What the document is read as. -/
def decoded : Query where
  model := "orders"
  filters := some (.or [⟨"status", "contains", some (.text "paid")⟩, ⟨"amount", "not_null", none⟩])
  aggregates := [⟨"sum", some "amount", "total"⟩]
  sort := [⟨"total", ""⟩]

end Orders

/-- A pattern, a null test, a sum and a sort by it are all typed. -/
theorem wellTyped_of_translate_orders :
    ∃ t, Query.ofDocument Orders.document = .ok Orders.decoded ∧
      translate Orders.registry Orders.decoded = .ok t ∧
      ∃ m ∈ Orders.registry.models.entries, m.key = "orders" ∧ t.plan.WellTyped m := by
  have accepted : Orders.decoded.validate Orders.registry = .ok () := by decide
  obtain ⟨plan, emitted, -, -, translated⟩ := translate_of_validate accepted
  exact ⟨_, by rfl, translated, wellTyped_of_translate (d := Orders.document) (by rfl) translated⟩

end SchemaQuery
