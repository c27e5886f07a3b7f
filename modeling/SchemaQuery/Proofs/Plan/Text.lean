import SchemaQuery.Plan.Document
import SchemaQuery.Proofs.Json.Clauses

/-!
# The texts of queries and plans

The text of a query or a plan says all that it holds, apart from the numbers in free values,
of which it says how they are written.  Each part is written as an object of its clauses, so
that parts are compared clause by clause.

## Main statements

* `Query.render_inj` - queries have the same text exactly when their clauses have.
* `Plan.render_inj` - the same for plans.
-/

namespace SchemaQuery

open Json (Tree)
open Json.Tree (render written render_text_inj render_object_inj render_array_inj)

/-! ## Queries -/

theorem Comparison.toTree_eq (c : Comparison) : c.toTree = .object (clausesOf
    [("field", some (.text c.field)), ("op", some (.text c.op)),
      ("value", c.value.map (·.tree))]) := by
  obtain ⟨field, op, value⟩ := c
  cases value <;> rfl

theorem Comparison.render_inj {c d : Comparison} :
    c.toTree.render = d.toTree.render ↔
      c.field = d.field ∧ c.op = d.op ∧
        c.value.map (·.tree.render) = d.value.map (·.tree.render) := by
  rw [toTree_eq, toTree_eq, render_clausesOf_inj (by rfl) (by simp)]
  simp [Function.comp_def]

theorem Aggregate.toTree_eq (a : Aggregate) : a.toTree = .object (clausesOf
    [("fn", some (.text a.function)), ("field", a.field.map .text),
      ("alias", some (.text a.label))]) := by
  obtain ⟨function, field, label⟩ := a
  cases field <;> rfl

theorem Aggregate.render_inj {a b : Aggregate} : a.toTree.render = b.toTree.render ↔ a = b := by
  rw [toTree_eq, toTree_eq, render_clausesOf_inj (by rfl) (by simp)]
  obtain ⟨function, field, label⟩ := a
  obtain ⟨function', field', label'⟩ := b
  cases field <;> cases field' <;> simp

theorem SortKey.toTree_eq (s : SortKey) : s.toTree = .object (clausesOf
    [("field", some (.text s.field)),
      ("direction", if s.direction = "" then none else some (.text s.direction))]) := by
  simp only [SortKey.toTree]
  split <;> rfl

theorem SortKey.render_inj {s t : SortKey} : s.toTree.render = t.toTree.render ↔ s = t := by
  rw [toTree_eq, toTree_eq, render_clausesOf_inj (by rfl) (by simp)]
  obtain ⟨field, direction⟩ := s
  obtain ⟨field', direction'⟩ := t
  by_cases h : direction = "" <;> by_cases h' : direction' = "" <;> simp [h, h', eq_comm]

theorem Query.toTree_eq (q : Query) : q.toTree = .object (clausesOf
    [("model", some (.text q.model)), ("fields", listClause .text q.fields),
      ("filters", q.filters.map (·.toTree)), ("group_by", listClause .text q.groupBy),
      ("aggregates", listClause (·.toTree) q.aggregates), ("sort", listClause (·.toTree) q.sort),
      ("pagination", q.pagination.map (·.toTree))]) := by
  simp only [toTree, clausesOf, listMember_eq, optionMember_eq (x := q.filters),
    optionMember_eq (x := q.pagination), List.append_assoc, List.append_nil]
  rfl

/-- **Queries have the same text exactly when their clauses have**, and those without free
values when they are the same. -/
theorem Query.render_inj {q q' : Query} :
    q.toTree.render = q'.toTree.render ↔
      q.model = q'.model ∧ q.fields = q'.fields ∧
        q.filters.map (·.toTree.render) = q'.filters.map (·.toTree.render) ∧
        q.groupBy = q'.groupBy ∧ q.aggregates = q'.aggregates ∧ q.sort = q'.sort ∧
        q.pagination.map (·.toTree.render) = q'.pagination.map (·.toTree.render) := by
  rw [toTree_eq, toTree_eq, render_clausesOf_inj (by rfl) (by simp)]
  simp [listClause_inj render_text_inj.mp, listClause_inj Aggregate.render_inj.mp,
    listClause_inj SortKey.render_inj.mp, Function.comp_def]

/-! ## Plans -/

theorem FieldType.name_inj {s t : FieldType} : s.name = t.name ↔ s = t :=
  ⟨name_injective, congrArg name⟩

theorem Operator.name_inj {o p : Operator} : o.name = p.name ↔ o = p := by
  rw [← ofName?_eq_some_iff, ofName?_eq_some_iff.mpr rfl, Option.some.injEq, eq_comm]

namespace Plan

theorem Column.render_inj {c d : Column} : c.toTree.render = d.toTree.render ↔ c = d := by
  obtain ⟨tableAlias, name, type⟩ := c
  obtain ⟨tableAlias', name', type'⟩ := d
  simp [Column.toTree, written, FieldType.name_inj]

theorem Root.render_inj {r s : Root} : r.toTree.render = s.toTree.render ↔ r = s := by
  obtain ⟨model, table, tableAlias, primaryKey⟩ := r
  obtain ⟨model', table', tableAlias', primaryKey'⟩ := s
  simp [Root.toTree, written, Column.render_inj]

theorem Selection.render_inj {s t : Selection} : s.toTree.render = t.toTree.render ↔ s = t := by
  obtain ⟨column, label, isAggregate⟩ := s
  obtain ⟨column', label', isAggregate'⟩ := t
  simp [Selection.toTree, written, Column.render_inj]

theorem groupTree_render_inj {c d : Column} :
    (groupTree c).render = (groupTree d).render ↔ c = d := by
  simp [groupTree, written, Column.render_inj]

theorem Aggregation.toTree_eq (a : Aggregation) : a.toTree = .object (clausesOf
    [("function", some (.text a.function.sql)), ("column", a.column.map (·.toTree)),
      ("alias", some (.text a.label))]) := by
  obtain ⟨function, column, label⟩ := a
  cases column <;> rfl

theorem Aggregation.render_inj {a b : Aggregation} :
    a.toTree.render = b.toTree.render ↔ a = b := by
  rw [toTree_eq, toTree_eq, render_clausesOf_inj (by rfl) (by simp)]
  obtain ⟨function, column, label⟩ := a
  obtain ⟨function', column', label'⟩ := b
  cases column <;> cases column' <;> simp [AggregateFunction.sql_inj, Column.render_inj]

theorem SortTarget.render_inj {s t : SortTarget} : s.toTree.render = t.toTree.render ↔ s = t := by
  cases s <;> cases t <;> simp [SortTarget.toTree, written, Column.render_inj,
    Aggregation.render_inj]

theorem Ordering.render_inj {o p : Ordering} : o.toTree.render = p.toTree.render ↔ o = p := by
  obtain ⟨target, direction⟩ := o
  obtain ⟨target', direction'⟩ := p
  simp [Ordering.toTree, written, SortTarget.render_inj, Direction.sql_inj]

theorem TypedValue.render_inj {v w : TypedValue} :
    v.toTree.render = w.toTree.render ↔
      v.value.tree.render = w.value.tree.render ∧ v.type = w.type := by
  simp [TypedValue.toTree, written, FieldType.name_inj]

theorem Condition.toTree_comparison (left : Column) (op : Operator) (value : Option TypedValue) :
    (comparison left op value).toTree = .object (clausesOf
      [("kind", some (.text "comparison")), ("left", some left.toTree),
        ("op", some (.text op.name)), ("value", value.map (·.toTree))]) := by
  cases value <;> rfl

/-- A comparison is told by its text but for the numbers in its value. -/
theorem Condition.render_comparison_inj {left left' : Column} {op op' : Operator}
    {value value' : Option TypedValue} :
    (comparison left op value).toTree.render = (comparison left' op' value').toTree.render ↔
      left = left' ∧ op = op' ∧
        value.map (·.toTree.render) = value'.map (·.toTree.render) := by
  rw [toTree_comparison, toTree_comparison, render_clausesOf_inj (by rfl) (by simp)]
  simp [Column.render_inj, Operator.name_inj, Function.comp_def]

theorem Condition.toTrees_eq_map (nodes : List Condition) :
    toTrees nodes = nodes.map (·.toTree) := by
  induction nodes with
  | nil => rfl
  | cons node rest ih => rw [toTrees, List.map_cons, ih]

theorem Condition.render_logical_inj {op op' : Connective} {nodes nodes' : List Condition} :
    (logical op nodes).toTree.render = (logical op' nodes').toTree.render ↔
      op = op' ∧ nodes.map (·.toTree.render) = nodes'.map (·.toTree.render) := by
  simp [Condition.toTree, written, toTrees_eq_map, Connective.sql_inj, Function.comp_def]

/-- A comparison and a logical condition say their kinds. -/
theorem Condition.render_comparison_ne_logical {left : Column} {op : Operator}
    {value : Option TypedValue} {connective : Connective} {nodes : List Condition} :
    (comparison left op value).toTree.render ≠ (logical connective nodes).toTree.render := by
  simp [Condition.toTree, written]

theorem toTree_eq (plan : Plan) : plan.toTree = .object (clausesOf
    [("root_model", some plan.root.toTree), ("select", listClause (·.toTree) plan.select),
      ("filters", plan.filters.map (·.toTree)), ("group_by", listClause groupTree plan.groupBy),
      ("aggregates", listClause (·.toTree) plan.aggregates),
      ("sort", listClause (·.toTree) plan.sort),
      ("pagination", some plan.pagination.toTree)]) := by
  simp only [toTree, clausesOf, listMember_eq, optionMember_eq (x := plan.filters),
    List.append_assoc, List.append_nil]
  rfl

/-- **Plans have the same text exactly when they agree**, their conditions by text. -/
theorem render_inj {plan plan' : Plan} :
    plan.toTree.render = plan'.toTree.render ↔
      plan.root = plan'.root ∧ plan.select = plan'.select ∧
        plan.filters.map (·.toTree.render) = plan'.filters.map (·.toTree.render) ∧
        plan.groupBy = plan'.groupBy ∧ plan.aggregates = plan'.aggregates ∧
        plan.sort = plan'.sort ∧
        plan.pagination.toTree.render = plan'.pagination.toTree.render := by
  rw [toTree_eq, toTree_eq, render_clausesOf_inj (by rfl) (by simp)]
  simp [Root.render_inj, listClause_inj Selection.render_inj.mp,
    listClause_inj groupTree_render_inj.mp, listClause_inj Aggregation.render_inj.mp,
    listClause_inj Ordering.render_inj.mp, Function.comp_def]

end Plan

end SchemaQuery
