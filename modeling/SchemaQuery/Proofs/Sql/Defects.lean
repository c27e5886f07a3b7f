import SchemaQuery.Proofs.Sql.Statement

/-!
# The first defect of a plan

A plan that does not come from validation may be defective in many parts at once, and in its
filter at any depth.  Emission stops at one of them.  Here the parts are laid out in one list,
the aggregates and then the nodes of the filter, a node before its children; what is wrong
with a part is said without the rest of the plan; and the error of the emission is that of the
first part with which something is wrong.

The walk over the filter fails as its nodes do, one after the other
(`Condition.failure?_ofPlan`).  That a node is looked at before its children is what puts it
before them in the list.

## Main definitions

* `Plan.Condition.nodes` - the nodes of a tree, a node before its children.
* `Plan.Part`, `Plan.parts` - the parts of a plan, in order.
* `Plan.Part.Defective` - what is wrong with a part.

## Main statements

* `failure?_emit` - the error of the emission, part by part.
* `emit_fails_at_first_defect` - **a plan fails to be emitted exactly if it is defective, and
  then with its first defect.**
-/

namespace SchemaQuery

open Json (Value)
open Outcome

namespace Plan

/-! ## The parts of a plan -/

namespace Condition

mutual

/-- The nodes of a tree: a node comes before its children, and these from left to right. -/
def nodes : Condition → List Condition
  | .comparison left op value => [.comparison left op value]
  | .logical op children => .logical op children :: nodesOf children

/-- The nodes of trees one after the other. -/
def nodesOf : List Condition → List Condition
  | [] => []
  | node :: rest => node.nodes ++ nodesOf rest

end

end Condition

/-- A part of a plan: an aggregate, or a node of the filter. -/
inductive Part where
  | aggregate (a : Aggregation)
  | node (c : Condition)

/-- The parts of a plan in order: the aggregates, then the nodes of the filter. -/
def parts (plan : Plan) : List Part :=
  plan.aggregates.map .aggregate ++ (plan.filters.toList.flatMap Condition.nodes).map .node

/-- **What is wrong with a part of a plan**, with the error that says so.  Nothing here looks
below a node or beside it. -/
inductive Part.Defective : Part → EmitError → Prop where
  /-- Only a count may do without a column. -/
  | column {a : Aggregation} (hcolumn : a.column = none) (hfunction : a.function ≠ .count) :
    Defective (.aggregate a) (.missingColumn a.label)
  /-- A negation has one child. -/
  | arity {children : List Condition} (h : children.length ≠ 1) :
    Defective (.node (.logical .not children)) (.notArity children.length)
  /-- A conjunction or disjunction has children. -/
  | empty {op : Connective} (h : op = .and ∨ op = .or) :
    Defective (.node (.logical op [])) (.emptyLogical op)
  /-- All but the null tests need a value. -/
  | value {left : Column} {op : Operator} (h : op ≠ .isNull ∧ op ≠ .notNull) :
    Defective (.node (.comparison left op none)) (.missingValue op)
  /-- The value of `between` is an array of two. -/
  | pair {left : Column} {typed : TypedValue}
    (h : ∀ low high, typed.value.view ≠ .array [low, high]) :
    Defective (.node (.comparison left .between (some typed)))
      (.badValue .between .pair typed.value)
  /-- The value of an operator on a part of a text is a text. -/
  | text {left : Column} {op : Operator} {typed : TypedValue}
    (hop : op = .startsWith ∨ op = .endsWith ∨ op = .contains)
    (h : ∀ s, typed.value.view ≠ .text s) :
    Defective (.node (.comparison left op (some typed))) (.badValue op .text typed.value)

end Plan

/-! ## What is wrong with one part -/

namespace Sql

/-- The error of a node on its own. -/
def nodeDefect? : Plan.Condition → Option EmitError
  | .comparison left op value => failure? (Predicate.ofComparison left op value)
  | .logical .not children =>
    if children.length = 1 then none else some (.notArity children.length)
  | .logical op children => if children.isEmpty then some (.emptyLogical op) else none

/-- The error of a part on its own. -/
def partDefect? : Plan.Part → Option EmitError
  | .aggregate a => failure? (Output.ofAggregation a)
  | .node c => nodeDefect? c

/-! ### Values -/

/-- A value is refused as a text exactly when it is none. -/
theorem failure?_patternText_iff {op : Operator} {v : Value} {e : EmitError} :
    failure? (patternText op v) = some e ↔
      (∀ s, v.view ≠ .text s) ∧ e = .badValue op .text v := by
  unfold patternText
  split <;> simp_all [eq_comm (b := e)]

/-- A value is refused as a pair exactly when it is none. -/
theorem failure?_boundsOf_iff {v : Value} {e : EmitError} :
    failure? (boundsOf v) = some e ↔
      (∀ low high, v.view ≠ .array [low, high]) ∧ e = .badValue .between .pair v := by
  unfold boundsOf
  split <;> simp_all [eq_comm (b := e)]

/-- A value can fail to be a text or a pair where its operator needs one, and in no other
way. -/
theorem failure?_ofValue (left : Plan.Column) (op : Operator) (v : Value) :
    failure? (Predicate.ofValue left op v) =
      match op with
      | .startsWith | .endsWith | .contains => failure? (patternText op v)
      | .between => failure? (boundsOf v)
      | _ => none := by
  cases op with
  | startsWith | endsWith | contains => exact failure?_map
  | between =>
      simp only [Predicate.ofValue]
      cases boundsOf v <;> rfl
  | _ => rfl

/-- **A comparison fails exactly for what is wrong with it.** -/
theorem failure?_ofComparison_iff {left : Plan.Column} {op : Operator}
    {value : Option Plan.TypedValue} {e : EmitError} :
    failure? (Predicate.ofComparison left op value) = some e ↔
      Plan.Part.Defective (.node (.comparison left op value)) e := by
  cases value with
  | none =>
      constructor
      · intro h
        cases op with
        | isNull | notNull => cases h
        | _ =>
            obtain rfl := Option.some.inj h
            exact .value ⟨by decide, by decide⟩
      · rintro ⟨⟩
        rename_i hop
        rw [Predicate.ofComparison] <;> simp [hop]
  | some typed =>
      have hvalue : failure? (Predicate.ofComparison left op (some typed))
          = failure? (Predicate.ofValue left op typed.value) := by
        cases op <;> rfl
      rw [hvalue, failure?_ofValue]
      constructor
      · intro h
        cases op with
        | startsWith | endsWith | contains =>
            obtain ⟨hview, rfl⟩ := failure?_patternText_iff.mp h
            exact .text (by decide) hview
        | between =>
            obtain ⟨hview, rfl⟩ := failure?_boundsOf_iff.mp h
            exact .pair hview
        | _ => cases h
      · intro h
        cases h with
        | pair hview => exact failure?_boundsOf_iff.mpr ⟨hview, rfl⟩
        | text hop hview =>
            have htext : failure? (patternText op typed.value)
                = some (.badValue op .text typed.value) :=
              failure?_patternText_iff.mpr ⟨hview, rfl⟩
            rcases hop with rfl | rfl | rfl <;> exact htext

/-! ### Nodes and aggregates -/

theorem nodeDefect?_eq_some_iff {c : Plan.Condition} {e : EmitError} :
    nodeDefect? c = some e ↔ Plan.Part.Defective (.node c) e := by
  cases c with
  | comparison left op value => exact failure?_ofComparison_iff
  | logical op children =>
      constructor
      · intro h
        cases op with
        | not =>
            obtain ⟨harity, h⟩ := Option.ite_none_left_eq_some.mp h
            obtain rfl := Option.some.inj h
            exact .arity harity
        | and | or =>
            obtain ⟨hempty, h⟩ := Option.ite_none_right_eq_some.mp h
            obtain rfl := Option.some.inj h
            obtain rfl := List.isEmpty_iff.mp hempty
            exact .empty (by decide)
      · intro h
        cases h with
        | arity harity => exact if_neg harity
        | empty hop => rcases hop with rfl | rfl <;> rfl

/-- **The error of a part is what is wrong with it.** -/
theorem partDefect?_eq_some_iff {part : Plan.Part} {e : EmitError} :
    partDefect? part = some e ↔ part.Defective e := by
  cases part with
  | node c => exact nodeDefect?_eq_some_iff
  | aggregate a =>
      show failure? (Output.ofAggregation a) = some e ↔ _
      unfold Output.ofAggregation
      constructor
      · intro h
        split_ifs at h with hmissing
        · obtain rfl := Option.some.inj h
          exact .column hmissing.1 hmissing.2
        · cases h
      · intro h
        cases h with
        | column hcolumn hfunction => rw [if_pos ⟨hcolumn, hfunction⟩]; rfl

/-! ## The walk over the filter -/

namespace Condition

theorem failure?_ofPlans_cons (node : Plan.Condition) (rest : List Plan.Condition) :
    failure? (ofPlans (node :: rest)) = (failure? (ofPlan node)).or (failure? (ofPlans rest)) := by
  have hrest (c : Condition Value) : failure? (ofPlans rest >>= fun cs => pure (c :: cs))
      = failure? (ofPlans rest) := failure?_map
  rw [ofPlans, failure?_bind fun c _ => hrest c]

/-- Children are walked only if a node has the right number of them. -/
theorem failure?_ofPlan_logical (op : Connective) (children : List Plan.Condition) :
    failure? (ofPlan (.logical op children)) =
      (nodeDefect? (.logical op children)).or (failure? (ofPlans children)) := by
  match op, children with
  | .and, [] | .or, [] | .not, [] => rfl
  | .and, first :: rest | .or, first :: rest =>
      rw [ofPlan, failure?_map]
      · rfl
      · simp
  | .not, [node] =>
      rw [ofPlan, failure?_map, failure?_ofPlans_cons]
      exact Option.or_none.symm
  | .not, _ :: _ :: _ =>
      rw [ofPlan]
      · rfl
      · simp

mutual

/-- **A tree fails as the first of its nodes with which something is wrong.** -/
theorem failure?_ofPlan : ∀ f : Plan.Condition,
    failure? (ofPlan f) = f.nodes.findSome? nodeDefect?
  | .comparison left op value => by
      rw [ofPlan, failure?_map, Plan.Condition.nodes, List.findSome?_singleton]
      rfl
  | .logical op children => by
      rw [failure?_ofPlan_logical, failure?_ofPlans children, Plan.Condition.nodes,
        List.findSome?_cons]
      cases nodeDefect? (.logical op children) <;> rfl

theorem failure?_ofPlans : ∀ fs : List Plan.Condition,
    failure? (ofPlans fs) = (Plan.Condition.nodesOf fs).findSome? nodeDefect?
  | [] => rfl
  | node :: rest => by
      rw [failure?_ofPlans_cons, failure?_ofPlan node, failure?_ofPlans rest,
        Plan.Condition.nodesOf, List.findSome?_append]

end

end Condition

/-! ## The whole plan -/

/-- **The error of the emission is that of the first part with which something is wrong.** -/
theorem failure?_emit (plan : Plan) : failure? (emit plan) = plan.parts.findSome? partDefect? := by
  have haggregates : failure? (outputsOf plan)
      = plan.aggregates.findSome? fun a => failure? (Output.ofAggregation a) := by
    rw [outputsOf, failure?_map, failure?_mapM fun _ _ => rfl]
  have hfilter : failure? (conditionOf plan.filters)
      = (plan.filters.toList.flatMap Plan.Condition.nodes).findSome? nodeDefect? := by
    cases plan.filters with
    | none => rfl
    | some f =>
        rw [conditionOf, failure?_map, Condition.failure?_ofPlan, Option.toList_some,
          List.flatMap_singleton]
  rw [emit, failure?_map, Statement.ofPlan, failure?_bind fun _ _ => failure?_map, haggregates,
    hfilter, Plan.parts, List.findSome?_append, List.findSome?_map, List.findSome?_map]
  rfl

/-- **A plan fails to be emitted exactly if it is defective, and then with its first defect.**
The parts of the plan are looked at in order, and what comes after the first defective one
does not matter. -/
theorem emit_fails_at_first_defect (plan : Plan) :
    ((∃ e, emit plan = .error e) ↔ ∃ part ∈ plan.parts, ∃ e, part.Defective e) ∧
      ∀ e, emit plan = .error e ↔ ∃ before part after, plan.parts = before ++ part :: after ∧
        part.Defective e ∧ ∀ earlier ∈ before, ∀ e', ¬ earlier.Defective e' := by
  have hnone (part : Plan.Part) : partDefect? part = none ↔ ∀ e, ¬ part.Defective e := by
    simp only [← partDefect?_eq_some_iff, Option.eq_none_iff_forall_ne_some, ne_eq]
  simp only [← failure?_eq_some_iff, failure?_emit]
  refine ⟨?_, fun e => ?_⟩
  · rw [← Option.isSome_iff_exists, List.findSome?_isSome_iff]
    simp only [Option.isSome_iff_exists, partDefect?_eq_some_iff]
  · rw [List.findSome?_eq_some_iff]
    simp only [hnone, partDefect?_eq_some_iff]

/-- A negation without a child is met before the comparison without a value that follows it. -/
example (plan : Plan) (c : Plan.Column) :
    failure? (emit { plan with
      aggregates := []
      filters := some (.logical .or
        [.comparison c .isNull none, .logical .not [], .comparison c .eq none]) }) =
      some (.notArity 0) := rfl

end Sql

end SchemaQuery
