import SchemaQuery.Proofs.Outcome
import SchemaQuery.Sql.Emission

/-!
# What emission does to a filter

A filter is a tree of any depth, and its emission is a mutual recursion over nodes and lists of
nodes that may fail at each of them.  This module packages that recursion once, as
`Condition.Compositional.ofPlan`, and settles with it the two halves of an emitted condition:

* its **values** are those that the comparisons of the tree bind, from left to right
  (`values_ofPlan`);
* its **shape** - all but the values - is read off the tree without looking at any value
  (`erase_ofPlan`).

Rendering depends on the shape alone (`Condition.render_erase`), so that the two halves never
meet again after this module.

## Main definitions

* `Plan.Leaf`, `Plan.Condition.leaves` - the comparisons of a tree from left to right.
* `Plan.Leaf.slots` - the values that a comparison binds.
* `Plan.Condition.shape` - the condition in SQL without its values.
* `Sql.Condition.predicates` - the tests of a condition, which are those of the comparisons
  (`predicates_shape`).
-/

namespace SchemaQuery

open Json (Value)

/-! ## The comparisons of a tree -/

namespace Plan

/-- A comparison of a filter tree. -/
structure Leaf where
  column : Column
  op : Operator
  value : Option TypedValue

namespace Condition

mutual

/-- The comparisons of a tree, depth first and from left to right. -/
def leaves : Condition → List Leaf
  | .comparison left op value => [⟨left, op, value⟩]
  | .logical _ nodes => leavesOf nodes

/-- The comparisons of trees one after the other. -/
def leavesOf : List Condition → List Leaf
  | [] => []
  | node :: rest => node.leaves ++ leavesOf rest

end

end Condition

/-- The comparisons of the filter of a plan. -/
def leaves (plan : Plan) : List Leaf := (plan.filters.map Condition.leaves).getD []

end Plan

/-- The pattern that an operator makes of a text: wildcards on its open sides. -/
def Operator.wrap : Operator → String → String
  | .startsWith, s => s ++ "%"
  | .endsWith, s => "%" ++ s
  | .contains, s => "%" ++ s ++ "%"
  | _, s => s

/-- **The values that a comparison binds, in order**: none for a null test, the bounds of
`between`, the wrapped text of an operator on a part of a text, and otherwise the value as it
is. -/
def Plan.Leaf.slots (leaf : Plan.Leaf) : List Value :=
  match leaf.op, leaf.value with
  | .isNull, _ | .notNull, _ => []
  | .between, some typed =>
    match typed.value.view with
    | .array bounds => bounds
    | _ => []
  | .startsWith, some typed | .endsWith, some typed | .contains, some typed =>
    match typed.value.view with
    | .text s => [.text (leaf.op.wrap s)]
    | _ => []
  | _, some typed => [typed.value]
  | _, none => []

/-- A comparison has the value that its operator needs: two bounds for `between`, a text for
the operators on a part of a text, and some value for all others but the null tests. -/
def Plan.Leaf.Emittable (leaf : Plan.Leaf) : Prop :=
  match leaf.op, leaf.value with
  | .isNull, _ | .notNull, _ => True
  | .between, some typed => ∃ low high, typed.value.view = .array [low, high]
  | .startsWith, some typed | .endsWith, some typed | .contains, some typed =>
    ∃ s, typed.value.view = .text s
  | _, some _ => True
  | _, none => False

namespace Plan.Condition

mutual

/-- No node of a tree is defective: a negation has one node, a conjunction or disjunction at
least one, and every comparison the value that it needs. -/
def Emittable : Condition → Prop
  | .comparison left op value => (⟨left, op, value⟩ : Leaf).Emittable
  | .logical .not nodes => nodes.length = 1 ∧ AreEmittable nodes
  | .logical _ nodes => nodes ≠ [] ∧ AreEmittable nodes

/-- `Emittable` of every tree of a list. -/
def AreEmittable : List Condition → Prop
  | [] => True
  | node :: rest => node.Emittable ∧ AreEmittable rest

end

theorem areEmittable_iff {nodes : List Condition} :
    AreEmittable nodes ↔ ∀ node ∈ nodes, node.Emittable := by
  induction nodes with
  | nil => simp [AreEmittable]
  | cons node rest ih => rw [AreEmittable, ih, List.forall_mem_cons]

end Plan.Condition

/-! ## Conditions without their values -/

namespace Sql

variable {α : Type}

/-- The column that a test is about. -/
def Predicate.column : Predicate α → Plan.Column
  | .isNull c | .isNotNull c | .compare c _ _ | .equalsAny c _ | .differsFromAll c _
  | .between c _ _ => c

/-- A test without its values. -/
def Predicate.erase : Predicate α → Predicate Unit
  | .isNull c => .isNull c
  | .isNotNull c => .isNotNull c
  | .compare c op _ => .compare c op ()
  | .equalsAny c _ => .equalsAny c ()
  | .differsFromAll c _ => .differsFromAll c ()
  | .between c _ _ => .between c () ()

@[simp] theorem Predicate.length_values_erase (p : Predicate α) :
    p.erase.values.length = p.values.length := by
  cases p <;> rfl

@[simp] theorem Predicate.render_erase (p : Predicate α) (before : Nat) :
    p.erase.render before = p.render before := by
  cases p <;> rfl

namespace Condition

mutual

/-- The tests of a condition from left to right. -/
def predicates : Condition α → List (Predicate α)
  | .predicate p => [p]
  | .and conditions | .or conditions => predicatesOf conditions
  | .not condition => condition.predicates

/-- The tests of conditions one after the other. -/
def predicatesOf : List (Condition α) → List (Predicate α)
  | [] => []
  | condition :: rest => condition.predicates ++ predicatesOf rest

end

mutual

/-- The values of a condition are those of its tests. -/
theorem values_eq_flatMap : ∀ c : Condition α, c.values = c.predicates.flatMap Predicate.values
  | .predicate p => by rw [values, predicates, List.flatMap_singleton]
  | .and conditions | .or conditions => by
      rw [values, predicates]
      exact valuesOf_eq_flatMap conditions
  | .not condition => by
      rw [values, predicates]
      exact values_eq_flatMap condition

theorem valuesOf_eq_flatMap : ∀ cs : List (Condition α),
    valuesOf cs = (predicatesOf cs).flatMap Predicate.values
  | [] => rfl
  | condition :: rest => by
      rw [valuesOf, predicatesOf, List.flatMap_append, values_eq_flatMap condition,
        valuesOf_eq_flatMap rest]

end

mutual

/-- A condition without its values. -/
def erase : Condition α → Condition Unit
  | .predicate p => .predicate p.erase
  | .and conditions => .and (eraseEach conditions)
  | .or conditions => .or (eraseEach conditions)
  | .not condition => .not condition.erase

/-- Conditions without their values. -/
def eraseEach : List (Condition α) → List (Condition Unit)
  | [] => []
  | condition :: rest => condition.erase :: eraseEach rest

end

mutual

/-- A condition has as many values as its shape has places for them. -/
@[simp] theorem length_values_erase : ∀ c : Condition α,
    c.erase.values.length = c.values.length
  | .predicate p => by simp [erase, values]
  | .and conditions | .or conditions => by
      rw [erase, values, values]
      exact length_valuesOf_eraseEach conditions
  | .not condition => by
      rw [erase, values, values]
      exact length_values_erase condition

@[simp] theorem length_valuesOf_eraseEach : ∀ cs : List (Condition α),
    (valuesOf (eraseEach cs)).length = (valuesOf cs).length
  | [] => rfl
  | condition :: rest => by
      rw [eraseEach, valuesOf, valuesOf, List.length_append, List.length_append,
        length_values_erase condition, length_valuesOf_eraseEach rest]

end

mutual

/-- **The text of a condition depends on its shape alone.**  Numbering only counts the values
to the left, and a shape has the same count. -/
@[simp] theorem render_erase : ∀ (c : Condition α) (before : Nat),
    c.erase.render before = c.render before
  | .predicate p, before => by simp [erase, render]
  | .and conditions, before | .or conditions, before => by
      rw [erase, render, render, renderEach_eraseEach conditions]
  | .not condition, before => by
      rw [erase, render, render, render_erase condition]

theorem renderEach_eraseEach : ∀ (cs : List (Condition α)) (before : Nat),
    renderEach before (eraseEach cs) = renderEach before cs
  | [], _ => rfl
  | condition :: rest, before => by
      rw [eraseEach, renderEach, renderEach, render_erase condition, length_values_erase,
        renderEach_eraseEach rest]

end

end Condition

end Sql

/-! ## The shape of a tree -/

/-- The test that an operator makes of a column, without its values. -/
def Operator.shape (c : Plan.Column) : Operator → Sql.Predicate Unit
  | .eq => .compare c .eq ()
  | .ne => .compare c .ne ()
  | .gt | .after => .compare c .gt ()
  | .gte => .compare c .ge ()
  | .lt | .before => .compare c .lt ()
  | .lte => .compare c .le ()
  | .between => .between c () ()
  | .isIn => .equalsAny c ()
  | .notIn => .differsFromAll c ()
  | .isNull => .isNull c
  | .notNull => .isNotNull c
  | .like | .startsWith | .endsWith | .contains => .compare c .like ()
  | .ilike => .compare c .ilike ()

/-- The test of a comparison, without its values. -/
def Plan.Leaf.shape (leaf : Plan.Leaf) : Sql.Predicate Unit := leaf.op.shape leaf.column

namespace Plan.Condition

mutual

/-- The condition in SQL that a tree becomes, without its values.  A negation has one node; the
others are not emitted. -/
def shape : Condition → Sql.Condition Unit
  | .comparison left op _ => .predicate (op.shape left)
  | .logical .and nodes => .and (shapes nodes)
  | .logical .or nodes => .or (shapes nodes)
  | .logical .not [node] => .not node.shape
  | .logical .not nodes => .and (shapes nodes)

/-- The shapes of trees one by one. -/
def shapes : List Condition → List (Sql.Condition Unit)
  | [] => []
  | node :: rest => node.shape :: shapes rest

end

open Sql.Condition in
mutual

/-- **The tests of the shape of a tree are those of its comparisons**, in the same order. -/
theorem predicates_shape : ∀ f : Condition, f.shape.predicates = f.leaves.map Leaf.shape
  | .comparison _ _ _ => rfl
  | .logical .and nodes | .logical .or nodes => by
      rw [shape, predicates, leaves]
      exact predicatesOf_shapes nodes
  | .logical .not [node] => by
      rw [shape, predicates, leaves, leavesOf, leavesOf, List.append_nil]
      exact predicates_shape node
  | .logical .not [] => rfl
  | .logical .not (first :: second :: rest) => by
      rw [shape, predicates, leaves]
      · exact predicatesOf_shapes (first :: second :: rest)
      · simp

theorem predicatesOf_shapes : ∀ fs : List Condition,
    predicatesOf (shapes fs) = (leavesOf fs).map Leaf.shape
  | [] => rfl
  | node :: rest => by
      rw [shapes, predicatesOf, leavesOf, List.map_append, predicates_shape node,
        predicatesOf_shapes rest]

end

end Plan.Condition

namespace Sql

open Outcome

/-! ## One comparison -/

/-- What a pattern operator or `between` gets out of a value that it can use. -/
theorem patternText_eq_ok_iff {op : Operator} {v : Value} {s : String} :
    patternText op v = .ok s ↔ v.view = .text s := by
  unfold patternText
  split <;> simp_all

theorem boundsOf_eq_ok_iff {v low high : Value} :
    boundsOf v = .ok (low, high) ↔ v.view = .array [low, high] := by
  unfold boundsOf
  split <;> simp_all

/-- Two texts as a value that `between` can use. -/
def textRange (low high : String) : Value :=
  ⟨.array [.text low, .text high], trivial, trivial, trivial⟩

/-- **An emitted comparison has the shape that its operator gives it, and holds the values
that the comparison binds.** -/
theorem ofComparison_spec {left : Plan.Column} {op : Operator} {value : Option Plan.TypedValue}
    {p : Predicate Value} (h : Predicate.ofComparison left op value = .ok p) :
    p.erase = op.shape left ∧ p.values = (⟨left, op, value⟩ : Plan.Leaf).slots := by
  cases value with
  | none =>
      cases op with
      | isNull | notNull =>
          obtain rfl := Except.ok.inj h
          exact ⟨rfl, rfl⟩
      | _ => exact absurd h (by simp [Predicate.ofComparison])
  | some typed =>
      cases op with
      | isNull | notNull | eq | ne | gt | gte | lt | lte | before | after | isIn | notIn | like
      | ilike =>
          obtain rfl := Except.ok.inj h
          exact ⟨rfl, rfl⟩
      | startsWith | endsWith | contains =>
          obtain ⟨s, hs, hp⟩ := bind_eq_ok_iff.mp h
          obtain rfl := Except.ok.inj hp
          rw [patternText_eq_ok_iff] at hs
          exact ⟨rfl, by simp only [Plan.Leaf.slots, hs]; rfl⟩
      | between =>
          obtain ⟨⟨low, high⟩, hbounds, hp⟩ := bind_eq_ok_iff.mp h
          obtain rfl := Except.ok.inj hp
          rw [boundsOf_eq_ok_iff] at hbounds
          exact ⟨rfl, by simp only [Plan.Leaf.slots, hbounds]; rfl⟩

/-- A comparison is emitted exactly when it has the value that its operator needs. -/
theorem exists_ofComparison_iff {leaf : Plan.Leaf} :
    (∃ p, Predicate.ofComparison leaf.column leaf.op leaf.value = .ok p) ↔ leaf.Emittable := by
  obtain ⟨left, op, value⟩ := leaf
  cases value with
  | none => cases op <;> simp [Predicate.ofComparison, Plan.Leaf.Emittable]
  | some typed =>
      cases op <;>
        simp [Predicate.ofComparison, Predicate.ofValue, Plan.Leaf.Emittable, bind_eq_ok_iff,
          patternText_eq_ok_iff, boundsOf_eq_ok_iff]

/-! ## One node -/

namespace Condition

theorem ofPlan_comparison_eq_ok_iff {left : Plan.Column} {op : Operator}
    {value : Option Plan.TypedValue} {c : Condition Value} :
    ofPlan (.comparison left op value) = .ok c ↔
      ∃ p, Predicate.ofComparison left op value = .ok p ∧ c = .predicate p := by
  simp [ofPlan, bind_eq_ok_iff, eq_comm (b := c)]

theorem ofPlan_and_eq_ok_iff {nodes : List Plan.Condition} {c : Condition Value} :
    ofPlan (.logical .and nodes) = .ok c ↔
      nodes ≠ [] ∧ ∃ cs, ofPlans nodes = .ok cs ∧ c = .and cs := by
  cases nodes with
  | nil => simp [ofPlan]
  | cons node rest => simp [ofPlan, bind_eq_ok_iff, eq_comm (b := c)]

theorem ofPlan_or_eq_ok_iff {nodes : List Plan.Condition} {c : Condition Value} :
    ofPlan (.logical .or nodes) = .ok c ↔
      nodes ≠ [] ∧ ∃ cs, ofPlans nodes = .ok cs ∧ c = .or cs := by
  cases nodes with
  | nil => simp [ofPlan]
  | cons node rest => simp [ofPlan, bind_eq_ok_iff, eq_comm (b := c)]

theorem ofPlan_not_eq_ok_iff {nodes : List Plan.Condition} {c : Condition Value} :
    ofPlan (.logical .not nodes) = .ok c ↔
      ∃ node d, nodes = [node] ∧ ofPlan node = .ok d ∧ c = .not d := by
  match nodes with
  | [] => simp [ofPlan]
  | [node] => simp [ofPlan, bind_eq_ok_iff, eq_comm (b := c)]
  | _ :: _ :: _ => simp [ofPlan]

theorem ofPlans_nil_eq_ok_iff {cs : List (Condition Value)} : ofPlans [] = .ok cs ↔ cs = [] := by
  simp [ofPlans, eq_comm (b := cs)]

theorem ofPlans_cons_eq_ok_iff {node : Plan.Condition} {rest : List Plan.Condition}
    {cs : List (Condition Value)} :
    ofPlans (node :: rest) = .ok cs ↔
      ∃ c ds, ofPlan node = .ok c ∧ ofPlans rest = .ok ds ∧ cs = c :: ds := by
  simp [ofPlans, bind_eq_ok_iff, eq_comm (b := cs)]

/-! ## The whole tree -/

/-- What holds of every emitted comparison and is kept by the three connectives; `Q` is the
same for lists of nodes. -/
structure Compositional (P : Plan.Condition → Condition Value → Prop)
    (Q : List Plan.Condition → List (Condition Value) → Prop) : Prop where
  predicate : ∀ left op value p, Predicate.ofComparison left op value = .ok p →
    P (.comparison left op value) (.predicate p)
  and : ∀ nodes cs, nodes ≠ [] → Q nodes cs → P (.logical .and nodes) (.and cs)
  or : ∀ nodes cs, nodes ≠ [] → Q nodes cs → P (.logical .or nodes) (.or cs)
  not : ∀ node c, P node c → P (.logical .not [node]) (.not c)
  nil : Q [] []
  cons : ∀ node rest c cs, ofPlan node = .ok c → P node c → Q rest cs →
    Q (node :: rest) (c :: cs)

namespace Compositional

variable {P : Plan.Condition → Condition Value → Prop}
variable {Q : List Plan.Condition → List (Condition Value) → Prop}

mutual

/-- **Induction over an emitted tree.**  A compositional property holds of every tree that is
emitted, together with its condition. -/
theorem ofPlan (k : Compositional P Q) : ∀ {f : Plan.Condition} {c : Condition Value},
    Condition.ofPlan f = .ok c → P f c
  | .comparison left op value, c, h => by
      obtain ⟨p, hp, rfl⟩ := ofPlan_comparison_eq_ok_iff.mp h
      exact k.predicate left op value p hp
  | .logical .and nodes, c, h => by
      obtain ⟨hne, cs, hcs, rfl⟩ := ofPlan_and_eq_ok_iff.mp h
      exact k.and nodes cs hne (k.ofPlans hcs)
  | .logical .or nodes, c, h => by
      obtain ⟨hne, cs, hcs, rfl⟩ := ofPlan_or_eq_ok_iff.mp h
      exact k.or nodes cs hne (k.ofPlans hcs)
  | .logical .not [node], c, h => by
      obtain ⟨_, d, hnode, hd, rfl⟩ := ofPlan_not_eq_ok_iff.mp h
      obtain rfl := List.singleton_inj.mp hnode
      exact k.not node d (k.ofPlan hd)
  | .logical .not [], c, h => by simp [ofPlan_not_eq_ok_iff] at h
  | .logical .not (_ :: _ :: _), c, h => by simp [ofPlan_not_eq_ok_iff] at h

theorem ofPlans (k : Compositional P Q) : ∀ {fs : List Plan.Condition}
    {cs : List (Condition Value)}, Condition.ofPlans fs = .ok cs → Q fs cs
  | [], cs, h => by
      obtain rfl := ofPlans_nil_eq_ok_iff.mp h
      exact k.nil
  | node :: rest, cs, h => by
      obtain ⟨c, ds, hc, hds, rfl⟩ := ofPlans_cons_eq_ok_iff.mp h
      exact k.cons node rest c ds hc (k.ofPlan hc) (k.ofPlans hds)

end

end Compositional

/-- **The values of an emitted condition are those that the comparisons of the tree bind**,
depth first and from left to right. -/
theorem values_ofPlan {f : Plan.Condition} {c : Condition Value} (h : ofPlan f = .ok c) :
    c.values = f.leaves.flatMap Plan.Leaf.slots := by
  have hcomp : Compositional (fun f c => c.values = f.leaves.flatMap Plan.Leaf.slots)
      (fun fs cs => valuesOf cs = (Plan.Condition.leavesOf fs).flatMap Plan.Leaf.slots) := by
    refine ⟨?_, ?_, ?_, ?_, rfl, ?_⟩
    · intro left op value p hp
      rw [values, (ofComparison_spec hp).2, Plan.Condition.leaves, List.flatMap_singleton]
    · intro nodes cs _ ih
      rw [values, Plan.Condition.leaves, ih]
    · intro nodes cs _ ih
      rw [values, Plan.Condition.leaves, ih]
    · intro node c ih
      rw [values, Plan.Condition.leaves, ih, Plan.Condition.leavesOf, Plan.Condition.leavesOf,
        List.append_nil]
    · intro node rest c cs _ ihnode ihrest
      rw [valuesOf, Plan.Condition.leavesOf, List.flatMap_append, ihnode, ihrest]
  exact hcomp.ofPlan h

/-- **The shape of an emitted condition is that of the tree**, whatever values the tree
holds. -/
theorem erase_ofPlan {f : Plan.Condition} {c : Condition Value} (h : ofPlan f = .ok c) :
    c.erase = f.shape := by
  have hcomp : Compositional (fun f c => c.erase = f.shape)
      (fun fs cs => eraseEach cs = Plan.Condition.shapes fs) := by
    refine ⟨?_, ?_, ?_, ?_, rfl, ?_⟩
    · intro left op value p hp
      rw [erase, (ofComparison_spec hp).1, Plan.Condition.shape]
    · intro nodes cs _ ih
      rw [erase, ih, Plan.Condition.shape]
    · intro nodes cs _ ih
      rw [erase, ih, Plan.Condition.shape]
    · intro node c ih
      rw [erase, ih, Plan.Condition.shape]
    · intro node rest c cs _ ihnode ihrest
      rw [eraseEach, ihnode, ihrest, Plan.Condition.shapes]
  exact hcomp.ofPlan h

mutual

/-- **A tree is emitted exactly when none of its nodes is defective.** -/
theorem exists_ofPlan_iff : ∀ {f : Plan.Condition}, (∃ c, ofPlan f = .ok c) ↔ f.Emittable
  | .comparison left op value => by
      rw [Plan.Condition.Emittable, ← exists_ofComparison_iff]
      simp [ofPlan_comparison_eq_ok_iff]
  | .logical .and nodes => by
      rw [Plan.Condition.Emittable, ← exists_ofPlans_iff]
      · simp [ofPlan_and_eq_ok_iff]
      · simp
  | .logical .or nodes => by
      rw [Plan.Condition.Emittable, ← exists_ofPlans_iff]
      · simp [ofPlan_or_eq_ok_iff]
      · simp
  | .logical .not [node] => by
      simp [ofPlan_not_eq_ok_iff, Plan.Condition.Emittable, Plan.Condition.AreEmittable,
        exists_ofPlan_iff (f := node)]
  | .logical .not [] => by simp [ofPlan_not_eq_ok_iff, Plan.Condition.Emittable]
  | .logical .not (_ :: _ :: _) => by simp [ofPlan_not_eq_ok_iff, Plan.Condition.Emittable]

theorem exists_ofPlans_iff : ∀ {fs : List Plan.Condition},
    (∃ cs, ofPlans fs = .ok cs) ↔ Plan.Condition.AreEmittable fs
  | [] => by simp [ofPlans_nil_eq_ok_iff, Plan.Condition.AreEmittable]
  | node :: rest => by
      rw [Plan.Condition.AreEmittable, ← exists_ofPlan_iff, ← exists_ofPlans_iff]
      simp [ofPlans_cons_eq_ok_iff]

end

end Condition

end Sql

end SchemaQuery
