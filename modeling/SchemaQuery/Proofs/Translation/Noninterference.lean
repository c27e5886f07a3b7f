import SchemaQuery.Proofs.Translation.Totality

/-!
# The text says nothing about the values

Two queries that differ only in what they compare with and in the rows they ask for become the
same SQL, character by character, and only the parameters tell them apart.  This is a property
of two runs, and it is proved stage by stage: what the planner keeps of a query without its
values determines the shape of the plan (`shape_ofQuery`), and the shape of a plan determines
its text (`Sql.sql_eq_render_shape`).

## Main definitions

* `Query.withoutValues` - a query without the values of its comparisons and its pagination.

## Main statements

* `sql_eq_of_withoutValues_eq` - accepted queries that agree but for values have the same text.
-/

namespace SchemaQuery

open Outcome

/-- A comparison without the value it compares with. -/
def Comparison.withoutValue (c : Comparison) : Comparison := { c with value := none }

/-- A filter without the values of its comparisons. -/
def Filter.withoutValues : Filter → Filter
  | .comparison c => .comparison c.withoutValue
  | .and branches => .and (branches.map Comparison.withoutValue)
  | .or branches => .or (branches.map Comparison.withoutValue)
  | .not c => .not c.withoutValue

/-- A query without the values of its comparisons and without its pagination. -/
def Query.withoutValues (q : Query) : Query :=
  { q with filters := q.filters.map Filter.withoutValues, pagination := none }

namespace Plan

variable {m : Model}

/-- Comparisons that agree but for their values are planned into one shape. -/
theorem shape_comparisonOf {c d : Comparison} {g h : Condition}
    (hsame : c.withoutValue = d.withoutValue) (hc : comparisonOf m c = .ok g)
    (hd : comparisonOf m d = .ok h) : g.shape = h.shape := by
  obtain ⟨hfield, hop⟩ : c.field = d.field ∧ c.op = d.op := by
    simpa [Comparison.withoutValue] using hsame
  obtain ⟨f, op, hf, hop₁, rfl⟩ := comparisonOf_eq_ok_iff.mp hc
  obtain ⟨f', op', hf', hop₂, rfl⟩ := comparisonOf_eq_ok_iff.mp hd
  rw [hfield, hf', Option.some.injEq] at hf
  rw [hop, hop₂, Option.some.injEq] at hop₁
  rw [hf, hop₁, Condition.shape, Condition.shape]

/-- The same for the branches of a connective, of which there are equally many. -/
theorem shapes_mapM_comparisonOf : ∀ {cs ds : List Comparison} {gs hs : List Condition},
    cs.map Comparison.withoutValue = ds.map Comparison.withoutValue →
      cs.mapM (comparisonOf m) = .ok gs → ds.mapM (comparisonOf m) = .ok hs →
        Condition.shapes gs = Condition.shapes hs
  | [], [], gs, hs, _, hc, hd => by
      rw [← Except.ok.inj hc, ← Except.ok.inj hd]
  | c :: cs, d :: ds, gs, hs, hsame, hc, hd => by
      obtain ⟨hhead, htail⟩ := List.cons.inj hsame
      rw [List.mapM_cons] at hc hd
      simp only [bind_eq_ok_iff, pure_eq_ok, Except.ok.injEq] at hc hd
      obtain ⟨g, hg, gs, hgs, rfl⟩ := hc
      obtain ⟨h, hh, hs, hhs, rfl⟩ := hd
      rw [Condition.shapes, Condition.shapes, shape_comparisonOf hhead hg hh,
        shapes_mapM_comparisonOf htail hgs hhs]
  | [], _ :: _, _, _, hsame, _, _ => by simp at hsame
  | _ :: _, [], _, _, hsame, _, _ => by simp at hsame

/-- Filters that agree but for their values are planned into one shape. -/
theorem shape_conditionOf {f₁ f₂ : Filter} {g₁ g₂ : Condition}
    (hsame : f₁.withoutValues = f₂.withoutValues) (h₁ : conditionOf m f₁ = .ok g₁)
    (h₂ : conditionOf m f₂ = .ok g₂) : g₁.shape = g₂.shape := by
  cases f₁ with
  | comparison c =>
      cases f₂ <;> simp only [Filter.withoutValues, reduceCtorEq, Filter.comparison.injEq] at hsame
      exact shape_comparisonOf hsame h₁ h₂
  | and cs =>
      cases f₂ <;> simp only [Filter.withoutValues, reduceCtorEq, Filter.and.injEq] at hsame
      simp only [conditionOf, bind_eq_ok_iff, pure_eq_ok, Except.ok.injEq] at h₁ h₂
      obtain ⟨gs, hgs, rfl⟩ := h₁
      obtain ⟨hs, hhs, rfl⟩ := h₂
      rw [Condition.shape, Condition.shape, shapes_mapM_comparisonOf hsame hgs hhs]
  | or cs =>
      cases f₂ <;> simp only [Filter.withoutValues, reduceCtorEq, Filter.or.injEq] at hsame
      simp only [conditionOf, bind_eq_ok_iff, pure_eq_ok, Except.ok.injEq] at h₁ h₂
      obtain ⟨gs, hgs, rfl⟩ := h₁
      obtain ⟨hs, hhs, rfl⟩ := h₂
      rw [Condition.shape, Condition.shape, shapes_mapM_comparisonOf hsame hgs hhs]
  | not c =>
      cases f₂ <;> simp only [Filter.withoutValues, reduceCtorEq, Filter.not.injEq] at hsame
      simp only [conditionOf, bind_eq_ok_iff, pure_eq_ok, Except.ok.injEq] at h₁ h₂
      obtain ⟨g, hg, rfl⟩ := h₁
      obtain ⟨h, hh, rfl⟩ := h₂
      rw [Condition.shape, Condition.shape, shape_comparisonOf hsame hg hh]

/-- The filters of two queries, present in both or in neither. -/
theorem shape_optional_conditionOf {x y : Option Filter} {g h : Option Condition}
    (hsame : x.map Filter.withoutValues = y.map Filter.withoutValues)
    (hx : optional (conditionOf m) x = .ok g) (hy : optional (conditionOf m) y = .ok h) :
    g.map Condition.shape = h.map Condition.shape := by
  cases x with
  | none =>
      obtain rfl : y = none := by simpa [eq_comm] using hsame
      rw [← Except.ok.inj hx, ← Except.ok.inj hy]
  | some f₁ =>
      obtain ⟨f₂, rfl, hf⟩ : ∃ f₂, y = some f₂ ∧ f₂.withoutValues = f₁.withoutValues := by
        simpa using hsame.symm
      simp only [optional, bind_eq_ok_iff, pure_eq_ok, Except.ok.injEq] at hx hy
      obtain ⟨g₁, hg₁, rfl⟩ := hx
      obtain ⟨g₂, hg₂, rfl⟩ := hy
      rw [Option.map_some, Option.map_some, shape_conditionOf hf.symm hg₁ hg₂]

/-- **Queries that agree but for their values have plans of one shape.** -/
theorem shape_ofQuery {registry : Registry} {q r : Query} {plan₁ plan₂ : Plan}
    (hsame : q.withoutValues = r.withoutValues) (h₁ : ofQuery registry q = .ok plan₁)
    (h₂ : ofQuery registry r = .ok plan₂) : Sql.shape plan₁ = Sql.shape plan₂ := by
  obtain ⟨hmodel, hfields, hfilters, hgroupBy, haggregates, hsort⟩ :
      q.model = r.model ∧ q.fields = r.fields ∧
        q.filters.map Filter.withoutValues = r.filters.map Filter.withoutValues ∧
        q.groupBy = r.groupBy ∧ q.aggregates = r.aggregates ∧ q.sort = r.sort := by
    simpa [Query.withoutValues] using hsame
  obtain ⟨m, hm, hroot₁, hselect₁, hfilters₁, hgroupBy₁, haggregates₁, hsort₁, -⟩ :=
    ofQuery_eq_ok_iff.mp h₁
  obtain ⟨m', hm', hroot₂, hselect₂, hfilters₂, hgroupBy₂, haggregates₂, hsort₂, -⟩ :=
    ofQuery_eq_ok_iff.mp h₂
  rw [← hmodel, hm, Option.some.injEq] at hm'
  subst hm'
  rw [← hfields] at hselect₂
  rw [← hgroupBy] at hgroupBy₂
  rw [← haggregates] at haggregates₂
  have hrootEq : plan₁.root = plan₂.root := Except.ok.inj (hroot₁.symm.trans hroot₂)
  have hselectEq : plan₁.select = plan₂.select := Except.ok.inj (hselect₁.symm.trans hselect₂)
  have hgroupEq : plan₁.groupBy = plan₂.groupBy := Except.ok.inj (hgroupBy₁.symm.trans hgroupBy₂)
  have haggEq : plan₁.aggregates = plan₂.aggregates :=
    Except.ok.inj (haggregates₁.symm.trans haggregates₂)
  rw [← hsort, ← haggEq] at hsort₂
  have hsortEq : plan₁.sort = plan₂.sort := Except.ok.inj (hsort₁.symm.trans hsort₂)
  rw [Sql.shape, Sql.shape, Sql.outputs, Sql.outputs, Sql.orderKeys, Sql.orderKeys, hrootEq,
    hselectEq, hgroupEq, haggEq, hsortEq, shape_optional_conditionOf hfilters hfilters₁ hfilters₂]

end Plan

/-- **No value influences a character of the SQL.**  Two accepted queries that agree but for
the values of their comparisons and for their pagination are translated to the same text, with
equally many parameters. -/
theorem sql_eq_of_withoutValues_eq (registry : Registry) (q r : Query)
    (hq : q.validate registry = .ok ()) (hr : r.validate registry = .ok ())
    (hsame : q.withoutValues = r.withoutValues) :
    ∃ t u, translate registry q = .ok t ∧ translate registry r = .ok u ∧ t.sql = u.sql ∧
      t.params.length = u.params.length := by
  obtain ⟨plan₁, e₁, hplan₁, he₁, ht₁⟩ := translate_of_validate hq
  obtain ⟨plan₂, e₂, hplan₂, he₂, ht₂⟩ := translate_of_validate hr
  have hshape : Sql.shape plan₁ = Sql.shape plan₂ := Plan.shape_ofQuery hsame hplan₁ hplan₂
  refine ⟨⟨plan₁, e₁⟩, ⟨plan₂, e₂⟩, ht₁, ht₂, ?_, ?_⟩
  · show e₁.sql = e₂.sql
    rw [Sql.sql_eq_render_shape he₁, Sql.sql_eq_render_shape he₂, hshape]
  · show e₁.params.length = e₂.params.length
    rw [Sql.length_params_eq he₁, Sql.length_params_eq he₂, hshape]

/-- Orders searched for a quote and a placeholder, and for nothing in another year and on
another page. -/
theorem sql_eq_of_withoutValues_eq_orders :
    ∃ t u,
      translate Orders.registry
          (Orders.query "'; DROP $1" (Sql.textRange "2024-01-01" "2024-02-01") none) = .ok t ∧
        translate Orders.registry
          (Orders.query "" (Sql.textRange "1999" "$9") (some ⟨7, 70⟩)) = .ok u ∧
        t.sql = u.sql ∧ t.params.length = u.params.length :=
  sql_eq_of_withoutValues_eq Orders.registry _ _ (by decide) (by decide) (by rfl)

end SchemaQuery
