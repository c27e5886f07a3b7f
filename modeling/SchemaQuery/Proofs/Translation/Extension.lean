import SchemaQuery.Proofs.Query.WellFormed
import SchemaQuery.Proofs.Translation.Totality

/-!
# Extending a schema

A schema grows: models are added, fields are added to models or put in another order, and
fields admit uses that they did not admit before.  No query that was accepted notices, with
one exception: a field that was added under the label of one of its aggregates.  Such a field
would be found before the aggregate when a sort is resolved, and validation refuses the query
then.

The proof goes along the translation.  Every clause of a query that suits a model suits an
extended one, the labels apart (`Query.wellFormedFor_extended_iff`), and whatever resolves in
a model resolves in an extended one to the same part of a plan (`Plan.ofQuery_extended`).

## Main definitions

* `Field.ExtendedBy`, `Model.ExtendedBy`, `Registry.ExtendedBy` - what one part of a schema
  offers, another offers too.

## Main statements

* `translate_extended_iff` - **an extended schema translates an accepted query to the same
  exactly when none of its labels has become a field.**
-/

namespace SchemaQuery

open Outcome

/-! ## Extensions -/

/-- A field of the same name and type that admits at least the same uses. -/
structure Field.ExtendedBy (f f' : Field) : Prop where
  key : f'.key = f.key
  type : f'.type = f.type
  filterable : f.filterable = true → f'.filterable = true
  groupable : f.groupable = true → f'.groupable = true
  aggregatable : f.aggregatable = true → f'.aggregatable = true

/-- A model of the same name, table and primary key that extends every field; it may have
others, and in any order. -/
structure Model.ExtendedBy (m m' : Model) : Prop where
  key : m'.key = m.key
  table : m'.table.text = m.table.text
  primaryKey : m'.primaryKey = m.primaryKey
  fields : ∀ f ∈ m.fields.entries, ∃ f' ∈ m'.fields.entries, f.ExtendedBy f'

/-- A registry that extends every model; it may have others. -/
def Registry.ExtendedBy (r r' : Registry) : Prop :=
  ∀ m ∈ r.models.entries, ∃ m' ∈ r'.models.entries, m.ExtendedBy m'

/-- The uses that a field gains do not show in its column. -/
theorem Field.ExtendedBy.column {f f' : Field} (h : f.ExtendedBy f') : f'.column = f.column := by
  rw [Field.column, Field.column, h.key, h.type]

theorem Registry.ExtendedBy.model? {r r' : Registry} (h : r.ExtendedBy r') {name : String}
    {m : Model} (hm : r.model? name = some m) :
    ∃ m', r'.model? name = some m' ∧ m.ExtendedBy m' := by
  obtain ⟨hmem, hkey⟩ := Registry.model?_eq_some_iff.mp hm
  obtain ⟨m', hmem', hextended⟩ := h m hmem
  exact ⟨m', Registry.model?_eq_some_iff.mpr ⟨hmem', hextended.key.trans hkey⟩, hextended⟩

variable {m m' : Model}

theorem Model.ExtendedBy.field? (h : m.ExtendedBy m') {name : String} {f : Field}
    (hf : m.field? name = some f) : ∃ f', m'.field? name = some f' ∧ f.ExtendedBy f' := by
  obtain ⟨hmem, hkey⟩ := Model.field?_eq_some_iff.mp hf
  obtain ⟨f', hmem', hextended⟩ := h.fields f hmem
  exact ⟨f', Model.field?_eq_some_iff.mpr ⟨hmem', hextended.key.trans hkey⟩, hextended⟩

/-! ## Queries that suit a model -/

/-- A name with some property of its field keeps it in an extended model, if fields keep it. -/
theorem Model.ExtendedBy.exists_field (h : m.ExtendedBy m') {p : Field → Prop}
    (keep : ∀ {f f'}, Field.ExtendedBy f f' → p f → p f') (hp : ∃ f ∈ m.fields.entries, p f) :
    ∃ f ∈ m'.fields.entries, p f := by
  obtain ⟨f, hf, hp⟩ := hp
  obtain ⟨f', hf', hextended⟩ := h.fields f hf
  exact ⟨f', hf', keep hextended hp⟩

theorem Comparison.WellFormed.extended {c : Comparison} (hc : c.WellFormed m)
    (h : m.ExtendedBy m') : c.WellFormed m' := by
  refine h.exists_field ?_ hc
  rintro f f' hextended ⟨op, hkey, hname, hfilterable, hsuits, hvalue⟩
  exact ⟨op, hextended.key.trans hkey, hname, hextended.filterable hfilterable,
    fun hpattern => hextended.type.trans (hsuits hpattern), hvalue⟩

/-- The function of an aggregate still applies; only its label may have become a field. -/
theorem Aggregate.WellFormed.extended_iff {a : Aggregate} (ha : a.WellFormed m)
    (h : m.ExtendedBy m') : a.WellFormed m' ↔ ∀ f ∈ m'.fields.entries, f.key ≠ a.label := by
  refine ⟨fun ha' => ha'.unshadowing, fun hfree => ⟨ha.plain, ha.unreserved, hfree, ?_⟩⟩
  obtain ⟨function, hname, happlies⟩ := ha.applies
  refine ⟨function, hname, happlies.imp_right fun hfield => h.exists_field ?_ hfield⟩
  rintro f f' hextended ⟨hfield, haggregatable, hnumeric⟩
  exact ⟨hextended.key ▸ hfield, hextended.aggregatable haggregatable,
    fun hadds => hextended.type ▸ hnumeric hadds⟩

theorem SortKey.WellFormed.extended {labels : List String} {s : SortKey}
    (hs : s.WellFormed m labels) (h : m.ExtendedBy m') : s.WellFormed m' labels :=
  ⟨hs.target.imp_left (h.exists_field fun hextended hkey => hextended.key.trans hkey), hs.direction⟩

/-- **A query that suits a model suits an extended one exactly when none of its labels has
become a field.** -/
theorem Query.wellFormedFor_extended_iff {q : Query} (hq : q.WellFormedFor m)
    (h : m.ExtendedBy m') :
    q.WellFormedFor m' ↔ ∀ a ∈ q.aggregates, ∀ f ∈ m'.fields.entries, f.key ≠ a.label := by
  refine ⟨fun hq' a ha => (hq'.aggregates a ha).unshadowing, fun hfree => ?_⟩
  refine ⟨?_, ?_, ?_, ?_, hq.distinct, fun s hs => (hq.sort s hs).extended h, hq.pagination⟩
  · intro name hname
    exact h.exists_field (fun hextended hkey => hextended.key.trans hkey) (hq.fields name hname)
  · intro filter hfilter
    have hwell := hq.filters filter hfilter
    exact ⟨hwell.nonempty, fun c hc => (hwell.comparisons c hc).extended h⟩
  · intro name hname
    refine h.exists_field ?_ (hq.groupBy name hname)
    rintro f f' hextended ⟨hkey, hgroupable⟩
    exact ⟨hextended.key.trans hkey, hextended.groupable hgroupable⟩
  · intro a ha
    exact ((hq.aggregates a ha).extended_iff h).mpr (hfree a ha)

/-! ## Plans -/

namespace Plan

theorem columnOf_extended (h : m.ExtendedBy m') {name : String} {c : Column}
    (hc : columnOf m name = .ok c) : columnOf m' name = .ok c := by
  obtain ⟨f, hf, rfl⟩ := columnOf_eq_ok_iff.mp hc
  obtain ⟨f', hf', hextended⟩ := h.field? hf
  exact columnOf_eq_ok_iff.mpr ⟨f', hf', hextended.column.symm⟩

theorem selectionOf_extended (h : m.ExtendedBy m') {name : String} {s : Selection}
    (hs : selectionOf m name = .ok s) : selectionOf m' name = .ok s := by
  obtain ⟨f, hf, rfl⟩ := selectionOf_eq_ok_iff.mp hs
  obtain ⟨f', hf', hextended⟩ := h.field? hf
  exact selectionOf_eq_ok_iff.mpr ⟨f', hf', by rw [hextended.column]⟩

theorem rootOf_extended (h : m.ExtendedBy m') {r : Root} (hr : rootOf m = .ok r) :
    rootOf m' = .ok r := by
  obtain ⟨f, hf, rfl⟩ := rootOf_eq_ok_iff.mp hr
  obtain ⟨f', hf', hextended⟩ := h.field? hf
  refine rootOf_eq_ok_iff.mpr ⟨f', h.primaryKey ▸ hf', ?_⟩
  rw [h.key, h.table, hextended.column]

/-- An optional part that succeeds does so wherever its content does. -/
theorem optional_imp {α β : Type} {f g : α → Except PlanError β}
    (step : ∀ {x y}, f x = .ok y → g x = .ok y) {x : Option α} {y : Option β}
    (h : optional f x = .ok y) : optional g x = .ok y := by
  rcases optional_eq_ok_iff.mp h with hnone | ⟨a, b, hx, hb, hy⟩
  · exact optional_eq_ok_iff.mpr (.inl hnone)
  · exact optional_eq_ok_iff.mpr (.inr ⟨a, b, hx, step hb, hy⟩)

theorem comparisonOf_extended (h : m.ExtendedBy m') {c : Comparison} {g : Condition}
    (hc : comparisonOf m c = .ok g) : comparisonOf m' c = .ok g := by
  obtain ⟨f, op, hf, hop, rfl⟩ := comparisonOf_eq_ok_iff.mp hc
  obtain ⟨f', hf', hextended⟩ := h.field? hf
  exact comparisonOf_eq_ok_iff.mpr ⟨f', op, hf', hop, by rw [hextended.column, hextended.type]⟩

theorem conditionOf_extended (h : m.ExtendedBy m') {filter : Filter} {g : Condition}
    (hg : conditionOf m filter = .ok g) : conditionOf m' filter = .ok g := by
  obtain ⟨nodes, hnodes, hjoined⟩ := conditionOf_eq_ok_iff.mp hg
  exact conditionOf_eq_ok_iff.mpr ⟨nodes, mapM_imp (comparisonOf_extended h) hnodes, hjoined⟩

theorem aggregationOf_extended (h : m.ExtendedBy m') {a : Aggregate} {b : Aggregation}
    (hb : aggregationOf m a = .ok b) : aggregationOf m' a = .ok b := by
  obtain ⟨hfunction, hcolumn, hemit, hlabel⟩ := aggregationOf_eq_ok_iff.mp hb
  exact aggregationOf_eq_ok_iff.mpr
    ⟨hfunction, optional_imp (columnOf_extended h) hcolumn, hemit, hlabel⟩

/-- A sort resolves as before, since an aggregate is only found where no field is: here it
matters that no label has become a field. -/
theorem orderingOf_extended (h : m.ExtendedBy m') {aggregates : List Aggregation}
    (hfree : ∀ a ∈ aggregates, m'.hasField a.label = false) {s : SortKey} {o : Ordering}
    (ho : orderingOf m aggregates s = .ok o) : orderingOf m' aggregates s = .ok o := by
  obtain ⟨hdirection, htarget⟩ := orderingOf_eq_ok_iff.mp ho
  refine orderingOf_eq_ok_iff.mpr ⟨hdirection, sortTargetOf_eq_ok_iff.mpr ?_⟩
  rcases sortTargetOf_eq_ok_iff.mp htarget with ⟨f, hf, htarget⟩ | ⟨-, a, ha, htarget⟩
  · obtain ⟨f', hf', hextended⟩ := h.field? hf
    exact .inl ⟨f', hf', by rw [htarget, hextended.column]⟩
  · have hlabel : a.label = s.field := by simpa using List.find?_some ha
    exact .inr ⟨hlabel ▸ hfree a (List.mem_of_find?_eq_some ha), a, ha, htarget⟩

/-- **A query is planned as before**, if none of its labels has become a field. -/
theorem ofQuery_extended {r r' : Registry} {q : Query} {plan : Plan}
    (hm : r.model? q.model = some m) (hm' : r'.model? q.model = some m') (h : m.ExtendedBy m')
    (hfree : ∀ a ∈ q.aggregates, m'.hasField a.label = false) (hplan : ofQuery r q = .ok plan) :
    ofQuery r' q = .ok plan := by
  obtain ⟨m₀, hm₀, hroot, hselect, hfilters, hgroupBy, haggregates, hsort, hpagination⟩ :=
    ofQuery_eq_ok_iff.mp hplan
  obtain rfl : m = m₀ := Option.some.inj (hm.symm.trans hm₀)
  have hlabels : ∀ b ∈ plan.aggregates, m'.hasField b.label = false := by
    intro b hb
    obtain ⟨a, ha, hb⟩ := exists_of_mem_mapM haggregates hb
    rw [(aggregationOf_spec hb).1]
    exact hfree a ha
  exact ofQuery_eq_ok_iff.mpr ⟨m', hm', rootOf_extended h hroot,
    mapM_imp (selectionOf_extended h) hselect, optional_imp (conditionOf_extended h) hfilters,
    mapM_imp (columnOf_extended h) hgroupBy, mapM_imp (aggregationOf_extended h) haggregates,
    mapM_imp (orderingOf_extended h hlabels) hsort, hpagination⟩

end Plan

/-! ## Translations -/

/-- **Extending a schema is conservative.**  A query that a registry accepts is translated by
every registry that extends it, to the same SQL with the same parameters and to the same plan
with the same fingerprint, exactly when none of its labels has become a field of the model
that it names. -/
theorem translate_extended_iff {r r' : Registry} (extended : r.ExtendedBy r') {q : Query}
    (accepted : q.validate r = .ok ()) :
    ∃ t m', translate r q = .ok t ∧ r'.model? q.model = some m' ∧
      ((∃ t', translate r' q = .ok t' ∧ t'.sql = t.sql ∧ t'.params = t.params ∧ t'.plan = t.plan ∧
          t'.fingerprint = t.fingerprint) ↔
        ∀ a ∈ q.aggregates, m'.hasField a.label = false) := by
  obtain ⟨plan, emitted, hplan, hemitted, htranslated⟩ := translate_of_validate accepted
  obtain ⟨hne, m, hm, hsections⟩ := validate_eq_ok_iff.mp accepted
  obtain ⟨m', hm', hextended⟩ := extended.model? hm
  have hfree_iff : (∀ a ∈ q.aggregates, m'.hasField a.label = false) ↔ q.WellFormedFor m' := by
    rw [Query.wellFormedFor_extended_iff (Query.wellFormedFor_iff.mpr hsections) hextended]
    simp [← Bool.not_eq_true, Model.hasField_iff_exists]
  have haccepted' : q.WellFormedFor m' → q.validate r' = .ok () := fun hwell =>
    validate_eq_ok_iff.mpr ⟨hne, m', hm', Query.wellFormedFor_iff.mp hwell⟩
  refine ⟨⟨plan, emitted⟩, m', htranslated, hm', ?_⟩
  constructor
  · rintro ⟨t', ht', -⟩
    obtain ⟨-, m₀, hm₀, hsections'⟩ := validate_eq_ok_iff.mp (ofQuery_of_translate ht').1
    obtain rfl : m' = m₀ := Option.some.inj (hm'.symm.trans hm₀)
    exact hfree_iff.mpr (Query.wellFormedFor_iff.mpr hsections')
  · intro hfree
    obtain ⟨plan', emitted', hplan', hemitted', htranslated'⟩ :=
      translate_of_validate (haccepted' (hfree_iff.mp hfree))
    obtain rfl : plan = plan' := by
      have hsame := Plan.ofQuery_extended hm hm' hextended hfree hplan
      exact Except.ok.inj (hsame.symm.trans hplan')
    obtain rfl : emitted = emitted' := Except.ok.inj (hemitted.symm.trans hemitted')
    exact ⟨_, htranslated', rfl, rfl, rfl, rfl⟩

namespace Orders

/-- The orders with their fields in another order, a status that may be null, a date that sums
accept, and a count of their own. -/
def grownModel : Model where
  name := model.name
  table := model.table
  primaryKey := "status"
  fields :=
    ⟨[⟨⟨"n", rfl⟩, .int, false, true, true, true⟩,
        ⟨⟨"placed", rfl⟩, .date, true, true, true, true⟩,
        ⟨⟨"amount", rfl⟩, .decimal, false, true, true, true⟩,
        ⟨⟨"status", rfl⟩, .string, true, true, true, false⟩], by decide⟩
  primaryKey_declared := by decide

/-- A model that the schema did not have before. -/
def regionModel : Model where
  name := ⟨"regions", by decide⟩
  table := ⟨none, ⟨"regions", by decide⟩⟩
  primaryKey := "id"
  fields := ⟨[⟨⟨"id", by decide⟩, .int, false, true, true, true⟩], by decide⟩
  primaryKey_declared := by decide

/-- The registry of the grown schema. -/
def grownRegistry : Registry := ⟨⟨[regionModel, grownModel], by decide⟩, by decide⟩

/-- How many orders there are, under a label that stays free. -/
def rowCount : Query where
  model := "orders"
  aggregates := [⟨"count", none, "rows"⟩]
  sort := [⟨"rows", "desc"⟩]

theorem registry_extendedBy_grown : registry.ExtendedBy grownRegistry := by
  intro m hm
  obtain rfl : m = model := by simpa [registry] using hm
  have hfields : ∀ f ∈ model.fields.entries, ∃ f' ∈ grownModel.fields.entries,
      f'.key = f.key ∧ f'.type = f.type ∧ (f.filterable → f'.filterable) ∧
        (f.groupable → f'.groupable) ∧ (f.aggregatable → f'.aggregatable) := by
    decide
  refine ⟨grownModel, by simp [grownRegistry], rfl, rfl, rfl, fun f hf => ?_⟩
  obtain ⟨f', hf', hkey, htype, hfilterable, hgroupable, haggregatable⟩ := hfields f hf
  exact ⟨f', hf', hkey, htype, hfilterable, hgroupable, haggregatable⟩

end Orders

/-- The grown schema answers for the number of orders as before, and it refuses the query one
of whose labels has become a field. -/
theorem translate_extended_iff_orders :
    (∃ t t', translate Orders.registry Orders.rowCount = .ok t ∧
        translate Orders.grownRegistry Orders.rowCount = .ok t' ∧ t'.sql = t.sql ∧
        t'.params = t.params ∧ t'.plan = t.plan ∧ t'.fingerprint = t.fingerprint) ∧
      ∃ t, translate Orders.registry (Orders.query "" (Sql.textRange "a" "b") none) = .ok t ∧
        ¬ ∃ t', translate Orders.grownRegistry (Orders.query "" (Sql.textRange "a" "b") none) =
            .ok t' ∧ t'.sql = t.sql ∧ t'.params = t.params ∧ t'.plan = t.plan ∧
            t'.fingerprint = t.fingerprint := by
  constructor
  · obtain ⟨t, m', ht, hm', hiff⟩ :=
      translate_extended_iff Orders.registry_extendedBy_grown (q := Orders.rowCount) (by decide)
    obtain rfl : Orders.grownModel = m' := Option.some.inj hm'
    obtain ⟨t', ht', hsame⟩ := hiff.mpr (by decide)
    exact ⟨t, t', ht, ht', hsame⟩
  · obtain ⟨t, m', ht, hm', hiff⟩ :=
      translate_extended_iff Orders.registry_extendedBy_grown
        (q := Orders.query "" (Sql.textRange "a" "b") none) (by decide)
    obtain rfl : Orders.grownModel = m' := Option.some.inj hm'
    refine ⟨t, ht, fun hsame => ?_⟩
    have hfree := hiff.mp hsame
    revert hfree
    decide

end SchemaQuery
