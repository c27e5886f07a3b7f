import SchemaQuery.Proofs.Plan.Text
import SchemaQuery.Proofs.Translation.Totality

/-!
# The fingerprint identifies the query

Two accepted queries of one registry have plans of the same text exactly when they are the
same query, spelled differently at most where a spelling stands for a default.  One direction
says that planning forgets nothing: what it looks up still bears the name that it was looked
up by.  The other says that it adds nothing that the query does not determine.

The fingerprint is a hash of the text of the plan, so it separates different queries as far as
the hash does; nothing is assumed of it here, and a collision is named where it could happen.

## Main definitions

* `Query.normal` - a query with its defaults spelled out.
* `Digest.Collision` - different texts with the same hash.

## Main statements

* `Plan.render_ofQuery_iff` - the text of a plan says as much as that of the normal query.
* `fingerprint_identifies` - the fingerprints of accepted queries agree exactly when the
  queries do, or else the texts of their plans collide.
-/

namespace SchemaQuery

open Outcome

/-! ## Normal queries -/

/-- An aggregate without a field instead of one with an empty name. -/
def Aggregate.normal (a : Aggregate) : Aggregate := { a with field := a.field? }

/-- A sort with its direction named. -/
def SortKey.normal (s : SortKey) : SortKey :=
  { s with direction := if s.direction = "" then "asc" else s.direction }

/-- A query with its defaults spelled out. -/
def Query.normal (q : Query) : Query :=
  { q with
    aggregates := q.aggregates.map Aggregate.normal
    sort := q.sort.map SortKey.normal
    pagination := some (q.pagination.getD Plan.defaultPagination) }

/-- Different texts with the same hash. -/
def Digest.Collision (s t : String) : Prop := s ≠ t ∧ Digest.sha256 s = Digest.sha256 t

theorem AggregateFunction.name_inj {f g : AggregateFunction} : f.name = g.name ↔ f = g := by
  rw [← ofName?_eq_some_iff, ofName?_eq_some_iff.mpr rfl, Option.some.injEq, eq_comm]

/-- The direction of a sort is what its normal form names. -/
theorem SortKey.direction_eq_iff {s s' : SortKey} {d d' : Direction}
    (h : Direction.ofName? s.direction = some d) (h' : Direction.ofName? s'.direction = some d') :
    d = d' ↔ s.normal.direction = s'.normal.direction := by
  have hnormal {s : SortKey} {d : Direction} (h : Direction.ofName? s.direction = some d) :
      s.normal.direction = "asc" ∧ d = .asc ∨ s.normal.direction = "desc" ∧ d = .desc := by
    unfold Direction.ofName? at h
    unfold SortKey.normal
    split_ifs at h with hasc hdesc
    · rcases hasc with hempty | hasc
      · simp [hempty, Option.some.inj h]
      · simp_all
    · simp_all
  rcases hnormal h with ⟨hs, rfl⟩ | ⟨hs, rfl⟩ <;> rcases hnormal h' with ⟨hs', rfl⟩ | ⟨hs', rfl⟩ <;>
    simp [hs, hs']

/-! ## What planning tells apart -/

/-- Filters have the same text exactly when they join comparisons of the same texts in the same
way. -/
theorem Filter.render_inj {filter filter' : Filter} :
    filter.toTree.render = filter'.toTree.render ↔
      filter.connective? = filter'.connective? ∧
        filter.comparisons.map (·.toTree.render) = filter'.comparisons.map (·.toTree.render) := by
  cases filter <;> cases filter' <;>
    simp [Filter.toTree, Comparison.toTree, connective?, comparisons, Json.Tree.written,
      Function.comp_def]

namespace Plan

variable {m : Model}

/-- Fields have the same column exactly when they were looked up by the same name. -/
theorem column_eq_iff {name name' : String} {f f' : Field} (h : m.field? name = some f)
    (h' : m.field? name' = some f') : f.column = f'.column ↔ name = name' := by
  constructor
  · intro hcolumn
    rw [← Model.key_of_field? h, ← Model.key_of_field? h']
    exact congrArg Column.name hcolumn
  · rintro rfl
    rw [Option.some.inj (h.symm.trans h')]

theorem columnOf_eq_iff {name name' : String} {c c' : Column} (h : columnOf m name = .ok c)
    (h' : columnOf m name' = .ok c') : c = c' ↔ name = name' := by
  obtain ⟨f, hf, rfl⟩ := columnOf_eq_ok_iff.mp h
  obtain ⟨f', hf', rfl⟩ := columnOf_eq_ok_iff.mp h'
  exact column_eq_iff hf hf'

theorem selectionOf_eq_iff {name name' : String} {s s' : Selection}
    (h : selectionOf m name = .ok s) (h' : selectionOf m name' = .ok s') :
    s = s' ↔ name = name' := by
  obtain ⟨f, hf, rfl⟩ := selectionOf_eq_ok_iff.mp h
  obtain ⟨f', hf', rfl⟩ := selectionOf_eq_ok_iff.mp h'
  simp [column_eq_iff hf hf']

/-- Optional parts are told apart as their contents are. -/
theorem map_eq_map_iff_of_optional {α β γ δ : Type} {f : α → Except PlanError β}
    {x x' : Option α} {y y' : Option β} {g : α → γ} {k : β → δ} (h : optional f x = .ok y)
    (h' : optional f x' = .ok y')
    (step : ∀ a ∈ x, ∀ a' ∈ x', ∀ {b b'}, f a = .ok b → f a' = .ok b' →
      (k b = k b' ↔ g a = g a')) :
    y.map k = y'.map k ↔ x.map g = x'.map g := by
  rcases optional_eq_ok_iff.mp h with ⟨rfl, rfl⟩ | ⟨a, b, rfl, hb, rfl⟩ <;>
    rcases optional_eq_ok_iff.mp h' with ⟨rfl, rfl⟩ | ⟨a', b', rfl, hb', rfl⟩
  · simp
  · simp
  · simp
  · simpa using step a rfl a' rfl hb hb'

/-! ### Filters -/

/-- The conditions of admissible comparisons have the same text exactly when the comparisons
have: the type that is written beside a value is that of the field. -/
theorem comparisonOf_render_iff {c c' : Comparison} {g g' : Condition}
    (hc : ∃ f op, c.Admissible m f op) (hc' : ∃ f op, c'.Admissible m f op)
    (h : comparisonOf m c = .ok g) (h' : comparisonOf m c' = .ok g') :
    g.toTree.render = g'.toTree.render ↔ c.toTree.render = c'.toTree.render := by
  obtain ⟨f, op, hc⟩ := hc
  obtain ⟨f', op', hc'⟩ := hc'
  obtain rfl := Except.ok.inj ((comparisonOf_of_admissible hc).symm.trans h)
  obtain rfl := Except.ok.inj ((comparisonOf_of_admissible hc').symm.trans h')
  rw [Condition.render_comparison_inj, Comparison.render_inj, column_eq_iff hc.field hc'.field,
    ← Operator.name_inj, Operator.ofName?_eq_some_iff.mp hc.operator,
    Operator.ofName?_eq_some_iff.mp hc'.operator]
  refine and_congr_right fun hfield => and_congr_right fun _ => ?_
  obtain rfl : f = f' := Option.some.inj (hc.field.symm.trans (hfield ▸ hc'.field))
  cases c.value <;> cases c'.value <;> simp [TypedValue.render_inj]

/-- A comparison of a query never becomes a logical condition. -/
theorem render_ne_logical_of_mapM {cs : List Comparison} {g : Condition} {op : Connective}
    {nodes : List Condition} (h : cs.mapM (comparisonOf m) = .ok [g]) :
    g.toTree.render ≠ (Condition.logical op nodes).toTree.render := by
  obtain ⟨c, -, hc⟩ := exists_of_mem_mapM h List.mem_cons_self
  obtain ⟨f, operator, -, -, rfl⟩ := comparisonOf_eq_ok_iff.mp hc
  exact Condition.render_comparison_ne_logical

/-- The same for filters: a condition says how its filter joins its comparisons. -/
theorem conditionOf_render_iff {filter filter' : Filter} {g g' : Condition}
    (hfilter : ∀ c ∈ filter.comparisons, ∃ f op, c.Admissible m f op)
    (hfilter' : ∀ c ∈ filter'.comparisons, ∃ f op, c.Admissible m f op)
    (h : conditionOf m filter = .ok g) (h' : conditionOf m filter' = .ok g') :
    g.toTree.render = g'.toTree.render ↔ filter.toTree.render = filter'.toTree.render := by
  obtain ⟨nodes, hnodes, hg⟩ := conditionOf_eq_ok_iff.mp h
  obtain ⟨nodes', hnodes', hg'⟩ := conditionOf_eq_ok_iff.mp h'
  rw [Filter.render_inj, ← map_eq_map_iff_of_mapM hnodes hnodes' fun c hc c' hc' =>
    comparisonOf_render_iff (hfilter c hc) (hfilter' c' hc')]
  cases hop : filter.connective? with
  | none =>
      obtain rfl : nodes = [g] := by simpa only [hop] using hg
      cases hop' : filter'.connective? with
      | none =>
          obtain rfl : nodes' = [g'] := by simpa only [hop'] using hg'
          simp
      | some op' =>
          obtain rfl : g' = .logical op' nodes' := by simpa only [hop'] using hg'
          simp [render_ne_logical_of_mapM hnodes]
  | some op =>
      obtain rfl : g = .logical op nodes := by simpa only [hop] using hg
      cases hop' : filter'.connective? with
      | none =>
          obtain rfl : nodes' = [g'] := by simpa only [hop'] using hg'
          simp [(render_ne_logical_of_mapM hnodes').symm]
      | some op' =>
          obtain rfl : g' = .logical op' nodes' := by simpa only [hop'] using hg'
          rw [Condition.render_logical_inj, Option.some.injEq]

/-! ### Aggregates and sorts -/

/-- Aggregates are told apart by their functions, columns and labels, hence by their normal
forms. -/
theorem aggregationOf_eq_iff {a a' : Aggregate} {b b' : Aggregation}
    (h : aggregationOf m a = .ok b) (h' : aggregationOf m a' = .ok b') :
    b = b' ↔ a.normal = a'.normal := by
  obtain ⟨hfunction, hcolumn, -, hlabel⟩ := aggregationOf_eq_ok_iff.mp h
  obtain ⟨hfunction', hcolumn', -, hlabel'⟩ := aggregationOf_eq_ok_iff.mp h'
  have hfunctions : b.function = b'.function ↔ a.function = a'.function := by
    rw [← AggregateFunction.name_inj, AggregateFunction.ofName?_eq_some_iff.mp hfunction,
      AggregateFunction.ofName?_eq_some_iff.mp hfunction']
  have hcolumns : b.column = b'.column ↔ a.field? = a'.field? := by
    simpa using map_eq_map_iff_of_optional (g := id) (k := id) hcolumn hcolumn' fun _ _ _ _ _ _ =>
      columnOf_eq_iff
  obtain ⟨function, column, label⟩ := b
  obtain ⟨function', column', label'⟩ := b'
  simp only at hfunctions hcolumns hlabel hlabel'
  simp only [Aggregate.normal, Aggregation.mk.injEq, Aggregate.mk.injEq, hfunctions, hcolumns,
    hlabel, hlabel']

/-- Sorts refer to the same exactly when they name the same.  A field and an aggregate are
never confused, since a target says which of them it is. -/
theorem sortTargetOf_eq_iff {aggregates : List Aggregation} {name name' : String}
    {target target' : SortTarget} (h : sortTargetOf m aggregates name = .ok target)
    (h' : sortTargetOf m aggregates name' = .ok target') : target = target' ↔ name = name' := by
  constructor
  · rintro rfl
    rcases sortTargetOf_eq_ok_iff.mp h with ⟨f, hf, rfl⟩ | ⟨-, a, ha, rfl⟩ <;>
      rcases sortTargetOf_eq_ok_iff.mp h' with ⟨f', hf', htarget⟩ | ⟨-, a', ha', htarget⟩
    · exact (column_eq_iff hf hf').mp (SortTarget.column.inj htarget)
    · cases htarget
    · cases htarget
    · obtain rfl := SortTarget.aggregate.inj htarget
      have hlabel : a.label = name := by simpa using List.find?_some ha
      have hlabel' : a.label = name' := by simpa using List.find?_some ha'
      exact hlabel.symm.trans hlabel'
  · rintro rfl
    exact Except.ok.inj (h.symm.trans h')

theorem orderingOf_eq_iff {aggregates : List Aggregation} {s s' : SortKey} {o o' : Ordering}
    (h : orderingOf m aggregates s = .ok o) (h' : orderingOf m aggregates s' = .ok o') :
    o = o' ↔ s.normal = s'.normal := by
  obtain ⟨hdirection, htarget⟩ := orderingOf_eq_ok_iff.mp h
  obtain ⟨hdirection', htarget'⟩ := orderingOf_eq_ok_iff.mp h'
  have htargets := sortTargetOf_eq_iff htarget htarget'
  have hdirections := SortKey.direction_eq_iff hdirection hdirection'
  obtain ⟨target, direction⟩ := o
  obtain ⟨target', direction'⟩ := o'
  simp only at htargets hdirections
  simp only [Ordering.mk.injEq, htargets, hdirections]
  simp [SortKey.normal]

/-! ## The whole query -/

/-- What is queried is told by the name of the model, although two models may share a table. -/
theorem rootOf_eq_iff {registry : Registry} {name name' : String} {m m' : Model} {r r' : Root}
    (hm : registry.model? name = some m) (hm' : registry.model? name' = some m')
    (h : rootOf m = .ok r) (h' : rootOf m' = .ok r') : r = r' ↔ name = name' := by
  constructor
  · rintro rfl
    obtain ⟨f, -, rfl⟩ := rootOf_eq_ok_iff.mp h
    obtain ⟨f', -, hroot⟩ := rootOf_eq_ok_iff.mp h'
    rw [← (Registry.model?_eq_some_iff.mp hm).2, ← (Registry.model?_eq_some_iff.mp hm').2]
    exact congrArg Root.model hroot
  · rintro rfl
    obtain rfl := Option.some.inj (hm.symm.trans hm')
    exact Except.ok.inj (h.symm.trans h')

/-- **The text of a plan says as much as that of the normal query.**  Clause by clause the one
determines the other, the sorts only after the aggregates that they may refer to. -/
theorem render_ofQuery_iff {registry : Registry} {q q' : Query} {plan plan' : Plan}
    (hvalid : q.validate registry = .ok ()) (hvalid' : q'.validate registry = .ok ())
    (h : ofQuery registry q = .ok plan) (h' : ofQuery registry q' = .ok plan') :
    plan.toTree.render = plan'.toTree.render ↔
      q.normal.toTree.render = q'.normal.toTree.render := by
  obtain ⟨m, hm, hroot, hselect, hfilters, hgroupBy, haggregates, hsort, hpagination⟩ :=
    ofQuery_eq_ok_iff.mp h
  obtain ⟨m', hm', hroot', hselect', hfilters', hgroupBy', haggregates', hsort', hpagination'⟩ :=
    ofQuery_eq_ok_iff.mp h'
  rw [Plan.render_inj, Query.render_inj, rootOf_eq_iff hm hm' hroot hroot']
  refine and_congr_right fun hmodel => ?_
  -- from here on both queries are read against one model
  obtain rfl : m = m' := Option.some.inj (hm.symm.trans (hmodel ▸ hm'))
  have hselects : plan.select = plan'.select ↔ q.fields = q'.fields := by
    simpa using eq_iff_map_eq_of_mapM (g := id) hselect hselect' selectionOf_eq_iff
  have hconditions : plan.filters.map (·.toTree.render) = plan'.filters.map (·.toTree.render) ↔
      q.filters.map (·.toTree.render) = q'.filters.map (·.toTree.render) :=
    map_eq_map_iff_of_optional hfilters hfilters' fun filter mem filter' mem' =>
      conditionOf_render_iff (admissible_of_validate hvalid hm filter mem)
        (admissible_of_validate hvalid' hm' filter' mem')
  have hgroups : plan.groupBy = plan'.groupBy ↔ q.groupBy = q'.groupBy := by
    simpa using eq_iff_map_eq_of_mapM (g := id) hgroupBy hgroupBy' columnOf_eq_iff
  have haggregations : plan.aggregates = plan'.aggregates ↔
      q.aggregates.map Aggregate.normal = q'.aggregates.map Aggregate.normal :=
    eq_iff_map_eq_of_mapM haggregates haggregates' aggregationOf_eq_iff
  rw [hselects, hconditions, hgroups, haggregations, hpagination, hpagination']
  refine and_congr_right fun _ => and_congr_right fun _ => and_congr_right fun _ =>
    and_congr_right fun hsame => and_congr ?_ (by simp [Query.normal])
  rw [← haggregations.mpr hsame] at hsort'
  exact eq_iff_map_eq_of_mapM hsort hsort' orderingOf_eq_iff

end Plan

/-- **The fingerprint identifies the query.**  The plans of two accepted queries have the same
text exactly when the queries have, once their defaults are spelled out.  So their
fingerprints agree when the queries do, and otherwise only through a collision of the hash. -/
theorem fingerprint_identifies (registry : Registry) (q q' : Query)
    (h : q.validate registry = .ok ()) (h' : q'.validate registry = .ok ()) :
    ∃ t t', translate registry q = .ok t ∧ translate registry q' = .ok t' ∧
      (t.plan.toText = t'.plan.toText ↔ q.normal.toTree.toText = q'.normal.toTree.toText) ∧
      (t.fingerprint = t'.fingerprint ↔
        q.normal.toTree.toText = q'.normal.toTree.toText ∨
          Digest.Collision t.plan.toText t'.plan.toText) := by
  obtain ⟨plan, emitted, hplan, -, ht⟩ := translate_of_validate h
  obtain ⟨plan', emitted', hplan', -, ht'⟩ := translate_of_validate h'
  have htext : plan.toText = plan'.toText ↔
      q.normal.toTree.toText = q'.normal.toTree.toText := by
    rw [Json.Tree.toText_inj, ← Plan.render_ofQuery_iff h h' hplan hplan']
    exact Json.Tree.toText_inj
  refine ⟨⟨plan, emitted⟩, ⟨plan', emitted'⟩, ht, ht', htext, ?_⟩
  rw [← htext]
  constructor
  · intro hhash
    exact (em _).imp_right fun hne => ⟨hne, hhash⟩
  · rintro (hsame | hcollision)
    · exact congrArg Digest.sha256 hsame
    · exact hcollision.2

/-- The orders of a month with every default spelled out. -/
def Orders.spelledOut : Query :=
  { Orders.query "paid" (Sql.textRange "a" "b") (some ⟨100, 0⟩) with
    aggregates := [⟨"sum", some "amount", "total"⟩, ⟨"count", some "", "n"⟩]
    sort := [⟨"n", "desc"⟩, ⟨"status", "asc"⟩] }

/-- The same with other columns, which is another query. -/
def Orders.amounts : Query :=
  { Orders.query "paid" (Sql.textRange "a" "b") none with fields := ["amount"] }

/-- The orders of a month with every default spelled out have the fingerprint of the same
orders with none, and their amounts have another plan. -/
theorem fingerprint_identifies_orders :
    ∃ t t' t'',
      translate Orders.registry (Orders.query "paid" (Sql.textRange "a" "b") none) = .ok t ∧
      translate Orders.registry Orders.spelledOut = .ok t' ∧
      translate Orders.registry Orders.amounts = .ok t'' ∧
      t.fingerprint = t'.fingerprint ∧ t.plan.toText ≠ t''.plan.toText := by
  obtain ⟨t, t', ht, ht', -, hsame⟩ := fingerprint_identifies Orders.registry
    (Orders.query "paid" (Sql.textRange "a" "b") none) Orders.spelledOut (by decide) (by decide)
  obtain ⟨s, t'', hs, ht'', hother, -⟩ := fingerprint_identifies Orders.registry
    (Orders.query "paid" (Sql.textRange "a" "b") none) Orders.amounts (by decide) (by decide)
  obtain rfl := Except.ok.inj (ht.symm.trans hs)
  have hnormal : (Orders.query "paid" (Sql.textRange "a" "b") none).normal =
      Orders.spelledOut.normal := by rfl
  refine ⟨t, t', t'', ht, ht', ht'', hsame.mpr (.inl (by rw [hnormal])), fun htext => ?_⟩
  have hclauses := Query.render_inj.mp (Json.Tree.toText_inj.mp (hother.mp htext))
  exact absurd hclauses.2.1 (by decide)

end SchemaQuery
