import SchemaQuery.Proofs.Query.WellFormed
import SchemaQuery.Proofs.Translation.SortLabels

/-!
# Sorting by a keyword

The label of an aggregate stands bare among the order keys of a statement, where a server
expects the name of a column.  Some keywords cannot be such a name: the reserved ones, and
those that are reserved except as names of functions and types.  After `AS` every keyword may
stand, so that a label of this kind shows only once it is sorted by.

Validation refuses the labels that are reserved words.  Its list has the reserved keywords but
for the youngest of them, and none of the second class (`mem_reservedWords_iff`).  A label
that it lets through is therefore the name of a column exactly when it is not one of the
keywords that the list leaves out.

## Main definitions

* `Sql.reservedKeywords`, `Sql.functionKeywords` - the keywords that cannot be column names.
* `Sql.IsColumnName` - a word can stand for a column.
* `Query.countedAs` - the number of rows under a label, sorted by it.

## Main statements

* `isColumnName_iff` - which labels that pass validation can stand for a column.
* `validate_countedAs_iff` - which labels can be sorted by.
* `sort_label_isColumnName_iff` - **a bare order key is a column name exactly when it is none
  of the keywords that validation does not know.**
-/

namespace SchemaQuery

open Outcome

/-! ## Keywords -/

namespace Sql

/-- The reserved keywords of PostgreSQL. -/
def reservedKeywords : List String :=
  ["all", "analyse", "analyze", "and", "any", "array", "as", "asc", "asymmetric", "both", "case",
    "cast", "check", "collate", "column", "constraint", "create", "current_catalog", "current_date",
    "current_role", "current_time", "current_timestamp", "current_user", "default", "deferrable",
    "desc", "distinct", "do", "else", "end", "except", "false", "fetch", "for", "foreign", "from",
    "grant", "group", "having", "in", "initially", "intersect", "into", "lateral", "leading",
    "limit", "localtime", "localtimestamp", "not", "null", "offset", "on", "only", "or", "order",
    "placing", "primary", "references", "returning", "select", "session_user", "some", "symmetric",
    "system_user", "table", "then", "to", "trailing", "true", "union", "unique", "user", "using",
    "variadic", "when", "where", "window", "with"]

/-- The keywords of PostgreSQL that are reserved except as names of functions and types. -/
def functionKeywords : List String :=
  ["authorization", "binary", "collation", "concurrently", "cross", "current_schema", "freeze",
    "full", "ilike", "inner", "is", "isnull", "join", "left", "like", "natural", "notnull", "outer",
    "overlaps", "right", "similar", "tablesample", "verbose"]

/-- A word without quotes can stand for a column: it is a plain identifier and, in no letter
case, a keyword that cannot. -/
structure IsColumnName (s : String) : Prop where
  identifier : isIdentifier s = true
  unreserved : lowerCase s ∉ reservedKeywords
  unclaimed : lowerCase s ∉ functionKeywords

/-- The keywords that cannot stand for a column and are not among the reserved words of
validation.  The first is reserved since version 16. -/
def unlistedKeywords : List String := "system_user" :: functionKeywords

end Sql

/-- **The reserved words of validation are the reserved keywords but for one.** -/
theorem mem_reservedWords_iff (word : String) :
    word ∈ reservedWords ↔ word ∈ Sql.reservedKeywords ∧ word ≠ "system_user" := by
  have hlisted : ∀ word ∈ reservedWords, word ∈ Sql.reservedKeywords ∧ word ≠ "system_user" := by
    decide +kernel
  have hreserved : ∀ word ∈ Sql.reservedKeywords, word ≠ "system_user" → word ∈ reservedWords := by
    decide +kernel
  exact ⟨hlisted word, fun h => hreserved word h.1 h.2⟩

/-- An identifier that is no reserved word can stand for a column exactly when it is none of
the keywords that the list of reserved words leaves out. -/
theorem isColumnName_iff {s : String} (identifier : isIdentifier s = true)
    (unreserved : isReserved s = false) :
    Sql.IsColumnName s ↔ lowerCase s ∉ Sql.unlistedKeywords := by
  have hunlisted : lowerCase s ∉ reservedWords := by
    intro hmem
    rw [isReserved, List.contains_iff_mem.mpr hmem] at unreserved
    cases unreserved
  constructor
  · intro h hmem
    rcases List.mem_cons.mp hmem with hsystem | hfunction
    · exact h.unreserved (hsystem ▸ by decide +kernel)
    · exact h.unclaimed hfunction
  · intro hnot
    refine ⟨identifier, fun hmem => hunlisted ?_, fun hmem => hnot (List.mem_cons_of_mem _ hmem)⟩
    refine (mem_reservedWords_iff _).mpr ⟨hmem, fun hsystem => hnot ?_⟩
    exact List.mem_cons.mpr (.inl hsystem)

/-! ## Labels that are sorted by -/

/-- The number of the rows of a model under a label, sorted by that label. -/
def Query.countedAs (model label : String) : Query where
  model := model
  aggregates := [⟨"count", none, label⟩]
  sort := [⟨label, "asc"⟩]

/-- **Every identifier can be sorted by that is no reserved word and no field of the
model.** -/
theorem validate_countedAs_iff {registry : Registry} {m : Model} {label : String}
    (hm : m ∈ registry.models.entries) :
    (Query.countedAs m.key label).validate registry = .ok () ↔
      isIdentifier label = true ∧ isReserved label = false ∧ m.hasField label = false := by
  have hfound : registry.model? m.key = some m := Registry.model?_eq_some_iff.mpr ⟨hm, rfl⟩
  have happlicable : (⟨"count", none, label⟩ : Aggregate).Applicable m := ⟨.count, rfl, rfl⟩
  rw [validate_eq_ok_iff]
  constructor
  · rintro ⟨-, m', hm', -, -, -, haggregates, -⟩
    obtain rfl : m = m' := Option.some.inj (hfound.symm.trans hm')
    obtain ⟨hfree, -⟩ := Validation.checkAggregates_eq_ok_iff.mp haggregates
    obtain ⟨hlabel, -⟩ := hfree _ (List.mem_singleton_self _)
    exact ⟨hlabel.identifier, hlabel.unreserved, hlabel.unshadowing⟩
  · rintro ⟨identifier, unreserved, unshadowing⟩
    have hne : label ≠ "" := (isIdentifier_iff_isPlainName.mp identifier).ne_empty
    refine ⟨m.key_ne_empty, m, hfound, rfl, rfl, rfl, ?_, ?_, rfl⟩
    · refine Validation.checkAggregates_eq_ok_iff.mpr ⟨?_, List.pairwise_singleton _ _, ?_⟩
      · exact List.forall_mem_singleton.mpr ⟨⟨identifier, unreserved, unshadowing⟩, happlicable⟩
      · exact fun _ _ => List.not_mem_nil
    · have hsort : Validation.checkSort m [label] 0 ⟨label, "asc"⟩ = .ok () :=
        Validation.checkSort_eq_ok_iff.mpr ⟨hne, .inr (List.mem_singleton_self label), .asc, rfl⟩
      exact Validation.then_eq_ok_iff.mpr ⟨hsort, rfl⟩

/-- A sort that names no field of the model resolves to the aggregate of that label, and the
text orders by the bare label in its place. -/
theorem Plan.exists_sort_of_label {m : Model} {q : Query} {plan : Plan} {i : Nat} {key : SortKey}
    (hsort : q.sort.mapM (orderingOf m plan.aggregates) = .ok plan.sort)
    (hkey : q.sort[i]? = some key) (hlabel : m.hasField key.field = false) :
    ∃ a ∈ plan.aggregates, a.label = key.field ∧
      ∃ direction, plan.sort[i]? = some ⟨.aggregate a, direction⟩ := by
  obtain ⟨⟨target, direction⟩, ho, horder⟩ := exists_getElem?_of_mapM hsort hkey
  obtain ⟨-, htarget⟩ := orderingOf_eq_ok_iff.mp horder
  rcases sortTargetOf_eq_ok_iff.mp htarget with ⟨f, hf, -⟩ | ⟨-, a, ha, rfl⟩
  · rw [Model.hasField_iff.mpr ⟨f, hf⟩] at hlabel
    cases hlabel
  · have hsame : a.label = key.field := by simpa using List.find?_some ha
    exact ⟨a, List.mem_of_find?_eq_some ha, hsame, direction, ho⟩

/-- **When a sort by a label can be run.**  The text of an accepted query has one reading.  A
sort that names no field resolves to an aggregate, the text orders by its bare label, and that
word can stand for a column exactly when it is, in no letter case, one of the keywords that
validation does not know. -/
theorem sort_label_isColumnName_iff {registry : Registry} {q : Query}
    (accepted : q.validate registry = .ok ()) :
    ∃ m t lexemes s, registry.model? q.model = some m ∧ translate registry q = .ok t ∧
      Sql.lex t.sql = some lexemes ∧ Sql.Selects lexemes s ∧
      (∀ s', Sql.Selects lexemes s' → s' = s) ∧
      ∀ (i : Nat) (key : SortKey), q.sort[i]? = some key → m.hasField key.field = false →
        (∃ a ∈ t.plan.aggregates, a.label = key.field ∧ ∃ direction,
          t.plan.sort[i]? = some ⟨.aggregate a, direction⟩ ∧
          s.orderBy[i]? = some (.label key.field, direction)) ∧
        (Sql.IsColumnName key.field ↔ lowerCase key.field ∉ Sql.unlistedKeywords) := by
  obtain ⟨-, m, hm, -, -, -, haggregates, -, -⟩ := validate_eq_ok_iff.mp accepted
  obtain ⟨hfree, -, -⟩ := Validation.checkAggregates_eq_ok_iff.mp haggregates
  obtain ⟨t, lexemes, s, htranslated, hplan, hlex, hselects, houtline⟩ :=
    exists_selects_of_accepted accepted
  obtain ⟨m', hm', -, -, -, -, haggregated, hsort, -⟩ := Plan.ofQuery_eq_ok_iff.mp hplan
  obtain rfl : m = m' := Option.some.inj (hm.symm.trans hm')
  refine ⟨m, t, lexemes, s, hm, htranslated, hlex, hselects, fun s' hs' => hs'.unique hselects, ?_⟩
  intro i key hkey hlabel
  obtain ⟨a, ha, hsame, direction, ho⟩ := Plan.exists_sort_of_label hsort hkey hlabel
  have hordered : s.orderBy = t.plan.outline.orderBy := congrArg Plan.Outline.orderBy houtline
  refine ⟨⟨a, ha, hsame, direction, ho, ?_⟩, ?_⟩
  · rw [hordered, Plan.outline, List.getElem?_map, ho, ← hsame]
    rfl
  · obtain ⟨b, hb, hb'⟩ := exists_of_mem_mapM haggregated ha
    have hfreeLabel := (hfree b hb).1
    have hlabel : b.label = key.field := (Plan.aggregationOf_spec hb').1.symm.trans hsame
    exact isColumnName_iff (hlabel ▸ hfreeLabel.identifier) (hlabel ▸ hfreeLabel.unreserved)

/-- A sort by the number of orders is one by a column name. -/
theorem sort_label_isColumnName_iff_orders :
    ∃ t lexemes s,
      translate Orders.registry (Orders.query "paid" (Sql.textRange "a" "b") none) = .ok t ∧
      Sql.lex t.sql = some lexemes ∧ Sql.Selects lexemes s ∧
      s.orderBy[0]? = some (.label "n", .desc) ∧ Sql.IsColumnName "n" := by
  have accepted : (Orders.query "paid" (Sql.textRange "a" "b") none).validate Orders.registry
      = .ok () := by decide
  obtain ⟨m, t, lexemes, s, hm, ht, hlex, hselects, -, hlabels⟩ :=
    sort_label_isColumnName_iff accepted
  obtain rfl : Orders.model = m := Option.some.inj hm
  obtain ⟨⟨a, -, -, direction, hsort, horder⟩, hcolumn⟩ := hlabels 0 ⟨"n", "desc"⟩ rfl (by decide)
  obtain ⟨plan, hplan, hfirst⟩ : ∃ plan, Plan.ofQuery Orders.registry
      (Orders.query "paid" (Sql.textRange "a" "b") none) = .ok plan ∧
        plan.sort[0]? = some ⟨.aggregate ⟨.count, none, "n"⟩, .desc⟩ := ⟨_, rfl, rfl⟩
  obtain rfl : plan = t.plan := Except.ok.inj (hplan.symm.trans (ofQuery_of_translate ht).2)
  cases hfirst.symm.trans hsort
  exact ⟨t, lexemes, s, ht, hlex, hselects, horder, hcolumn.mpr (by decide)⟩

/-- **Validation lets a sort through that no server can read**, by a word that cannot stand
for a column. -/
theorem sort_label_keyword :
    (Query.countedAs "orders" "left").validate Orders.registry = .ok () ∧
      ∃ t lexemes s, translate Orders.registry (Query.countedAs "orders" "left") = .ok t ∧
        Sql.lex t.sql = some lexemes ∧ Sql.Selects lexemes s ∧
        s.orderBy = [(.label "left", .asc)] ∧ ¬ Sql.IsColumnName "left" := by
  have accepted : (Query.countedAs "orders" "left").validate Orders.registry = .ok () :=
    (validate_countedAs_iff (m := Orders.model) (List.mem_singleton_self _)).mpr (by decide)
  obtain ⟨t, lexemes, s, ht, htplan, hlex, hselects, houtline⟩ :=
    exists_selects_of_accepted accepted
  obtain ⟨plan, hplan, hkeys⟩ : ∃ plan,
      Plan.ofQuery Orders.registry (Query.countedAs "orders" "left") = .ok plan ∧
        plan.outline.orderBy = [(.label "left", .asc)] := ⟨_, rfl, rfl⟩
  obtain rfl : plan = t.plan := Except.ok.inj (hplan.symm.trans htplan)
  have hordered : s.orderBy = t.plan.outline.orderBy := congrArg Plan.Outline.orderBy houtline
  exact ⟨accepted, t, lexemes, s, ht, hlex, hselects, hordered.trans hkeys,
    fun h => h.unclaimed (by decide)⟩

end SchemaQuery
