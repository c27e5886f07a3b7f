import SchemaQuery.Proofs.Sql.Vocabulary
import SchemaQuery.Proofs.Translation.Totality

/-!
# Only names reach the text

Names are written into SQL as they are, without quotes.  Nothing can be smuggled in through
them: the names of a plan are those of the queried model and the labels of the query
(`Plan.isNameOf_of_ofQuery`), the schema admits nothing but plain names, and validation admits
nothing but plain labels.  What a text of such names is written with is then known run by run
(`Proofs.Sql.Vocabulary`).

## Main definitions

* `ModelEntry.names` - the names that a query of a model may put into its text.
* `Sql.NamesOnly` - a text ends with its only semicolon and is written with given names.

## Main statements

* `namesOnly_of_accepted` - **an accepted query is translated to a text that is written with
  the names of its model and its labels.**
-/

namespace SchemaQuery

open Outcome

/-! ## The names of a plan -/

namespace Plan

/-- Where a name of a plan comes from. -/
inductive IsNameOf (m : Model) (labels : List String) : String → Prop where
  | tableAlias : IsNameOf m labels rootAlias
  | table : IsNameOf m labels m.table.text
  | field {f : Field} (h : f ∈ m.fields.entries) : IsNameOf m labels f.key
  | label {label : String} (h : label ∈ labels) : IsNameOf m labels label

variable {m : Model} {labels : List String}

/-- The names in a column that was looked up are the alias and a field. -/
theorem isNameOf_of_columnOf {name : String} {c : Column} (h : columnOf m name = .ok c) :
    ∀ n ∈ c.names, IsNameOf m labels n := by
  obtain ⟨f, hf, rfl⟩ := columnOf_eq_ok_iff.mp h
  have hdeclared : f ∈ m.fields.entries := (Model.field?_eq_some_iff.mp hf).1
  exact List.forall_mem_cons.mpr ⟨.tableAlias, List.forall_mem_singleton.mpr (.field hdeclared)⟩

/-- A projected field is selected under its own name. -/
theorem isNameOf_of_selectionOf {name : String} {s : Selection} (h : selectionOf m name = .ok s) :
    ∀ n ∈ (Sql.Output.ofSelection s).names, IsNameOf m labels n := by
  obtain ⟨f, hf, rfl⟩ := selectionOf_eq_ok_iff.mp h
  obtain ⟨hdeclared, rfl⟩ := Model.field?_eq_some_iff.mp hf
  have hcolumn : columnOf m f.key = .ok f.column := columnOf_eq_ok_iff.mpr ⟨f, hf, rfl⟩
  intro n hn
  rcases List.mem_append.mp hn with hn | hlabel
  · exact isNameOf_of_columnOf hcolumn n hn
  · split_ifs at hlabel with hsame
    · cases hlabel
    · exact absurd rfl hsame

/-- A comparison that was planned is about a column that was looked up. -/
theorem isNameOf_of_comparisonOf {c : Comparison} {g : Condition} (h : comparisonOf m c = .ok g) :
    ∀ leaf ∈ g.leaves, ∀ n ∈ leaf.column.names, IsNameOf m labels n := by
  obtain ⟨f, op, hf, -, rfl⟩ := comparisonOf_eq_ok_iff.mp h
  intro leaf hleaf
  obtain rfl := List.mem_singleton.mp hleaf
  exact isNameOf_of_columnOf (columnOf_eq_ok_iff.mpr ⟨f, hf, rfl⟩)

theorem Condition.mem_leavesOf {leaf : Leaf} {nodes : List Condition} :
    leaf ∈ leavesOf nodes ↔ ∃ node ∈ nodes, leaf ∈ node.leaves := by
  induction nodes with
  | nil => simp [leavesOf]
  | cons node rest ih => simp [leavesOf, ih]

/-- The same for the comparisons of a list. -/
theorem isNameOf_of_mapM_comparisonOf {cs : List Comparison} {nodes : List Condition}
    (h : cs.mapM (comparisonOf m) = .ok nodes) :
    ∀ leaf ∈ Condition.leavesOf nodes, ∀ n ∈ leaf.column.names, IsNameOf m labels n := by
  intro leaf hleaf
  obtain ⟨node, hnode, hleaf⟩ := Condition.mem_leavesOf.mp hleaf
  obtain ⟨c, -, hc⟩ := exists_of_mem_mapM h hnode
  exact isNameOf_of_comparisonOf hc leaf hleaf

/-- The comparisons of a filter that was planned are those of its nodes. -/
theorem leaves_of_conditionOf {filter : Filter} {g : Condition} (h : conditionOf m filter = .ok g) :
    ∃ nodes, filter.comparisons.mapM (comparisonOf m) = .ok nodes ∧
      g.leaves = Condition.leavesOf nodes := by
  obtain ⟨nodes, hnodes, hg⟩ := conditionOf_eq_ok_iff.mp h
  refine ⟨nodes, hnodes, ?_⟩
  cases hop : filter.connective? with
  | none =>
      obtain rfl : nodes = [g] := by simpa only [hop] using hg
      rw [Condition.leavesOf, Condition.leavesOf, List.append_nil]
  | some op =>
      obtain rfl : g = .logical op nodes := by simpa only [hop] using hg
      rfl

theorem isNameOf_of_conditionOf {filter : Filter} {g : Condition}
    (h : conditionOf m filter = .ok g) :
    ∀ n ∈ g.shape.names, IsNameOf m labels n := by
  obtain ⟨nodes, hnodes, hsame⟩ := leaves_of_conditionOf h
  have hleaves : ∀ leaf ∈ g.leaves, ∀ n ∈ leaf.column.names, IsNameOf m labels n :=
    hsame ▸ isNameOf_of_mapM_comparisonOf hnodes
  intro n hn
  obtain ⟨p, hp, hn⟩ := List.mem_flatMap.mp hn
  rw [Condition.predicates_shape] at hp
  obtain ⟨leaf, hleaf, rfl⟩ := List.mem_map.mp hp
  have hcolumn : leaf.shape.column = leaf.column := by
    obtain ⟨column, op, value⟩ := leaf
    cases op <;> rfl
  exact hleaves leaf hleaf n (hcolumn ▸ hn)

/-- An aggregate is written with its column and its label. -/
theorem isNameOf_of_aggregationOf {a : Aggregate} {b : Aggregation} (hlabel : a.label ∈ labels)
    (h : aggregationOf m a = .ok b) :
    ∀ n ∈ (Sql.Output.aggregate b.function b.column b.label).names, IsNameOf m labels n := by
  obtain ⟨-, hcolumn, -, hsame⟩ := aggregationOf_eq_ok_iff.mp h
  intro n hn
  rcases List.mem_append.mp hn with hn | hn
  · rcases optional_eq_ok_iff.mp hcolumn with ⟨-, hnone⟩ | ⟨name, c, -, hc, hsome⟩
    · rw [hnone] at hn
      cases hn
    · rw [hsome] at hn
      exact isNameOf_of_columnOf hc n hn
  · obtain rfl := List.mem_singleton.mp hn
    exact .label (hsame ▸ hlabel)

/-- A sort is written with a column or with the label of an aggregate. -/
theorem isNameOf_of_orderingOf {aggregates : List Aggregation} {s : SortKey} {o : Ordering}
    (hlabels : ∀ a ∈ aggregates, a.label ∈ labels) (h : orderingOf m aggregates s = .ok o) :
    ∀ n ∈ (Sql.SortKey.ofTarget o.target).names, IsNameOf m labels n := by
  obtain ⟨-, htarget⟩ := orderingOf_eq_ok_iff.mp h
  rcases sortTargetOf_eq_ok_iff.mp htarget with ⟨f, hf, htarget⟩ | ⟨-, a, ha, htarget⟩
  · rw [htarget]
    exact isNameOf_of_columnOf (columnOf_eq_ok_iff.mpr ⟨f, hf, rfl⟩)
  · rw [htarget]
    exact List.forall_mem_singleton.mpr (.label (hlabels a (List.mem_of_find?_eq_some ha)))

/-- **The names of a plan are those of the model and the labels of the query.** -/
theorem isNameOf_of_ofQuery {registry : Registry} {q : Query} {plan : Plan}
    (h : ofQuery registry q = .ok plan) :
    ∃ m ∈ registry.models.entries, m.key = q.model ∧
      ∀ name ∈ plan.emittedNames, IsNameOf m (q.aggregates.map (·.label)) name := by
  obtain ⟨m, hm, hroot, hselect, hfilters, hgroupBy, haggregates, hsort, -⟩ :=
    ofQuery_eq_ok_iff.mp h
  obtain ⟨hmem, hkey⟩ := Registry.model?_eq_some_iff.mp hm
  have hlabels : ∀ b ∈ plan.aggregates, b.label ∈ q.aggregates.map (·.label) := by
    intro b hb
    obtain ⟨a, ha, hb⟩ := exists_of_mem_mapM haggregates hb
    rw [(aggregationOf_spec hb).1]
    exact List.mem_map_of_mem ha
  have hgroups : ∀ c ∈ plan.groupBy, ∀ n ∈ c.names, IsNameOf m (q.aggregates.map (·.label)) n := by
    intro c hc
    obtain ⟨name, -, hc⟩ := exists_of_mem_mapM hgroupBy hc
    exact isNameOf_of_columnOf hc
  have houtputs : ∀ o ∈ Sql.outputs plan, ∀ n ∈ o.names,
      IsNameOf m (q.aggregates.map (·.label)) n := by
    intro o ho
    rcases List.mem_append.mp ho with ho | ho
    · split_ifs at ho with hempty
      · obtain ⟨c, hc, rfl⟩ := List.mem_map.mp ho
        simpa [Sql.Output.names] using hgroups c hc
      · obtain ⟨s, hs, rfl⟩ := List.mem_map.mp ho
        obtain ⟨name, -, hs⟩ := exists_of_mem_mapM hselect hs
        exact isNameOf_of_selectionOf hs
    · obtain ⟨b, hb, rfl⟩ := List.mem_map.mp ho
      obtain ⟨a, ha, hb⟩ := exists_of_mem_mapM haggregates hb
      exact isNameOf_of_aggregationOf (List.mem_map_of_mem ha) hb
  have hroot : ∀ n ∈ [plan.root.table, plan.root.tableAlias],
      IsNameOf m (q.aggregates.map (·.label)) n := by
    obtain ⟨f, -, hroot⟩ := rootOf_eq_ok_iff.mp hroot
    rw [hroot]
    exact List.forall_mem_cons.mpr ⟨.table, List.forall_mem_singleton.mpr .tableAlias⟩
  have hcondition : ∀ n ∈ ((plan.filters.map Condition.shape).map Sql.Condition.names).getD [],
      IsNameOf m (q.aggregates.map (·.label)) n := by
    rcases optional_eq_ok_iff.mp hfilters with ⟨-, hnone⟩ | ⟨filter, g, -, hg, hsome⟩
    · rw [hnone]
      exact fun n hn => absurd hn List.not_mem_nil
    · rw [hsome]
      exact isNameOf_of_conditionOf hg
  have hkeys : ∀ k ∈ Sql.orderKeys plan, ∀ n ∈ k.1.names,
      IsNameOf m (q.aggregates.map (·.label)) n := by
    intro k hk
    obtain ⟨o, ho, rfl⟩ := List.mem_map.mp hk
    obtain ⟨s, -, ho⟩ := exists_of_mem_mapM hsort ho
    exact isNameOf_of_orderingOf hlabels ho
  refine ⟨m, hmem, hkey, ?_⟩
  simp only [emittedNames, Sql.Statement.names, Sql.shape, List.forall_mem_append,
    List.forall_mem_flatMap]
  exact ⟨⟨⟨⟨houtputs, hroot⟩, hcondition⟩, hgroups⟩, hkeys⟩

end Plan

/-! ## Names of a schema in a text -/

namespace Sql

variable {names : List String}

/-- A table name is written with its parts. -/
theorem writtenWith_tableName {name : TableName} (h : ∀ part ∈ name.parts, part.text ∈ names) :
    WrittenWith names name.text := by
  obtain ⟨schema, table⟩ := name
  have htable : WrittenWith names table.text :=
    writtenWith_name table.valid (h table (by simp [TableName.parts]))
  cases schema with
  | none => exact htable
  | some schema =>
      have hschema : WrittenWith names schema.text :=
        writtenWith_name schema.valid (h schema (by simp [TableName.parts]))
      exact writtenWith_separated hschema htable (by decide)

theorem plain_of_isIdentifier {s : String} (h : isIdentifier s = true) : Plain s := fun hdollar =>
  absurd (isIdentifierChar_of_mem h hdollar) (by decide)

theorem plain_tableName (name : TableName) : Plain name.text := by
  obtain ⟨schema, table⟩ := name
  have htable : Plain table.text := plain_of_isIdentifier table.valid
  cases schema with
  | none => exact htable
  | some schema =>
      have hschema : Plain schema.text := plain_of_isIdentifier schema.valid
      exact plain_append.mpr ⟨plain_append.mpr ⟨hschema, by decide⟩, htable⟩

/-- **A text that holds nothing of a caller but names.**  It has no characters that could end
a word or a text and begin another, its one semicolon ends it, and every word in it is a
keyword, a placeholder or one of the names. -/
structure NamesOnly (names : List String) (sql : String) : Prop where
  /-- Nothing but ASCII letters and digits, underscores, spaces and a few signs. -/
  characters : ∀ c ∈ sql.toList, IsNameChar c ∨ c ∈ " .,$()*=<>!;".toList
  /-- The only semicolon is the last character. -/
  ends : ∃ body, sql = body ++ ";" ∧ ';' ∉ body.toList ∧ WrittenWith names body
  /-- Every `$` has a number after it. -/
  placeholders : ∃ count, placeholdersIn sql = placeholdersFrom 0 count
  /-- No quote, no backslash, and neither of the characters that begin a comment. -/
  unquoted : ∀ c ∈ "'\"`\\-/".toList, c ∉ sql.toList

/-- A statement of plain names holds nothing but names. -/
theorem Statement.namesOnly_render {α : Type} {s : Statement α}
    (hplain : ∀ name ∈ names, isIdentifier name = true)
    (hwritten : ∀ name ∈ s.names, WrittenWith names name) (hdollar : ∀ name ∈ s.names, Plain name) :
    NamesOnly names s.render := by
  have hbody : WrittenWith names (" ".intercalate s.clauses) := writtenWith_clauses hwritten
  have hchars : ∀ c ∈ (" ".intercalate s.clauses).toList, IsNameChar c ∨ c ∈ " .,$()*=<>!".toList :=
    hbody.characters hplain
  have hall : ∀ c ∈ s.render.toList, IsNameChar c ∨ c ∈ " .,$()*=<>!;".toList := by
    intro c hc
    rw [render, String.toList_append] at hc
    rcases List.mem_append.mp hc with hc | hc
    · exact (hchars c hc).imp_right fun hsign => List.mem_append_left [';'] hsign
    · exact .inr (List.mem_append_right " .,$()*=<>!".toList hc)
  refine ⟨hall, ⟨_, rfl, fun hsemicolon => ?_, hbody⟩, ⟨_, placeholdersIn_render hdollar⟩, ?_⟩
  · rcases hchars _ hsemicolon with hname | hsign
    · exact absurd (isIdentifierChar_iff.mpr hname) (by decide)
    · exact absurd hsign (by decide)
  · have hforeign : ("'\"`\\-/".toList.all fun c =>
        !isIdentifierChar c && !" .,$()*=<>!;".toList.contains c) = true := by decide +kernel
    intro c hc hmem
    obtain ⟨hword, hother⟩ := Bool.and_eq_true_iff.mp (List.all_eq_true.mp hforeign c hc)
    rcases hall c hmem with hname | hsign
    · rw [isIdentifierChar_iff.mpr hname] at hword
      cases hword
    · rw [List.contains_iff_mem.mpr hsign] at hother
      cases hother

end Sql

/-- The names that a query of a model may put into its text: the alias of the table, the parts
of the table name, the fields of the model, and the labels of the query. -/
def ModelEntry.names (entry : ModelEntry) (labels : List String) : List String :=
  "t0" :: ((entry.table.toList.splitOn '.').map String.ofList ++ entry.fields.map (·.name)
    ++ labels)

theorem Model.Describes.isIdentifier_of_mem_names {m : Model} {entry : ModelEntry}
    {labels : List String} (h : m.Describes entry)
    (hlabels : ∀ label ∈ labels, isIdentifier label = true) :
    ∀ name ∈ entry.names labels, isIdentifier name = true := by
  have hparts : ∀ name ∈ (entry.table.toList.splitOn '.').map String.ofList,
      isIdentifier name = true := by
    rw [← h.table, TableName.splitOn_text, List.map_map]
    intro name hname
    obtain ⟨part, -, rfl⟩ := List.mem_map.mp hname
    simpa using part.valid
  have hfields : ∀ name ∈ entry.fields.map (·.name), isIdentifier name = true := by
    intro name hname
    obtain ⟨e, he, rfl⟩ := List.mem_map.mp hname
    obtain ⟨f, -, hf⟩ := exists_of_mem_forall₂ h.fields.flip he
    exact hf.name ▸ f.name.valid
  simp only [ModelEntry.names, List.forall_mem_cons, List.forall_mem_append]
  exact ⟨by decide, ⟨hparts, hfields⟩, hlabels⟩

namespace Plan

variable {m : Model} {labels : List String} {name : String}

/-- A name of a plan is written with the names of the entry that its model has the content
of. -/
theorem IsNameOf.writtenWith {entry : ModelEntry} (hm : m.Describes entry)
    (hlabels : ∀ label ∈ labels, isIdentifier label = true) (h : IsNameOf m labels name) :
    Sql.WrittenWith (entry.names labels) name := by
  have hplain := hm.isIdentifier_of_mem_names hlabels
  have hself (n : String) (hn : n ∈ entry.names labels) : Sql.WrittenWith (entry.names labels) n :=
    Sql.writtenWith_name (hplain n hn) hn
  cases h with
  | tableAlias => exact hself _ (by simp [ModelEntry.names, rootAlias])
  | table =>
      refine Sql.writtenWith_tableName fun part hpart => ?_
      have htext : part.text ∈ (entry.table.toList.splitOn '.').map String.ofList := by
        rw [← hm.table, TableName.splitOn_text, List.map_map]
        exact List.mem_map.mpr ⟨part, hpart, String.ofList_toList⟩
      exact List.mem_cons_of_mem _ (List.mem_append_left _ (List.mem_append_left _ htext))
  | field hf =>
      obtain ⟨e, he, hdescribes⟩ := exists_of_mem_forall₂ hm.fields hf
      refine hself _ (List.mem_cons_of_mem _ (List.mem_append_left _ (List.mem_append_right _ ?_)))
      exact List.mem_map.mpr ⟨e, he, hdescribes.name.symm⟩
  | label hlabel => exact hself _ (List.mem_cons_of_mem _ (List.mem_append_right _ hlabel))

theorem IsNameOf.plain (hlabels : ∀ label ∈ labels, isIdentifier label = true)
    (h : IsNameOf m labels name) : Sql.Plain name := by
  cases h with
  | tableAlias => decide
  | table => exact Sql.plain_tableName m.table
  | field => exact Sql.plain_of_isIdentifier (Identifier.valid _)
  | label hlabel => exact Sql.plain_of_isIdentifier (hlabels _ hlabel)

end Plan

/-- **An accepted query is translated to a text that holds nothing but names** of the model
that it names, as they stand in the document of the schema, and its own labels. -/
theorem namesOnly_of_accepted {text : String} {registry : Registry} {q : Query}
    (built : Registry.ofText text = .ok registry) (accepted : q.validate registry = .ok ()) :
    ∃ t schema entry, translate registry q = .ok t ∧ SchemaDocument.ofText text = .ok schema ∧
      entry ∈ schema.models ∧ entry.name = q.model ∧
      Sql.NamesOnly (entry.names (q.aggregates.map (·.label))) t.sql := by
  obtain ⟨plan, emitted, hplan, hemitted, htranslated⟩ := translate_of_validate accepted
  obtain ⟨m, hmem, hkey, hnames⟩ := Plan.isNameOf_of_ofQuery hplan
  obtain ⟨schema, hread, hschema⟩ := Registry.describes_of_ofText built
  obtain ⟨entry, hentry, hm⟩ := exists_of_mem_forall₂ hschema hmem
  have hlabels : ∀ label ∈ q.aggregates.map (·.label), isIdentifier label = true := by
    obtain ⟨-, m', -, -, -, -, haggregates, -⟩ := validate_eq_ok_iff.mp accepted
    intro label hlabel
    obtain ⟨a, ha, rfl⟩ := List.mem_map.mp hlabel
    exact ((Validation.checkAggregates_eq_ok_iff.mp haggregates).1 a ha).1.identifier
  refine ⟨⟨plan, emitted⟩, schema, entry, htranslated, hread, hentry, hm.name ▸ hkey, ?_⟩
  show Sql.NamesOnly _ emitted.sql
  rw [Sql.sql_eq_render_shape hemitted]
  exact Sql.Statement.namesOnly_render (hm.isIdentifier_of_mem_names hlabels)
    (fun name hname => (hnames name hname).writtenWith hm hlabels)
    (fun name hname => (hnames name hname).plain hlabels)

namespace Orders

/-- A schema with one model of one field. -/
def schema : SchemaDocument where
  models := [{
    name := "orders"
    table := "sales.orders"
    primaryKey := "status"
    fields := [⟨"status", "string", false, none, none, none⟩] }]

/-- A search for a text that would end the statement, had it been written there. -/
def hostile : Query where
  model := "orders"
  filters := some (.comparison ⟨"status", "contains", some (.text "'; DROP TABLE orders")⟩)
  aggregates := [⟨"count", none, "n"⟩]
  sort := [⟨"n", "desc"⟩]

end Orders

/-- A search for a hostile text is written with the names `sales`, `orders`, `status` and
`n`. -/
theorem namesOnly_of_accepted_orders :
    ∃ registry, Registry.ofText Orders.schema.toTree.toText = .ok registry ∧
      Orders.hostile.validate registry = .ok () ∧
      ∃ t schema entry, translate registry Orders.hostile = .ok t ∧
        SchemaDocument.ofText Orders.schema.toTree.toText = .ok schema ∧ entry ∈ schema.models ∧
        entry.name = "orders" ∧ Sql.NamesOnly (entry.names ["n"]) t.sql := by
  have hchecked : (Registry.ofText Orders.schema.toTree.toText).toOption.map Orders.hostile.validate
      = some (.ok ()) := by decide +kernel
  obtain ⟨registry, hregistry, haccepted⟩ := Option.map_eq_some_iff.mp hchecked
  have hbuilt : Registry.ofText Orders.schema.toTree.toText = .ok registry := by
    cases hresult : Registry.ofText Orders.schema.toTree.toText with
    | error e =>
        rw [hresult] at hregistry
        cases hregistry
    | ok r =>
        rw [hresult] at hregistry
        rw [Option.some.inj hregistry]
  exact ⟨registry, hbuilt, haccepted, namesOnly_of_accepted hbuilt haccepted⟩

end SchemaQuery
