import SchemaQuery.Proofs.Json.Records
import SchemaQuery.Proofs.Plan.Text
import SchemaQuery.Proofs.Query.FilterGrammar
import SchemaQuery.Proofs.Schema.RoundTrip
import SchemaQuery.Service.Handle

/-!
# Queries are read back from their texts

A query may be written in many ways: members in any order, records as arrays, `null` for what
is not given, and members that nobody reads.  Written again, it has one text, and that text is
read as the same query.  The filter is the only part that could stand in the way, since it is
read as a free value first: the new text must not nest deeper than the old one, which was
read, and a value of `null` would be lost.  Neither occurs, for the parts of a filter are
parts of the value that it was read from, and a decoded comparison has no `null`.

## Main definitions

* `Comparison.toValue`, `Filter.toValue` - comparisons and filters as free values.

## Main statements

* `Filter.written_toValue` - a filter is written as its own value.
* `Filter.Written.depth_le` - no other value of a filter is nested less.
* `Query.ofText_toText` - a decoded query is read back from its text.
* `documents_read_back` - **queries and schema documents are read back**, and what comes of
  their texts does not change when they are written again.
-/

namespace SchemaQuery

open Json (Document Number Record Tree Value)
open Json.Document (toInt64_ofInt toList_document toOption_eq_some)
open Json.Record (placeClauses_cons placeClauses_list placeClauses_some toRecord_clausesOf)
open Outcome

/-! ## Depth -/

namespace Json

theorem membersDepth_insertMember_le (key : String) (value : Tree)
    (members : List (String × Tree)) :
    Tree.membersDepth (insertMember key value members)
      ≤ max value.depth (Tree.membersDepth members) := by
  induction members with
  | nil => exact Nat.le_refl _
  | cons member rest ih =>
      obtain ⟨k, v⟩ := member
      rw [insertMember]
      split_ifs
      · exact Nat.le_refl _
      · simp only [Tree.membersDepth]
        omega
      · simp only [Tree.membersDepth]
        omega

/-- Sorting may drop members, but nests none deeper. -/
theorem membersDepth_sortMembers_le (members : List (String × Tree)) :
    Tree.membersDepth (sortMembers members) ≤ Tree.membersDepth members := by
  suffices hstep : ∀ sorted, Tree.membersDepth (members.foldl
      (fun sorted member => insertMember member.1 member.2 sorted) sorted)
        ≤ max (Tree.membersDepth sorted) (Tree.membersDepth members) by
    simpa [sortMembers, Tree.membersDepth] using hstep []
  induction members with
  | nil => exact fun sorted => Nat.le_max_left _ _
  | cons member rest ih =>
      intro sorted
      have hinsert := membersDepth_insertMember_le member.1 member.2 sorted
      have hrest := ih (insertMember member.1 member.2 sorted)
      rw [List.foldl_cons]
      simp only [Tree.membersDepth]
      omega

namespace Document

mutual

/-- The tree of a document does not nest deeper than the document. -/
theorem depth_le_of_toTree? : ∀ {d : Document} {t : Tree}, d.toTree? = some t → t.depth ≤ d.depth
  | .null, _, h | .bool _, _, h => by
      obtain rfl := Option.some.inj h
      exact Nat.le_refl _
  | .number _, _, h | .text _, _, h => by
      obtain ⟨_, -, rfl⟩ := Option.map_eq_some_iff.mp h
      exact Nat.le_refl _
  | .array items, _, h => by
      obtain ⟨trees, hread, rfl⟩ := Option.map_eq_some_iff.mp h
      exact Nat.succ_le_succ (itemsDepth_le_of_toTrees? hread)
  | .object members, _, h => by
      obtain ⟨trees, hread, rfl⟩ := Option.map_eq_some_iff.mp h
      exact Nat.succ_le_succ
        (Nat.le_trans (membersDepth_sortMembers_le trees) (membersDepth_le_of_toMembers? hread))

theorem itemsDepth_le_of_toTrees? : ∀ {ds : List Document} {ts : List Tree},
    toTrees? ds = some ts → Tree.itemsDepth ts ≤ itemsDepth ds
  | [], _, h => by
      obtain rfl := Option.some.inj h
      exact Nat.le_refl _
  | item :: rest, _, h => by
      simp only [toTrees?, Option.bind_eq_bind, Option.bind_eq_some_iff] at h
      obtain ⟨tree, hitem, trees, hrest, hsame⟩ := h
      obtain rfl := Option.some.inj hsame
      have hitem := depth_le_of_toTree? hitem
      have hrest := itemsDepth_le_of_toTrees? hrest
      simp only [Tree.itemsDepth, itemsDepth]
      omega

theorem membersDepth_le_of_toMembers? : ∀ {ms : List (Option String × Document)}
    {ts : List (String × Tree)}, toMembers? ms = some ts → Tree.membersDepth ts ≤ membersDepth ms
  | [], _, h => by
      obtain rfl := Option.some.inj h
      exact Nat.le_refl _
  | (_, value) :: rest, _, h => by
      simp only [toMembers?, Option.bind_eq_bind, Option.bind_eq_some_iff] at h
      obtain ⟨_, -, tree, hvalue, trees, hrest, hsame⟩ := h
      obtain rfl := Option.some.inj hsame
      have hvalue := depth_le_of_toTree? hvalue
      have hrest := membersDepth_le_of_toMembers? hrest
      simp only [Tree.membersDepth, membersDepth]
      omega

end

/-- There was room for a value that was read. -/
theorem depth_of_toValue {d : Document} {outer : Nat} {v : Value} (h : d.toValue outer = .ok v) :
    outer + v.tree.depth ≤ maxDepth := by
  unfold toValue at h
  split at h
  · rename_i hdecodable
    split at h
    · rename_i v' hv'
      obtain rfl := Except.ok.inj h
      have htree : d.toTree? = some v'.tree := by
        unfold toValue? at hv'
        split at hv'
        · rename_i t ht
          rw [ht, ← Option.some.inj hv']
        · cases hv'
      have hroom : outer + d.depth ≤ maxDepth :=
        of_decide_eq_true (Bool.and_eq_true_iff.mp hdecodable).2
      exact Nat.le_trans (Nat.add_le_add_left (depth_le_of_toTree? htree) outer) hroom
    · cases h
  · cases h

end Document

end Json

/-! ## Comparisons and filters as values -/

namespace Comparison

theorem isCanonical_toTree (c : Comparison) : c.toTree.IsCanonical := by
  obtain ⟨field, op, value⟩ := c
  cases value with
  | none =>
      have hkeys : ["field", "op"].Pairwise (· < ·) := by decide
      exact ⟨hkeys, trivial, trivial, trivial⟩
  | some v =>
      have hkeys : ["field", "op", "value"].Pairwise (· < ·) := by decide
      exact ⟨hkeys, trivial, trivial, v.canonical, trivial⟩

/-- A comparison as a value. -/
def toValue (c : Comparison) : Value := ⟨c.toTree, c.isCanonical_toTree⟩

theorem view_toValue (c : Comparison) : c.toValue.view = .object
    ([("field", .text c.field), ("op", .text c.op)] ++ c.value.toList.map (("value", ·))) := by
  obtain ⟨field, op, value⟩ := c
  cases value <;> rfl

/-- A comparison is written as its own value, unless it compares with `null`. -/
theorem written_toValue {c : Comparison} (h : c.HasNoNull) : Written c.toValue c := by
  have hview := c.view_toValue
  cases hvalue : c.value with
  | none =>
      rw [hvalue] at hview
      exact .object hview (by simp) ⟨rfl, rfl, hvalue⟩
  | some v =>
      rw [hvalue] at hview
      have hholds : HoldsValue none (some v) c.value := by
        show c.value = if v.isNull then none else some v
        rw [hvalue, h v hvalue]
        rfl
      exact .object hview (by simp) ⟨rfl, rfl, hholds⟩

theorem areCanonical_toTrees (branches : List Comparison) :
    Tree.AreCanonical (branches.map (·.toTree)) := by
  induction branches with
  | nil => trivial
  | cons c rest ih => exact ⟨c.isCanonical_toTree, ih⟩

theorem written_toValues {branches : List Comparison} (h : ∀ c ∈ branches, c.HasNoNull) :
    List.Forall₂ Written
      (Value.itemsOf (branches.map (·.toTree)) (areCanonical_toTrees branches)) branches := by
  induction branches with
  | nil => exact .nil
  | cons c rest ih =>
      obtain ⟨hc, hrest⟩ := List.forall_mem_cons.mp h
      exact .cons (written_toValue hc) (ih hrest)

/-- The value of a comparison is a part of every value that the comparison is written as. -/
theorem Written.depth_lt {v w : Value} {c : Comparison} (h : Written v c) (hw : w ∈ c.value) :
    w.tree.depth < v.tree.depth := by
  have hmember {member : Option Value} (hholds : HoldsValue none member c.value) :
      member = some w := by
    cases member with
    | none => cases hholds.symm.trans hw
    | some u =>
        have hu : c.value = if u.isNull then none else some u := hholds
        split at hu
        · cases hu.symm.trans hw
        · exact hu.symm.trans hw
  cases h with
  | object hview _ hholds =>
      rw [Json.Value.tree_of_view_object hview]
      obtain ⟨front, rest, hmembers, -⟩ := List.lookup_eq_some_iff.mp (hmember hholds.value)
      have hmem : ("value", w.tree) ∈ (front ++ ("value", w) :: rest).map
          fun member => (member.1, member.2.tree) :=
        List.mem_map_of_mem (List.mem_append_right front List.mem_cons_self)
      rw [hmembers]
      exact Tree.depth_lt_of_mem_members hmem
  | array hview _ hholds =>
      rw [Json.Value.tree_of_view_array hview]
      exact Tree.depth_lt_of_mem_items
        (List.mem_map_of_mem (List.mem_of_getElem? (hmember hholds.value)))

theorem Written.depth_pos {v : Value} {c : Comparison} (h : Written v c) : 0 < v.tree.depth := by
  cases h with
  | object hview _ _ => rw [Json.Value.tree_of_view_object hview]; exact Nat.succ_pos _
  | array hview _ _ => rw [Json.Value.tree_of_view_array hview]; exact Nat.succ_pos _

/-- **No value of a comparison is nested less than its own.** -/
theorem Written.depth_le {v : Value} {c : Comparison} (h : Written v c) :
    c.toTree.depth ≤ v.tree.depth := by
  have hpos := h.depth_pos
  obtain ⟨field, op, value⟩ := c
  cases value with
  | none =>
      show 0 + 1 ≤ v.tree.depth
      omega
  | some w =>
      have hw : w.tree.depth < v.tree.depth := h.depth_lt rfl
      show max 0 (max 0 (max w.tree.depth 0)) + 1 ≤ v.tree.depth
      omega

end Comparison

namespace Filter

theorem isCanonical_toTree (filter : Filter) : filter.toTree.IsCanonical := by
  cases filter with
  | comparison c => exact c.isCanonical_toTree
  | and branches | or branches =>
      exact ⟨List.pairwise_singleton _ _, Comparison.areCanonical_toTrees branches, trivial⟩
  | not c => exact ⟨List.pairwise_singleton _ _, c.isCanonical_toTree, trivial⟩

/-- A filter as a value. -/
def toValue (filter : Filter) : Value := ⟨filter.toTree, filter.isCanonical_toTree⟩

/-- **A filter is written as its own value**, unless it compares with `null`. -/
theorem written_toValue {filter : Filter} (h : filter.HasNoNull) :
    Written filter.toValue filter := by
  cases filter with
  | comparison c =>
      refine .comparison c.view_toValue (by simp) ?_
        (Comparison.written_toValue (h c List.mem_cons_self))
      cases c.value <;> simp [connectiveKeys]
  | and branches => exact .and rfl rfl (Comparison.written_toValues h)
  | or branches => exact .or rfl rfl (Comparison.written_toValues h)
  | not c => exact .not rfl (Comparison.written_toValue (h c List.mem_cons_self))

theorem itemsDepth_branches_le {items : List Value} {branches : List Comparison}
    (h : List.Forall₂ Comparison.Written items branches) :
    Tree.itemsDepth (branches.map (·.toTree)) ≤ Tree.itemsDepth (items.map (·.tree)) := by
  induction h with
  | nil => exact Nat.le_refl _
  | cons hhead _ ih =>
      have hhead := hhead.depth_le
      simp only [List.map_cons, Tree.itemsDepth]
      omega

/-- **No value of a filter is nested less than its own.** -/
theorem Written.depth_le {v : Value} {filter : Filter} (h : Written v filter) :
    filter.toTree.depth ≤ v.tree.depth := by
  cases h with
  | comparison _ _ _ hcontent => exact hcontent.depth_le
  | and hview harray hcontent | or hview harray hcontent =>
      have hbranches := itemsDepth_branches_le hcontent
      rw [Value.tree_of_view_object hview]
      simp only [List.map_cons, List.map_nil, Value.tree_of_view_array harray, toTree, Tree.depth,
        Tree.membersDepth]
      omega
  | not hview hcontent =>
      have hbranch := hcontent.depth_le
      rw [Value.tree_of_view_object hview]
      simp only [List.map_cons, List.map_nil, toTree, Tree.depth, Tree.membersDepth]
      omega

/-- **A decoded filter is read back**, if its numbers are. -/
theorem ofDocument_toTree {d : Document} {filter : Filter} (h : ofDocument d = .ok filter)
    (hnumbers : filter.toTree.ReadsBack) : ofDocument filter.toTree.document = .ok filter := by
  have hdepth : 1 + filter.toTree.depth ≤ Document.maxDepth := by
    cases d with
    | object members =>
        obtain ⟨v, hv, hfilter⟩ := bind_eq_ok_iff.mp h
        have hroom := Document.depth_of_toValue hv
        have hle := (ofValue_eq_ok_iff.mp hfilter).depth_le
        omega
    | null | bool | number | text | array => exact absurd h Document.mismatch_ne_ok
  have hvalue : filter.toTree.document.toValue 1 = .ok filter.toValue :=
    Document.toValue_document (v := filter.toValue) hnumbers hdepth
  have hread : ofValue filter.toValue = .ok filter :=
    ofValue_eq_ok_iff.mpr (written_toValue (hasNoNull_of_ofDocument h))
  have hobject : ofDocument filter.toTree.document
      = filter.toTree.document.toValue 1 >>= ofValue := by
    cases filter <;> rfl
  rw [hobject, hvalue, ok_bind, hread]

theorem document_ne_null (filter : Filter) : filter.toTree.document ≠ .null := by
  cases filter <;> nofun

/-- The integers in the values of a filter fit. -/
theorem fits_of_mem_numbers {filter : Filter} {n : Number} (h : n ∈ filter.toTree.numbers) :
    n.Fits :=
  Tree.fits_of_mem_numbers filter.isCanonical_toTree h

end Filter

/-! ## The other clauses -/

theorem Aggregate.toRecord_toTree (a : Aggregate) :
    a.toTree.document.toRecord record .text = .ok a := by
  obtain ⟨function, field, label⟩ := a
  have hplace : record.placeClauses record.blank
      [("fn", some (.text function)), ("field", field.map .text), ("alias", some (.text label))]
        = .ok ⟨function, field, label⟩ := by
    have hfunction : record.place record.blank "fn" (Tree.text function).document
        = .ok { function } := rfl
    have hfield : ∀ tree ∈ field.map Tree.text,
        record.place { function } "field" tree.document = .ok { function, field } := by
      intro tree htree
      obtain ⟨name, hname, rfl⟩ := Option.map_eq_some_iff.mp htree
      rw [hname]
      rfl
    rw [placeClauses_some hfunction, placeClauses_cons hfield fun hnone => by
      rw [Option.map_eq_none_iff.mp hnone]]
    rfl
  rw [toTree_eq]
  exact toRecord_clausesOf .text rfl (by simp [Record.names, record]) (by simp [record]) hplace

theorem SortKey.toRecord_toTree (s : SortKey) :
    s.toTree.document.toRecord record .text = .ok s := by
  obtain ⟨field, direction⟩ := s
  have hplace : record.placeClauses record.blank
      [("field", some (.text field)),
        ("direction", if direction = "" then none else some (.text direction))]
          = .ok ⟨field, direction⟩ := by
    have hfield : record.place record.blank "field" (Tree.text field).document
        = .ok { field } := rfl
    have hdirection : ∀ tree ∈ (if direction = "" then none else some (Tree.text direction)),
        record.place { field } "direction" tree.document = .ok ⟨field, direction⟩ := by
      intro tree htree
      split at htree
      · cases htree
      · obtain rfl := Option.some.inj htree
        rfl
    rw [placeClauses_some hfield, placeClauses_cons hdirection fun hnone => by
      split at hnone
      · rename_i hempty
        rw [hempty]
      · cases hnone]
    rfl
  rw [toTree_eq]
  exact toRecord_clausesOf .text rfl (by simp [Record.names, record]) (by simp [record]) hplace

/-- The numbers of a pagination build it, whether they have defaults or not. -/
theorem Pagination.placeClauses_toTree (p : Pagination) :
    record.placeClauses record.blank
      [("limit", some (.ofInt p.limit.toInt)), ("offset", some (.ofInt p.offset.toInt))]
        = .ok p := by
  have hlimit : record.place record.blank "limit" (Tree.ofInt p.limit.toInt).document
      = .ok ⟨p.limit, 0⟩ := by
    show ((Tree.ofInt p.limit.toInt).document.toInt64 >>= fun limit => _) = _
    rw [toInt64_ofInt]
    rfl
  have hoffset : record.place ⟨p.limit, 0⟩ "offset" (Tree.ofInt p.offset.toInt).document
      = .ok p := by
    show ((Tree.ofInt p.offset.toInt).document.toInt64 >>= fun offset => _) = _
    rw [toInt64_ofInt]
    rfl
  rw [placeClauses_some hlimit, placeClauses_some hoffset]
  rfl

theorem Pagination.toRecord_toTree (p : Pagination) :
    p.toTree.document.toRecord record .text = .ok p :=
  toRecord_clausesOf .text rfl (by simp [Record.names, record]) (by simp [record])
    p.placeClauses_toTree

/-! ## Queries -/

namespace Query

/-- A query is read back from its document, if its filter is. -/
theorem ofDocument_toTree {q : Query}
    (hfilters : ∀ filter ∈ q.filters, Filter.ofDocument filter.toTree.document = .ok filter) :
    ofDocument q.toTree.document = .ok q := by
  obtain ⟨model, fields, filters, groupBy, aggregates, sort, pagination⟩ := q
  have hmodel (q : Query) : record.place q "model" (Tree.text model).document
      = .ok { q with model := model } := rfl
  have htexts (xs : List String) :
      (Tree.array (xs.map .text)).document.toList Document.toText = .ok xs :=
    toList_document fun _ _ => rfl
  have hfields (q : Query) : record.place q "fields" (Tree.array (fields.map .text)).document
      = .ok { q with fields := fields } := by
    show ((Tree.array _).document.toList _ >>= fun fields => _) = _
    rw [htexts]
    rfl
  have hfilter (q : Query) : ∀ tree ∈ filters.map (·.toTree),
      record.place q "filters" tree.document = .ok { q with filters := filters } := by
    intro tree htree
    obtain ⟨filter, hfilter, rfl⟩ := Option.map_eq_some_iff.mp htree
    show (filter.toTree.document.toOption Filter.ofDocument >>= fun filters => _) = _
    rw [toOption_eq_some filter.document_ne_null (hfilters filter hfilter), hfilter]
    rfl
  have hgroupBy (q : Query) : record.place q "group_by" (Tree.array (groupBy.map .text)).document
      = .ok { q with groupBy := groupBy } := by
    show ((Tree.array _).document.toList _ >>= fun groupBy => _) = _
    rw [htexts]
    rfl
  have haggregates (q : Query) :
      record.place q "aggregates" (Tree.array (aggregates.map (·.toTree))).document
        = .ok { q with aggregates := aggregates } := by
    show ((Tree.array _).document.toList _ >>= fun aggregates => _) = _
    rw [toList_document fun a _ => a.toRecord_toTree]
    rfl
  have hsort (q : Query) : record.place q "sort" (Tree.array (sort.map (·.toTree))).document
      = .ok { q with sort := sort } := by
    show ((Tree.array _).document.toList _ >>= fun sort => _) = _
    rw [toList_document fun s _ => s.toRecord_toTree]
    rfl
  have hpagination (q : Query) : ∀ tree ∈ pagination.map (·.toTree),
      record.place q "pagination" tree.document = .ok { q with pagination := pagination } := by
    intro tree htree
    obtain ⟨p, hp, rfl⟩ := Option.map_eq_some_iff.mp htree
    have hnull : p.toTree.document ≠ .null := nofun
    show (p.toTree.document.toOption (Document.toRecord Pagination.record .text)
      >>= fun pagination => _) = _
    rw [toOption_eq_some hnull p.toRecord_toTree, hp]
    rfl
  rw [toTree_eq]
  refine toRecord_clausesOf .text rfl (by simp [Record.names, record]) (by simp [record]) ?_
  -- the blank query lacks what a query whose clauses are left out lacks
  rw [placeClauses_some (hmodel _), placeClauses_list (hfields _) fun hnil => by rw [hnil]; rfl,
    placeClauses_cons (hfilter _) fun hnone => by rw [Option.map_eq_none_iff.mp hnone]; rfl,
    placeClauses_list (hgroupBy _) fun hnil => by rw [hnil]; rfl,
    placeClauses_list (haggregates _) fun hnil => by rw [hnil]; rfl,
    placeClauses_list (hsort _) fun hnil => by rw [hnil]; rfl,
    placeClauses_cons (hpagination _) fun hnone => by rw [Option.map_eq_none_iff.mp hnone]; rfl]
  rfl

theorem exists_ofDocument {text : String} {q : Query} (h : ofText text = .ok q) :
    ∃ d, ofDocument d = .ok q := by
  obtain ⟨d, -, hd⟩ := Document.decodeText_eq_ok_iff.mp h
  exact ⟨d, hd⟩

/-- **A decoded query is read back from its text**, if the floats in its filter are. -/
theorem ofText_toText {text : String} {q : Query} (h : ofText text = .ok q)
    (hfloats : ∀ x, Number.float x ∈ q.toTree.numbers → (Number.float x).ReadsBack) :
    ofText q.toTree.toText = .ok q := by
  obtain ⟨d, hd⟩ := exists_ofDocument h
  rw [ofText, Document.decodeText_toText]
  refine ofDocument_toTree fun filter hfilter => ?_
  obtain ⟨part, hpart⟩ := exists_filter_ofDocument hd filter hfilter
  refine Filter.ofDocument_toTree hpart
    (Tree.readsBack_of_fits (fun _ => Filter.fits_of_mem_numbers) fun x hx => hfloats x ?_)
  have hmember : ("filters", filter.toTree) ∈ clausesOf
      [("model", some (.text q.model)), ("fields", listClause .text q.fields),
        ("filters", q.filters.map (·.toTree)), ("group_by", listClause .text q.groupBy),
        ("aggregates", listClause (·.toTree) q.aggregates),
        ("sort", listClause (·.toTree) q.sort),
        ("pagination", q.pagination.map (·.toTree))] := by
    rw [Option.mem_def.mp hfilter]
    simp [clausesOf, optionMember]
  rw [toTree_eq]
  exact Tree.mem_memberNumbers hmember hx

end Query

/-! ## Both documents -/

/-- **Queries and schema documents are read back.**  Whatever the text is that a query was
decoded from, the text that the query is written as is decoded to the query again, if the
floats in it read back; so no registry tells the two texts apart.  The same holds of schema
documents, where no float stands in the way, and of the registries that are built from the
texts or refused. -/
theorem documents_read_back :
    (∀ text q, Query.ofText text = .ok q →
      (∀ x, Number.float x ∈ q.toTree.numbers → (Number.float x).ReadsBack) →
      Query.ofText q.toTree.toText = .ok q ∧
        ∀ registry, Session.Question.reply registry (.translation q.toTree.toText)
          = Session.Question.reply registry (.translation text)) ∧
    ∀ text schema, SchemaDocument.ofText text = .ok schema →
      SchemaDocument.ofText schema.toTree.toText = .ok schema ∧
        Registry.ofText schema.toTree.toText = Registry.ofText text := by
  constructor
  · intro text q h hfloats
    have hagain := Query.ofText_toText h hfloats
    refine ⟨hagain, fun registry => ?_⟩
    rw [Session.Question.reply, Session.Question.reply, hagain, h]
  · intro text schema h
    have hagain := schema.ofText_toText
    refine ⟨hagain, ?_⟩
    rw [Registry.ofText, Registry.ofText, SchemaDocument.read, SchemaDocument.read, hagain, h]

namespace Spelled

/-- A query in an unusual order, with an array for a comparison, a `null` for no value, a key
that stands twice in a value and a member that nobody reads. -/
def text : String :=
  "\x7b\"limit\": 1e999, \"filters\": \x7b\"and\": ["
    ++ "[\"amount\", \">\", \x7b\"a\": 1, \"a\": 0.5\x7d],"
    ++ " \x7b\"value\": null, \"op\": \"is_null\", \"field\": \"placed\"\x7d]\x7d,"
    ++ " \"pagination\": [10], \"model\": \"orders\"\x7d"

theorem half_normal : Numeric.NormalForm (Nat.pow 2 52) (-53) := by decide

/-- One half. -/
def half : Number := .float ⟨false, Nat.pow 2 52, -53, half_normal⟩

/-- The value of the key that stands twice is the last one. -/
def value : Value :=
  ⟨.object [("a", .number half)], List.pairwise_singleton _ _, trivial, trivial⟩

/-- The query. -/
def query : Query where
  model := "orders"
  filters := some (.and [⟨"amount", ">", some value⟩, ⟨"placed", "is_null", none⟩])
  pagination := some ⟨10, 0⟩

/-- The filter as it was written. -/
def filterDocument : Document :=
  .object [(some "and", .array
    [.array [.text (some "amount"), .text (some ">"),
      .object [(some "a", .number ⟨false, 1, [], none⟩),
        (some "a", .number ⟨false, 0, [5], none⟩)]],
    .object [(some "value", .null), (some "op", .text (some "is_null")),
      (some "field", .text (some "placed"))]])]

/-- The query as it was written. -/
def document : Document :=
  .object [(some "limit", .number ⟨false, 1, [], some 999⟩), (some "filters", filterDocument),
    (some "pagination", .array [.number ⟨false, 10, [], none⟩]),
    (some "model", .text (some "orders"))]

theorem parse?_text : Document.parse? text = some document := by
  simp only [document, filterDocument]
  cbv

/-- The filter as a tree. -/
def filterTree : Tree :=
  .object [("and", .array
    [.array [.text "amount", .text ">", .object [("a", .number half)]],
      .object [("field", .text "placed"), ("op", .text "is_null"), ("value", .null)]])]

theorem filterTree_isCanonical : filterTree.IsCanonical := by
  have hkeys : ["field", "op", "value"].Pairwise (· < ·) := by decide
  exact ⟨List.pairwise_singleton _ _, ⟨⟨trivial, trivial, value.canonical, trivial⟩,
    ⟨hkeys, trivial, trivial, trivial, trivial⟩, trivial⟩, trivial⟩

theorem toTree?_filterDocument : filterDocument.toTree? = some filterTree := by
  have hhalf : (Json.Numeral.mk false 0 [5] none).value? = some half := by decide +kernel
  simp only [filterDocument, Document.toTree?, Document.toTrees?, Document.toMembers?, hhalf]
  rfl

theorem toOption_filterDocument :
    filterDocument.toOption Filter.ofDocument = .ok query.filters := by
  have hdecodable : filterDocument.isDecodable 1 = true := by decide +kernel
  have hread? := Document.toValue?_eq_some (v := ⟨filterTree, filterTree_isCanonical⟩)
    toTree?_filterDocument
  have hvalue : filterDocument.toValue 1 = .ok ⟨filterTree, filterTree_isCanonical⟩ := by
    rw [Document.toValue, if_pos hdecodable, hread?]
  have hread : Filter.ofDocument filterDocument
      = .ok (.and [⟨"amount", ">", some value⟩, ⟨"placed", "is_null", none⟩]) := by
    show (filterDocument.toValue 1 >>= Filter.ofValue) = _
    rw [hvalue]
    rfl
  have hnull : filterDocument ≠ .null := by
    intro h
    cases h
  exact toOption_eq_some hnull hread

theorem ofText_text : Query.ofText text = .ok query := by
  have hplace (q : Query) : Query.record.place q "filters" filterDocument
      = .ok { q with filters := query.filters } := by
    show (filterDocument.toOption Filter.ofDocument >>= fun filters => _) = _
    rw [toOption_filterDocument]
    rfl
  refine Document.decodeText_eq_ok_iff.mpr ⟨document, parse?_text, ?_⟩
  show Query.record.ofMembers _ = _
  -- the filter is not to be evaluated, for the value of its fraction is not had by reduction
  generalize filterDocument = d at hplace
  simp only [Record.ofMembers, Record.readMembers, hplace]
  rfl

/-- A schema in an unusual order, with an array for a field and a member that nobody reads. -/
def schemaText : String :=
  "\x7b\"models\": [\x7b\"primaryKey\": \"id\", \"comment\": [], \"name\": \"orders\","
    ++ " \"fields\": [[\"id\", \"int\", false, null, true, null]],"
    ++ " \"table\": \"orders\"\x7d]\x7d"

/-- The schema. -/
def schema : SchemaDocument :=
  ⟨[⟨"orders", "orders", "id", [⟨"id", "int", false, none, some true, none⟩]⟩]⟩

theorem ofText_schemaText : SchemaDocument.ofText schemaText = .ok schema := by
  have hparsed : Document.parse? schemaText = some (.object [(some "models", .array [.object
      [(some "primaryKey", .text (some "id")), (some "comment", .array []),
        (some "name", .text (some "orders")),
        (some "fields", .array
          [.array [.text (some "id"), .text (some "int"), .bool false, .null, .bool true, .null]]),
        (some "table", .text (some "orders"))]])]) := by
    cbv
  exact Document.decodeText_eq_ok_iff.mpr ⟨_, hparsed, rfl⟩

end Spelled

/-- The one fraction of the query reads back. -/
theorem documents_read_back_spelled :
    Query.ofText Spelled.text = .ok Spelled.query ∧
      (∀ x, Number.float x ∈ Spelled.query.toTree.numbers → (Number.float x).ReadsBack) ∧
      SchemaDocument.ofText Spelled.schemaText = .ok Spelled.schema ∧
      (Query.ofText Spelled.query.toTree.toText = .ok Spelled.query ∧
        ∀ registry,
          Session.Question.reply registry (.translation Spelled.query.toTree.toText)
            = Session.Question.reply registry (.translation Spelled.text)) ∧
      SchemaDocument.ofText Spelled.schema.toTree.toText = .ok Spelled.schema ∧
        Registry.ofText Spelled.schema.toTree.toText = Registry.ofText Spelled.schemaText := by
  have hfloats : ∀ x, Number.float x ∈ Spelled.query.toTree.numbers →
      (Number.float x).ReadsBack := by
    have hall : ∀ n ∈ Spelled.query.toTree.numbers, n.ReadsBack := by decide +kernel
    exact fun x => hall (.float x)
  exact ⟨Spelled.ofText_text, hfloats, Spelled.ofText_schemaText,
    documents_read_back.1 Spelled.text Spelled.query Spelled.ofText_text hfloats,
    documents_read_back.2 Spelled.schemaText Spelled.schema Spelled.ofText_schemaText⟩

end SchemaQuery
