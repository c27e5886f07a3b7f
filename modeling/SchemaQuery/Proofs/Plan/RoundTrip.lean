import SchemaQuery.Proofs.Json.Records
import SchemaQuery.Proofs.Plan.Text
import SchemaQuery.Proofs.Query.RoundTrip
import SchemaQuery.Service.Translation

/-!
# Plans are read back from their texts

Every part of a plan is read back from the document of its tree.  Columns, selections,
aggregates and sorts are records of words and texts, and nothing can go wrong there.  A
condition is split into its kind and its other members before these are read, and each of them
has to be readable as a whole: this is where the depth of the text and the numbers in it
matter.  The induction is over the bound on nested conditions, which the depth of the tree
stays below.

## Main statements

* `Condition.ofDocumentWithin_toTree` - conditions are read back, however deep.
* `plan_reads_back` - plans are read back, and with them what is computed of a plan.
-/

namespace SchemaQuery

open Json (Document Number Record Tree Value Origin)
open Json.Document (variantOf toList_document toOption_eq_some)
open Json.Record (placeClauses placeClauses_cons placeClauses_list placeClauses_some
  toRecord_clausesOf)
open Outcome

/-! ## Words -/

theorem FieldType.variantOf_name (t : FieldType) : variantOf table t.name = .ok t := by
  cases t <;> rfl

theorem Operator.variantOf_name (op : Operator) : variantOf table op.name = .ok op := by
  cases op <;> rfl

theorem Connective.variantOf_sql (op : Connective) : variantOf table op.sql = .ok op := by
  cases op <;> rfl

theorem AggregateFunction.variantOf_sql (f : AggregateFunction) :
    variantOf table f.sql = .ok f := by
  cases f <;> rfl

theorem Direction.variantOf_sql (d : Direction) : variantOf table d.sql = .ok d := by
  cases d <;> rfl

namespace Plan

/-! ## Columns and the queried model -/

theorem Column.ofDocument_toTree (origin : Origin) (c : Column) :
    ofDocument origin c.toTree.document = .ok c := by
  have hplace : (record origin).placeClauses blank
      [("table_alias", some (.text c.tableAlias)), ("column_name", some (.text c.name)),
        ("data_type", some (.text c.type.name))] = .ok c := by
    have htype : (record origin).place ⟨c.tableAlias, c.name, .string⟩ "data_type"
        (Tree.text c.type.name).document = .ok c := by
      show (variantOf FieldType.table c.type.name >>= fun type => _) = _
      rw [FieldType.variantOf_name]
      rfl
    exact placeClauses_some htype []
  exact toRecord_clausesOf origin rfl (by simp [Record.names, record])
    (by simp [record, clausesOf, optionMember]) hplace

theorem Root.toRecord_toTree (root : Root) :
    root.toTree.document.toRecord record .text = .ok root := by
  have hplace : record.placeClauses record.blank
      [("name", some (.text root.model)), ("table", some (.text root.table)),
        ("alias", some (.text root.tableAlias)), ("primary_key", some root.primaryKey.toTree)]
          = .ok root := by
    have hkey : record.place ⟨root.model, root.table, root.tableAlias, Column.blank⟩ "primary_key"
        root.primaryKey.toTree.document = .ok root := by
      show (Column.ofDocument .text root.primaryKey.toTree.document >>= fun key => _) = _
      rw [Column.ofDocument_toTree]
      rfl
    exact placeClauses_some hkey []
  exact toRecord_clausesOf .text rfl (by simp [Record.names, record])
    (by simp [record, clausesOf, optionMember]) hplace

theorem Selection.toRecord_toTree (selection : Selection) :
    selection.toTree.document.toRecord record .text = .ok selection := by
  have hplace : record.placeClauses record.blank
      [("column", some selection.column.toTree), ("alias", some (.text selection.label)),
        ("is_aggregate", some (.bool selection.isAggregate))] = .ok selection := by
    have hcolumn : record.place record.blank "column" selection.column.toTree.document
        = .ok ⟨selection.column, "", false⟩ := by
      show (Column.ofDocument .text selection.column.toTree.document >>= fun column => _) = _
      rw [Column.ofDocument_toTree]
      rfl
    rw [placeClauses_some hcolumn]
    rfl
  exact toRecord_clausesOf .text rfl (by simp [Record.names, record])
    (by simp [record, clausesOf, optionMember]) hplace

theorem toRecord_groupTree (c : Column) :
    (groupTree c).document.toRecord groupRecord .text = .ok c :=
  toRecord_clausesOf (r := groupRecord) .text rfl (by simp [Record.names, groupRecord])
    (by simp [groupRecord, clausesOf, optionMember])
    (placeClauses_some (Column.ofDocument_toTree .text c) [])

/-! ## Aggregates, sorts and the pagination -/

theorem Column.document_ne_null (c : Column) : c.toTree.document ≠ .null := nofun

theorem Aggregation.toRecord_toTree (origin : Origin) (a : Aggregation) :
    a.toTree.document.toRecord (record origin) origin = .ok a := by
  have hplace : (record origin).placeClauses (record origin).blank
      [("function", some (.text a.function.sql)), ("column", a.column.map (·.toTree)),
        ("alias", some (.text a.label))] = .ok a := by
    have hfunction : (record origin).place (record origin).blank "function"
        (Tree.text a.function.sql).document = .ok ⟨a.function, none, ""⟩ := by
      show (variantOf AggregateFunction.table a.function.sql >>= fun f => _) = _
      rw [AggregateFunction.variantOf_sql]
      rfl
    have hcolumn : ∀ tree ∈ a.column.map (·.toTree),
        (record origin).place ⟨a.function, none, ""⟩ "column" tree.document
          = .ok ⟨a.function, a.column, ""⟩ := by
      intro tree htree
      obtain ⟨c, hc, rfl⟩ := Option.map_eq_some_iff.mp htree
      show (c.toTree.document.toOption (Column.ofDocument origin) >>= fun column => _) = _
      rw [toOption_eq_some c.document_ne_null (Column.ofDocument_toTree origin c), hc]
      rfl
    rw [placeClauses_some hfunction, placeClauses_cons hcolumn fun hnone => by
      rw [Option.map_eq_none_iff.mp hnone]]
    rfl
  rw [toTree_eq]
  exact toRecord_clausesOf origin rfl (by simp [Record.names, record])
    (by simp [record, clausesOf, optionMember]) hplace

theorem SortTarget.ofDocument_toTree (target : SortTarget) :
    ofDocument target.toTree.document = .ok target := by
  cases target with
  | column c =>
      show (Json.under _ (Column.ofDocument .text c.toTree.document >>= _) >>= _) = _
      rw [Column.ofDocument_toTree]
      rfl
  | aggregate a =>
      show (Json.under _ (a.toTree.document.toRecord (Aggregation.record .text) .text >>= _) >>= _)
        = _
      rw [Aggregation.toRecord_toTree]
      rfl

theorem Ordering.toRecord_toTree (ordering : Ordering) :
    ordering.toTree.document.toRecord record .text = .ok ordering := by
  have hplace : record.placeClauses record.blank
      [("target", some ordering.target.toTree), ("direction", some (.text ordering.direction.sql))]
        = .ok ordering := by
    have htarget : record.place record.blank "target" ordering.target.toTree.document
        = .ok ⟨ordering.target, .asc⟩ := by
      show (SortTarget.ofDocument ordering.target.toTree.document >>= fun target => _) = _
      rw [SortTarget.ofDocument_toTree]
      rfl
    have hdirection : record.place ⟨ordering.target, .asc⟩ "direction"
        (Tree.text ordering.direction.sql).document = .ok ordering := by
      show (variantOf Direction.table ordering.direction.sql >>= fun direction => _) = _
      rw [Direction.variantOf_sql]
      rfl
    rw [placeClauses_some htarget, placeClauses_some hdirection]
    rfl
  exact toRecord_clausesOf .text rfl (by simp [Record.names, record])
    (by simp [record, clausesOf, optionMember]) hplace

theorem toRecord_pagination (pagination : Pagination) :
    pagination.toTree.document.toRecord paginationRecord .text = .ok pagination := by
  have hplace : paginationRecord.placeClauses paginationRecord.blank
      [("limit", some (.ofInt pagination.limit.toInt)),
        ("offset", some (.ofInt pagination.offset.toInt))] = .ok pagination :=
    pagination.placeClauses_toTree
  exact toRecord_clausesOf .text rfl (by simp [Record.names, paginationRecord])
    (by simp [paginationRecord, clausesOf, optionMember]) hplace

/-! ## Conditions -/

theorem TypedValue.toRecord_toTree {typed : TypedValue} (hnumbers : typed.toTree.ReadsBack)
    (hdepth : typed.toTree.depth ≤ Document.maxDepth) :
    typed.toTree.document.toRecord record .memory = .ok typed := by
  have hmember : ("value", typed.value.tree)
      ∈ [("value", typed.value.tree), ("data_type", Tree.text typed.type.name)] :=
    List.mem_cons_self
  have hroom : 0 + typed.value.tree.depth ≤ Document.maxDepth := by
    have hlt : typed.value.tree.depth < typed.toTree.depth := Tree.depth_lt_of_mem_members hmember
    omega
  have hplace : record.placeClauses record.blank
      [("value", some typed.value.tree), ("data_type", some (.text typed.type.name))]
        = .ok typed := by
    have hvalue : record.place record.blank "value" typed.value.tree.document
        = .ok ⟨typed.value, .string⟩ := by
      show (typed.value.tree.document.toValue 0 >>= fun value => _) = _
      rw [Document.toValue_document (hnumbers.of_mem_members hmember) hroom]
      rfl
    have htype : record.place ⟨typed.value, .string⟩ "data_type"
        (Tree.text typed.type.name).document = .ok typed := by
      show (variantOf FieldType.table typed.type.name >>= fun type => _) = _
      rw [FieldType.variantOf_name]
      rfl
    rw [placeClauses_some hvalue, placeClauses_some htype]
    rfl
  exact toRecord_clausesOf .memory rfl (by simp [Record.names, record])
    (by simp [record, clausesOf, optionMember]) hplace

namespace Condition

/-- Members that can be read as a whole and are not called `kind` stay beside the kind. -/
theorem splitKind_others {origin : Origin} {outer : Nat} {kind : Kind}
    {members : List (String × Tree)} (hname : ∀ m ∈ members, m.1 ≠ "kind")
    (hwhole : ∀ m ∈ members, m.2.document.isDecodable outer = true) :
    splitKind origin outer (some kind) (Tree.documentMembers members)
      = .ok (kind, Tree.documentMembers members) := by
  induction members with
  | nil => rfl
  | cons member rest ih =>
      obtain ⟨name, value⟩ := member
      obtain ⟨hne, hname⟩ := List.forall_mem_cons.mp hname
      obtain ⟨hvalue, hwhole⟩ := List.forall_mem_cons.mp hwhole
      rw [Tree.documentMembers, splitKind, if_neg hne, if_pos hvalue, ih hname hwhole]
      rfl

/-- The kind of a condition stands first, and its other members are kept as they are. -/
theorem splitKind_clausesOf (origin : Origin) {outer : Nat} {kind : Kind} {name : String}
    {clauses : List (String × Option Tree)} (hkind : variantOf Kind.table name = .ok kind)
    (hname : "kind" ∉ clauses.map (·.1))
    (hnumbers : (Tree.object (clausesOf (("kind", some (.text name)) :: clauses))).ReadsBack)
    (hdepth : outer + (Tree.object (clausesOf (("kind", some (.text name)) :: clauses))).depth
      ≤ Document.maxDepth) :
    splitKind origin (outer + 1) none
        (Tree.documentMembers (clausesOf (("kind", some (.text name)) :: clauses)))
      = .ok (kind, Tree.documentMembers (clausesOf clauses)) := by
  have hother : ∀ m ∈ clausesOf clauses, m.1 ≠ "kind" := by
    rintro m hm heq
    exact hname (heq ▸ mem_names_of_mem_clausesOf hm)
  have hwhole : ∀ m ∈ clausesOf clauses, m.2.document.isDecodable (outer + 1) = true := by
    intro m hm
    have hmember : m ∈ clausesOf (("kind", some (.text name)) :: clauses) :=
      List.mem_cons_of_mem _ hm
    have hlt := Tree.depth_lt_of_mem_members hmember
    exact Tree.isDecodable_document (hnumbers.of_mem_members hmember) (by omega)
  show splitKind origin (outer + 1) none
    ((some "kind", .text (some name)) :: Tree.documentMembers (clausesOf clauses)) = _
  rw [splitKind, if_pos rfl]
  show (variantOf Kind.table name >>= fun kind => splitKind origin (outer + 1) (some kind) _) = _
  rw [hkind, ok_bind, splitKind_others hother hwhole]

theorem ofMembers_comparison {left : Column} {op : Operator} {value : Option TypedValue}
    (hvalue : ∀ typed ∈ value,
      typed.toTree.document.toRecord TypedValue.record .memory = .ok typed) :
    comparisonRecord.ofMembers (Tree.documentMembers (clausesOf
      [("left", some left.toTree), ("op", some (.text op.name)),
        ("value", value.map (·.toTree))])) = .ok (left, op, value) := by
  have hleft : comparisonRecord.place comparisonRecord.blank "left" left.toTree.document
      = .ok (left, .eq, none) := by
    show (Column.ofDocument .memory left.toTree.document >>= fun left => _) = _
    rw [Column.ofDocument_toTree]
    rfl
  have hop : comparisonRecord.place (left, .eq, none) "op" (Tree.text op.name).document
      = .ok (left, op, none) := by
    show (variantOf Operator.table op.name >>= fun op => _) = _
    rw [Operator.variantOf_name]
    rfl
  have htyped : ∀ tree ∈ value.map (·.toTree),
      comparisonRecord.place (left, op, none) "value" tree.document = .ok (left, op, value) := by
    intro tree htree
    obtain ⟨typed, htyped, rfl⟩ := Option.map_eq_some_iff.mp htree
    have hnull : typed.toTree.document ≠ .null := nofun
    show (typed.toTree.document.toOption (Document.toRecord TypedValue.record .memory)
      >>= fun value => _) = _
    rw [toOption_eq_some hnull (hvalue typed htyped), htyped]
    rfl
  have hplace : comparisonRecord.placeClauses comparisonRecord.blank
      [("left", some left.toTree), ("op", some (.text op.name)),
        ("value", value.map (·.toTree))] = .ok (left, op, value) := by
    rw [placeClauses_some hleft, placeClauses_some hop, placeClauses_cons htyped fun hnone => by
      rw [Option.map_eq_none_iff.mp hnone]]
    rfl
  exact toRecord_clausesOf .memory rfl (by simp [Record.names, comparisonRecord])
    (by simp [comparisonRecord, clausesOf, optionMember]) hplace

theorem ofMembers_logical {node : Document → Json.Decoded Condition} {op : Connective}
    {nodes : List Condition} (hnodes : ∀ c ∈ nodes, node c.toTree.document = .ok c) :
    (logicalRecord node).ofMembers (Tree.documentMembers (clausesOf
      [("op", some (.text op.sql)), ("nodes", some (.array (nodes.map (·.toTree))))]))
        = .ok (op, nodes) := by
  have hop : (logicalRecord node).place (logicalRecord node).blank "op" (Tree.text op.sql).document
      = .ok (op, []) := by
    show (variantOf Connective.table op.sql >>= fun op => _) = _
    rw [Connective.variantOf_sql]
    rfl
  have hlist : (logicalRecord node).place (op, []) "nodes"
      (Tree.array (nodes.map (·.toTree))).document = .ok (op, nodes) := by
    show ((Tree.array (nodes.map (·.toTree))).document.toList node >>= fun nodes => _) = _
    rw [toList_document hnodes]
    rfl
  have hplace : (logicalRecord node).placeClauses (logicalRecord node).blank
      [("op", some (.text op.sql)), ("nodes", some (.array (nodes.map (·.toTree))))]
        = .ok (op, nodes) := by
    rw [placeClauses_some hop, placeClauses_some hlist]
    rfl
  exact toRecord_clausesOf .memory rfl (by simp [Record.names, logicalRecord])
    (by simp [logicalRecord, clausesOf, optionMember]) hplace

/-- **A condition is read back**, however deep its text nests below the bound. -/
theorem ofDocumentWithin_toTree {bound : Nat} {origin : Origin} {outer : Nat} {c : Condition}
    (hbound : c.toTree.depth < bound) (hnumbers : c.toTree.ReadsBack)
    (hdepth : outer + c.toTree.depth ≤ Document.maxDepth) :
    ofDocumentWithin bound origin outer c.toTree.document = .ok c := by
  induction bound generalizing origin outer c with
  | zero => exact absurd hbound (Nat.not_lt_zero _)
  | succ bound ih =>
      cases c with
      | comparison left op value =>
          have hvalue : ∀ typed ∈ value,
              typed.toTree.document.toRecord TypedValue.record .memory = .ok typed := by
            intro typed htyped
            obtain rfl := Option.mem_def.mp htyped
            have hmember : ("value", typed.toTree) ∈
                [("kind", Tree.text "comparison"), ("left", left.toTree), ("op", .text op.name),
                  ("value", typed.toTree)] := by simp
            have hlt := Tree.depth_lt_of_mem_members hmember
            exact TypedValue.toRecord_toTree (hnumbers.of_mem_members hmember)
              (Nat.le_trans (Nat.le_of_lt hlt) (Nat.le_trans (Nat.le_add_left _ _) hdepth))
          rw [toTree_comparison] at hnumbers hdepth ⊢
          have hkind : variantOf Kind.table "comparison" = .ok .comparison := rfl
          have hsplit := splitKind_clausesOf origin hkind (by simp) hnumbers hdepth
          show (splitKind origin (outer + 1) none _ >>= _) = _
          rw [hsplit, ok_bind]
          show (comparisonRecord.ofMembers _ >>= _) = _
          rw [ofMembers_comparison hvalue]
          rfl
      | logical op nodes =>
          have htree : (logical op nodes).toTree = .object (clausesOf
              [("kind", some (.text "logical")), ("op", some (.text op.sql)),
                ("nodes", some (.array (nodes.map (·.toTree))))]) := by
            rw [toTree, toTrees_eq_map]
            rfl
          rw [htree] at hbound hnumbers hdepth ⊢
          have hnodes : ∀ c ∈ nodes,
              ofDocumentWithin bound .memory 0 c.toTree.document = .ok c := by
            intro c hc
            have hitem : c.toTree ∈ nodes.map (·.toTree) := List.mem_map_of_mem hc
            have hmember : ("nodes", Tree.array (nodes.map (·.toTree))) ∈ clausesOf
                [("kind", some (.text "logical")), ("op", some (.text op.sql)),
                  ("nodes", some (.array (nodes.map (·.toTree))))] := by
              simp [clausesOf, optionMember]
            have hlt := Tree.depth_lt_of_mem_items hitem
            have hlt' := Tree.depth_lt_of_mem_members hmember
            exact ih (by omega) ((hnumbers.of_mem_members hmember).of_mem_items hitem) (by omega)
          have hkind : variantOf Kind.table "logical" = .ok .logical := rfl
          have hsplit := splitKind_clausesOf origin hkind (by simp) hnumbers hdepth
          show (splitKind origin (outer + 1) none _ >>= _) = _
          rw [hsplit, ok_bind]
          show ((logicalRecord (ofDocumentWithin bound .memory 0)).ofMembers _ >>= _) = _
          rw [ofMembers_logical hnodes]
          rfl

theorem ofDocument_toTree {c : Condition} (hnumbers : c.toTree.ReadsBack)
    (hdepth : c.toTree.depth < Document.maxDepth) : ofDocument c.toTree.document = .ok c := by
  refine ofDocumentWithin_toTree ?_ hnumbers (by omega)
  rw [Tree.depth_document]
  exact Nat.lt_succ_self _

theorem document_ne_null (c : Condition) : c.toTree.document ≠ .null := by
  cases c <;> nofun

mutual

/-- The integers in the values of a condition fit. -/
theorem fits_of_mem_numbers : ∀ {c : Condition} {n : Number}, n ∈ c.toTree.numbers → n.Fits
  | .comparison _ _ none, _, hn => absurd hn List.not_mem_nil
  | .comparison left op (some typed), n, hn => by
      have hvalue : n ∈ typed.value.tree.numbers := by
        simpa [toTree, optionMember, TypedValue.toTree, Column.toTree, Tree.numbers,
          Tree.memberNumbers] using hn
      exact Tree.fits_of_mem_numbers typed.value.canonical hvalue
  | .logical op nodes, n, hn => by
      have hnodes : n ∈ Tree.numbersOf (toTrees nodes) := by
        simpa [toTree, Tree.numbers, Tree.memberNumbers] using hn
      exact fits_of_mem_numbersOf hnodes

theorem fits_of_mem_numbersOf : ∀ {nodes : List Condition} {n : Number},
    n ∈ Tree.numbersOf (toTrees nodes) → n.Fits
  | [], _, hn => absurd hn List.not_mem_nil
  | node :: rest, n, hn => by
      rcases List.mem_append.mp hn with hn | hn
      · exact fits_of_mem_numbers hn
      · exact fits_of_mem_numbersOf hn

end

end Condition

/-! ## Plans -/

/-- A plan is read back from its document, if its filter is. -/
theorem ofDocument_toTree {plan : Plan}
    (hfilters : ∀ c ∈ plan.filters, Condition.ofDocument c.toTree.document = .ok c) :
    ofDocument plan.toTree.document = .ok plan := by
  obtain ⟨root, select, filters, groupBy, aggregates, sort, pagination⟩ := plan
  have hroot (p : Plan) : record.place p "root_model" root.toTree.document
      = .ok { p with root := root } := by
    show (root.toTree.document.toRecord Root.record .text >>= fun root => _) = _
    rw [Root.toRecord_toTree]
    rfl
  have hselect (p : Plan) : record.place p "select" (Tree.array (select.map (·.toTree))).document
      = .ok { p with select := select } := by
    show ((Tree.array _).document.toList _ >>= fun select => _) = _
    rw [toList_document fun selection _ => selection.toRecord_toTree]
    rfl
  have hfilter (p : Plan) : ∀ tree ∈ filters.map (·.toTree),
      record.place p "filters" tree.document = .ok { p with filters := filters } := by
    intro tree htree
    obtain ⟨c, hc, rfl⟩ := Option.map_eq_some_iff.mp htree
    show (c.toTree.document.toOption Condition.ofDocument >>= fun filters => _) = _
    rw [toOption_eq_some c.document_ne_null (hfilters c hc), hc]
    rfl
  have hgroupBy (p : Plan) : record.place p "group_by" (Tree.array (groupBy.map groupTree)).document
      = .ok { p with groupBy := groupBy } := by
    show ((Tree.array _).document.toList _ >>= fun groupBy => _) = _
    rw [toList_document fun c _ => toRecord_groupTree c]
    rfl
  have haggregates (p : Plan) :
      record.place p "aggregates" (Tree.array (aggregates.map (·.toTree))).document
        = .ok { p with aggregates := aggregates } := by
    show ((Tree.array _).document.toList _ >>= fun aggregates => _) = _
    rw [toList_document fun a _ => a.toRecord_toTree .text]
    rfl
  have hsort (p : Plan) : record.place p "sort" (Tree.array (sort.map (·.toTree))).document
      = .ok { p with sort := sort } := by
    show ((Tree.array _).document.toList _ >>= fun sort => _) = _
    rw [toList_document fun ordering _ => ordering.toRecord_toTree]
    rfl
  have hpagination (p : Plan) : record.place p "pagination" pagination.toTree.document
      = .ok { p with pagination := pagination } := by
    show (pagination.toTree.document.toRecord paginationRecord .text >>= fun pagination => _) = _
    rw [toRecord_pagination]
    rfl
  rw [toTree_eq]
  refine toRecord_clausesOf .text rfl (by simp [Record.names, record])
    (by simp [record, clausesOf, optionMember]) ?_
  -- the blank plan has empty lists and no filter, as a plan whose clauses are left out has
  rw [placeClauses_some (hroot _), placeClauses_list (hselect _) fun hnil => by rw [hnil]; rfl,
    placeClauses_cons (hfilter _) fun hnone => by rw [Option.map_eq_none_iff.mp hnone]; rfl,
    placeClauses_list (hgroupBy _) fun hnil => by rw [hnil]; rfl,
    placeClauses_list (haggregates _) fun hnil => by rw [hnil]; rfl,
    placeClauses_list (hsort _) fun hnil => by rw [hnil]; rfl, placeClauses_some (hpagination _)]
  rfl

/-- A plan is read back from its text, if the text does not nest too deep and its floats read
back. -/
theorem ofText_toText {plan : Plan} (hdepth : plan.toTree.depth ≤ Document.maxDepth)
    (hfloats : ∀ x, Number.float x ∈ plan.toTree.numbers → (Number.float x).ReadsBack) :
    ofText plan.toText = .ok plan := by
  have hfilters : ∀ c ∈ plan.filters, Condition.ofDocument c.toTree.document = .ok c := by
    intro c hc
    have hmember : ("filters", c.toTree) ∈ clausesOf
        [("root_model", some plan.root.toTree), ("select", listClause (·.toTree) plan.select),
          ("filters", plan.filters.map (·.toTree)), ("group_by", listClause groupTree plan.groupBy),
          ("aggregates", listClause (·.toTree) plan.aggregates),
          ("sort", listClause (·.toTree) plan.sort),
          ("pagination", some plan.pagination.toTree)] := by
      rw [Option.mem_def.mp hc]
      simp [clausesOf, optionMember]
    rw [toTree_eq] at hdepth hfloats
    have hnumbers : c.toTree.ReadsBack :=
      Tree.readsBack_of_fits (fun _ => Condition.fits_of_mem_numbers) fun x hx =>
        hfloats x (Tree.mem_memberNumbers hmember hx)
    have hlt : c.toTree.depth < _ := Tree.depth_lt_of_mem_members hmember
    exact Condition.ofDocument_toTree hnumbers (Nat.lt_of_lt_of_le hlt hdepth)
  rw [ofText, toText, Document.decodeText_toText]
  exact ofDocument_toTree hfilters

end Plan

/-- **A plan is read back from its text**, if the text does not nest too deep and its floats
read back.  So what is computed of a plan, its fingerprint and its SQL or the refusal of it,
is not changed by the way through the text. -/
theorem plan_reads_back (plan : Plan) (hdepth : plan.toTree.depth ≤ Document.maxDepth)
    (hfloats : ∀ x, Number.float x ∈ plan.toTree.numbers → (Number.float x).ReadsBack) :
    ∃ decoded, Plan.ofText plan.toText = .ok decoded ∧ decoded = plan ∧
      decoded.fingerprint = plan.fingerprint ∧ Sql.emit decoded = Sql.emit plan :=
  ⟨plan, Plan.ofText_toText hdepth hfloats, rfl, rfl, rfl⟩

/-! ## A plan with parts of every kind -/

namespace Exchanged

/-- A column of the queried table. -/
def column (name : String) (type : FieldType) : Plan.Column := ⟨"t0", name, type⟩

theorem half_normal : Numeric.NormalForm (Nat.pow 2 52) (-53) := by decide

/-- An object with the extreme integers, a fraction, and characters that are escaped. -/
def tree : Tree := .object
  [("", .null), ("\n", .array [.ofInt (-9223372036854775808), .ofInt 18446744073709551615]),
    ("quote\"",
      .array [.number (.float ⟨false, Nat.pow 2 52, -53, half_normal⟩), .text "back\\slash"])]

theorem tree_isCanonical : tree.IsCanonical := by
  have hkeys : ["", "\n", "quote\""].Pairwise (· < ·) := by decide
  have hleast : (Number.int (-9223372036854775808)).Fits := by decide
  have hgreatest : (Number.int 18446744073709551615).Fits := by decide
  exact ⟨hkeys, trivial, ⟨hleast, hgreatest, trivial⟩, ⟨trivial, trivial, trivial⟩, trivial⟩

/-- The object as a value. -/
def value : Value := ⟨tree, tree_isCanonical⟩

/-- A plan with a nested filter, a sort of either kind, and no selected columns. -/
def plan : Plan where
  root := ⟨"orders", "sales.orders", "t0", column "id" .integer⟩
  select := []
  filters := some (.logical .and
    [.logical .not [.logical .or [], .comparison (column "note" .json) .eq (some ⟨value, .json⟩)],
      .comparison (column "placed" .datetime) .isNull none])
  groupBy := [column "status" .string]
  aggregates := [⟨.count, none, "n"⟩, ⟨.max, some (column "total" .decimal), "top"⟩]
  sort := [⟨.aggregate ⟨.count, none, "n"⟩, .desc⟩, ⟨.column (column "status" .string), .asc⟩]
  pagination := ⟨Int64.maxValue, Int64.minValue⟩

end Exchanged

/-- The plan nests nine arrays and objects, and its one float reads back. -/
theorem plan_reads_back_exchanged :
    Exchanged.plan.toTree.depth ≤ Document.maxDepth ∧
      (∀ x, Number.float x ∈ Exchanged.plan.toTree.numbers → (Number.float x).ReadsBack) ∧
      ∃ decoded, Plan.ofText Exchanged.plan.toText = .ok decoded ∧ decoded = Exchanged.plan ∧
        decoded.fingerprint = Exchanged.plan.fingerprint ∧
          Sql.emit decoded = Sql.emit Exchanged.plan := by
  have hdepth : Exchanged.plan.toTree.depth ≤ Document.maxDepth := by decide
  have hfloats : ∀ x, Number.float x ∈ Exchanged.plan.toTree.numbers →
      (Number.float x).ReadsBack := by
    have hall : ∀ n ∈ Exchanged.plan.toTree.numbers, n.ReadsBack := by decide +kernel
    exact fun x => hall (.float x)
  exact ⟨hdepth, hfloats, plan_reads_back Exchanged.plan hdepth hfloats⟩

end SchemaQuery
