import SchemaQuery.Proofs.Schema.Construction
import SchemaQuery.Proofs.Sql.Tokens

/-!
# What a statement is written with

A statement holds names that come from elsewhere, of tables, columns and labels, and all else
in it is fixed: keywords, operators, signs, and placeholders.  This is said of the runs into
which the text falls (`belongTogether`), since a run is a whole word: a text may be made of
harmless pieces and still hold a word that nobody wrote, where two pieces touch.  None do, for
whatever the renderer puts between two pieces begins and ends with a character that stands
alone (`Separates`).

## Main definitions

* `IsPiece` - a run that is fixed, a placeholder or one of the given names.
* `WrittenWith` - all runs of a text are pieces.

## Main statements

* `Statement.writtenWith_clauses` - a statement is written with the names in it.
* `WrittenWith.characters` - a text that is written with plain names has no other characters
  than theirs and those of the fixed pieces.
-/

namespace SchemaQuery.Sql

/-! ## Pieces of a text -/

/-- The signs that stand alone. -/
def marks : List String := [" ", ".", ",", "(", ")", "*"]

/-- The comparisons that are written with signs. -/
def operators : List String := ["=", "!=", "<", "<=", ">", ">="]

/-- The words of the language, functions included. -/
def keywords : List String :=
  ["SELECT", "AS", "FROM", "WHERE", "GROUP", "ORDER", "BY", "ASC", "DESC", "LIMIT", "OFFSET",
    "AND", "OR", "NOT", "IS", "NULL", "LIKE", "ILIKE", "BETWEEN", "ANY", "ALL",
    "COUNT", "SUM", "AVG", "MIN", "MAX"]

/-- A run of characters is a fixed piece, a placeholder or one of the names. -/
inductive IsPiece (names : List String) : List Char → Prop where
  | fixed {s : String} (h : s ∈ marks ++ operators ++ keywords) : IsPiece names s.toList
  | placeholder (before : Nat) : IsPiece names (placeholder before).toList
  | name {s : String} (h : s ∈ names) : IsPiece names s.toList

/-- All runs of a text are pieces. -/
def WrittenWith (names : List String) (s : String) : Prop :=
  ∀ run ∈ s.toList.splitBy belongTogether, IsPiece names run

/-- All runs of a text are fixed pieces. -/
def isFixed (s : String) : Bool :=
  (s.toList.splitBy belongTogether).all fun run =>
    (marks ++ operators ++ keywords).any (·.toList = run)

variable {names : List String} {s t : String}

theorem writtenWith_of_isFixed (h : isFixed s = true) : WrittenWith names s := by
  intro run hrun
  obtain ⟨piece, hpiece, hsame⟩ := List.any_eq_true.mp (List.all_eq_true.mp h run hrun)
  exact of_decide_eq_true hsame ▸ .fixed hpiece

/-- A name is written with itself. -/
theorem writtenWith_name (hname : isIdentifier s = true) (h : s ∈ names) : WrittenWith names s := by
  rw [WrittenWith, splitBy_identifier hname]
  exact List.forall_mem_singleton.mpr (.name h)

theorem writtenWith_placeholder (before : Nat) : WrittenWith names (placeholder before) := by
  rw [WrittenWith, splitBy_placeholder]
  exact List.forall_mem_singleton.mpr (.placeholder before)

/-- **Two texts are written one after the other** wherever no run goes on between them. -/
theorem writtenWith_append (hs : WrittenWith names s) (ht : WrittenWith names t)
    (hapart : Apart s t) : WrittenWith names (s ++ t) := by
  intro run hrun
  rw [String.toList_append, List.splitBy_append hapart] at hrun
  rcases List.mem_append.mp hrun with hrun | hrun
  · exact hs run hrun
  · exact ht run hrun

/-- Any two texts may be written to the two sides of a fixed text that separates. -/
theorem writtenWith_separated {sep : String} (hs : WrittenWith names s) (ht : WrittenWith names t)
    (hsep : isFixed sep = true ∧ Separates sep) : WrittenWith names (s ++ sep ++ t) := by
  obtain ⟨hfixed, hne, hhead, hlast⟩ := hsep
  have hleft : WrittenWith names (s ++ sep) :=
    writtenWith_append hs (writtenWith_of_isFixed hfixed) hhead.apart
  exact writtenWith_append hleft ht (hlast.append_left hne).apart

theorem writtenWith_intercalate {sep : String} {items : List String}
    (hsep : isFixed sep = true ∧ Separates sep) (hitems : ∀ item ∈ items, WrittenWith names item) :
    WrittenWith names (sep.intercalate items) := by
  induction items with
  | nil =>
      rw [String.intercalate_nil]
      exact writtenWith_of_isFixed (by decide)
  | cons item rest ih =>
      obtain ⟨hitem, hrest⟩ := List.forall_mem_cons.mp hitems
      cases rest with
      | nil => simpa using hitem
      | cons next rest =>
          rw [String.intercalate_cons_cons]
          exact writtenWith_separated hitem (ih hrest) hsep

/-- A fixed text that ends with a sign may stand before any other. -/
theorem writtenWith_after {front : String} (hfront : isFixed front = true ∧ LoneLast front)
    (ht : WrittenWith names t) : WrittenWith names (front ++ t) :=
  writtenWith_append (writtenWith_of_isFixed hfront.1) ht hfront.2.apart

/-- A fixed text that begins with a sign may stand after any other. -/
theorem writtenWith_before {back : String} (hs : WrittenWith names s)
    (hback : isFixed back = true ∧ LoneHead back) : WrittenWith names (s ++ back) :=
  writtenWith_append hs (writtenWith_of_isFixed hback.1) hback.2.apart

/-! ## The characters of a text -/

/-- **A text that is written with plain names holds no other characters than theirs**, but for
the signs of the language and the `$` of the placeholders. -/
theorem WrittenWith.characters (h : WrittenWith names s)
    (hnames : ∀ name ∈ names, isIdentifier name = true) :
    ∀ c ∈ s.toList, IsNameChar c ∨ c ∈ " .,$()*=<>!".toList := by
  intro c hc
  rw [← List.flatten_splitBy belongTogether s.toList] at hc
  obtain ⟨run, hrun, hc⟩ := List.mem_flatten.mp hc
  rw [← isIdentifierChar_iff]
  cases h run hrun with
  | fixed hpiece =>
      have hfixed : ((marks ++ operators ++ keywords).all fun piece => piece.toList.all fun c =>
          isIdentifierChar c || " .,$()*=<>!".toList.contains c) = true := by decide +kernel
      have hchar := List.all_eq_true.mp (List.all_eq_true.mp hfixed _ hpiece) c hc
      simpa using hchar
  | placeholder before =>
      rw [toList_placeholder] at hc
      rcases List.mem_cons.mp hc with rfl | hdigit
      · exact .inr (by decide)
      · exact .inl (isIdentifierChar_of_mem_toDigits hdigit)
  | name hname => exact .inl (isIdentifierChar_of_mem (hnames _ hname) hc)

/-! ## The clauses of a statement -/

variable {α : Type}

theorem writtenWith_qualified {c : Plan.Column} (h : ∀ name ∈ c.names, WrittenWith names name) :
    WrittenWith names c.qualified := by
  have halias : WrittenWith names c.tableAlias := h _ (by simp [Plan.Column.names])
  have hname : WrittenWith names c.name := h _ (by simp [Plan.Column.names])
  exact writtenWith_separated halias hname (by decide)

theorem Output.writtenWith_render {o : Output} (h : ∀ name ∈ o.names, WrittenWith names name) :
    WrittenWith names o.render := by
  have hfunction (function : AggregateFunction) : WrittenWith names function.sql :=
    writtenWith_of_isFixed (by cases function <;> decide)
  match o with
  | .column c none => exact writtenWith_qualified (by simpa [Output.names] using h)
  | .column c (some label) =>
      have hc : WrittenWith names c.qualified := by
        apply writtenWith_qualified
        intro name hname
        exact h name (List.mem_append_left _ hname)
      have hlabel : WrittenWith names label := h label (List.mem_append_right _ (by simp))
      exact writtenWith_separated hc hlabel (by decide)
  | .aggregate function none label =>
      have hlabel : WrittenWith names label := h label (List.mem_append_right _ (by simp))
      exact writtenWith_separated (hfunction function) hlabel (by decide)
  | .aggregate function (some c) label =>
      have hc : WrittenWith names c.qualified := by
        apply writtenWith_qualified
        intro name hname
        exact h name (List.mem_append_left _ hname)
      have hlabel : WrittenWith names label := h label (List.mem_append_right _ (by simp))
      have hcall : WrittenWith names (function.sql ++ "(" ++ c.qualified) :=
        writtenWith_separated (hfunction function) hc (by decide)
      exact writtenWith_separated hcall hlabel (by decide)

theorem SortKey.writtenWith_render {key : SortKey}
    (h : ∀ name ∈ key.names, WrittenWith names name) : WrittenWith names key.render := by
  cases key with
  | column c => exact writtenWith_qualified h
  | label name => exact h name (by simp [SortKey.names])

/-- A test is written with the names of its column. -/
theorem Predicate.writtenWith_render (p : Predicate α) (before : Nat)
    (h : ∀ name ∈ p.column.names, WrittenWith names name) :
    WrittenWith names (p.render before) := by
  have hcolumn : WrittenWith names p.column.qualified := writtenWith_qualified h
  cases p with
  | isNull c | isNotNull c => exact writtenWith_before hcolumn (by decide)
  | compare c op v =>
      have hop : WrittenWith names op.text := writtenWith_of_isFixed (by cases op <;> decide)
      have hleft : WrittenWith names (c.qualified ++ " " ++ op.text) :=
        writtenWith_separated hcolumn hop (by decide)
      exact writtenWith_separated hleft (writtenWith_placeholder before) (by decide)
  | equalsAny c v =>
      have hleft : WrittenWith names (c.qualified ++ " = ANY(" ++ placeholder before) :=
        writtenWith_separated hcolumn (writtenWith_placeholder before) (by decide)
      exact writtenWith_before hleft (by decide)
  | differsFromAll c v =>
      have hleft : WrittenWith names (c.qualified ++ " != ALL(" ++ placeholder before) :=
        writtenWith_separated hcolumn (writtenWith_placeholder before) (by decide)
      exact writtenWith_before hleft (by decide)
  | between c low high =>
      have hleft : WrittenWith names (c.qualified ++ " BETWEEN " ++ placeholder before) :=
        writtenWith_separated hcolumn (writtenWith_placeholder before) (by decide)
      exact writtenWith_separated hleft (writtenWith_placeholder (before + 1)) (by decide)

namespace Condition

mutual

/-- **A condition is written with the names of its columns**, at any depth. -/
theorem writtenWith_render : ∀ (c : Condition α) (before : Nat),
    (∀ name ∈ c.names, WrittenWith names name) → WrittenWith names (c.render before)
  | .predicate p, before, h => by
      rw [render]
      apply p.writtenWith_render
      intro name hname
      exact h name (List.mem_flatMap.mpr ⟨p, List.mem_singleton_self p, hname⟩)
  | .and conditions, before, h | .or conditions, before, h => by
      have hnodes : ∀ text ∈ renderEach before conditions, WrittenWith names text :=
        writtenWith_renderEach conditions before h
      rw [render]
      refine writtenWith_before (writtenWith_after (by decide) ?_) (by decide)
      exact writtenWith_intercalate (by decide) hnodes
  | .not condition, before, h => by
      rw [render]
      exact writtenWith_after (by decide) (writtenWith_render condition before h)

theorem writtenWith_renderEach : ∀ (cs : List (Condition α)) (before : Nat),
    (∀ name ∈ (predicatesOf cs).flatMap fun p => p.column.names, WrittenWith names name) →
      ∀ text ∈ renderEach before cs, WrittenWith names text
  | [], _, _, text, htext => absurd htext List.not_mem_nil
  | condition :: rest, before, h, text, htext => by
      rw [predicatesOf, List.flatMap_append] at h
      rcases List.mem_cons.mp htext with rfl | htext
      · apply writtenWith_render condition
        intro name hname
        exact h name (List.mem_append_left _ hname)
      · refine writtenWith_renderEach rest (before + condition.values.length) ?_ text htext
        intro name hname
        exact h name (List.mem_append_right _ hname)

end

end Condition

theorem writtenWith_listClause {keyword : String} {items : List String}
    (hkeyword : isFixed keyword = true ∧ LoneLast keyword)
    (hitems : ∀ item ∈ items, WrittenWith names item) :
    ∀ clause ∈ listClause keyword items, WrittenWith names clause := by
  intro clause hclause
  unfold listClause at hclause
  split at hclause
  · exact absurd hclause List.not_mem_nil
  · obtain rfl := List.mem_singleton.mp hclause
    exact writtenWith_after hkeyword (writtenWith_intercalate (by decide) hitems)

namespace Statement

theorem writtenWith_selectClause {s : Statement α}
    (h : ∀ name ∈ s.outputs.flatMap Output.names, WrittenWith names name) :
    WrittenWith names s.selectClause := by
  unfold selectClause
  split
  · exact writtenWith_of_isFixed (by decide)
  · refine writtenWith_after (by decide) (writtenWith_intercalate (by decide) ?_)
    intro text htext
    obtain ⟨o, ho, rfl⟩ := List.mem_map.mp htext
    apply o.writtenWith_render
    intro name hname
    exact h name (List.mem_flatMap.mpr ⟨o, ho, hname⟩)

theorem writtenWith_whereClause {s : Statement α}
    (h : ∀ name ∈ (s.condition.map Condition.names).getD [], WrittenWith names name) :
    ∀ clause ∈ s.whereClause, WrittenWith names clause := by
  intro clause hclause
  unfold whereClause at hclause
  split at hclause
  · rename_i condition hcondition
    obtain rfl := List.mem_singleton.mp hclause
    rw [hcondition] at h
    exact writtenWith_after (by decide) (condition.writtenWith_render 0 h)
  · exact absurd hclause List.not_mem_nil

theorem writtenWith_limitClause (before : Nat) : WrittenWith names (limitClause before) :=
  writtenWith_separated (writtenWith_after (by decide) (writtenWith_placeholder before))
    (writtenWith_placeholder (before + 1)) (by decide)

/-- **A statement is written with the names in it**: its runs are fixed pieces, placeholders,
and what the names are written with. -/
theorem writtenWith_clauses {s : Statement α} (h : ∀ name ∈ s.names, WrittenWith names name) :
    WrittenWith names (" ".intercalate s.clauses) := by
  simp only [Statement.names, List.mem_append, or_imp, forall_and] at h
  obtain ⟨⟨⟨⟨houtputs, htable⟩, hcondition⟩, hgroups⟩, hkeys⟩ := h
  have hfrom : WrittenWith names ("FROM " ++ s.table ++ " " ++ s.tableAlias) :=
    writtenWith_separated (writtenWith_after (by decide) (htable _ (by simp)))
      (htable _ (by simp)) (by decide)
  have hgroup : ∀ item ∈ s.groupBy.map (·.qualified), WrittenWith names item := by
    intro item hitem
    obtain ⟨c, hc, rfl⟩ := List.mem_map.mp hitem
    apply writtenWith_qualified
    intro name hname
    exact hgroups name (List.mem_flatMap.mpr ⟨c, hc, hname⟩)
  have horder : ∀ entry ∈ s.orderBy, WrittenWith names (entry.1.render ++ " " ++ entry.2.sql) := by
    intro entry hentry
    have hdirection : WrittenWith names entry.2.sql :=
      writtenWith_of_isFixed (by cases entry.2 <;> decide)
    have hrender : WrittenWith names entry.1.render := by
      apply entry.1.writtenWith_render
      intro name hname
      exact hkeys name (List.mem_flatMap.mpr ⟨entry, hentry, hname⟩)
    exact writtenWith_separated hrender hdirection (by decide)
  refine writtenWith_intercalate (by decide) ?_
  rw [clauses]
  simp only [List.forall_mem_append, List.forall_mem_cons]
  exact ⟨⟨⟨⟨⟨writtenWith_selectClause houtputs, hfrom, by simp⟩,
    writtenWith_whereClause hcondition⟩, writtenWith_listClause (by decide) hgroup⟩,
    writtenWith_listClause (by decide) (List.forall_mem_map.mpr horder)⟩,
    writtenWith_limitClause _, by simp⟩

end Statement

end SchemaQuery.Sql
