import Mathlib.Data.List.TakeWhile
import SchemaQuery.Proofs.Sql.Statement

/-!
# Placeholders and parameters

The number of a placeholder is never stored: the renderer counts the values to its left.  That
the numbers come out as `$1`, `$2`, … without gap or repetition is therefore a fact about the
text, and the text is read here as a caller of the database would read it - every `$` with the
digits that follow it.

Reading is not compositional on its own: `$1` followed by `0` is `$10`.  What makes it so is
that nothing the renderer writes after a placeholder begins with a digit (`Closed`), while a
name, which may begin with one, never follows a placeholder directly.

## Main definitions

* `placeholdersIn` - the placeholders of a text from left to right.
* `placeholdersFrom` - consecutive placeholders.
* `Plan.emittedNames` - the names of a plan that are written into its text.

## Main statements

* `Statement.placeholdersIn_render` - the placeholders of a statement are numbered from one on.
* `infix_sql` - every comparison stands in the text with its own numbers.
* `placeholders_match_params` - placeholders and parameters of an emitted plan match, and every
  comparison is bound to its own values.
-/

namespace SchemaQuery.Sql

/-! ## Reading placeholders -/

/-- The placeholders of a list of characters: each `$` with the digits right after it. -/
def dollarRuns : List Char → List (List Char)
  | [] => []
  | c :: rest =>
    if c = '$' then (c :: rest.takeWhile Char.isDigit) :: dollarRuns rest else dollarRuns rest

/-- The placeholders of a text from left to right. -/
def placeholdersIn (s : String) : List String := (dollarRuns s.toList).map String.ofList

/-- The `count` placeholders that follow `before` others: `$(before + 1)`, `$(before + 2)`,
… -/
def placeholdersFrom (before count : Nat) : List String :=
  (List.range' before count).map fun i => "$" ++ toString (i + 1)

/-- Consecutive placeholders fall into two runs anywhere. -/
theorem placeholdersFrom_add (before m n : Nat) :
    placeholdersFrom before (m + n) =
      placeholdersFrom before m ++ placeholdersFrom (before + m) n := by
  simp [placeholdersFrom, List.range'_append_1, ← List.map_append]

/-- A text without a `$`. -/
def Plain (s : String) : Prop := '$' ∉ s.toList

instance (s : String) : Decidable (Plain s) := inferInstanceAs (Decidable ('$' ∉ s.toList))

/-- A text that does not begin with a digit, so that a number before it ends there. -/
def Closed (s : String) : Prop := s.toList.head?.all (fun c => !c.isDigit) = true

instance (s : String) : Decidable (Closed s) := inferInstanceAs (Decidable (_ = true))

theorem Closed.head {s : String} (h : Closed s) : ∀ c ∈ s.toList.head?, c.isDigit = false := by
  intro c hc
  simpa [Closed, Option.mem_def.mp hc] using h

@[simp] theorem plain_append {s t : String} : Plain (s ++ t) ↔ Plain s ∧ Plain t := by
  simp [Plain, not_or]

theorem plain_intercalate {sep : String} {items : List String} (hsep : Plain sep)
    (hitems : ∀ s ∈ items, Plain s) : Plain (sep.intercalate items) := by
  induction items with
  | nil =>
      rw [String.intercalate_nil]
      decide
  | cons s rest ih =>
      obtain ⟨hs, hrest⟩ := List.forall_mem_cons.mp hitems
      cases rest with
      | nil => simpa using hs
      | cons t rest =>
          rw [String.intercalate_cons_cons, plain_append, plain_append]
          exact ⟨⟨hs, hsep⟩, ih hrest⟩

theorem dollarRuns_append_of_notMem {xs ys : List Char} (h : '$' ∉ xs) :
    dollarRuns (xs ++ ys) = dollarRuns ys := by
  induction xs with
  | nil => rfl
  | cons c rest ih =>
      obtain ⟨hc, hrest⟩ := not_or.mp (List.mem_cons.not.mp h)
      rw [List.cons_append, dollarRuns, if_neg (Ne.symm hc), ih hrest]

theorem takeWhile_append_of_closed {p : Char → Bool} {xs ys : List Char}
    (h : ∀ c ∈ ys.head?, p c = false) : (xs ++ ys).takeWhile p = xs.takeWhile p := by
  induction xs with
  | nil => cases ys <;> simp_all
  | cons c rest ih => by_cases hc : p c = true <;> simp [hc, ih]

theorem dollarRuns_append {xs ys : List Char} (h : ∀ c ∈ ys.head?, c.isDigit = false) :
    dollarRuns (xs ++ ys) = dollarRuns xs ++ dollarRuns ys := by
  induction xs with
  | nil => rfl
  | cons c rest ih =>
      by_cases hc : c = '$'
      · rw [List.cons_append, dollarRuns, dollarRuns, if_pos hc, if_pos hc, ih,
          takeWhile_append_of_closed h, List.cons_append]
      · rw [List.cons_append, dollarRuns, dollarRuns, if_neg hc, if_neg hc, ih]

/-- Plain text before a text adds no placeholder. -/
theorem placeholdersIn_append_of_plain {s t : String} (h : Plain s) :
    placeholdersIn (s ++ t) = placeholdersIn t := by
  rw [placeholdersIn, placeholdersIn, String.toList_append, dollarRuns_append_of_notMem h]

theorem placeholdersIn_of_plain {s : String} (h : Plain s) : placeholdersIn s = [] := by
  have happend := placeholdersIn_append_of_plain (t := "") h
  rwa [String.append_empty] at happend

/-- Placeholders are read piece by piece where the next piece does not begin with a digit. -/
theorem placeholdersIn_append {s t : String} (h : Closed t) :
    placeholdersIn (s ++ t) = placeholdersIn s ++ placeholdersIn t := by
  rw [placeholdersIn, placeholdersIn, placeholdersIn, String.toList_append,
    dollarRuns_append h.head, List.map_append]

theorem Closed.append {s t : String} (hs : Closed s) (hne : s ≠ "") : Closed (s ++ t) := by
  rw [Closed, String.toList_append, List.head?_append_of_ne_nil _ (by simpa using hne)]
  exact hs

/-- Joining with a separator that is plain and begins with no digit keeps the pieces apart. -/
theorem placeholdersIn_intercalate {sep : String} {items : List String} (hplain : Plain sep)
    (hclosed : Closed sep) (hne : sep ≠ "") :
    placeholdersIn (sep.intercalate items) = items.flatMap placeholdersIn := by
  induction items with
  | nil => rfl
  | cons s rest ih =>
      cases rest with
      | nil => simp
      | cons t rest =>
          rw [String.intercalate_cons_cons, String.append_assoc,
            placeholdersIn_append (hclosed.append hne), placeholdersIn_append_of_plain hplain, ih]
          rfl

/-! ## Decimal numbers -/

/-- Decimal text is that of the library, for which there are lemmas on digits. -/
theorem decimalText_eq_toDigits (n : Nat) : Numeric.decimalText n = Nat.toDigits 10 n := by
  have hchar : ∀ d < 10, Numeric.digitChar d = Nat.digitChar d := by decide
  unfold Numeric.decimalText
  fun_induction Numeric.digitsOf n with
  | case1 n h => rw [Nat.toDigits_of_lt_base h, List.map_singleton, hchar n h]
  | case2 n h ih =>
      rw [List.map_append, ih, List.map_singleton, hchar _ (Nat.mod_lt _ (by decide)),
        ← Nat.toDigits_of_base_le (by decide) (by omega)]

/-- A placeholder is a `$` with its number in decimal. -/
theorem placeholder_eq (before : Nat) : placeholder before = "$" ++ toString (before + 1) := by
  rw [placeholder, decimalText_eq_toDigits, Nat.toString_eq_ofList_toDigits]

/-- A placeholder as a list of characters. -/
theorem toList_placeholder (before : Nat) :
    (placeholder before).toList = '$' :: Nat.toDigits 10 (before + 1) := by
  rw [placeholder, decimalText_eq_toDigits, String.toList_append, String.toList_ofList]
  simp

/-- A placeholder is read as itself. -/
theorem placeholdersIn_placeholder (before : Nat) :
    placeholdersIn (placeholder before) = placeholdersFrom before 1 := by
  have hdigits : ∀ c ∈ Nat.toDigits 10 (before + 1), c.isDigit = true := fun c hc =>
    Nat.isDigit_of_mem_toDigits (by decide) (by decide) hc
  have hplain : '$' ∉ Nat.toDigits 10 (before + 1) := fun h => absurd (hdigits _ h) (by decide)
  have hruns : dollarRuns (Nat.toDigits 10 (before + 1)) = [] := by
    have happend : dollarRuns (Nat.toDigits 10 (before + 1) ++ []) = dollarRuns [] :=
      dollarRuns_append_of_notMem hplain
    rwa [List.append_nil] at happend
  rw [placeholdersIn, toList_placeholder, dollarRuns, if_pos rfl, hruns,
    List.takeWhile_eq_self_iff.mpr hdigits, ← toList_placeholder, List.map_singleton,
    String.ofList_toList, placeholder_eq]
  rfl

theorem closed_placeholder (before : Nat) : Closed (placeholder before) := by
  rw [Closed, toList_placeholder]
  rfl

/-- A placeholder after any text is one more placeholder. -/
theorem placeholdersIn_append_placeholder (s : String) (before : Nat) :
    placeholdersIn (s ++ placeholder before) = placeholdersIn s ++ placeholdersFrom before 1 := by
  rw [placeholdersIn_append (closed_placeholder before), placeholdersIn_placeholder]

/-! ## Names that are written -/

end SchemaQuery.Sql

namespace SchemaQuery

/-- The names in a qualified column. -/
def Plan.Column.names (c : Plan.Column) : List String := [c.tableAlias, c.name]

namespace Sql

variable {α : Type}

/-- The names that a select item is written with. -/
def Output.names : Output → List String
  | .column c label => c.names ++ label.toList
  | .aggregate _ c label => (c.map Plan.Column.names).getD [] ++ [label]

/-- The names that a sort key is written with. -/
def SortKey.names : SortKey → List String
  | .column c => c.names
  | .label name => [name]

/-- The names that a condition is written with. -/
def Condition.names (c : Condition α) : List String := c.predicates.flatMap fun p => p.column.names

/-- All names that a statement is written with: tables, aliases, columns and labels. -/
def Statement.names (s : Statement α) : List String :=
  s.outputs.flatMap Output.names ++ [s.table, s.tableAlias]
    ++ (s.condition.map Condition.names).getD []
    ++ s.groupBy.flatMap Plan.Column.names
    ++ s.orderBy.flatMap fun (key, _) => key.names

end Sql

/-- The names of a plan that its text is written with. -/
def Plan.emittedNames (plan : Plan) : List String := (Sql.shape plan).names

namespace Sql

variable {α : Type}

theorem plain_qualified {c : Plan.Column} (h : ∀ name ∈ c.names, Plain name) :
    Plain c.qualified := by
  have halias : Plain c.tableAlias := h _ (by simp [Plan.Column.names])
  have hname : Plain c.name := h _ (by simp [Plan.Column.names])
  exact plain_append.mpr ⟨plain_append.mpr ⟨halias, by decide⟩, hname⟩

theorem Output.plain_render {o : Output} (h : ∀ name ∈ o.names, Plain name) :
    Plain o.render := by
  match o with
  | .column c none => exact plain_qualified (by simpa [names] using h)
  | .column c (some label) =>
      have hc : Plain c.qualified := by
        apply plain_qualified
        intro n hn
        exact h n (List.mem_append_left _ hn)
      have hlabel : Plain label := h label (List.mem_append_right _ (by simp))
      exact plain_append.mpr ⟨plain_append.mpr ⟨hc, by decide⟩, hlabel⟩
  | .aggregate function none label =>
      have hlabel : Plain label := h label (List.mem_append_right _ (by simp))
      have hfunction : Plain (function.sql ++ "(*) AS ") := by cases function <;> decide
      exact plain_append.mpr ⟨hfunction, hlabel⟩
  | .aggregate function (some c) label =>
      have hc : Plain c.qualified := by
        apply plain_qualified
        intro n hn
        exact h n (List.mem_append_left _ hn)
      have hlabel : Plain label := h label (List.mem_append_right _ (by simp))
      have hfunction : Plain (function.sql ++ "(") := by cases function <;> decide
      have hcall : Plain (function.sql ++ "(" ++ c.qualified) := plain_append.mpr ⟨hfunction, hc⟩
      exact plain_append.mpr ⟨plain_append.mpr ⟨hcall, by decide⟩, hlabel⟩

theorem SortKey.plain_render {key : SortKey} (h : ∀ name ∈ key.names, Plain name) :
    Plain key.render := by
  cases key with
  | column c => exact plain_qualified h
  | label name => exact h name (by simp [names])

/-! ## Placeholders of a condition -/

/-- A test has its placeholders in the order of its values. -/
theorem Predicate.placeholdersIn_render (p : Predicate α) (before : Nat)
    (h : ∀ name ∈ p.column.names, Plain name) :
    placeholdersIn (p.render before) = placeholdersFrom before p.values.length := by
  have hcolumn : Plain p.column.qualified := plain_qualified h
  cases p with
  | isNull c | isNotNull c =>
      rw [render]
      exact placeholdersIn_of_plain (plain_append.mpr ⟨hcolumn, by decide⟩)
  | compare c op v =>
      have hop : Plain op.text := by cases op <;> decide
      have hleft : Plain (c.qualified ++ " " ++ op.text ++ " ") :=
        plain_append.mpr
          ⟨plain_append.mpr ⟨plain_append.mpr ⟨hcolumn, by decide⟩, hop⟩, by decide⟩
      rw [render, placeholdersIn_append_placeholder, placeholdersIn_of_plain hleft]
      rfl
  | equalsAny c v | differsFromAll c v =>
      change Plain c.qualified at hcolumn
      rw [render, placeholdersIn_append (t := ")") (by decide), placeholdersIn_append_placeholder,
        placeholdersIn_of_plain (plain_append.mpr ⟨hcolumn, by decide⟩),
        placeholdersIn_of_plain (s := ")") (by decide)]
      rfl
  | between c low high =>
      change Plain c.qualified at hcolumn
      rw [render, placeholdersIn_append_placeholder,
        placeholdersIn_append (t := " AND ") (by decide), placeholdersIn_append_placeholder,
        placeholdersIn_of_plain (plain_append.mpr ⟨hcolumn, by decide⟩),
        placeholdersIn_of_plain (s := " AND ") (by decide)]
      rfl

namespace Condition

mutual

/-- **A condition has its placeholders in the order of its values**, whatever was written
before it. -/
theorem placeholdersIn_render : ∀ (c : Condition α) (before : Nat),
    (∀ name ∈ c.names, Plain name) →
      placeholdersIn (c.render before) = placeholdersFrom before c.values.length
  | .predicate p, before, h => by
      rw [render, values]
      apply p.placeholdersIn_render
      intro name hname
      exact h name (List.mem_flatMap.mpr ⟨p, List.mem_singleton_self p, hname⟩)
  | .and conditions, before, h | .or conditions, before, h => by
      rw [render, values, placeholdersIn_append (t := ")") (by decide),
        placeholdersIn_append_of_plain (s := "(") (by decide),
        placeholdersIn_intercalate (by decide) (by decide) (by decide),
        placeholdersIn_of_plain (s := ")") (by decide), List.append_nil]
      exact placeholdersIn_renderEach conditions before h
  | .not condition, before, h => by
      rw [render, values, placeholdersIn_append_of_plain (by decide)]
      exact placeholdersIn_render condition before h

theorem placeholdersIn_renderEach : ∀ (cs : List (Condition α)) (before : Nat),
    (∀ name ∈ (predicatesOf cs).flatMap fun p => p.column.names, Plain name) →
      (renderEach before cs).flatMap placeholdersIn = placeholdersFrom before (valuesOf cs).length
  | [], _, _ => rfl
  | condition :: rest, before, h => by
      rw [predicatesOf, List.flatMap_append] at h
      have hcondition : placeholdersIn (condition.render before)
          = placeholdersFrom before condition.values.length := by
        apply placeholdersIn_render condition
        intro name hname
        exact h name (List.mem_append_left _ hname)
      have hrest : (renderEach (before + condition.values.length) rest).flatMap placeholdersIn
          = placeholdersFrom (before + condition.values.length) (valuesOf rest).length := by
        apply placeholdersIn_renderEach rest
        intro name hname
        exact h name (List.mem_append_right _ hname)
      rw [renderEach, valuesOf, List.flatMap_cons, hcondition, hrest, List.length_append,
        placeholdersFrom_add]

end

end Condition

/-! ## Placeholders of a statement -/

theorem plain_listClause {keyword : String} {items : List String} (hkeyword : Plain keyword)
    (hitems : ∀ s ∈ items, Plain s) : ∀ clause ∈ listClause keyword items, Plain clause := by
  intro clause hclause
  unfold listClause at hclause
  split at hclause
  · exact absurd hclause List.not_mem_nil
  · obtain rfl := List.mem_singleton.mp hclause
    exact plain_append.mpr ⟨hkeyword, plain_intercalate (by decide) hitems⟩

theorem flatMap_placeholdersIn_of_plain {items : List String} (h : ∀ s ∈ items, Plain s) :
    items.flatMap placeholdersIn = [] :=
  List.flatMap_eq_nil_iff.mpr fun s hs => placeholdersIn_of_plain (h s hs)

namespace Statement

theorem plain_selectClause {s : Statement α} (h : ∀ o ∈ s.outputs, Plain o.render) :
    Plain s.selectClause := by
  unfold selectClause
  split
  · decide
  · refine plain_append.mpr ⟨by decide, plain_intercalate (by decide) ?_⟩
    intro t ht
    obtain ⟨o, ho, rfl⟩ := List.mem_map.mp ht
    exact h o ho

theorem placeholdersIn_whereClause {s : Statement α}
    (h : ∀ c ∈ s.condition, ∀ name ∈ c.names, Plain name) :
    s.whereClause.flatMap placeholdersIn = placeholdersFrom 0 s.conditionValues.length := by
  unfold whereClause conditionValues
  cases hcondition : s.condition with
  | none => rfl
  | some c =>
      show [_].flatMap placeholdersIn = placeholdersFrom 0 c.values.length
      rw [List.flatMap_singleton, placeholdersIn_append_of_plain (by decide)]
      exact c.placeholdersIn_render 0 (h c hcondition)

theorem placeholdersIn_limitClause (before : Nat) :
    placeholdersIn (limitClause before) = placeholdersFrom before 2 := by
  rw [limitClause, placeholdersIn_append_placeholder, placeholdersIn_append (by decide),
    placeholdersIn_append_placeholder, placeholdersIn_of_plain (s := "LIMIT ") (by decide),
    placeholdersIn_of_plain (s := " OFFSET ") (by decide)]
  rfl

theorem plain_fromClause {s : Statement α} (h : ∀ name ∈ [s.table, s.tableAlias], Plain name) :
    Plain ("FROM " ++ s.table ++ " " ++ s.tableAlias) := by
  have hname : Plain s.table := h _ (by simp)
  have halias : Plain s.tableAlias := h _ (by simp)
  simp only [plain_append]
  exact ⟨⟨⟨by decide, hname⟩, by decide⟩, halias⟩

theorem plain_groupClause {columns : List Plan.Column}
    (h : ∀ name ∈ columns.flatMap Plan.Column.names, Plain name) :
    ∀ clause ∈ listClause "GROUP BY " (columns.map (·.qualified)), Plain clause := by
  refine plain_listClause (by decide) ?_
  intro t ht
  obtain ⟨c, hc, rfl⟩ := List.mem_map.mp ht
  apply plain_qualified
  intro name hname
  exact h name (List.mem_flatMap.mpr ⟨c, hc, hname⟩)

theorem plain_orderClause {keys : List (SortKey × Direction)}
    (h : ∀ name ∈ keys.flatMap fun (key, _) => key.names, Plain name) :
    ∀ clause ∈ listClause "ORDER BY "
      (keys.map fun (key, direction) => key.render ++ " " ++ direction.sql), Plain clause := by
  refine plain_listClause (by decide) ?_
  intro t ht
  obtain ⟨⟨key, direction⟩, hkey, rfl⟩ := List.mem_map.mp ht
  have hrender : Plain key.render := by
    apply key.plain_render
    intro name hname
    exact h name (List.mem_flatMap.mpr ⟨_, hkey, hname⟩)
  have hdirection : Plain direction.sql := by cases direction <;> decide
  exact plain_append.mpr ⟨plain_append.mpr ⟨hrender, by decide⟩, hdirection⟩

/-- **The placeholders of a statement are numbered from one on**, and there is one for every
value. -/
theorem placeholdersIn_render {s : Statement α} (h : ∀ name ∈ s.names, Plain name) :
    placeholdersIn s.render = placeholdersFrom 0 s.values.length := by
  simp only [names, List.mem_append, or_imp, forall_and] at h
  obtain ⟨⟨⟨⟨houtputs, htable⟩, hcondition⟩, hgroups⟩, hkeys⟩ := h
  have hselect : Plain s.selectClause := by
    apply plain_selectClause
    intro o ho
    apply o.plain_render
    intro name hname
    exact houtputs name (List.mem_flatMap.mpr ⟨o, ho, hname⟩)
  have hwhere : s.whereClause.flatMap placeholdersIn
      = placeholdersFrom 0 s.conditionValues.length := by
    apply placeholdersIn_whereClause
    intro c hc name hname
    apply hcondition
    rw [hc]
    exact hname
  have hhead : ∀ clause ∈ [s.selectClause, "FROM " ++ s.table ++ " " ++ s.tableAlias],
      Plain clause :=
    List.forall_mem_cons.mpr ⟨hselect, List.forall_mem_singleton.mpr (plain_fromClause htable)⟩
  rw [render, placeholdersIn_append (t := ";") (by decide),
    placeholdersIn_intercalate (by decide) (by decide) (by decide),
    placeholdersIn_of_plain (s := ";") (by decide), List.append_nil, clauses]
  simp only [List.flatMap_append]
  rw [flatMap_placeholdersIn_of_plain hhead, hwhere,
    flatMap_placeholdersIn_of_plain (plain_groupClause hgroups),
    flatMap_placeholdersIn_of_plain (plain_orderClause hkeys), List.flatMap_singleton,
    placeholdersIn_limitClause, List.append_nil, List.append_nil, List.nil_append, values,
    List.length_append, placeholdersFrom_add, Nat.zero_add]
  rfl

end Statement

/-! ## Where a test stands -/

theorem infix_append_left {s t u : String} (h : s.toList <:+: t.toList) :
    s.toList <:+: (t ++ u).toList := by
  rw [String.toList_append]
  exact h.trans (List.prefix_append _ _).isInfix

theorem infix_append_right {s t u : String} (h : s.toList <:+: u.toList) :
    s.toList <:+: (t ++ u).toList := by
  rw [String.toList_append]
  exact h.trans (List.suffix_append _ _).isInfix

theorem infix_intercalate {sep s t : String} {items : List String} (hmem : t ∈ items)
    (h : s.toList <:+: t.toList) : s.toList <:+: (sep.intercalate items).toList := by
  induction items with
  | nil => exact absurd hmem List.not_mem_nil
  | cons u rest ih =>
      rcases List.mem_cons.mp hmem with rfl | hrest
      · cases rest with
        | nil => simpa using h
        | cons v rest =>
            rw [String.intercalate_cons_cons]
            exact infix_append_left (infix_append_left h)
      · rw [String.intercalate_cons_of_ne_nil (List.ne_nil_of_mem hrest)]
        exact infix_append_right (ih hrest)

/-- An element of a joined list is in one of the two parts. -/
theorem append_eq_append_cons {β : Type} {xs ys earlier later : List β} {y : β}
    (h : xs ++ ys = earlier ++ y :: later) :
    (∃ between, xs = earlier ++ y :: between) ∨
      ∃ between, earlier = xs ++ between ∧ ys = between ++ y :: later := by
  rcases List.append_eq_append_iff.mp h with ⟨between, rfl, hys⟩ | ⟨between, rfl, hys⟩
  · exact .inr ⟨between, rfl, hys⟩
  · cases between with
    | nil => exact .inr ⟨[], by simp, by simpa using hys.symm⟩
    | cons z rest =>
        obtain ⟨rfl, -⟩ := List.cons_eq_cons.mp hys
        exact .inl ⟨rest, rfl⟩

namespace Condition

mutual

/-- **Every test stands in the text of its condition**, numbered by the values of the tests
before it. -/
theorem infix_render : ∀ (c : Condition α) (before : Nat) {earlier later : List (Predicate α)}
    {p : Predicate α}, c.predicates = earlier ++ p :: later →
      (p.render (before + (earlier.flatMap Predicate.values).length)).toList
        <:+: (c.render before).toList
  | .predicate q, before, earlier, later, p, h => by
      obtain ⟨rfl, hp⟩ := List.append_eq_singleton_iff.mp h.symm |>.resolve_right (by simp)
      obtain ⟨rfl, -⟩ := List.cons_eq_cons.mp hp
      exact List.infix_rfl
  | .and conditions, before, earlier, later, p, h
  | .or conditions, before, earlier, later, p, h => by
      obtain ⟨t, ht, hinfix⟩ := infix_renderEach conditions before h
      rw [render]
      exact infix_append_left (infix_append_right (infix_intercalate ht hinfix))
  | .not condition, before, earlier, later, p, h => by
      rw [render]
      exact infix_append_right (infix_render condition before h)

theorem infix_renderEach : ∀ (cs : List (Condition α)) (before : Nat)
    {earlier later : List (Predicate α)} {p : Predicate α},
    predicatesOf cs = earlier ++ p :: later →
      ∃ t ∈ renderEach before cs,
        (p.render (before + (earlier.flatMap Predicate.values).length)).toList <:+: t.toList
  | [], before, earlier, later, p, h => absurd h (by simp [predicatesOf])
  | condition :: rest, before, earlier, later, p, h => by
      rw [renderEach]
      rcases append_eq_append_cons h with ⟨between, hcondition⟩ | ⟨between, rfl, hrest⟩
      · exact ⟨_, List.mem_cons_self, infix_render condition before hcondition⟩
      · obtain ⟨t, ht, hinfix⟩ := infix_renderEach rest (before + condition.values.length) hrest
        rw [List.flatMap_append, ← values_eq_flatMap, List.length_append, ← Nat.add_assoc]
        exact ⟨t, List.mem_cons_of_mem _ ht, hinfix⟩

end

end Condition

end Sql

/-! ## Placeholders of a plan -/

namespace Plan

/-- The text of a comparison after `before` placeholders: its column, its operator and the
placeholders of its values. -/
def Leaf.text (leaf : Leaf) (before : Nat) : String := leaf.shape.render before

/-- A comparison with the value that it needs binds as many values as its text has places
for. -/
theorem Leaf.Emittable.length_slots {leaf : Leaf} (h : leaf.Emittable) :
    leaf.slots.length = leaf.shape.values.length := by
  obtain ⟨p, hp⟩ := Sql.exists_ofComparison_iff.mpr h
  obtain ⟨hshape, hvalues⟩ := Sql.ofComparison_spec hp
  rw [Leaf.shape, ← hshape, Sql.Predicate.length_values_erase, hvalues]

mutual

/-- The comparisons of a tree without defects are without defects. -/
theorem Condition.Emittable.of_mem_leaves : ∀ {f : Condition}, f.Emittable →
    ∀ leaf ∈ f.leaves, leaf.Emittable
  | .comparison _ _ _, h, leaf, hleaf => by
      obtain rfl := List.mem_singleton.mp hleaf
      exact h
  | .logical .not nodes, h, leaf, hleaf => AreEmittable.of_mem_leavesOf h.2 leaf hleaf
  | .logical .and nodes, h, leaf, hleaf => AreEmittable.of_mem_leavesOf h.2 leaf hleaf
  | .logical .or nodes, h, leaf, hleaf => AreEmittable.of_mem_leavesOf h.2 leaf hleaf

theorem Condition.AreEmittable.of_mem_leavesOf : ∀ {fs : List Condition},
    Condition.AreEmittable fs → ∀ leaf ∈ Condition.leavesOf fs, leaf.Emittable
  | [], _, leaf, hleaf => absurd hleaf List.not_mem_nil
  | node :: rest, h, leaf, hleaf => by
      rcases List.mem_append.mp hleaf with hnode | hrest
      · exact Emittable.of_mem_leaves h.1 leaf hnode
      · exact AreEmittable.of_mem_leavesOf h.2 leaf hrest

end

/-- A plan with a comparison has a filter, and its comparisons are those of the filter. -/
theorem exists_filters_of_mem {plan : Plan} {leaf : Leaf} (h : leaf ∈ plan.leaves) :
    ∃ f, plan.filters = some f ∧ plan.leaves = f.leaves := by
  cases hfilter : plan.filters with
  | none => simp [leaves, hfilter] at h
  | some f =>
      refine ⟨f, rfl, ?_⟩
      rw [leaves, hfilter]
      rfl

/-- No comparison of an emitted plan is defective. -/
theorem emittable_of_mem_leaves {plan : Plan} {e : Sql.Emitted} (h : Sql.emit plan = .ok e)
    {leaf : Leaf} (hleaf : leaf ∈ plan.leaves) : leaf.Emittable := by
  obtain ⟨f, hf, hleaves⟩ := exists_filters_of_mem hleaf
  rw [hleaves] at hleaf
  exact ((Sql.exists_emit_iff.mp ⟨e, h⟩).2 f hf).of_mem_leaves leaf hleaf

/-- The column of a comparison is among the names that are written. -/
theorem names_subset_emittedNames {plan : Plan} {leaf : Leaf} (h : leaf ∈ plan.leaves) :
    leaf.shape.column.names ⊆ plan.emittedNames := by
  obtain ⟨f, hf, hleaves⟩ := exists_filters_of_mem h
  rw [hleaves] at h
  have htest : leaf.shape ∈ f.shape.predicates := by
    rw [Condition.predicates_shape]
    exact List.mem_map_of_mem h
  intro name hname
  have hcondition : name ∈ f.shape.names := List.mem_flatMap.mpr ⟨_, htest, hname⟩
  simp [emittedNames, Sql.Statement.names, Sql.shape, hf, hcondition]

/-- The values that comparisons bind are as many as their texts have places for. -/
theorem length_flatMap_slots {leaves : List Leaf} (h : ∀ leaf ∈ leaves, leaf.Emittable) :
    (leaves.flatMap Leaf.slots).length
      = ((leaves.map Leaf.shape).flatMap Sql.Predicate.values).length := by
  induction leaves with
  | nil => rfl
  | cons leaf rest ih =>
      obtain ⟨hleaf, hrest⟩ := List.forall_mem_cons.mp h
      rw [List.flatMap_cons, List.map_cons, List.flatMap_cons, List.length_append,
        List.length_append, hleaf.length_slots, ih hrest]

end Plan

namespace Sql

open Plan

/-- Every comparison stands in the text of an emitted plan, numbered by the values of the
comparisons before it. -/
theorem infix_sql {plan : Plan} {e : Emitted} (h : emit plan = .ok e) {earlier later : List Leaf}
    {leaf : Leaf} (hleaves : plan.leaves = earlier ++ leaf :: later) :
    (leaf.text (earlier.flatMap Leaf.slots).length).toList <:+: e.sql.toList := by
  have hearlier : ∀ l ∈ earlier, l.Emittable := fun l hl =>
    emittable_of_mem_leaves h (by rw [hleaves]; exact List.mem_append_left _ hl)
  have hmem : leaf ∈ plan.leaves := by
    rw [hleaves]
    exact List.mem_append_right _ List.mem_cons_self
  obtain ⟨f, hf, hof⟩ := exists_filters_of_mem hmem
  have htests : f.shape.predicates
      = earlier.map Leaf.shape ++ leaf.shape :: later.map Leaf.shape := by
    rw [Plan.Condition.predicates_shape, ← hof, hleaves, List.map_append, List.map_cons]
  have hinfix := Condition.infix_render f.shape 0 htests
  rw [Nat.zero_add, ← length_flatMap_slots hearlier] at hinfix
  have hclause : "WHERE " ++ f.shape.render 0 ∈ (shape plan).clauses := by
    have hcondition : (shape plan).condition = some f.shape := by
      rw [shape, hf]
      rfl
    simp [Statement.clauses, Statement.whereClause, hcondition]
  rw [sql_eq_render_shape h, Statement.render]
  exact infix_append_left (infix_intercalate hclause (infix_append_right hinfix))

/-- **Placeholders and parameters match.**  Where no name of a plan contains a `$`, the
placeholders of its text from left to right are `$1`, `$2`, … up to the number of parameters;
the parameters are the values that the comparisons bind, then the limit and the offset; and
every comparison stands in the text with just those placeholders to which its own values are
bound. -/
theorem placeholders_match_params {plan : Plan} {e : Emitted} (built : emit plan = .ok e)
    (plain : ∀ name ∈ plan.emittedNames, '$' ∉ name.toList) :
    placeholdersIn e.sql = placeholdersFrom 0 e.params.length ∧
      e.params = plan.leaves.flatMap Leaf.slots
        ++ [.ofInt64 plan.pagination.limit, .ofInt64 plan.pagination.offset] ∧
      ∀ earlier leaf later, plan.leaves = earlier ++ leaf :: later →
        let before := (earlier.flatMap Leaf.slots).length
        (leaf.text before).toList <:+: e.sql.toList ∧
          placeholdersIn (leaf.text before) = placeholdersFrom before leaf.slots.length ∧
          (e.params.drop before).take leaf.slots.length = leaf.slots := by
  have hparams := params_eq built
  refine ⟨?_, hparams, fun earlier leaf later hleaves => ⟨infix_sql built hleaves, ?_, ?_⟩⟩
  · rw [sql_eq_render_shape built, length_params_eq built]
    exact Statement.placeholdersIn_render plain
  · have hmem : leaf ∈ plan.leaves := by simp [hleaves]
    rw [(emittable_of_mem_leaves built hmem).length_slots]
    exact leaf.shape.placeholdersIn_render _ fun name hname =>
      plain name (names_subset_emittedNames hmem hname)
  · rw [hparams, hleaves, List.flatMap_append, List.flatMap_cons, List.append_assoc,
      List.append_assoc, List.drop_left, List.take_left]

/-! ## A nested filter -/

namespace Nested

/-- A text column. -/
def column (name : String) : Plan.Column := ⟨"t0", name, .string⟩

/-- A text as the value of a comparison. -/
def text (s : String) : Option TypedValue := some ⟨.text s, .string⟩

/-- Two texts as the bounds of a range. -/
def range (low high : String) : Option TypedValue := some ⟨textRange low high, .string⟩

/-- A filter that has negations of negations and of ranges, a range before another test, and a
disjunction of one. -/
def filter : Plan.Condition :=
  .logical .and
    [.logical .not [.logical .not [.comparison (column "status") .startsWith (text "p")]],
      .comparison (column "placed") .between (range "a" "m"),
      .logical .or [.logical .not [.comparison (column "placed") .between (range "c" "d")]],
      .comparison (column "amount") .isNull none]

/-- A count of the rows that the filter keeps. -/
def plan : Plan where
  root := ⟨"orders", "orders", "t0", column "id"⟩
  select := []
  filters := some filter
  groupBy := []
  aggregates := [⟨.count, none, "n"⟩]
  sort := []
  pagination := Plan.defaultPagination

end Nested

/-- The nested filter binds five values, and the limit and the offset follow. -/
theorem placeholders_match_params_nested :
    ∃ e, emit Nested.plan = .ok e ∧
      placeholdersIn e.sql = ["$1", "$2", "$3", "$4", "$5", "$6", "$7"] ∧
      e.params = [.text "p%", .text "a", .text "m", .text "c", .text "d", .ofInt64 100,
        .ofInt64 0] := by
  have built : ∃ e, emit Nested.plan = .ok e := ⟨_, rfl⟩
  obtain ⟨e, he⟩ := built
  obtain ⟨hsql, hparams, -⟩ := placeholders_match_params he (by decide)
  have hvalues : e.params = [.text "p%", .text "a", .text "m", .text "c", .text "d", .ofInt64 100,
      .ofInt64 0] := hparams.trans rfl
  refine ⟨e, he, ?_, hvalues⟩
  rw [hsql, hvalues]
  decide

end Sql

end SchemaQuery
