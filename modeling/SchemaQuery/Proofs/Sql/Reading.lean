import SchemaQuery.Proofs.Sql.Grammar

/-!
# Conditions mean what they say

A filter is a tree, and its condition in SQL is text, in which only precedence and parentheses
tell the nodes of the tree.  A conjunction or disjunction brings its own parentheses and a
negation brings none, so that every rendered node is a factor of the grammar: it may stand
under `NOT`, between `AND`s and between `OR`s, and the `AND` of a range is never taken for one
that joins.

Truth has three values.  A condition is compared with its tree under every assignment of truth
values to the tests; the tests are told by their places, so that two equal tests may differ in
truth.

## Main definitions

* `Truth` - the truth values of SQL.
* `Expr.truth`, `Plan.Condition.truth` - the truth of a condition and of a tree.
* `testsFrom` - the tests that the comparisons of a tree become.

## Main statements

* `readsAs_render` - every emitted condition reads as its tree.
* `render_reads_back` - a rendered condition has one reading, with the tests of the tree and
  with its truth.
-/

namespace SchemaQuery

open Json (Value)

/-! ## Truth -/

/-- The truth values of SQL. -/
inductive Truth where
  | false
  | unknown
  | true
  deriving DecidableEq, Repr

/-- The truth of a negation. -/
def Truth.not : Truth → Truth
  | .false => .true
  | .unknown => .unknown
  | .true => .false

/-- The truth of a conjunction. -/
def Truth.and : Truth → Truth → Truth
  | .false, _ | _, .false => .false
  | .true, .true => .true
  | _, _ => .unknown

/-- The truth of a disjunction. -/
def Truth.or : Truth → Truth → Truth
  | .true, _ | _, .true => .true
  | .false, .false => .false
  | _, _ => .unknown

/-- What a connective of a tree makes of the truth of its nodes.  A negation has one node. -/
def Connective.truth : Connective → List Truth → Truth
  | .and, values => values.foldr Truth.and .true
  | .or, values => values.foldr Truth.or .false
  | .not, [value] => value.not
  | .not, _ => .unknown

namespace Plan.Condition

mutual

/-- The truth of a tree whose first comparison is the `first`-th of all those that `v`
values. -/
def truth (v : Nat → Truth) (first : Nat) : Condition → Truth
  | .comparison _ _ _ => v first
  | .logical op nodes => op.truth (truths v first nodes)

/-- The truth of trees one by one. -/
def truths (v : Nat → Truth) (first : Nat) : List Condition → List Truth
  | [] => []
  | node :: rest => node.truth v first :: truths v (first + node.leaves.length) rest

end

end Plan.Condition

namespace Sql

/-- What a connective of a condition makes of the truth of both sides. -/
def Junction.truth : Junction → Truth → Truth → Truth
  | .and => Truth.and
  | .or => Truth.or

/-- The truth of no conditions joined. -/
def Junction.unit : Junction → Truth
  | .and => .true
  | .or => .false

theorem Junction.truth_unit (j : Junction) (a : Truth) : j.truth a j.unit = a := by
  cases j <;> cases a <;> rfl

theorem Junction.truth_assoc (j : Junction) (a b c : Truth) :
    j.truth (j.truth a b) c = j.truth a (j.truth b c) := by
  cases j <;> cases a <;> cases b <;> cases c <;> rfl

namespace Expr

/-- The truth of a condition whose first test is the `first`-th of all those that `v`
values. -/
def truth (v : Nat → Truth) (first : Nat) : Expr → Truth
  | .test _ => v first
  | .not e => (e.truth v first).not
  | .join j left right => j.truth (left.truth v first) (right.truth v (first + left.tests.length))

/-- The truth of conditions one by one. -/
def truths (v : Nat → Truth) (first : Nat) : List Expr → List Truth
  | [] => []
  | e :: rest => e.truth v first :: truths v (first + e.tests.length) rest

/-- Joined conditions have the tests of all of them. -/
theorem tests_foldl (j : Junction) (e : Expr) (rest : List Expr) :
    (rest.foldl (.join j) e).tests = (e :: rest).flatMap tests := by
  induction rest generalizing e with
  | nil => simp
  | cons d rest ih =>
      rw [List.foldl_cons, ih, List.flatMap_cons, tests, List.flatMap_cons, List.flatMap_cons,
        List.append_assoc]

/-- Joining from the left has the truth of joining from the right. -/
theorem truth_foldl (j : Junction) (v : Nat → Truth) (first : Nat) (e : Expr) (rest : List Expr) :
    (rest.foldl (.join j) e).truth v first
      = (truths v first (e :: rest)).foldr j.truth j.unit := by
  induction rest generalizing e with
  | nil => exact (j.truth_unit _).symm
  | cons d rest ih =>
      rw [List.foldl_cons, ih]
      simp only [truths, truth, tests, List.foldr_cons, List.length_append, j.truth_assoc,
        Nat.add_assoc]

end Expr

/-! ## The tests of a tree -/

end Sql

/-- A column as an operand. -/
def Plan.Column.operand (c : Plan.Column) : Sql.Operand := .column c.tableAlias c.name

/-- Both names of a column are plain identifiers. -/
def Plan.Column.HasPlainNames (c : Plan.Column) : Prop :=
  isIdentifier c.tableAlias = true ∧ isIdentifier c.name = true

instance (c : Plan.Column) : Decidable c.HasPlainNames :=
  inferInstanceAs (Decidable (isIdentifier c.tableAlias = true ∧ isIdentifier c.name = true))

namespace Sql

variable {α : Type}

/-- How a test reads after `before` placeholders. -/
def Predicate.test (before : Nat) : Predicate α → Test
  | .isNull c => ⟨c.operand, .isNull⟩
  | .isNotNull c => ⟨c.operand, .isNotNull⟩
  | .compare c op _ => ⟨c.operand, .compare op (.placeholder (before + 1))⟩
  | .equalsAny c _ => ⟨c.operand, .any .eq (.placeholder (before + 1))⟩
  | .differsFromAll c _ => ⟨c.operand, .all .ne (.placeholder (before + 1))⟩
  | .between c _ _ =>
    ⟨c.operand, .between (.placeholder (before + 1)) (.placeholder (before + 2))⟩

/-- How comparisons read one after the other, the first after `before` placeholders. -/
def testsFrom (before : Nat) : List Plan.Leaf → List Test
  | [] => []
  | leaf :: rest => leaf.shape.test before :: testsFrom (before + leaf.slots.length) rest

theorem testsFrom_append (before : Nat) (xs ys : List Plan.Leaf) :
    testsFrom before (xs ++ ys)
      = testsFrom before xs ++ testsFrom (before + (xs.flatMap Plan.Leaf.slots).length) ys := by
  induction xs generalizing before with
  | nil => simp [testsFrom]
  | cons leaf rest ih =>
      rw [List.cons_append, testsFrom, testsFrom, ih, List.flatMap_cons, List.length_append,
        Nat.add_assoc, List.cons_append]

@[simp] theorem length_testsFrom (before : Nat) (leaves : List Plan.Leaf) :
    (testsFrom before leaves).length = leaves.length := by
  induction leaves generalizing before with
  | nil => rfl
  | cons leaf rest ih => rw [testsFrom, List.length_cons, List.length_cons, ih]

theorem column_shape (op : Operator) (c : Plan.Column) : (op.shape c).column = c := by
  cases op <;> rfl

/-! ## Reading a text -/

/-- A text can be read as a condition of a category. -/
def Reading (r : Rank) (s : String) (e : Expr) : Prop := ∃ ts, scan s = some ts ∧ Reads r ts e

/-- A column is a qualifier, a point and a name. -/
theorem scan_qualified {c : Plan.Column} (h : c.HasPlainNames) :
    scan c.qualified = some c.operand.tokens := by
  have hpoint : scan "." = some [.point] := rfl
  exact scan_separated (scan_identifier h.1) hpoint (scan_identifier h.2) (by decide)

theorem scan_text (op : Comparator) : scan op.text = some [op.token] := by
  cases op <;> rfl

/-- A test of a collection is read as that test. -/
theorem scan_collection {s t : String} {o : Operand} {k : Operand → Check} {ms : List Token}
    (before : Nat) (hs : scan s = some o.tokens) (ht : scan t = some ms) (hsep : Separates t)
    (hk : ∀ value, (k value).tokens = ms ++ value.tokens ++ [.closing]) :
    scan (s ++ t ++ placeholder before ++ ")")
      = some (⟨o, k (.placeholder (before + 1))⟩ : Test).tokens := by
  have hvalue := scan_separated hs ht (scan_placeholder before) hsep
  have hclosing : scan ")" = some [.closing] := rfl
  have hall := scan_append hvalue hclosing (LoneHead.apart rfl)
  rw [hall, Test.tokens, hk]
  simp [Operand.tokens]

/-- **A rendered test is read as that test.** -/
theorem Predicate.scan_render (p : Predicate α) (before : Nat) (h : p.column.HasPlainNames) :
    scan (p.render before) = some (p.test before).tokens := by
  have hcolumn : scan p.column.qualified = some p.column.operand.tokens := scan_qualified h
  cases p with
  | isNull c =>
      have hcheck : scan " IS NULL" = some Check.isNull.tokens := rfl
      exact scan_append hcolumn hcheck (LoneHead.apart rfl)
  | isNotNull c =>
      have hcheck : scan " IS NOT NULL" = some Check.isNotNull.tokens := rfl
      exact scan_append hcolumn hcheck (LoneHead.apart rfl)
  | compare c op _ =>
      have hspace : scan " " = some [] := rfl
      have hop := scan_separated hcolumn hspace (scan_text op) (by decide)
      exact scan_separated hop hspace (scan_placeholder before) (by decide)
  | equalsAny c _ =>
      have hany : scan " = ANY(" = some [.operator "=", .word "ANY", .opening] := rfl
      exact scan_collection (k := .any .eq) before hcolumn hany (by decide) fun _ => rfl
  | differsFromAll c _ =>
      have hall : scan " != ALL(" = some [.operator "!=", .word "ALL", .opening] := rfl
      exact scan_collection (k := .all .ne) before hcolumn hall (by decide) fun _ => rfl
  | between c _ _ =>
      have hbetween : scan " BETWEEN " = some [.word "BETWEEN"] := rfl
      have hand : scan " AND " = some [.word "AND"] := rfl
      have hlow := scan_separated hcolumn hbetween (scan_placeholder before) (by decide)
      have hhigh := scan_separated hlow hand (scan_placeholder (before + 1)) (by decide)
      exact hhigh

namespace Reading

/-- A factor may be joined by any connective. -/
theorem below (j : Junction) {s : String} {e : Expr} (h : Reading .factor s e) :
    Reading j.below s e := by
  obtain ⟨ts, hscan, hreads⟩ := h
  cases j with
  | and => exact ⟨ts, hscan, hreads⟩
  | or => exact ⟨ts, hscan, .single hreads⟩

/-- A factor alone is a condition. -/
theorem single (j : Junction) {s : String} {e : Expr} (h : Reading .factor s e) :
    Reading (.chain j) s e := by
  obtain ⟨ts, hscan, hreads⟩ := h.below j
  exact ⟨ts, hscan, .single hreads⟩

theorem not {s : String} {e : Expr} (h : Reading .factor s e) :
    Reading .factor ("NOT " ++ s) (.not e) := by
  obtain ⟨ts, hscan, hreads⟩ := h
  have hnot : scan "NOT " = some [.word "NOT"] := rfl
  exact ⟨_, scan_append hnot hscan (LoneLast.apart rfl), .not hreads⟩

/-- A condition in parentheses is a factor. -/
theorem group {j : Junction} {s : String} {e : Expr} (h : Reading (.chain j) s e) :
    Reading .factor ("(" ++ s ++ ")") e := by
  obtain ⟨ts, hscan, hreads⟩ := h
  have hopening : scan "(" = some [.opening] := rfl
  have hclosing : scan ")" = some [.closing] := rfl
  have hleft := scan_append hopening hscan (LoneLast.apart rfl)
  have hgroup := scan_append hleft hclosing (LoneHead.apart rfl)
  have hcondition : Reads .condition ts e := by
    cases j with
    | and => exact .single hreads
    | or => exact hreads
  exact ⟨_, hgroup, .primary (.group hcondition)⟩

end Reading

/-- The text between two joined conditions. -/
def Junction.separator : Junction → String
  | .and => " AND "
  | .or => " OR "

/-- One more condition is joined at the end. -/
theorem Reading.join {j : Junction} {s t : String} {e e' : Expr} (h : Reading (.chain j) s e)
    (h' : Reading j.below t e') : Reading (.chain j) (s ++ j.separator ++ t) (.join j e e') := by
  obtain ⟨ts, hscan, hreads⟩ := h
  obtain ⟨us, hscan', hreads'⟩ := h'
  have hjoint : scan j.separator = some [j.token] := by cases j <;> rfl
  have hsep : Separates j.separator := by cases j <;> decide
  refine ⟨_, scan_separated hscan hjoint hscan' hsep, ?_⟩
  rw [List.append_assoc, List.singleton_append]
  exact .join hreads hreads'

/-- Conditions joined by a connective are read from the left. -/
theorem Reading.intercalate {j : Junction} {s : String} {e : Expr} {items : List String}
    {es : List Expr} (h : Reading (.chain j) s e)
    (hitems : List.Forall₂ (Reading j.below) items es) :
    Reading (.chain j) (j.separator.intercalate (s :: items)) (es.foldl (.join j) e) := by
  induction hitems generalizing s e with
  | nil => rwa [String.intercalate_singleton]
  | @cons t d items es ht _ ih =>
      have hjoined := ih (h.join ht)
      rwa [String.intercalate_cons_append, ← String.intercalate_cons_cons] at hjoined

/-! ## The whole tree -/

/-- A text reads as a tree: as a factor with the tests of its comparisons and its truth. -/
def ReadsAs (before : Nat) (s : String) (f : Plan.Condition) : Prop :=
  ∃ e, Reading .factor s e ∧ e.tests = testsFrom before f.leaves ∧
    ∀ v first, e.truth v first = f.truth v first

/-- Texts read as trees, one as each. -/
def ReadAs (before : Nat) (items : List String) (fs : List Plan.Condition) : Prop :=
  ∃ es, List.Forall₂ (Reading .factor) items es ∧
    es.flatMap Expr.tests = testsFrom before (Plan.Condition.leavesOf fs) ∧
    ∀ v first, Expr.truths v first es = Plan.Condition.truths v first fs

/-- A test reads as its comparison. -/
theorem readsAs_comparison {left : Plan.Column} {op : Operator} {value : Option Plan.TypedValue}
    {p : Predicate Value} (hp : Predicate.ofComparison left op value = .ok p)
    (hleft : left.HasPlainNames) (before : Nat) :
    ReadsAs before (p.render before) (.comparison left op value) := by
  have hshape : p.erase = op.shape left := (ofComparison_spec hp).1
  have hcolumn : p.erase.column.HasPlainNames := by
    rw [hshape, column_shape]
    exact hleft
  have hscan := p.erase.scan_render before hcolumn
  rw [p.render_erase] at hscan
  refine ⟨.test (p.erase.test before), ⟨_, hscan, .primary (.test _)⟩, ?_, ?_⟩
  · rw [hshape]
    rfl
  · intro v first
    rfl

/-- A negation reads as the negation of what its node reads as. -/
theorem ReadsAs.not {before : Nat} {s : String} {node : Plan.Condition}
    (h : ReadsAs before s node) : ReadsAs before ("NOT " ++ s) (.logical .not [node]) := by
  obtain ⟨e, he, htests, htruth⟩ := h
  refine ⟨.not e, he.not, ?_, ?_⟩
  · rw [Expr.tests, htests, Plan.Condition.leaves, Plan.Condition.leavesOf,
      Plan.Condition.leavesOf, List.append_nil]
  · intro v first
    rw [Expr.truth, htruth]
    rfl

theorem ReadAs.nil (before : Nat) : ReadAs before [] [] := ⟨[], .nil, rfl, fun _ _ => rfl⟩

/-- The next text is numbered after the values of the first. -/
theorem ReadAs.cons {before : Nat} {s : String} {items : List String} {node : Plan.Condition}
    {rest : List Plan.Condition} (h : ReadsAs before s node)
    (hrest : ReadAs (before + (node.leaves.flatMap Plan.Leaf.slots).length) items rest) :
    ReadAs before (s :: items) (node :: rest) := by
  obtain ⟨e, he, htests, htruth⟩ := h
  obtain ⟨es, hes, htestsOf, htruths⟩ := hrest
  refine ⟨e :: es, .cons he hes, ?_, ?_⟩
  · rw [List.flatMap_cons, htests, htestsOf, Plan.Condition.leavesOf, testsFrom_append]
  · intro v first
    rw [Expr.truths, htruth, htests, length_testsFrom, htruths, Plan.Condition.truths]

/-- What is joined in parentheses reads as the tree of the same connective. -/
theorem ReadAs.join {j : Junction} {op : Connective} {before : Nat} {items : List String}
    {nodes : List Plan.Condition} (h : ReadAs before items nodes) (hne : nodes ≠ [])
    (htruth : ∀ values, op.truth values = values.foldr j.truth j.unit) :
    ReadsAs before ("(" ++ j.separator.intercalate items ++ ")") (.logical op nodes) := by
  obtain ⟨es, hitems, htests, htruths⟩ := h
  cases hitems with
  | nil =>
      have hnone : [] = Plan.Condition.truths (fun _ => .unknown) 0 nodes := htruths _ 0
      cases nodes with
      | nil => exact absurd rfl hne
      | cons node rest => cases hnone
  | @cons s e items es hs hitems =>
      have hbelow : List.Forall₂ (Reading j.below) items es :=
        hitems.imp fun _ _ hitem => hitem.below j
      refine ⟨_, ((hs.single j).intercalate hbelow).group, ?_, ?_⟩
      · rw [Expr.tests_foldl, htests, Plan.Condition.leaves]
      · intro v first
        rw [Expr.truth_foldl, htruths, Plan.Condition.truth, htruth]

/-- **Every emitted condition reads as its tree.** -/
theorem readsAs_render {f : Plan.Condition} {c : Condition Value}
    (h : Condition.ofPlan f = .ok c) (hnames : ∀ leaf ∈ f.leaves, leaf.column.HasPlainNames)
    (before : Nat) : ReadsAs before (c.render before) f := by
  have hcomp : Condition.Compositional
      (fun f c => (∀ leaf ∈ f.leaves, leaf.column.HasPlainNames) →
        ∀ before, ReadsAs before (c.render before) f)
      (fun fs cs => (∀ leaf ∈ Plan.Condition.leavesOf fs, leaf.column.HasPlainNames) →
        ∀ before, ReadAs before (Condition.renderEach before cs) fs) := by
    refine ⟨?_, ?_, ?_, ?_, ?_, ?_⟩
    · intro left op value p hp hnames before
      exact readsAs_comparison hp (hnames _ (List.mem_singleton_self _)) before
    · intro nodes cs hne ih hnames before
      exact (ih hnames before).join (j := .and) hne fun _ => rfl
    · intro nodes cs hne ih hnames before
      exact (ih hnames before).join (j := .or) hne fun _ => rfl
    · intro node c ih hnames before
      rw [Plan.Condition.leaves, Plan.Condition.leavesOf, Plan.Condition.leavesOf,
        List.append_nil] at hnames
      exact (ih hnames before).not
    · intro _ before
      exact .nil before
    · intro node rest c cs hc ihnode ihrest hnames before
      have hnode := ihnode (fun leaf hleaf => hnames leaf (List.mem_append_left _ hleaf)) before
      have hrest := ihrest (fun leaf hleaf => hnames leaf (List.mem_append_right _ hleaf))
        (before + c.values.length)
      have hcount : c.values.length = (node.leaves.flatMap Plan.Leaf.slots).length := by
        rw [Condition.values_ofPlan hc]
      refine .cons hnode ?_
      rw [← hcount]
      exact hrest
  exact hcomp.ofPlan h hnames before

/-- **A condition means what its tree says.**  Where the columns of a filter have plain names,
its text falls into tokens that have exactly one reading; the tests of this reading are the
comparisons of the filter in order, with the same columns and operators and numbered through;
and under every assignment of truth values to them the reading and the filter have the same
truth. -/
theorem render_reads_back {f : Plan.Condition} {c : Condition Value}
    (emitted : Condition.ofPlan f = .ok c)
    (names : ∀ leaf ∈ f.leaves, leaf.column.HasPlainNames) (before : Nat) :
    ∃ tokens e, scan (c.render before) = some tokens ∧ Reads .condition tokens e ∧
      (∀ e', Reads .condition tokens e' → e' = e) ∧
      e.tests = testsFrom before f.leaves ∧ ∀ v, e.truth v 0 = f.truth v 0 := by
  obtain ⟨e, hreading, htests, htruth⟩ := readsAs_render emitted names before
  obtain ⟨tokens, hscan, hreads⟩ := hreading.single .or
  exact ⟨tokens, e, hscan, hreads, fun e' he' => he'.unique hreads, htests,
    fun v => htruth v 0⟩

/-- The nested filter is read with its four tests, numbered from one on. -/
theorem render_reads_back_nested :
    ∃ c tokens e, Condition.ofPlan Nested.filter = .ok c ∧ scan (c.render 0) = some tokens ∧
      Reads .condition tokens e ∧ (∀ e', Reads .condition tokens e' → e' = e) ∧
      e.tests =
        [⟨.column "t0" "status", .compare .like (.placeholder 1)⟩,
          ⟨.column "t0" "placed", .between (.placeholder 2) (.placeholder 3)⟩,
          ⟨.column "t0" "placed", .between (.placeholder 4) (.placeholder 5)⟩,
          ⟨.column "t0" "amount", .isNull⟩] ∧
      ∀ v, e.truth v 0 = Nested.filter.truth v 0 := by
  have emitted : ∃ c, Condition.ofPlan Nested.filter = .ok c := ⟨_, rfl⟩
  obtain ⟨c, hc⟩ := emitted
  obtain ⟨tokens, e, hscan, hreads, hunique, htests, htruth⟩ :=
    render_reads_back hc (by decide) 0
  exact ⟨c, tokens, e, hc, hscan, hreads, hunique, htests, htruth⟩

end Sql

end SchemaQuery
