import SchemaQuery.Proofs.Sql.Grammar

/-!
# The grammar of statements

A statement is a selection from one table: what is selected, the table and its alias, a
condition, a grouping, an order, and the places of the limit and the offset.  A condition
brings its own grammar (`Reads`); beside it there are only names, keywords and three more
signs.

A name may be spelled like a keyword, and still nothing is confused, since every name stands
where no keyword can: before or after a point, after `AS`, after the table, or before a
direction.  A statement is therefore read from left to right with one lexeme of look-ahead,
and every lemma of uniqueness here is about what is left to read.

## Main definitions

* `Lexeme`, `lex` - the tokens of conditions and the other signs, and those of a text.
* `Select` - a statement as it is read.
* `Selects` - the grammar.

## Main statements

* `lex_append`, `lex_intercalate` - lexemes of a text from those of its parts.
* `Selects.unique` - **a statement has one reading.**
-/

namespace SchemaQuery.Sql

/-! ## Lexemes -/

/-- A token of a condition, or a sign that stands between the parts of a statement. -/
inductive Lexeme where
  | token (t : Token)
  | comma
  | star
  | semicolon
  deriving DecidableEq, Repr

/-- The lexeme of a run of characters, none for a space. -/
def lexemeOfRun : List Char → Option (List Lexeme)
  | [','] => some [.comma]
  | ['*'] => some [.star]
  | [';'] => some [.semicolon]
  | run => (tokenOfRun run).map (·.map .token)

/-- The lexemes of a text, if it falls into lexemes. -/
def lex (s : String) : Option (List Lexeme) := cut lexemeOfRun s

theorem lexemeOfRun_of_token {run : List Char} {ts : List Token} (h : tokenOfRun run = some ts) :
    lexemeOfRun run = some (ts.map .token) := by
  unfold lexemeOfRun
  split
  -- the signs of statements are no tokens of conditions
  · cases h
  · cases h
  · cases h
  · rw [h, Option.map_some]

/-- What falls into tokens falls into the same lexemes. -/
theorem lex_of_scan {s : String} {ts : List Token} (h : scan s = some ts) :
    lex s = some (ts.map .token) := by
  obtain ⟨tss, htss, rfl⟩ := Option.map_eq_some_iff.mp h
  have hruns : ∀ {runs : List (List Char)} {tss : List (List Token)},
      runs.mapM tokenOfRun = some tss →
        runs.mapM lexemeOfRun = some (tss.map (·.map .token)) := by
    intro runs
    induction runs with
    | nil =>
        intro tss h
        obtain rfl := Option.some.inj h
        rfl
    | cons run rest ih =>
        intro tss h
        simp only [List.mapM_cons, Option.bind_eq_bind, Option.bind_eq_some_iff] at h ⊢
        obtain ⟨ts, hrun, tss, hrest, htss⟩ := h
        obtain rfl := Option.some.inj htss
        exact ⟨_, lexemeOfRun_of_token hrun, _, ih hrest, rfl⟩
  rw [lex, cut, hruns htss, Option.map_some, List.map_flatten]

/-- The lexemes of two texts are those of the one and then those of the other. -/
theorem lex_append {s t : String} {xs ys : List Lexeme} (hs : lex s = some xs)
    (ht : lex t = some ys) (hapart : Apart s t) : lex (s ++ t) = some (xs ++ ys) :=
  cut_append hs ht hapart

/-- A text that begins with a sign may stand after any other. -/
theorem lex_before {s t : String} {xs ys : List Lexeme} (hs : lex s = some xs)
    (ht : lex t = some ys) (hhead : LoneHead t) : lex (s ++ t) = some (xs ++ ys) :=
  lex_append hs ht hhead.apart

/-- A text that ends with a sign may stand before any other. -/
theorem lex_after {s t : String} {xs ys : List Lexeme} (hs : lex s = some xs)
    (hlast : LoneLast s) (ht : lex t = some ys) : lex (s ++ t) = some (xs ++ ys) :=
  lex_append hs ht hlast.apart

theorem lex_separated {s t u : String} {xs ms ys : List Lexeme} (hs : lex s = some xs)
    (ht : lex t = some ms) (hu : lex u = some ys) (hsep : Separates t) :
    lex (s ++ t ++ u) = some (xs ++ ms ++ ys) :=
  cut_separated hs ht hu hsep

/-- **Texts that are separated are cut one by one.** -/
theorem lex_intercalate {sep : String} {ms : List Lexeme} {items : List String}
    {parts : List (List Lexeme)} (hlex : lex sep = some ms) (hsep : Separates sep)
    (h : List.Forall₂ (fun s xs => lex s = some xs) items parts) :
    lex (sep.intercalate items) = some (ms.intercalate parts) := by
  induction h with
  | nil => rfl
  | @cons s xs items parts hs hrest ih =>
      cases hrest with
      | nil => rwa [String.intercalate_singleton, List.intercalate_singleton]
      | cons ht hrest =>
          rw [String.intercalate_cons_cons, List.intercalate_cons_cons]
          exact lex_separated hs hlex ih hsep

/-! ## What is read -/

/-- A column with its qualifier. -/
structure Reference where
  qualifier : String
  name : String
  deriving DecidableEq, Repr

/-- An item of a select list. -/
inductive Item where
  | column (c : Reference) (label : Option String)
  /-- A function of a column or, without one, of the rows. -/
  | aggregate (function : AggregateFunction) (argument : Option Reference) (label : String)
  deriving DecidableEq, Repr

/-- What an order goes by. -/
inductive Key where
  | column (c : Reference)
  | label (name : String)
  deriving DecidableEq, Repr

/-- A selection from one table. -/
structure Select where
  /-- What is selected; everything if there is nothing in particular. -/
  items : List Item
  table : TableName
  tableAlias : String
  condition : Option Expr
  groupBy : List Reference
  orderBy : List (Key × Direction)
  /-- The numbers of the placeholders for the limit and the offset. -/
  limit : Nat
  offset : Nat

/-! ## The grammar -/

/-- A word as a lexeme. -/
abbrev word (s : String) : Lexeme := .token (.word s)

/-- The lexemes of a column. -/
def Reference.lexemes (c : Reference) : List Lexeme :=
  [word c.qualifier, .token .point, word c.name]

/-- The lexemes of an item of a select list. -/
def Item.lexemes : Item → List Lexeme
  | .column c none => c.lexemes
  | .column c (some label) => c.lexemes ++ [word "AS", word label]
  | .aggregate function (some c) label =>
    [word function.sql, .token .opening] ++ c.lexemes
      ++ [.token .closing, word "AS", word label]
  | .aggregate function none label =>
    [word function.sql, .token .opening, .star, .token .closing, word "AS", word label]

/-- The lexemes of what an order goes by. -/
def Key.lexemes : Key → List Lexeme
  | .column c => c.lexemes
  | .label name => [word name]

/-- The lexemes of an item of an order list. -/
def orderLexemes (item : Key × Direction) : List Lexeme :=
  item.1.lexemes ++ [word item.2.sql]

/-- The lexemes of a table. -/
def tableLexemes (name : TableName) : List Lexeme :=
  match name.schema with
  | some schema => [word schema.text, .token .point, word name.table.text]
  | none => [word name.table.text]

/-- Parts with commas between them. -/
def separated (parts : List (List Lexeme)) : List Lexeme := [.comma].intercalate parts

/-- The lexemes of a select list; a star stands for the empty one. -/
def itemsLexemes (items : List Item) : List Lexeme :=
  if items = [] then [.star] else separated (items.map Item.lexemes)

/-- The lexemes of a clause with a list, none for the empty one. -/
def clauseLexemes (keyword : String) (parts : List (List Lexeme)) : List Lexeme :=
  if parts = [] then [] else word keyword :: word "BY" :: separated parts

/-- The lexemes that end a statement: the limit, the offset and a semicolon. -/
def Select.limitLexemes (s : Select) : List Lexeme :=
  [word "LIMIT", .token (.placeholder s.limit), word "OFFSET", .token (.placeholder s.offset),
    .semicolon]

/-- The lexemes of a statement from the order on. -/
def Select.fromOrder (s : Select) : List Lexeme :=
  clauseLexemes "ORDER" (s.orderBy.map orderLexemes) ++ s.limitLexemes

/-- The lexemes of a statement from the grouping on. -/
def Select.fromGroup (s : Select) : List Lexeme :=
  clauseLexemes "GROUP" (s.groupBy.map Reference.lexemes) ++ s.fromOrder

/-- The lexemes of a statement, given those of its condition clause. -/
def Select.lexemes (s : Select) (conditionClause : List Lexeme) : List Lexeme :=
  word "SELECT" :: (itemsLexemes s.items ++ word "FROM" :: (tableLexemes s.table
    ++ word s.tableAlias :: (conditionClause ++ s.fromGroup)))

/-- The grammar of the clause of a condition, which is left out where there is none. -/
inductive ReadsClause : List Lexeme → Option Expr → Prop where
  | absent : ReadsClause [] none
  | given {ts : List Token} {e : Expr} (h : Reads .condition ts e) :
      ReadsClause (word "WHERE" :: ts.map .token) (some e)

/-- **The grammar of statements**: a list of lexemes can be read as a statement. -/
inductive Selects : List Lexeme → Select → Prop where
  | select (s : Select) {conditionClause : List Lexeme}
      (h : ReadsClause conditionClause s.condition) : Selects (s.lexemes conditionClause) s

/-! ## Items are told apart from the left -/

/-- What may follow an item of a list: anything but a label. -/
def Unlabelled (rest : List Lexeme) : Prop := rest.head? ≠ some (word "AS")

@[simp] theorem Reference.append_inj {c d : Reference} {rest rest' : List Lexeme} :
    c.lexemes ++ rest = d.lexemes ++ rest' ↔ c = d ∧ rest = rest' := by
  obtain ⟨qualifier, name⟩ := c
  obtain ⟨qualifier', name'⟩ := d
  simp [lexemes, and_assoc]

/-- A point follows the first word of a column. -/
theorem Reference.append_ne {c : Reference} {s : String} {x : Lexeme} {rest rest' : List Lexeme}
    (hx : x ≠ .token .point) : c.lexemes ++ rest ≠ word s :: x :: rest' := by
  intro h
  obtain ⟨-, htail⟩ := List.cons_eq_cons.mp h
  exact hx (List.cons_eq_cons.mp htail).1.symm

/-- No item of a column begins like one of an aggregate. -/
theorem Item.column_append_ne {c : Reference} {f : AggregateFunction}
    {label : Option String} {argument : Option Reference} {label' : String}
    {rest rest' : List Lexeme} :
    (column c label).lexemes ++ rest ≠ (aggregate f argument label').lexemes ++ rest' := by
  have hne {us vs : List Lexeme} : c.lexemes ++ us ≠ word f.sql :: .token .opening :: vs :=
    Reference.append_ne (by decide)
  cases label <;> cases argument <;> simp [lexemes, hne]

/-- **Items of a select list are told apart by their lexemes**, where no label follows. -/
theorem Item.append_inj {x y : Item} {rest rest' : List Lexeme} (hrest : Unlabelled rest)
    (hrest' : Unlabelled rest') (h : x.lexemes ++ rest = y.lexemes ++ rest') :
    x = y ∧ rest = rest' := by
  match x, y with
  | .column c none, .column d none => simpa [lexemes] using h
  | .column c none, .column d (some label) =>
      rw [lexemes, lexemes, List.append_assoc, Reference.append_inj] at h
      exact absurd (by rw [h.2]; rfl) hrest
  | .column c (some label), .column d none =>
      rw [lexemes, lexemes, List.append_assoc, Reference.append_inj] at h
      exact absurd (by rw [← h.2]; rfl) hrest'
  | .column c (some label), .column d (some label') => simpa [lexemes, and_assoc] using h
  | .column .., .aggregate .. => exact absurd h column_append_ne
  | .aggregate .., .column .. => exact absurd h.symm column_append_ne
  | .aggregate f none label, .aggregate g none label' =>
      simpa [lexemes, AggregateFunction.sql_inj, and_assoc] using h
  | .aggregate f none label, .aggregate g (some c) label' =>
      simp [lexemes, Reference.lexemes] at h
  | .aggregate f (some c) label, .aggregate g none label' =>
      simp [lexemes, Reference.lexemes] at h
  | .aggregate f (some c) label, .aggregate g (some d) label' =>
      simpa [lexemes, AggregateFunction.sql_inj, and_assoc] using h

/-- Items of an order list are told apart by their lexemes, whatever follows. -/
theorem orderLexemes_append_inj {x y : Key × Direction} {rest rest' : List Lexeme}
    (h : orderLexemes x ++ rest = orderLexemes y ++ rest') : x = y ∧ rest = rest' := by
  obtain ⟨key, direction⟩ := x
  obtain ⟨key', direction'⟩ := y
  -- a direction follows a label, and no direction is a point
  have hne {c : Reference} {name word' : String} {us vs : List Lexeme} :
      c.lexemes ++ us ≠ word name :: word word' :: vs := Reference.append_ne nofun
  cases key <;> cases key' <;>
    simp_all [orderLexemes, Key.lexemes, Direction.sql_inj, hne.symm]

theorem tableLexemes_append_inj {x y : TableName} {s t : String} {rest rest' : List Lexeme}
    (h : tableLexemes x ++ word s :: rest = tableLexemes y ++ word t :: rest') :
    x = y ∧ word s :: rest = word t :: rest' := by
  obtain ⟨schema, table⟩ := x
  obtain ⟨schema', table'⟩ := y
  have htext {i j : Identifier} : i.text = j.text ↔ i = j := by
    rw [← Identifier.ofText?_eq_some_iff, Identifier.ofText?_eq_some_iff.mpr rfl, Option.some.injEq,
      eq_comm]
  cases schema <;> cases schema' <;> simp_all [tableLexemes]

/-! ## Lists are told apart from the left -/

/-- What may follow a list of items: no label and no further item. -/
def Closes (rest : List Lexeme) : Prop := Unlabelled rest ∧ rest.head? ≠ some .comma

section Lists

variable {α : Type} {lexemes : α → List Lexeme}

/-- **Lists with commas are told apart item by item**, if the items are. -/
theorem separated_append_inj
    (hitem : ∀ {x y : α} {rest rest' : List Lexeme}, Unlabelled rest → Unlabelled rest' →
      lexemes x ++ rest = lexemes y ++ rest' → x = y ∧ rest = rest')
    {x y : α} {xs ys : List α} {rest rest' : List Lexeme} (hrest : Closes rest)
    (hrest' : Closes rest')
    (h : separated ((x :: xs).map lexemes) ++ rest = separated ((y :: ys).map lexemes) ++ rest') :
    x :: xs = y :: ys ∧ rest = rest' := by
  have hcons {z next : α} {zs : List α} {rest : List Lexeme} :
      separated ((z :: next :: zs).map lexemes) ++ rest
        = lexemes z ++ .comma :: (separated ((next :: zs).map lexemes) ++ rest) := by
    simp [separated, List.intercalate_cons_cons]
  have hsingle {z : α} {rest : List Lexeme} :
      separated ([z].map lexemes) ++ rest = lexemes z ++ rest := by
    simp [separated]
  have hcomma {rest : List Lexeme} : Unlabelled (.comma :: rest) := nofun
  induction xs generalizing x y ys with
  | nil =>
      cases ys with
      | nil =>
          rw [hsingle, hsingle] at h
          obtain ⟨rfl, hsame⟩ := hitem hrest.1 hrest'.1 h
          exact ⟨rfl, hsame⟩
      | cons next ys =>
          rw [hsingle, hcons] at h
          obtain ⟨-, hsame⟩ := hitem hrest.1 hcomma h
          exact absurd (by rw [hsame]; rfl) hrest.2
  | cons next xs ih =>
      cases ys with
      | nil =>
          rw [hcons, hsingle] at h
          obtain ⟨-, hsame⟩ := hitem hcomma hrest'.1 h
          exact absurd (by rw [← hsame]; rfl) hrest'.2
      | cons next' ys =>
          rw [hcons, hcons] at h
          obtain ⟨rfl, hmore⟩ := hitem hcomma hcomma h
          obtain ⟨hlist, hsame⟩ := ih (List.cons_eq_cons.mp hmore).2
          exact ⟨congrArg (x :: ·) hlist, hsame⟩

/-- Clauses with lists are told apart, if what follows does not begin with their keyword. -/
theorem clauseLexemes_append_inj {keyword : String}
    (hitem : ∀ {x y : α} {rest rest' : List Lexeme}, Unlabelled rest → Unlabelled rest' →
      lexemes x ++ rest = lexemes y ++ rest' → x = y ∧ rest = rest')
    {xs ys : List α} {rest rest' : List Lexeme} (hrest : Closes rest) (hrest' : Closes rest')
    (hne : rest.head? ≠ some (word keyword)) (hne' : rest'.head? ≠ some (word keyword))
    (h : clauseLexemes keyword (xs.map lexemes) ++ rest
      = clauseLexemes keyword (ys.map lexemes) ++ rest') : xs = ys ∧ rest = rest' := by
  cases xs with
  | nil =>
      cases ys with
      | nil => exact ⟨rfl, h⟩
      | cons y ys => exact absurd (by rw [show rest = _ from h]; rfl) hne
  | cons x xs =>
      cases ys with
      | nil => exact absurd (by rw [← show _ = rest' from h]; rfl) hne'
      | cons y ys =>
          have hlists : separated ((x :: xs).map lexemes) ++ rest
              = separated ((y :: ys).map lexemes) ++ rest' :=
            (List.cons_eq_cons.mp (List.cons_eq_cons.mp h).2).2
          exact separated_append_inj hitem hrest hrest' hlists

end Lists

/-! ## The clause of a condition -/

/-- The tokens that a list of lexemes begins with. -/
def leadingTokens : List Lexeme → List Token
  | .token t :: rest => t :: leadingTokens rest
  | _ => []

theorem leadingTokens_append (ts : List Token) (rest : List Lexeme) :
    leadingTokens (ts.map .token ++ rest) = ts ++ leadingTokens rest := by
  induction ts with
  | nil => rfl
  | cons t ts ih => exact congrArg (t :: ·) ih

/-- A statement goes on with a grouping, an order or a limit. -/
def BeginsClause (rest : List Lexeme) : Prop :=
  ∃ keyword ∈ ["GROUP", "ORDER", "LIMIT"], rest.head? = some (word keyword)

theorem BeginsClause.head?_ne {rest : List Lexeme} (h : BeginsClause rest) {x : Lexeme}
    (hx : ∀ keyword ∈ ["GROUP", "ORDER", "LIMIT"], x ≠ word keyword) : rest.head? ≠ some x := by
  obtain ⟨keyword, hkeyword, hhead⟩ := h
  intro hsame
  exact hx keyword hkeyword (Option.some.inj (hsame.symm.trans hhead))

theorem BeginsClause.closes {rest : List Lexeme} (h : BeginsClause rest) : Closes rest :=
  ⟨h.head?_ne (by decide), h.head?_ne (by decide)⟩

/-- No condition goes on with a clause. -/
theorem BeginsClause.endsCondition {rest : List Lexeme} (h : BeginsClause rest) :
    EndsCondition (leadingTokens rest) := by
  obtain ⟨keyword, hkeyword, hhead⟩ := h
  obtain ⟨tail, rfl⟩ : ∃ tail, rest = word keyword :: tail := by
    cases rest with
    | nil => cases hhead
    | cons x tail => exact ⟨tail, by rw [Option.some.inj hhead]⟩
  have hwords : ∀ k ∈ ["GROUP", "ORDER", "LIMIT"], k ∉ ["IS", "BETWEEN", "LIKE", "ILIKE"] := by
    decide
  have hjunctions : ∀ k ∈ ["GROUP", "ORDER", "LIMIT"], k ≠ "AND" ∧ k ≠ "OR" := by decide
  refine ⟨follows_word (hwords keyword hkeyword) _, fun j hj => ?_⟩
  have htoken : Token.word keyword = j.token := Option.some.inj hj
  cases j with
  | and => exact (hjunctions keyword hkeyword).1 (Token.word.inj htoken)
  | or => exact (hjunctions keyword hkeyword).2 (Token.word.inj htoken)

/-- **The clause of a condition is told by its lexemes**, where another clause follows: the
tokens up to there are the same for both readings, and a condition ends where no longer one
can. -/
theorem ReadsClause.append_inj {xs ys rest rest' : List Lexeme} {c d : Option Expr}
    (h : ReadsClause xs c) (h' : ReadsClause ys d) (hrest : BeginsClause rest)
    (hrest' : BeginsClause rest') (heq : xs ++ rest = ys ++ rest') : c = d ∧ rest = rest' := by
  have hwhere : ∀ keyword ∈ ["GROUP", "ORDER", "LIMIT"], word "WHERE" ≠ word keyword := by decide
  cases h with
  | absent =>
      cases h' with
      | absent => exact ⟨rfl, heq⟩
      | given _ => exact absurd (by rw [show rest = _ from heq]; rfl) (hrest.head?_ne hwhere)
  | @given ts e he =>
      cases h' with
      | absent => exact absurd (by rw [← show _ = rest' from heq]; rfl) (hrest'.head?_ne hwhere)
      | @given us d hd =>
          have hboth : ts.map .token ++ rest = us.map .token ++ rest' :=
            (List.cons_eq_cons.mp heq).2
          have htokens : ts ++ leadingTokens rest = us ++ leadingTokens rest' := by
            rw [← leadingTokens_append, ← leadingTokens_append, hboth]
          obtain ⟨rfl, hleading⟩ :=
            he.append_inj hd hrest.endsCondition hrest'.endsCondition htokens
          obtain rfl : ts = us := by
            rw [hleading] at htokens
            exact List.append_cancel_right htokens
          exact ⟨rfl, List.append_cancel_left hboth⟩

/-! ## Statements -/

theorem Select.beginsClause_limit (s : Select) : BeginsClause s.limitLexemes :=
  ⟨"LIMIT", by decide, rfl⟩

theorem Select.beginsClause_fromOrder (s : Select) : BeginsClause s.fromOrder := by
  unfold fromOrder clauseLexemes
  split
  · exact s.beginsClause_limit
  · exact ⟨"ORDER", by decide, rfl⟩

theorem Select.beginsClause_fromGroup (s : Select) : BeginsClause s.fromGroup := by
  unfold fromGroup clauseLexemes
  split
  · exact s.beginsClause_fromOrder
  · exact ⟨"GROUP", by decide, rfl⟩

theorem Select.fromOrder_ne_group (s : Select) : s.fromOrder.head? ≠ some (word "GROUP") := by
  unfold fromOrder clauseLexemes
  split <;> simp [limitLexemes]

theorem Item.exists_lexemes_eq_cons (x : Item) : ∃ s tail, x.lexemes = word s :: tail := by
  match x with
  | .column c none | .column c (some _) => exact ⟨c.qualifier, _, rfl⟩
  | .aggregate f none _ | .aggregate f (some _) _ => exact ⟨f.sql, _, rfl⟩

/-- **Select lists are told apart by their lexemes**; no item begins with a star. -/
theorem itemsLexemes_append_inj {xs ys : List Item} {rest rest' : List Lexeme}
    (hrest : Closes rest) (hrest' : Closes rest')
    (h : itemsLexemes xs ++ rest = itemsLexemes ys ++ rest') : xs = ys ∧ rest = rest' := by
  have hstar {x : Item} {xs : List Item} {us vs : List Lexeme} :
      .star :: us ≠ separated ((x :: xs).map Item.lexemes) ++ vs := by
    obtain ⟨s, tail, hx⟩ := x.exists_lexemes_eq_cons
    cases xs <;> simp [separated, List.intercalate_cons_cons, hx]
  cases xs with
  | nil =>
      cases ys with
      | nil => exact ⟨rfl, (List.cons_eq_cons.mp h).2⟩
      | cons y ys => exact absurd h hstar
  | cons x xs =>
      cases ys with
      | nil => exact absurd h.symm hstar
      | cons y ys => exact separated_append_inj Item.append_inj hrest hrest' h

theorem Selects.exists_clause {xs : List Lexeme} {s : Select} (h : Selects xs s) :
    ∃ clause, ReadsClause clause s.condition ∧ xs = s.lexemes clause := by
  cases h with
  | select s h => exact ⟨_, h, rfl⟩

/-- **A statement has one reading.** -/
theorem Selects.unique {xs : List Lexeme} {s t : Select} (h : Selects xs s) (h' : Selects xs t) :
    s = t := by
  obtain ⟨clause, hclause, rfl⟩ := h.exists_clause
  obtain ⟨clause', hclause', hsame⟩ := h'.exists_clause
  have hfrom (tail : List Lexeme) : Closes (word "FROM" :: tail) := ⟨by simp [Unlabelled], nofun⟩
  have horder (s : Select) : s.limitLexemes.head? ≠ some (word "ORDER") := by
    simp [Select.limitLexemes]
  -- the parts are told apart one after another, from the left
  obtain ⟨hitems, hfromTable⟩ := itemsLexemes_append_inj (hfrom _) (hfrom _)
    (List.cons_eq_cons.mp hsame).2
  obtain ⟨htable, hfromAlias⟩ := tableLexemes_append_inj (List.cons_eq_cons.mp hfromTable).2
  obtain ⟨halias, hfromCondition⟩ := List.cons_eq_cons.mp hfromAlias
  obtain ⟨hcondition, hfromGroup⟩ := hclause.append_inj hclause' s.beginsClause_fromGroup
    t.beginsClause_fromGroup hfromCondition
  obtain ⟨hgroupBy, hfromOrder⟩ := clauseLexemes_append_inj (fun _ _ => Reference.append_inj.mp)
    s.beginsClause_fromOrder.closes t.beginsClause_fromOrder.closes s.fromOrder_ne_group
    t.fromOrder_ne_group hfromGroup
  obtain ⟨horderBy, hlimit⟩ := clauseLexemes_append_inj (fun _ _ => orderLexemes_append_inj)
    s.beginsClause_limit.closes t.beginsClause_limit.closes (horder s) (horder t) hfromOrder
  obtain ⟨items, table, tableAlias, condition, groupBy, orderBy, limit, offset⟩ := s
  obtain ⟨items', table', tableAlias', condition', groupBy', orderBy', limit', offset'⟩ := t
  simp_all [Select.limitLexemes]

end SchemaQuery.Sql
