import SchemaQuery.Proofs.Sql.Tokens

/-!
# The grammar of conditions

A search condition is read by precedence: tests bind tighter than `NOT`, `NOT` tighter than
`AND`, and `AND` tighter than `OR`; the `AND` that follows a `BETWEEN` belongs to it.  As in
the grammar of the SQL standard every level is a category of its own, so that precedence needs
no rule besides.

A column is written with its qualifier, and the word before a point is a qualifier whatever
the word is.  A column or a placeholder alone is a test as well, so that nothing but the
grammar keeps the bounds of a range from being read as conditions.

The grammar is left recursive and says nothing of how a text is read.  That it has no two
readings for one text (`Reads.unique`) is shown by way of `Parses`, the run of a parser from
left to right: every reading is such a run, whatever follows it (`Reads.parsed`), and the runs
are determined by their input (`Parses.deterministic`).

## Main definitions

* `Test`, `Expr` - what is read.
* `Reads` - the grammar.
* `Parses` - reading from left to right.

## Main statements

* `Reads.unique` - **a condition has one reading.**
-/

namespace SchemaQuery.Sql

/-! ## What is read -/

/-- A column or a placeholder. -/
inductive Operand where
  | column (qualifier name : String)
  | placeholder (number : Nat)
  deriving DecidableEq, Repr

/-- What a test says about its operand. -/
inductive Check where
  /-- The operand itself holds. -/
  | holds
  | isNull
  | isNotNull
  | compare (op : Comparator) (other : Operand)
  | any (op : Comparator) (collection : Operand)
  | all (op : Comparator) (collection : Operand)
  | between (low high : Operand)
  deriving DecidableEq, Repr

/-- A condition without connectives. -/
structure Test where
  operand : Operand
  check : Check
  deriving DecidableEq, Repr

/-- The connectives of two conditions. -/
inductive Junction where
  | and
  | or
  deriving DecidableEq, Repr

/-- A condition. -/
inductive Expr where
  | test (t : Test)
  | not (e : Expr)
  | join (j : Junction) (left right : Expr)
  deriving DecidableEq, Repr

/-- The tests of a condition from left to right. -/
def Expr.tests : Expr → List Test
  | .test t => [t]
  | .not e => e.tests
  | .join _ left right => left.tests ++ right.tests

/-! ## The grammar -/

/-- The tokens of an operand. -/
def Operand.tokens : Operand → List Token
  | .column qualifier name => [.word qualifier, .point, .word name]
  | .placeholder number => [.placeholder number]

/-- The token of a comparison. -/
def Comparator.token : Comparator → Token
  | .like => .word "LIKE"
  | .ilike => .word "ILIKE"
  | op => .operator op.text

/-- The tokens that a test has after its operand. -/
def Check.tokens : Check → List Token
  | .holds => []
  | .isNull => [.word "IS", .word "NULL"]
  | .isNotNull => [.word "IS", .word "NOT", .word "NULL"]
  | .compare op other => op.token :: other.tokens
  | .any op collection => op.token :: .word "ANY" :: .opening :: (collection.tokens ++ [.closing])
  | .all op collection => op.token :: .word "ALL" :: .opening :: (collection.tokens ++ [.closing])
  | .between low high => .word "BETWEEN" :: (low.tokens ++ .word "AND" :: high.tokens)

/-- The tokens of a test. -/
def Test.tokens (t : Test) : List Token := t.operand.tokens ++ t.check.tokens

/-- The token of a connective. -/
def Junction.token : Junction → Token
  | .and => .word "AND"
  | .or => .word "OR"

/-- The categories of conditions, from the one that binds tightest. -/
inductive Rank where
  /-- A test or a condition in parentheses. -/
  | primary
  /-- A primary under any number of negations. -/
  | factor
  /-- Conditions joined by one connective. -/
  | chain (j : Junction)
  deriving DecidableEq, Repr

/-- The category of all conditions. -/
abbrev Rank.condition : Rank := .chain .or

/-- What a connective joins: `AND` joins factors, and `OR` what is joined by `AND`. -/
def Junction.below : Junction → Rank
  | .and => .factor
  | .or => .chain .and

/-- **The grammar of conditions**: a list of tokens can be read as a condition of a
category. -/
inductive Reads : Rank → List Token → Expr → Prop where
  | test (t : Test) : Reads .primary t.tokens (.test t)
  | group {ts : List Token} {e : Expr} (inner : Reads .condition ts e) :
      Reads .primary (.opening :: (ts ++ [.closing])) e
  | primary {ts : List Token} {e : Expr} (inner : Reads .primary ts e) : Reads .factor ts e
  | not {ts : List Token} {e : Expr} (inner : Reads .factor ts e) :
      Reads .factor (.word "NOT" :: ts) (.not e)
  | single {j : Junction} {ts : List Token} {e : Expr} (inner : Reads j.below ts e) :
      Reads (.chain j) ts e
  | join {j : Junction} {ts us : List Token} {e e' : Expr} (left : Reads (.chain j) ts e)
      (right : Reads j.below us e') : Reads (.chain j) (ts ++ j.token :: us) (.join j e e')

/-! ## Tests are told apart by their tokens -/

/-- What may follow a test: anything that a test could not go on with. -/
def Follows (rest : List Token) : Prop :=
  ∀ t ∈ rest.head?, ∀ check : Check, t ∉ check.tokens.head?

/-- Operands are told apart by their tokens, whatever follows. -/
@[simp] theorem Operand.append_inj {o o' : Operand} {rest rest' : List Token} :
    o.tokens ++ rest = o'.tokens ++ rest' ↔ o = o' ∧ rest = rest' := by
  cases o <;> cases o' <;> simp [tokens, and_assoc]

/-- No operand begins like a test of a collection. -/
@[simp] theorem Operand.append_ne {o : Operand} {s : String} {rest rest' : List Token} :
    o.tokens ++ rest ≠ .word s :: .opening :: rest' := by
  cases o <;> simp [tokens]

@[simp] theorem Comparator.token_inj {op op' : Comparator} :
    op.token = op'.token ↔ op = op' := by
  cases op <;> cases op' <;> decide

/-- The only words that compare are those for patterns. -/
theorem Comparator.token_ne_word {op : Comparator} {s : String} (hlike : s ≠ "LIKE")
    (hilike : s ≠ "ILIKE") : op.token ≠ .word s := by
  cases op <;> simp [token, hlike.symm, hilike.symm]

/-- The words that go on with a test are those of the null tests, of ranges and of patterns. -/
theorem Check.word_notMem_head? {s : String} (h : s ∉ ["IS", "BETWEEN", "LIKE", "ILIKE"])
    (check : Check) : Token.word s ∉ check.tokens.head? := by
  simp only [List.mem_cons, List.not_mem_nil, or_false, not_or] at h
  obtain ⟨his, hbetween, hlike, hilike⟩ := h
  have hop (op : Comparator) : op.token ≠ .word s := Comparator.token_ne_word hlike hilike
  cases check <;> simp [tokens, hop, Ne.symm his, Ne.symm hbetween]

theorem follows_word {s : String} (h : s ∉ ["IS", "BETWEEN", "LIKE", "ILIKE"]) (rest : List Token) :
    Follows (.word s :: rest) := by
  intro t ht check
  obtain rfl : Token.word s = t := Option.some.inj ht
  exact check.word_notMem_head? h

theorem follows_closing (rest : List Token) : Follows (.closing :: rest) := by
  intro t ht check
  obtain rfl : Token.closing = t := Option.some.inj ht
  cases check with
  | compare op o | any op o | all op o => cases op <;> nofun
  | holds | isNull | isNotNull | between low high => nofun

theorem follows_token (j : Junction) (rest : List Token) : Follows (j.token :: rest) := by
  cases j with
  | and => exact follows_word (by decide) rest
  | or => exact follows_word (by decide) rest

theorem follows_nil : Follows [] := nofun

/-- Where a test may end, it does not go on. -/
theorem Check.eq_holds_of_follows {c : Check} {rest : List Token}
    (h : Follows (c.tokens ++ rest)) : c = .holds := by
  cases htokens : c.tokens with
  | nil => cases c <;> first | rfl | cases htokens
  | cons t ts =>
      rw [htokens] at h
      exact absurd (by rw [htokens]; rfl) (h t rfl c)

/-- **What a test says is told by its tokens**, if a test may end after them. -/
theorem Check.append_inj {c c' : Check} {rest rest' : List Token} (hrest : Follows rest)
    (hrest' : Follows rest') (h : c.tokens ++ rest = c'.tokens ++ rest') :
    c = c' ∧ rest = rest' := by
  have his (op : Comparator) : op.token ≠ .word "IS" :=
    Comparator.token_ne_word (by decide) (by decide)
  have hbetween (op : Comparator) : op.token ≠ .word "BETWEEN" :=
    Comparator.token_ne_word (by decide) (by decide)
  by_cases hc : c = .holds
  · subst hc
    have hfollows : Follows (c'.tokens ++ rest') := by
      rw [← h]
      exact hrest
    obtain rfl := eq_holds_of_follows hfollows
    exact ⟨rfl, h⟩
  by_cases hc' : c' = .holds
  · subst hc'
    have hfollows : Follows (c.tokens ++ rest) := by
      rw [h]
      exact hrest'
    exact absurd (eq_holds_of_follows hfollows) hc
  -- what is left begins with different tokens or goes on with different operands
  cases c <;> cases c' <;> simp_all [tokens, eq_comm]

/-- **Tests are told apart by their tokens**, if a test may end after them. -/
theorem Test.append_inj {t t' : Test} {rest rest' : List Token} (hrest : Follows rest)
    (hrest' : Follows rest') (h : t.tokens ++ rest = t'.tokens ++ rest') :
    t = t' ∧ rest = rest' := by
  obtain ⟨operand, check⟩ := t
  obtain ⟨operand', check'⟩ := t'
  rw [tokens, tokens, List.append_assoc, List.append_assoc, Operand.append_inj] at h
  obtain ⟨rfl, hcheck⟩ := h
  obtain ⟨rfl, hsame⟩ := Check.append_inj hrest hrest' hcheck
  exact ⟨rfl, hsame⟩

/-! ## Reading from left to right -/

/-- What a parser is reading: a condition of a category, or what is joined to a condition that
was read before. -/
inductive Phrase where
  | rank (r : Rank)
  | tail (j : Junction) (before : Expr)

/-- **A parser from left to right**: of a list of tokens a phrase is read as a condition, and
the rest is left. -/
inductive Parses : Phrase → List Token → Expr → List Token → Prop where
  | test {t : Test} {rest : List Token} (ends : Follows rest) :
      Parses (.rank .primary) (t.tokens ++ rest) (.test t) rest
  | group {ts rest : List Token} {e : Expr}
      (inner : Parses (.rank .condition) ts e (.closing :: rest)) :
      Parses (.rank .primary) (.opening :: ts) e rest
  | primary {ts rest : List Token} {e : Expr} (inner : Parses (.rank .primary) ts e rest) :
      Parses (.rank .factor) ts e rest
  | not {ts rest : List Token} {e : Expr} (inner : Parses (.rank .factor) ts e rest) :
      Parses (.rank .factor) (.word "NOT" :: ts) (.not e) rest
  | chain {j : Junction} {ts mid rest : List Token} {e e' : Expr}
      (first : Parses (.rank j.below) ts e mid) (more : Parses (.tail j e) mid e' rest) :
      Parses (.rank (.chain j)) ts e' rest
  | stop {j : Junction} {e : Expr} {rest : List Token} (ends : rest.head? ≠ some j.token) :
      Parses (.tail j e) rest e rest
  | more {j : Junction} {ts mid rest : List Token} {e e' e'' : Expr}
      (next : Parses (.rank j.below) ts e' mid)
      (more : Parses (.tail j (.join j e e')) mid e'' rest) :
      Parses (.tail j e) (j.token :: ts) e'' rest

/-- What may follow a condition of a category: no connective that binds tighter than the
category. -/
def Rank.Ends : Rank → List Token → Prop
  | .chain .or, rest => Follows rest ∧ rest.head? ≠ some Junction.and.token
  | _, rest => Follows rest

/-- A reading is a run of the parser whatever follows.  Joined conditions are followed by the
run that joins more to them. -/
def Parsed : Rank → List Token → Expr → Prop
  | .chain j, ts, e => ∀ rest e' rest', (Rank.chain j).Ends rest →
      Parses (.tail j e) rest e' rest' → Parses (.rank (.chain j)) (ts ++ rest) e' rest'
  | r, ts, e => ∀ rest, r.Ends rest → Parses (.rank r) (ts ++ rest) e rest

theorem Rank.ends_token (j : Junction) (rest : List Token) :
    (Rank.chain j).Ends (j.token :: rest) := by
  cases j with
  | and => exact follows_token .and rest
  | or => exact ⟨follows_token .or rest, by simp [Junction.token]⟩

theorem Rank.ends_closing (rest : List Token) : Rank.condition.Ends (.closing :: rest) :=
  ⟨follows_closing rest, by simp [Junction.token]⟩

/-- What a connective joins is read up to where the joined condition ends. -/
theorem Parsed.below {j : Junction} {ts rest : List Token} {e : Expr} (h : Parsed j.below ts e)
    (hrest : (Rank.chain j).Ends rest) : Parses (.rank j.below) (ts ++ rest) e rest := by
  cases j with
  | and => exact h rest hrest
  | or => exact h rest e rest hrest.1 (.stop hrest.2)

/-- **Every reading is a run of the parser.** -/
theorem Reads.parsed {r : Rank} {ts : List Token} {e : Expr} (h : Reads r ts e) :
    Parsed r ts e := by
  induction h with
  | test t =>
      intro rest hrest
      exact .test hrest
  | @group ts e _ ih =>
      intro rest hrest
      have hinner : Parses (.rank .condition) (ts ++ .closing :: rest) e (.closing :: rest) :=
        ih _ _ _ (Rank.ends_closing rest) (.stop (by simp [Junction.token]))
      rw [List.cons_append, List.append_assoc]
      exact .group hinner
  | primary _ ih =>
      intro rest hrest
      exact .primary (ih rest hrest)
  | not _ ih =>
      intro rest hrest
      exact .not (ih rest hrest)
  | single _ ih =>
      intro rest e' rest' hrest htail
      exact .chain (Parsed.below ih hrest) htail
  | @join j ts us e e' _ _ ihleft ihright =>
      intro rest e'' rest' hrest htail
      rw [List.append_assoc, List.cons_append]
      exact ihleft _ _ _ (Rank.ends_token j _) (.more (Parsed.below ihright hrest) htail)

/-! ## The run is determined -/

theorem Test.append_ne_opening {t : Test} {rest ts : List Token} :
    t.tokens ++ rest ≠ .opening :: ts := by
  obtain ⟨operand, check⟩ := t
  cases operand <;> simp [tokens, Operand.tokens]

/-- A test that begins with a word goes on with a point. -/
theorem Test.append_eq_word {t : Test} {rest ts : List Token} {s : String}
    (h : t.tokens ++ rest = .word s :: ts) : ∃ us, ts = .point :: us := by
  obtain ⟨operand, check⟩ := t
  cases operand with
  | column qualifier name => exact ⟨_, (List.cons_eq_cons.mp h).2.symm⟩
  | placeholder number => simp [tokens, Operand.tokens] at h

namespace Parses

/-- A primary is a test or a condition in parentheses. -/
theorem primary_cases {ts rest : List Token} {e : Expr}
    (h : Parses (.rank .primary) ts e rest) :
    (∃ t : Test, ts = t.tokens ++ rest ∧ e = .test t ∧ Follows rest) ∨
      ∃ us, ts = .opening :: us ∧ Parses (.rank .condition) us e (.closing :: rest) := by
  cases h with
  | test ends => exact .inl ⟨_, rfl, rfl, ends⟩
  | group inner => exact .inr ⟨_, rfl, inner⟩

/-- No factor begins with a point. -/
theorem not_factor_point {ts rest : List Token} {e : Expr} :
    ¬ Parses (.rank .factor) (.point :: ts) e rest := by
  intro h
  cases h with
  | primary inner =>
      rcases primary_cases inner with ⟨⟨operand, check⟩, hts, -, -⟩ | ⟨us, hts, -⟩
      · cases operand <;> simp [Test.tokens, Operand.tokens] at hts
      · cases hts

/-- A primary that begins with `NOT` is no negation, since there the word is a qualifier. -/
theorem not_primary_of_factor {ts rest rest' : List Token} {e e' : Expr}
    (h : Parses (.rank .factor) ts e rest) :
    ¬ Parses (.rank .primary) (.word "NOT" :: ts) e' rest' := by
  intro hprimary
  rcases primary_cases hprimary with ⟨t, hts, -, -⟩ | ⟨us, hts, -⟩
  · obtain ⟨us, rfl⟩ := Test.append_eq_word hts.symm
    exact not_factor_point h
  · cases hts

/-- **A parser has one run.** -/
theorem deterministic {p : Phrase} {ts rest : List Token} {e : Expr} (h : Parses p ts e rest) :
    ∀ {e' : Expr} {rest' : List Token}, Parses p ts e' rest' → e = e' ∧ rest = rest' := by
  induction h with
  | @test t rest ends =>
      intro e' rest' h'
      rcases primary_cases h' with ⟨t', hts, rfl, ends'⟩ | ⟨us, hts, -⟩
      · obtain ⟨rfl, rfl⟩ := Test.append_inj ends ends' hts
        exact ⟨rfl, rfl⟩
      · exact absurd hts Test.append_ne_opening
  | @group ts rest e _ ih =>
      intro e' rest' h'
      rcases primary_cases h' with ⟨t', hts, -, -⟩ | ⟨us, hts, hinner⟩
      · exact absurd hts.symm Test.append_ne_opening
      · obtain ⟨-, rfl⟩ := List.cons_eq_cons.mp hts
        obtain ⟨rfl, hrest⟩ := ih hinner
        exact ⟨rfl, (List.cons_eq_cons.mp hrest).2⟩
  | primary inner ih =>
      intro e' rest' h'
      cases h' with
      | primary inner' => exact ih inner'
      | not inner' => exact absurd inner (not_primary_of_factor inner')
  | not inner ih =>
      intro e' rest' h'
      cases h' with
      | primary inner' => exact absurd inner' (not_primary_of_factor inner)
      | not inner' =>
          obtain ⟨rfl, rfl⟩ := ih inner'
          exact ⟨rfl, rfl⟩
  | chain _ _ ihfirst ihmore =>
      intro e' rest' h'
      cases h' with
      | chain first' more' =>
          obtain ⟨rfl, rfl⟩ := ihfirst first'
          exact ihmore more'
  | stop ends =>
      intro e' rest' h'
      cases h' with
      | stop _ => exact ⟨rfl, rfl⟩
      | more _ _ => exact absurd rfl ends
  | more _ _ ihnext ihmore =>
      intro e' rest' h'
      cases h' with
      | stop ends => exact absurd rfl ends
      | more next' more' =>
          obtain ⟨rfl, rfl⟩ := ihnext next'
          exact ihmore more'

end Parses

/-- What may follow a condition as a whole: no connective either. -/
def EndsCondition (rest : List Token) : Prop :=
  Follows rest ∧ ∀ j : Junction, rest.head? ≠ some j.token

/-- **Conditions are told apart by their tokens**, if a condition may end after them. -/
theorem Reads.append_inj {ts ts' rest rest' : List Token} {e e' : Expr}
    (h : Reads .condition ts e) (h' : Reads .condition ts' e') (hrest : EndsCondition rest)
    (hrest' : EndsCondition rest') (heq : ts ++ rest = ts' ++ rest') : e = e' ∧ rest = rest' := by
  have hrun {ts rest : List Token} {e : Expr} (h : Reads .condition ts e)
      (hrest : EndsCondition rest) : Parses (.rank .condition) (ts ++ rest) e rest :=
    h.parsed rest e rest ⟨hrest.1, hrest.2 .and⟩ (.stop (hrest.2 .or))
  have hparses := hrun h hrest
  rw [heq] at hparses
  exact hparses.deterministic (hrun h' hrest')

/-- **A condition has one reading.** -/
theorem Reads.unique {ts : List Token} {e e' : Expr} (h : Reads .condition ts e)
    (h' : Reads .condition ts e') : e = e' := by
  have hends : EndsCondition [] := ⟨follows_nil, nofun⟩
  exact (h.append_inj h' hends hends rfl).1

end SchemaQuery.Sql
