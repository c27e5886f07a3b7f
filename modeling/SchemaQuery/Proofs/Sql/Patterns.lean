import SchemaQuery.Proofs.Sql.Placeholders

/-!
# Patterns

A comparison with a part of a text is emitted as `LIKE` with a pattern: the text with
wildcards on its open sides.  Nothing in the text is escaped, so a text that has wildcards of
its own is not looked for as it stands.

Here `LIKE` is a relation between patterns and texts, and the comparison is held against the
literal test: the text stands at the start, at the end or anywhere.  Without special
characters both are the same.  With one they differ, and where they differ depends on how the
text is read as a pattern.

* If it ends in a lone backslash, the backslash quotes the wildcard behind it, or quotes
  nothing at all; then the text itself, with any letter behind it where that side is open, is
  not matched.
* Otherwise the pattern matches a text in which every wildcard is as short as it can be
  (`shortest?`).  It is not longer than the text of the comparison and differs from it, so
  that the text of the comparison does not stand in it.

## Main definitions

* `Matches` - a text matches a pattern.
* `Place`, `Place.Finds` - where a text is looked for, and the literal test.

## Main statements

* `matches_pattern_iff` - a text without special characters is found where it stands.
* `not_finds_of_shortest?`, `exists_finds_not_matches` - where a special character shows.
* `pattern_literal_iff` - **the emitted test is the literal one exactly for texts without
  special characters.**
-/

namespace SchemaQuery.Sql

open Json (Value)
open Plan (Leaf)

/-! ## Matching -/

/-- The characters that do not stand for themselves in a pattern. -/
def isSpecial (c : Char) : Bool := c = '%' || c = '_' || c = '\\'

/-- A text matches a pattern: `%` stands for any text, `_` for any character, and a backslash
makes the next character stand for itself.  Nothing matches a pattern that ends in a lone
backslash. -/
inductive Matches : List Char → List Char → Prop where
  | nil : Matches [] []
  | any {p s : List Char} (skipped : List Char) (rest : Matches p s) :
      Matches ('%' :: p) (skipped ++ s)
  | one {p s : List Char} (c : Char) (rest : Matches p s) : Matches ('_' :: p) (c :: s)
  | quoted {p s : List Char} (c : Char) (rest : Matches p s) : Matches ('\\' :: c :: p) (c :: s)
  | same {p s : List Char} {c : Char} (plain : isSpecial c = false) (rest : Matches p s) :
      Matches (c :: p) (c :: s)

theorem matches_nil_iff {s : List Char} : Matches [] s ↔ s = [] := by
  constructor
  · rintro ⟨⟩
    rfl
  · rintro rfl
    exact .nil

theorem matches_any_iff {p s : List Char} :
    Matches ('%' :: p) s ↔ ∃ skipped rest, s = skipped ++ rest ∧ Matches p rest := by
  constructor
  · intro h
    cases h with
    | any skipped rest => exact ⟨skipped, _, rfl, rest⟩
    | same plain _ => exact absurd plain (by decide)
  · rintro ⟨skipped, rest, rfl, hrest⟩
    exact .any skipped hrest

theorem matches_cons_iff {c : Char} {p s : List Char} (plain : isSpecial c = false) :
    Matches (c :: p) s ↔ ∃ rest, s = c :: rest ∧ Matches p rest := by
  constructor
  · intro h
    cases h with
    | same _ rest => exact ⟨_, rfl, rest⟩
    | any | one | quoted => exact absurd plain (by decide)
  · rintro ⟨rest, rfl, hrest⟩
    exact .same plain hrest

/-- A text without special characters matches itself, whatever follows. -/
theorem matches_append_iff {v p s : List Char} (plain : ∀ c ∈ v, isSpecial c = false) :
    Matches (v ++ p) s ↔ ∃ rest, s = v ++ rest ∧ Matches p rest := by
  induction v generalizing s with
  | nil => simp
  | cons c v ih =>
      obtain ⟨hc, hv⟩ := List.forall_mem_cons.mp plain
      rw [List.cons_append, matches_cons_iff hc]
      constructor
      · rintro ⟨t, rfl, ht⟩
        obtain ⟨rest, rfl, hrest⟩ := (ih hv).mp ht
        exact ⟨rest, rfl, hrest⟩
      · rintro ⟨rest, rfl, hrest⟩
        exact ⟨v ++ rest, rfl, (ih hv).mpr ⟨rest, rfl, hrest⟩⟩

/-! ## Where a text is looked for -/

/-- Where a text is looked for in another. -/
inductive Place where
  | atStart
  | atEnd
  | anywhere
  deriving DecidableEq, Repr

namespace Place

/-- The operator of a place. -/
def operator : Place → Operator
  | atStart => .startsWith
  | atEnd => .endsWith
  | anywhere => .contains

/-- The literal test: the first text stands in the second at a place. -/
def Finds (place : Place) (v s : List Char) : Prop :=
  match place with
  | atStart => v <+: s
  | atEnd => v <:+ s
  | anywhere => v <:+: s

/-- Whether something may stand before the text. -/
def opensBefore : Place → Bool
  | atStart => false
  | atEnd | anywhere => true

/-- Whether something may stand behind the text. -/
def opensBehind : Place → Bool
  | atEnd => false
  | atStart | anywhere => true

/-- A text stands at a place exactly when there is nothing on a side that is not open. -/
theorem finds_iff {place : Place} {v s : List Char} :
    place.Finds v s ↔ ∃ before behind, s = before ++ (v ++ behind) ∧
      (place.opensBefore = false → before = []) ∧ (place.opensBehind = false → behind = []) := by
  cases place with
  | atStart =>
      constructor
      · rintro ⟨behind, rfl⟩
        exact ⟨[], behind, rfl, fun _ => rfl, nofun⟩
      · rintro ⟨before, behind, rfl, hbefore, -⟩
        obtain rfl := hbefore rfl
        exact List.prefix_append v behind
  | atEnd =>
      constructor
      · rintro ⟨before, rfl⟩
        exact ⟨before, [], by rw [List.append_nil], nofun, fun _ => rfl⟩
      · rintro ⟨before, behind, rfl, -, hbehind⟩
        obtain rfl := hbehind rfl
        rw [List.append_nil]
        exact List.suffix_append before v
  | anywhere =>
      constructor
      · rintro ⟨before, behind, rfl⟩
        exact ⟨before, behind, List.append_assoc .., nofun, nofun⟩
      · rintro ⟨before, behind, rfl, -⟩
        exact ⟨before, behind, List.append_assoc ..⟩

end Place

/-- The wildcard of a side that is open. -/
def wildcard (isOpen : Bool) : List Char := if isOpen then ['%'] else []

/-- The pattern for a text at a place: wildcards on the open sides. -/
def Place.pattern (place : Place) (v : List Char) : List Char :=
  wildcard place.opensBefore ++ (v ++ wildcard place.opensBehind)

/-- The pattern that an operator makes of a text is that of its place. -/
theorem toList_wrap_operator (place : Place) (v : String) :
    (place.operator.wrap v).toList = place.pattern v.toList := by
  cases place <;> simp [Place.operator, Operator.wrap, Place.pattern, wildcard,
    Place.opensBefore, Place.opensBehind]

theorem matches_wildcard_append_iff {isOpen : Bool} {p s : List Char} :
    Matches (wildcard isOpen ++ p) s ↔
      ∃ before rest, s = before ++ rest ∧ (isOpen = false → before = []) ∧ Matches p rest := by
  cases isOpen with
  | false =>
      constructor
      · intro h
        exact ⟨[], s, rfl, fun _ => rfl, h⟩
      · rintro ⟨before, rest, rfl, hbefore, hrest⟩
        obtain rfl := hbefore rfl
        exact hrest
  | true =>
      rw [wildcard, if_pos rfl, List.singleton_append, matches_any_iff]
      simp

theorem matches_wildcard_iff {isOpen : Bool} {s : List Char} :
    Matches (wildcard isOpen) s ↔ (isOpen = false → s = []) := by
  rw [← List.append_nil (wildcard isOpen), matches_wildcard_append_iff]
  simp only [matches_nil_iff]
  constructor
  · rintro ⟨before, rest, rfl, hbefore, rfl⟩
    rwa [List.append_nil]
  · intro h
    exact ⟨s, [], (List.append_nil s).symm, h, rfl⟩

/-- **A text without special characters is found where it stands.** -/
theorem matches_pattern_iff {place : Place} {v s : List Char}
    (plain : ∀ c ∈ v, isSpecial c = false) : Matches (place.pattern v) s ↔ place.Finds v s := by
  simp only [Place.pattern, matches_wildcard_append_iff, matches_append_iff plain,
    matches_wildcard_iff, Place.finds_iff]
  constructor
  · rintro ⟨before, _, rfl, hbefore, behind, rfl, hbehind⟩
    exact ⟨before, behind, rfl, hbefore, hbehind⟩
  · rintro ⟨before, behind, rfl, hbefore, hbehind⟩
    exact ⟨before, v ++ behind, rfl, hbefore, behind, rfl, hbehind⟩

/-! ## Special characters -/

/-- A text as short as can be among those that match a pattern, with `a` for any one character.
There is none if the pattern ends in a lone backslash. -/
def shortest? : List Char → Option (List Char)
  | [] => some []
  | '%' :: p => shortest? p
  | '_' :: p => (shortest? p).map ('a' :: ·)
  | ['\\'] => none
  | '\\' :: c :: p => (shortest? p).map (c :: ·)
  | c :: p => (shortest? p).map (c :: ·)

/-- A character that is read in no special way stands for itself. -/
theorem isSpecial_eq_false {c : Char} {p : List Char} (any : c ≠ '%') (one : c ≠ '_')
    (lone : c = '\\' → p ≠ []) (quoted : ∀ d q, c = '\\' → p ≠ d :: q) : isSpecial c = false := by
  have hbackslash : c ≠ '\\' := by
    intro hc
    cases p with
    | nil => exact lone hc rfl
    | cons d q => exact quoted d q hc rfl
  simp [isSpecial, any, one, hbackslash]

/-- The shortest text of a pattern matches it, whatever follows. -/
theorem matches_shortest? {v s p t : List Char} (h : shortest? v = some s) (rest : Matches p t) :
    Matches (v ++ p) (s ++ t) := by
  fun_induction shortest? v generalizing s with
  | case1 =>
      obtain rfl := Option.some.inj h
      exact rest
  | case2 v ih => exact .any [] (ih h)
  | case3 v ih =>
      obtain ⟨s, hs, rfl⟩ := Option.map_eq_some_iff.mp h
      exact .one 'a' (ih hs)
  | case4 => cases h
  | case5 c v ih =>
      obtain ⟨s, hs, rfl⟩ := Option.map_eq_some_iff.mp h
      exact .quoted c (ih hs)
  | case6 c v any one lone quoted ih =>
      obtain ⟨s, hs, rfl⟩ := Option.map_eq_some_iff.mp h
      exact .same (isSpecial_eq_false any one lone quoted) (ih hs)

/-- The shortest text of a pattern is not longer than the pattern, and it is the pattern
itself only if every character there stands for itself. -/
theorem shortest?_spec {v s : List Char} (h : shortest? v = some s) :
    s.length ≤ v.length ∧ (s = v → ∀ c ∈ v, isSpecial c = false) := by
  fun_induction shortest? v generalizing s with
  | case1 =>
      obtain rfl := Option.some.inj h
      exact ⟨Nat.le_refl _, fun _ => List.forall_mem_nil _⟩
  | case2 v ih =>
      have hle : s.length ≤ v.length := (ih h).1
      refine ⟨Nat.le_succ_of_le hle, ?_⟩
      rintro rfl
      exact absurd hle (Nat.not_succ_le_self _)
  | case3 v ih =>
      obtain ⟨s, hs, rfl⟩ := Option.map_eq_some_iff.mp h
      refine ⟨Nat.succ_le_succ (ih hs).1, fun hsame => ?_⟩
      exact absurd (List.cons_eq_cons.mp hsame).1 (by decide)
  | case4 => cases h
  | case5 c v ih =>
      obtain ⟨s, hs, rfl⟩ := Option.map_eq_some_iff.mp h
      have hle : s.length ≤ v.length := (ih hs).1
      refine ⟨Nat.succ_le_succ (Nat.le_succ_of_le hle), fun hsame => ?_⟩
      rw [(List.cons_eq_cons.mp hsame).2] at hle
      exact absurd hle (Nat.not_succ_le_self _)
  | case6 c v any one lone quoted ih =>
      obtain ⟨s, hs, rfl⟩ := Option.map_eq_some_iff.mp h
      obtain ⟨hle, hplain⟩ := ih hs
      refine ⟨Nat.succ_le_succ hle, fun hsame => List.forall_mem_cons.mpr ⟨?_, ?_⟩⟩
      · exact isSpecial_eq_false any one lone quoted
      · exact hplain (List.cons_eq_cons.mp hsame).2

/-- **A special character shows in the shortest text of a pattern**: unless there is none, the
text of the pattern does not stand in it. -/
theorem not_finds_of_shortest? {v s : List Char} (h : shortest? v = some s)
    (special : ¬ ∀ c ∈ v, isSpecial c = false) (place : Place) : ¬ place.Finds v s := by
  intro hfinds
  obtain ⟨hle, hplain⟩ := shortest?_spec h
  obtain ⟨before, behind, hs, -⟩ := Place.finds_iff.mp hfinds
  have hlength := congrArg List.length hs
  simp only [List.length_append] at hlength
  have hbefore : before = [] := List.length_eq_zero_iff.mp (by omega)
  have hbehind : behind = [] := List.length_eq_zero_iff.mp (by omega)
  exact special (hplain (by simpa [hbefore, hbehind] using hs))

/-- A lone backslash at the end of a text quotes the next character of the pattern, which
therefore stands in whatever matches. -/
theorem exists_quoted_of_matches {v p s : List Char} (h : shortest? v = none)
    (hmatches : Matches (v ++ p) s) :
    ∃ c q before t, p = c :: q ∧ s = before ++ c :: t ∧ Matches q t := by
  fun_induction shortest? v generalizing s with
  | case1 => cases h
  | case2 v ih =>
      obtain ⟨skipped, rest, rfl, hrest⟩ := matches_any_iff.mp hmatches
      obtain ⟨c, q, before, t, hp, rfl, ht⟩ := ih h hrest
      exact ⟨c, q, skipped ++ before, t, hp, (List.append_assoc ..).symm, ht⟩
  | case3 v ih =>
      cases hmatches with
      | one d hrest =>
          obtain ⟨c, q, before, t, hp, rfl, ht⟩ := ih (Option.map_eq_none_iff.mp h) hrest
          exact ⟨c, q, d :: before, t, hp, rfl, ht⟩
      | same plain _ => exact absurd plain (by decide)
  | case4 =>
      cases hmatches with
      | quoted c ht => exact ⟨c, _, [], _, rfl, rfl, ht⟩
      | same plain _ => exact absurd plain (by decide)
  | case5 d v ih =>
      cases hmatches with
      | quoted _ hrest =>
          obtain ⟨c, q, before, t, hp, rfl, ht⟩ := ih (Option.map_eq_none_iff.mp h) hrest
          exact ⟨c, q, d :: before, t, hp, rfl, ht⟩
      | same plain _ => exact absurd plain (by decide)
  | case6 d v any one lone quoted ih =>
      have hd := isSpecial_eq_false any one lone quoted
      obtain ⟨rest, rfl, hrest⟩ := (matches_cons_iff hd).mp hmatches
      obtain ⟨c, q, before, t, hp, rfl, ht⟩ := ih (Option.map_eq_none_iff.mp h) hrest
      exact ⟨c, q, d :: before, t, hp, rfl, ht⟩

/-- **A lone backslash at the end shows in the text itself**, with a letter behind it where
that side is open. -/
theorem exists_finds_not_matches {v : List Char} (h : shortest? v = none) (place : Place) :
    ∃ s, place.Finds v s ∧ ¬ Matches (place.pattern v) s := by
  let letter : List Char := if place.opensBehind then ['a'] else []
  refine ⟨v ++ letter, Place.finds_iff.mpr ⟨[], letter, rfl, fun _ => rfl, ?_⟩, ?_⟩
  · intro hclosed
    exact if_neg (by rw [hclosed]; decide)
  · intro hmatches
    obtain ⟨before, rest, hs, -, hrest⟩ := matches_wildcard_append_iff.mp hmatches
    obtain ⟨c, q, skipped, t, hp, rfl, ht⟩ := exists_quoted_of_matches h hrest
    cases hopen : place.opensBehind with
    | false => simp [wildcard, hopen] at hp
    | true =>
        -- the wildcard is quoted, so what matches ends in it and not in the letter
        obtain ⟨rfl, rfl⟩ : '%' = c ∧ [] = q := by simpa [wildcard, hopen] using hp
        obtain rfl := matches_nil_iff.mp ht
        rw [show letter = ['a'] from if_pos hopen, ← List.append_assoc] at hs
        exact absurd (List.append_inj_right' hs rfl) (by decide)

/-- **A pattern says what the literal test says exactly for texts without special
characters.** -/
theorem forall_matches_iff_finds_iff (place : Place) {v : List Char} :
    (∀ s, Matches (place.pattern v) s ↔ place.Finds v s) ↔ ∀ c ∈ v, isSpecial c = false := by
  constructor
  · intro hsame
    by_contra special
    cases h : shortest? v with
    | none =>
        obtain ⟨s, hfinds, hmatches⟩ := exists_finds_not_matches h place
        exact hmatches ((hsame s).mpr hfinds)
    | some s =>
        have hmatches : Matches (place.pattern v) s := by
          have hbehind : Matches (wildcard place.opensBehind) [] :=
            matches_wildcard_iff.mpr fun _ => rfl
          have hrest := matches_shortest? h hbehind
          rw [List.append_nil] at hrest
          exact matches_wildcard_append_iff.mpr ⟨[], s, rfl, fun _ => rfl, hrest⟩
        exact not_finds_of_shortest? h special place ((hsame s).mp hmatches)
  · intro plain s
    exact matches_pattern_iff plain

/-! ## Emitted patterns -/

/-- **When a pattern is the literal test.**  A comparison with a part of a text is emitted as
`LIKE` with one pattern, whatever the column and wherever the comparison stands in the filter
of a plan.  The texts that match the pattern are those that start with the text, end with it
or contain it if and only if the text has no percent sign, no underscore and no backslash. -/
theorem pattern_literal_iff (place : Place) (v : String) :
    ∃ pattern : String,
      (∀ column type, Predicate.ofComparison column place.operator (some ⟨.text v, type⟩)
        = .ok (.compare column .like (.text pattern))) ∧
      (∀ plan e, emit plan = .ok e → ∀ earlier column type later,
        plan.leaves = earlier ++ ⟨column, place.operator, some ⟨.text v, type⟩⟩ :: later →
          e.params[(earlier.flatMap Leaf.slots).length]? = some (.text pattern)) ∧
      ((∀ s : String, Matches pattern.toList s.toList ↔ place.Finds v.toList s.toList) ↔
        ∀ c ∈ v.toList, c ≠ '%' ∧ c ≠ '_' ∧ c ≠ '\\') := by
  refine ⟨place.operator.wrap v, fun column type => ?_, ?_, ?_⟩
  · cases place <;> rfl
  · intro plan e hemit earlier column type later hleaves
    have hslots : (⟨column, place.operator, some ⟨.text v, type⟩⟩ : Leaf).slots
        = [.text (place.operator.wrap v)] := by cases place <;> rfl
    rw [params_eq hemit, hleaves, List.flatMap_append, List.flatMap_cons, hslots,
      List.append_assoc, List.getElem?_append_right (Nat.le_refl _), Nat.sub_self]
    rfl
  · have hplain : (∀ c ∈ v.toList, c ≠ '%' ∧ c ≠ '_' ∧ c ≠ '\\')
        ↔ ∀ c ∈ v.toList, isSpecial c = false := by
      simp [isSpecial, and_assoc]
    rw [hplain, ← forall_matches_iff_finds_iff place, toList_wrap_operator]
    constructor
    · intro h s
      have hs := h (String.ofList s)
      rwa [String.toList_ofList] at hs
    · intro h s
      exact h s.toList

/-- The nested filter looks for texts that start with a letter, which its pattern finds; a
text that ends in a percent sign is not looked for as it stands. -/
theorem pattern_literal_iff_nested :
    (∃ e, emit Nested.plan = .ok e ∧ e.params[0]? = some (.text "p%") ∧
      ∀ s : String, Matches "p%".toList s.toList ↔ "p".toList <+: s.toList) ∧
    ¬ ∀ s : String, Matches "50%%".toList s.toList ↔ "50%".toList <+: s.toList := by
  constructor
  · obtain ⟨pattern, hpattern, hparams, hliteral⟩ := pattern_literal_iff .atStart "p"
    obtain ⟨e, hemit⟩ : ∃ e, emit Nested.plan = .ok e := ⟨_, rfl⟩
    have hfirst := hparams _ e hemit [] (Nested.column "status") .string _ rfl
    have hwrapped : pattern = "p%" := by
      cases hpattern (Nested.column "status") .string
      rfl
    rw [hwrapped] at hfirst hliteral
    exact ⟨e, hemit, hfirst, hliteral.mpr (by simp)⟩
  · obtain ⟨pattern, hpattern, -, hliteral⟩ := pattern_literal_iff .atStart "50%"
    have hwrapped : pattern = "50%%" := by
      cases hpattern (Nested.column "status") .string
      rfl
    rw [hwrapped] at hliteral
    exact hliteral.not.mpr (by simp)

end SchemaQuery.Sql
