import Mathlib.Data.List.SplitBy
import SchemaQuery.Proofs.Schema.Construction
import SchemaQuery.Proofs.Sql.Placeholders

/-!
# SQL tokens

The text of a condition is cut into tokens before it can be read.  A token of several
characters is as long as it can be: the text falls into maximal runs of characters that belong
together, and every run is a word, a placeholder, an operator, a sign or a space.

Cutting two texts one after the other is cutting them together wherever no run goes on from
the one into the other (`cut_append`), whatever the runs are read as.  The words and
placeholders of a rendered condition are always next to a space or a parenthesis, so this one
law cuts all of it.

## Main definitions

* `cut` - what the runs of a text are read as.
* `Token`, `scan` - tokens, and those of a text.
* `Apart` - no run goes on from one text into the next.

## Main statements

* `cut_append`, `scan_append` - tokens of a text from those of its parts.
* `scan_identifier`, `scan_placeholder` - names and placeholders are one token each.
-/

namespace SchemaQuery.Sql

/-! ## Cutting a text -/

/-- A token of a condition. -/
inductive Token where
  | word (text : String)
  | placeholder (number : Nat)
  | operator (text : String)
  | point
  | opening
  | closing
  deriving DecidableEq, Repr

/-- Whether a character may stand in a word or a placeholder. -/
def isWordChar (c : Char) : Bool := isIdentifierChar c || c == '$'

/-- Whether a character may stand in an operator. -/
def isOperatorChar (c : Char) : Bool := c == '=' || c == '!' || c == '<' || c == '>'

/-- Whether two neighbouring characters belong to one token. -/
def belongTogether (c d : Char) : Bool :=
  (isWordChar c && isWordChar d) || (isOperatorChar c && isOperatorChar d)

/-- What the runs of a text are read as, one after another, if every run is read. -/
def cut {β : Type} (read : List Char → Option (List β)) (s : String) : Option (List β) :=
  ((s.toList.splitBy belongTogether).mapM read).map List.flatten

/-- The token of a run of characters, none for a space. -/
def tokenOfRun : List Char → Option (List Token)
  | [' '] => some []
  | ['.'] => some [.point]
  | ['('] => some [.opening]
  | [')'] => some [.closing]
  | '$' :: digits =>
    if digits ≠ [] ∧ digits.all Char.isDigit then
      some [.placeholder (Nat.ofDigitChars 10 digits 0)]
    else none
  | run =>
    if areIdentifier run then some [.word (String.ofList run)]
    else if run.all isOperatorChar then some [.operator (String.ofList run)]
    else none

/-- The tokens of a text, if it falls into tokens. -/
def scan (s : String) : Option (List Token) := cut tokenOfRun s

/-! ## Texts one after the other -/

/-- No run of characters goes on from one text into the next. -/
def Apart (s t : String) : Prop :=
  ∀ c ∈ s.toList.getLast?, ∀ d ∈ t.toList.head?, belongTogether c d = false

/-- Whether a character is a token of its own next to any other. -/
def isLone (c : Char) : Bool := !isWordChar c && !isOperatorChar c

/-- A text that begins with a character that is a token of its own. -/
def LoneHead (t : String) : Prop := t.toList.head?.all isLone = true

/-- A text that ends with a character that is a token of its own. -/
def LoneLast (t : String) : Prop := t.toList.getLast?.all isLone = true

instance (t : String) : Decidable (LoneHead t) := inferInstanceAs (Decidable (_ = true))

instance (t : String) : Decidable (LoneLast t) := inferInstanceAs (Decidable (_ = true))

theorem LoneHead.apart {s t : String} (h : LoneHead t) : Apart s t := by
  intro c _ d hd
  have hlone : isLone d = true := by simpa [LoneHead, Option.mem_def.mp hd] using h
  simp only [isLone, Bool.and_eq_true, Bool.not_eq_true'] at hlone
  simp [belongTogether, hlone.1, hlone.2]

theorem LoneLast.apart {s t : String} (h : LoneLast s) : Apart s t := by
  intro c hc d _
  have hlone : isLone c = true := by simpa [LoneLast, Option.mem_def.mp hc] using h
  simp only [isLone, Bool.and_eq_true, Bool.not_eq_true'] at hlone
  simp [belongTogether, hlone.1, hlone.2]

/-- **Two texts are cut into the pieces of the one and then those of the other**, wherever no
run goes on between them. -/
theorem cut_append {β : Type} {read : List Char → Option (List β)} {s t : String} {xs ys : List β}
    (hs : cut read s = some xs) (ht : cut read t = some ys) (hapart : Apart s t) :
    cut read (s ++ t) = some (xs ++ ys) := by
  obtain ⟨xss, hxss, rfl⟩ := Option.map_eq_some_iff.mp hs
  obtain ⟨yss, hyss, rfl⟩ := Option.map_eq_some_iff.mp ht
  rw [cut, String.toList_append, List.splitBy_append hapart, List.mapM_append, hxss, hyss]
  simp

/-- The tokens of two texts are those of the one and then those of the other. -/
theorem scan_append {s t : String} {ts us : List Token} (hs : scan s = some ts)
    (ht : scan t = some us) (hapart : Apart s t) : scan (s ++ t) = some (ts ++ us) :=
  cut_append hs ht hapart

theorem LoneLast.append_left {s t : String} (h : LoneLast t) (hne : t ≠ "") :
    LoneLast (s ++ t) := by
  rw [LoneLast, String.toList_append, List.getLast?_append_of_ne_nil _ (by simpa using hne)]
  exact h

/-- A text that begins and ends with characters that are tokens of their own. -/
def Separates (t : String) : Prop := t ≠ "" ∧ LoneHead t ∧ LoneLast t

instance (t : String) : Decidable (Separates t) :=
  inferInstanceAs (Decidable (t ≠ "" ∧ LoneHead t ∧ LoneLast t))

/-- **Any two texts are cut apart by a text that separates.** -/
theorem cut_separated {β : Type} {read : List Char → Option (List β)} {s t u : String}
    {xs ms ys : List β} (hs : cut read s = some xs) (ht : cut read t = some ms)
    (hu : cut read u = some ys) (hsep : Separates t) :
    cut read (s ++ t ++ u) = some (xs ++ ms ++ ys) := by
  obtain ⟨hne, hhead, hlast⟩ := hsep
  have hleft : cut read (s ++ t) = some (xs ++ ms) := cut_append hs ht hhead.apart
  exact cut_append hleft hu (hlast.append_left hne).apart

theorem scan_separated {s t u : String} {ts ms us : List Token} (hs : scan s = some ts)
    (ht : scan t = some ms) (hu : scan u = some us) (hsep : Separates t) :
    scan (s ++ t ++ u) = some (ts ++ ms ++ us) :=
  cut_separated hs ht hu hsep

/-- Without a space between them, too, a comparison and its operands are three tokens or
more. -/
example : scan "t0.name>=$12" =
    some [.word "t0", .point, .word "name", .operator ">=", .placeholder 12] := rfl

/-! ## Tokens of one run -/

/-- A text of word characters is one run. -/
theorem splitBy_of_isWordChar {s : String} (hne : s ≠ "")
    (h : ∀ c ∈ s.toList, isWordChar c = true) :
    s.toList.splitBy belongTogether = [s.toList] := by
  have hchain : s.toList.IsChain fun c d => belongTogether c d = true :=
    List.Pairwise.isChain <| List.pairwise_of_forall_mem_list fun c hc d hd => by
      simp [belongTogether, h c hc, h d hd]
  exact List.splitBy_of_isChain (by simpa using hne) hchain

/-- An identifier is one run. -/
theorem splitBy_identifier {s : String} (h : isIdentifier s = true) :
    s.toList.splitBy belongTogether = [s.toList] := by
  refine splitBy_of_isWordChar (isIdentifier_iff_isPlainName.mp h).ne_empty fun c hc => ?_
  rw [isWordChar, isIdentifierChar_of_mem h hc, Bool.true_or]

/-- Digits may stand in a name. -/
theorem isIdentifierChar_of_mem_toDigits {n : Nat} {c : Char} (h : c ∈ Nat.toDigits 10 n) :
    isIdentifierChar c = true := by
  have hdigit : c.isDigit = true := Nat.isDigit_of_mem_toDigits (by decide) (by decide) h
  simp [isIdentifierChar, Char.isAlphanum, hdigit]

/-- A placeholder is one run. -/
theorem splitBy_placeholder (before : Nat) :
    (placeholder before).toList.splitBy belongTogether = [(placeholder before).toList] := by
  have hlist : (placeholder before).toList = '$' :: Nat.toDigits 10 (before + 1) :=
    toList_placeholder before
  have hne : placeholder before ≠ "" := by
    intro h
    rw [h] at hlist
    cases hlist
  refine splitBy_of_isWordChar hne fun c hc => ?_
  rw [hlist] at hc
  rcases List.mem_cons.mp hc with rfl | hdigit
  · decide
  · rw [isWordChar, isIdentifierChar_of_mem_toDigits hdigit, Bool.true_or]

theorem scan_of_run {s : String} (h : s.toList.splitBy belongTogether = [s.toList]) :
    scan s = tokenOfRun s.toList := by
  rw [scan, cut, h]
  cases htoken : tokenOfRun s.toList <;> simp [htoken]

theorem tokenOfRun_identifier {run : List Char} (h : areIdentifier run = true) :
    tokenOfRun run = some [.word (String.ofList run)] := by
  unfold tokenOfRun
  split
  · exact absurd h (by decide)
  · exact absurd h (by decide)
  · exact absurd h (by decide)
  · exact absurd h (by decide)
  · have hstart : isIdentifierStart '$' = false := by decide
    simp [areIdentifier, hstart] at h
  · rw [if_pos h]

/-- **An identifier is one word.** -/
theorem scan_identifier {s : String} (h : isIdentifier s = true) : scan s = some [.word s] := by
  rw [scan_of_run (splitBy_identifier h), tokenOfRun_identifier h, String.ofList_toList]

/-- **A placeholder is one token** with its number. -/
theorem scan_placeholder (before : Nat) :
    scan (placeholder before) = some [.placeholder (before + 1)] := by
  have hdigits : ∀ c ∈ Nat.toDigits 10 (before + 1), c.isDigit = true := fun c hc =>
    Nat.isDigit_of_mem_toDigits (by decide) (by decide) hc
  rw [scan_of_run (splitBy_placeholder before), toList_placeholder, tokenOfRun,
    if_pos ⟨Nat.toDigits_ne_nil, List.all_eq_true.mpr hdigits⟩, Nat.ofDigitChars_ten_toDigits]

end SchemaQuery.Sql
