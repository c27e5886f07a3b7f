import SchemaQuery.Proofs.Json.Writing

/-!
# Written numbers are read

A number is written as digits, a fraction and an exponent, and the reader of numerals takes
such a text apart again: it finds the digits that were written and stops behind them.  For
integers that is the end of the matter, since a numeral without fraction and exponent stands
for one integer.

For doubles it is not.  Their digits are found again, but what the reader makes of the digits
rounds at every step and may end at a neighbour of the double.  Whether it ends at the double
itself is a decidable property, `Number.ReadsBack`, and nothing else about doubles is asked by
the statements that build on this module.

## Main definitions

* `Stops` - a value may stand before a text.
* `unsignedText` - digits, a fraction and an exponent as they are written.
* `Number.numeral` - the numeral that the text of a number is read as.
* `Number.ReadsBack` - reading the text of a number gives the number.

## Main statements

* `Number.readNumeral_render` - the text of a number is read as its numeral, up to its end.
* `Number.readsBack_int` - an integer that fits reads back.
-/

namespace SchemaQuery.Json

open Numeric (Binary64 Decimal decimalText digitChar digitValue? digitsOf intText ofDigits zeros)

/-- What may follow a value in a written text: the end, a comma or a closing bracket. -/
def Stops (rest : List Char) : Prop := ∀ c ∈ rest.head?, c = ',' ∨ c = ']' ∨ c = '\x7d'

theorem stops_nil : Stops [] := fun _ h => by cases h

theorem stops_comma (rest : List Char) : Stops (',' :: rest) := fun _ h =>
  .inl (Option.some.inj h).symm

theorem stops_bracket (rest : List Char) : Stops (']' :: rest) := fun _ h =>
  .inr (.inl (Option.some.inj h).symm)

theorem stops_brace (rest : List Char) : Stops ('\x7d' :: rest) := fun _ h =>
  .inr (.inr (Option.some.inj h).symm)

/-! ## Digits -/

/-- No digit goes on into a text. -/
def NoDigit (rest : List Char) : Prop := ∀ c ∈ rest.head?, digitValue? c = none

theorem noDigit_cons {c : Char} {rest : List Char} (h : digitValue? c = none) :
    NoDigit (c :: rest) := fun _ hc => Option.some.inj hc ▸ h

theorem Stops.noDigit {rest : List Char} (h : Stops rest) : NoDigit rest := by
  intro c hc
  rcases h c hc with rfl | rfl | rfl <;> rfl

/-- Decimal digits. -/
def AreDigits (digits : List Nat) : Prop := ∀ d ∈ digits, d < 10

theorem areDigits_append {xs ys : List Nat} :
    AreDigits (xs ++ ys) ↔ AreDigits xs ∧ AreDigits ys := List.forall_mem_append

theorem areDigits_zeros (n : Nat) : AreDigits (List.replicate n 0) := by
  intro d hd
  rw [List.eq_of_mem_replicate hd]
  decide

theorem digitValue?_digitChar {d : Nat} (h : d < 10) : digitValue? (digitChar d) = some d := by
  have hall : ∀ d < 10, digitValue? (digitChar d) = some d := by decide
  exact hall d h

/-- Written digits are read as they are, up to where no digit follows. -/
theorem readDigits_map {digits : List Nat} {rest : List Char} (hdigits : AreDigits digits)
    (hrest : NoDigit rest) : readDigits (digits.map digitChar ++ rest) = (digits, rest) := by
  induction digits with
  | nil =>
      cases rest with
      | nil => rfl
      | cons c rest => rw [List.map_nil, List.nil_append, readDigits, hrest c rfl]
  | cons d digits ih =>
      obtain ⟨hd, hdigits⟩ := List.forall_mem_cons.mp hdigits
      rw [List.map_cons, List.cons_append, readDigits, digitValue?_digitChar hd, ih hdigits]

/-- The digits of the whole part of a number: at least one, and a leading zero only alone. -/
structure IsWhole (digits : List Nat) : Prop where
  areDigits : AreDigits digits
  ne_nil : digits ≠ []
  eq_nil_of_zero : ∀ tail, digits = 0 :: tail → tail = []

/-- Only zero is written with a leading zero. -/
theorem eq_zero_of_digitsOf {n : Nat} {tail : List Nat} (h : digitsOf n = 0 :: tail) : n = 0 := by
  fun_induction digitsOf n generalizing tail with
  | case1 n _ => exact (List.cons.inj h).1
  | case2 n hn ih =>
      obtain ⟨d, digits, hcons⟩ := List.exists_cons_of_ne_nil (Numeric.digitsOf_ne_nil (n / 10))
      rw [hcons, List.cons_append] at h
      have hhead : digitsOf (n / 10) = 0 :: digits := by rw [hcons, (List.cons.inj h).1]
      have hzero : n / 10 = 0 := ih hhead
      omega

theorem isWhole_digitsOf (n : Nat) : IsWhole (digitsOf n) where
  areDigits := Numeric.digitsOf_lt_ten n
  ne_nil := Numeric.digitsOf_ne_nil n
  eq_nil_of_zero tail h := by
    obtain rfl := eq_zero_of_digitsOf h
    rw [digitsOf, if_pos (by decide)] at h
    exact (List.cons.inj h).2.symm

theorem isWhole_zero : IsWhole [0] where
  areDigits := by simp [AreDigits]
  ne_nil := List.cons_ne_nil _ _
  eq_nil_of_zero _ h := (List.cons.inj h).2.symm

/-- Digits that begin like those of a positive number are a whole part. -/
theorem isWhole_of_head {n d : Nat} {digits tail : List Nat} (hn : n ≠ 0)
    (hhead : digitsOf n = d :: tail) (hdigits : AreDigits (d :: digits)) :
    IsWhole (d :: digits) where
  areDigits := hdigits
  ne_nil := List.cons_ne_nil _ _
  eq_nil_of_zero other h := by
    obtain ⟨rfl, -⟩ := List.cons.inj h
    exact absurd (eq_zero_of_digitsOf hhead) hn

/-! ## Numbers without their sign -/

/-- A fraction as it is written: nothing if it has no digits. -/
def fractionText : List Nat → List Char
  | [] => []
  | d :: digits => '.' :: (d :: digits).map digitChar

/-- An exponent as it is written: nothing if there is none, and else with its sign. -/
def exponentText : Option Int → List Char
  | none => []
  | some e => 'e' :: (if e < 0 then '-' else '+') :: decimalText e.natAbs

/-- Digits, a fraction and an exponent as they are written. -/
def unsignedText (whole fraction : List Nat) (exponent : Option Int) : List Char :=
  whole.map digitChar ++ (fractionText fraction ++ exponentText exponent)

theorem noDigit_exponentText (exponent : Option Int) {rest : List Char} (hrest : Stops rest) :
    NoDigit (exponentText exponent ++ rest) := by
  cases exponent with
  | none => exact hrest.noDigit
  | some e => exact noDigit_cons (by decide)

theorem noDigit_fractionText (fraction : List Nat) (exponent : Option Int) {rest : List Char}
    (hrest : Stops rest) : NoDigit (fractionText fraction ++ (exponentText exponent ++ rest)) := by
  cases fraction with
  | nil => exact noDigit_exponentText exponent hrest
  | cons d digits => exact noDigit_cons (by decide)

/-- The digits of a natural number are read as that number. -/
theorem readExponentDigits_decimalText (negative : Bool) (n : Nat) {rest : List Char}
    (hrest : Stops rest) :
    readExponentDigits negative (decimalText n ++ rest)
      = some (some (if negative then -(n : Int) else n), rest) := by
  have hread : readDigits (decimalText n ++ rest) = (digitsOf n, rest) :=
    readDigits_map (Numeric.digitsOf_lt_ten n) hrest.noDigit
  obtain ⟨d, digits, hcons⟩ := List.exists_cons_of_ne_nil (Numeric.digitsOf_ne_nil n)
  rw [readExponentDigits, hread, hcons]
  dsimp only
  rw [← hcons, Numeric.ofDigits_digitsOf]

theorem readExponent_exponentText (exponent : Option Int) {rest : List Char}
    (hrest : Stops rest) :
    readExponent (exponentText exponent ++ rest) = some (exponent, rest) := by
  cases exponent with
  | none =>
      cases rest with
      | nil => rfl
      | cons c rest =>
          have hc : ¬(c = 'e' ∨ c = 'E') := by
            rcases hrest c rfl with rfl | rfl | rfl <;> decide
          simp only [exponentText, List.nil_append, readExponent, if_neg hc]
  | some e =>
      rw [exponentText, List.cons_append, List.cons_append]
      by_cases he : e < 0
      · have hvalue : -((e.natAbs : Nat) : Int) = e := by omega
        rw [if_pos he, readExponent, if_pos (.inl rfl),
          readExponentDigits_decimalText true _ hrest, if_pos rfl, hvalue]
      · have hvalue : ((e.natAbs : Nat) : Int) = e := by omega
        rw [if_neg he, readExponent, if_pos (.inl rfl),
          readExponentDigits_decimalText false _ hrest, if_neg (by decide), hvalue]

theorem readFraction_fractionText {fraction : List Nat} (hfraction : AreDigits fraction)
    (exponent : Option Int) {rest : List Char} (hrest : Stops rest) :
    readFraction (fractionText fraction ++ (exponentText exponent ++ rest))
      = some (fraction, exponentText exponent ++ rest) := by
  cases fraction with
  | nil =>
      cases exponent with
      | none =>
          rw [fractionText, exponentText, List.nil_append, List.nil_append, readFraction]
          rintro other rfl
          rcases hrest _ rfl with h | h | h <;> exact absurd h (by decide)
      | some e =>
          rw [fractionText, exponentText, List.nil_append, List.cons_append, readFraction]
          exact fun _ h => absurd (List.cons.inj h).1 (by decide)
  | cons d digits =>
      rw [fractionText, List.cons_append, readFraction,
        readDigits_map hfraction (noDigit_exponentText exponent hrest)]

/-- **Digits, a fraction and an exponent are read as they were written.** -/
theorem readUnsigned_unsignedText (negative : Bool) {whole fraction : List Nat}
    (exponent : Option Int) (hwhole : IsWhole whole) (hfraction : AreDigits fraction)
    {rest : List Char} (hrest : Stops rest) :
    readUnsigned negative (unsignedText whole fraction exponent ++ rest)
      = some (⟨negative, ofDigits whole, fraction, exponent⟩, rest) := by
  have hdigits : readDigits (unsignedText whole fraction exponent ++ rest)
      = (whole, fractionText fraction ++ (exponentText exponent ++ rest)) := by
    rw [unsignedText, List.append_assoc, List.append_assoc]
    exact readDigits_map hwhole.areDigits (noDigit_fractionText fraction exponent hrest)
  unfold readUnsigned
  rw [hdigits]
  split
  · rename_i hsplit
    exact absurd (Prod.mk.inj hsplit).1 hwhole.ne_nil
  · rename_i hsplit
    exact absurd (hwhole.eq_nil_of_zero _ (Prod.mk.inj hsplit).1) (List.cons_ne_nil _ _)
  · rename_i hsplit
    obtain ⟨rfl, rfl⟩ := Prod.mk.inj hsplit
    simp only [readFraction_fractionText hfraction exponent hrest, Option.bind_eq_bind,
      Option.bind_some, readExponent_exponentText exponent hrest]
    rfl

/-- A sign before the digits is read as one. -/
theorem readNumeral_sign (negative : Bool) {whole fraction : List Nat}
    (exponent : Option Int) (hwhole : IsWhole whole) (hfraction : AreDigits fraction)
    {rest : List Char} (hrest : Stops rest) :
    readNumeral ((if negative then ['-'] else []) ++ unsignedText whole fraction exponent ++ rest)
      = some (⟨negative, ofDigits whole, fraction, exponent⟩, rest) := by
  have hread := readUnsigned_unsignedText negative exponent hwhole hfraction hrest
  cases negative with
  | true => exact hread
  | false =>
      rw [if_neg (by decide), List.nil_append, readNumeral]
      · exact hread
      · intro other h
        obtain ⟨d, digits, rfl⟩ := List.exists_cons_of_ne_nil hwhole.ne_nil
        have hd : d < 10 := hwhole.areDigits d List.mem_cons_self
        have hminus : ∀ d < 10, digitChar d ≠ '-' := by decide
        exact hminus d hd (List.cons.inj h).1

/-! ## Doubles -/

/-- A text is digits, a fraction and an exponent, written so that they can be read. -/
def IsUnsigned (text : List Char) : Prop :=
  ∃ whole fraction exponent, IsWhole whole ∧ AreDigits fraction ∧
    text = unsignedText whole fraction exponent

theorem map_digitChar_zeros (n : Nat) : (List.replicate n 0).map digitChar = zeros n :=
  List.map_replicate

/-- A whole number is written with its zeros, and shows by a fraction that it is a double. -/
theorem isUnsigned_positional_whole {d : Decimal} (hd : d.significand ≠ 0) (hpower : 0 ≤ d.power) :
    IsUnsigned (d.positional ++ ['.', '0']) := by
  obtain ⟨digit, digits, hcons⟩ :=
    List.exists_cons_of_ne_nil (Numeric.digitsOf_ne_nil d.significand)
  have hdigits : AreDigits (digitsOf d.significand ++ List.replicate d.power.toNat 0) :=
    areDigits_append.mpr ⟨Numeric.digitsOf_lt_ten _, areDigits_zeros _⟩
  have hwhole : IsWhole (digitsOf d.significand ++ List.replicate d.power.toNat 0) := by
    rw [hcons, List.cons_append] at hdigits ⊢
    exact isWhole_of_head hd hcons hdigits
  refine ⟨_, [0], none, hwhole, isWhole_zero.areDigits, ?_⟩
  rw [Decimal.positional, if_pos hpower, unsignedText, List.map_append, map_digitChar_zeros]
  rfl

/-- A number with a fraction is written with the point among its digits or with zeros before
them. -/
theorem isUnsigned_positional_fraction {d : Decimal} (hd : d.significand ≠ 0)
    (hpower : d.power < 0) : IsUnsigned d.positional := by
  have hdigits : AreDigits (digitsOf d.significand) := Numeric.digitsOf_lt_ten _
  have hlength : (decimalText d.significand).length = (digitsOf d.significand).length :=
    List.length_map _
  unfold Decimal.positional
  dsimp only
  rw [if_neg (by omega)]
  split
  · rename_i hpoint
    generalize hn : ((decimalText d.significand).length + d.power).toNat = n
    have hinside : n < (digitsOf d.significand).length := by omega
    obtain ⟨f, fs, hfraction⟩ : ∃ f fs, (digitsOf d.significand).drop n = f :: fs :=
      List.exists_cons_of_ne_nil (by rw [Ne, List.drop_eq_nil_iff]; omega)
    obtain ⟨digit, digits, hcons⟩ :=
      List.exists_cons_of_ne_nil (Numeric.digitsOf_ne_nil d.significand)
    have hwhole : IsWhole ((digitsOf d.significand).take n) := by
      have htake : AreDigits ((digitsOf d.significand).take n) := fun e he =>
        hdigits e (List.mem_of_mem_take he)
      obtain ⟨m, rfl⟩ : ∃ m, n = m + 1 := ⟨n - 1, by omega⟩
      rw [hcons, List.take_succ_cons] at htake ⊢
      exact isWhole_of_head hd hcons htake
    refine ⟨_, (digitsOf d.significand).drop n, none, hwhole,
      fun e he => hdigits e (List.mem_of_mem_drop he), ?_⟩
    rw [unsignedText, exponentText, List.append_nil, hfraction, fractionText, ← hfraction,
      decimalText, List.map_take, List.map_drop]
  · generalize (-((decimalText d.significand).length + d.power)).toNat = n
    have hfraction : AreDigits (List.replicate n 0 ++ digitsOf d.significand) :=
      areDigits_append.mpr ⟨areDigits_zeros n, hdigits⟩
    refine ⟨[0], _, none, isWhole_zero, hfraction, ?_⟩
    obtain ⟨f, fs, hcons⟩ : ∃ f fs, List.replicate n 0 ++ digitsOf d.significand = f :: fs :=
      List.exists_cons_of_ne_nil
        (List.append_ne_nil_of_right_ne_nil _ (Numeric.digitsOf_ne_nil _))
    rw [unsignedText, exponentText, List.append_nil, hcons, fractionText, ← hcons,
      List.map_append, map_digitChar_zeros]
    rfl

/-- With an exponent there is one digit before the point. -/
theorem isUnsigned_scientific {d : Decimal} (hd : d.significand ≠ 0) :
    IsUnsigned d.scientific := by
  have hdigits : AreDigits (digitsOf d.significand) := Numeric.digitsOf_lt_ten _
  obtain ⟨digit, digits, hcons⟩ :=
    List.exists_cons_of_ne_nil (Numeric.digitsOf_ne_nil d.significand)
  rw [hcons] at hdigits
  obtain ⟨hdigit, hfraction⟩ := List.forall_mem_cons.mp hdigits
  have hwhole : IsWhole [digit] :=
    isWhole_of_head hd hcons (List.forall_mem_cons.mpr ⟨hdigit, fun _ h => by cases h⟩)
  refine ⟨[digit], digits,
    some ((decimalText d.significand).length + d.power - 1), hwhole, hfraction, ?_⟩
  rw [Decimal.scientific, unsignedText, exponentText]
  generalize (decimalText d.significand).length + d.power - 1 = e
  rw [decimalText, hcons]
  cases digits with
  | nil => rfl
  | cons f fs => rfl

/-- **Every double is written as digits, a fraction and an exponent after its sign.** -/
theorem isUnsigned_dataText (x : Binary64) :
    ∃ magnitude, IsUnsigned magnitude ∧ x.dataText = x.sign ++ magnitude := by
  unfold Binary64.dataText
  refine ⟨_, ?_, rfl⟩
  split
  · exact ⟨[0], [0], none, isWhole_zero, isWhole_zero.areDigits, rfl⟩
  · rename_i hnonzero
    split
    · exact isUnsigned_scientific hnonzero
    · split
      · rename_i hpower
        exact isUnsigned_positional_whole hnonzero hpower
      · rename_i hpower
        exact isUnsigned_positional_fraction hnonzero (by omega)

/-! ## Numbers -/

/-- The numeral that the text of a number is read as. -/
def Number.numeral (n : Number) : Numeral :=
  ((readNumeral n.render).map (·.1)).getD ⟨false, 0, [], none⟩

/-- A number whose text is read as a numeral, whatever follows, is read as its own. -/
theorem Number.numeral_eq {n : Number} {m : Numeral}
    (h : ∀ rest, Stops rest → readNumeral (n.render ++ rest) = some (m, rest)) : n.numeral = m := by
  have hread := h [] stops_nil
  rw [List.append_nil] at hread
  rw [numeral, hread]
  rfl

theorem readNumeral_intText (i : Int) {rest : List Char} (hrest : Stops rest) :
    readNumeral (intText i ++ rest) = some (⟨decide (i < 0), i.natAbs, [], none⟩, rest) := by
  have htext : intText i = (if decide (i < 0) = true then ['-'] else [])
      ++ unsignedText (digitsOf i.natAbs) [] none := by
    unfold intText
    by_cases hi : i < 0 <;> simp [hi, unsignedText, fractionText, exponentText, decimalText]
  rw [htext, readNumeral_sign _ none (isWhole_digitsOf _) (fun _ h => by cases h) hrest,
    Numeric.ofDigits_digitsOf]

/-- **The text of a number is read as its numeral, up to its end.** -/
theorem Number.readNumeral_render (n : Number) {rest : List Char} (hrest : Stops rest) :
    readNumeral (n.render ++ rest) = some (n.numeral, rest) := by
  have hread : ∃ m, ∀ rest, Stops rest → readNumeral (n.render ++ rest) = some (m, rest) := by
    cases n with
    | int i => exact ⟨_, fun _ hrest => readNumeral_intText i hrest⟩
    | float x =>
        obtain ⟨_, ⟨whole, fraction, exponent, hwhole, hfraction, rfl⟩, htext⟩ :=
          isUnsigned_dataText x
        refine ⟨⟨x.negative, ofDigits whole, fraction, exponent⟩, fun rest hrest => ?_⟩
        rw [render, htext]
        exact readNumeral_sign x.negative exponent hwhole hfraction hrest
  obtain ⟨m, hm⟩ := hread
  rw [numeral_eq hm, hm rest hrest]

/-- Reading the text of a number gives the number. -/
def Number.ReadsBack (n : Number) : Prop := n.numeral.value? = some n

instance (n : Number) : Decidable n.ReadsBack := inferInstanceAs (Decidable (_ = _))

/-- **An integer that fits reads back.** -/
theorem Number.readsBack_int {i : Int} (h : (Number.int i).Fits) : (Number.int i).ReadsBack := by
  have hnumeral : (Number.int i).numeral = ⟨decide (i < 0), i.natAbs, [], none⟩ :=
    numeral_eq fun _ hrest => readNumeral_intText i hrest
  have hinteger : (Number.int i).numeral.IsInteger := by
    rw [hnumeral]
    refine ⟨rfl, rfl, ?_⟩
    simp only [decide_eq_true_eq]
    omega
  have hsigned : (Number.int i).numeral.signed = i := by
    rw [hnumeral, Numeral.signed]
    simp only [decide_eq_true_eq]
    split <;> omega
  rw [ReadsBack, Numeral.value?, hsigned, if_pos ⟨hinteger, h⟩]

end SchemaQuery.Json
