import Mathlib.Algebra.Group.Nat.Defs
import Mathlib.Data.List.Basic
import SchemaQuery.Numeric.Layout

/-!
# Whole numbers in double precision

The whole numbers up to `2 ^ 53` are doubles, and each is written as its own digits.  What has
to be seen for that is how far the search for the shortest decimal goes.  It comes from the
coarse grids, where decimals are whole numbers too.  Of these no other one reads back, because
its double is exact as well or has an exponent above zero; and the search does not pass the
grid of the units, where the number itself is found.

## Main definitions

* `Binary64.IsWhole` - a double is a whole number, given without its sign.

## Main statements

* `Binary64.exists_isWhole` - a number below `2 ^ 53` is a double.
* `Binary64.num_of_readsBack` - **a decimal without a fraction that reads back is the number.**
* `Binary64.plainText_ofRatio?` - **a number up to `2 ^ 53` is written as its digits.**
-/

namespace SchemaQuery.Numeric

/-! ## Trimmed decimals -/

namespace Decimal

/-- Trimming a whole number leaves its value. -/
theorem trimZeros_of_nonneg {n : Nat} {p : Int} (hn : n ≠ 0) (hp : 0 ≤ p) :
    0 ≤ (trimZeros n p).power ∧ (trimZeros n p).significand ≠ 0 ∧
      (trimZeros n p).num = n * 10 ^ p.toNat := by
  fun_induction trimZeros n p with
  | case1 n p h ih =>
      have hdigit : n = n / 10 * 10 := by omega
      have hpower : (p + 1).toNat = p.toNat + 1 := by omega
      obtain ⟨hnonneg, hne, hnum⟩ := ih (by omega) (by omega)
      refine ⟨hnonneg, hne, ?_⟩
      calc (trimZeros (n / 10) (p + 1)).num
          = n / 10 * 10 ^ (p.toNat + 1) := by rw [hnum, hpower]
        _ = n / 10 * 10 * 10 ^ p.toNat := by rw [Nat.pow_succ']; exact (Nat.mul_assoc _ _ _).symm
        _ = n * 10 ^ p.toNat := by rw [← hdigit]
  | case2 n p h => exact ⟨hp, hn, rfl⟩

/-- A power of ten may stand in the significand. -/
theorem trim_mul_pow (n k : Nat) (p : Int) : trim ⟨n * 10 ^ k, p⟩ = trim ⟨n, p + k⟩ := by
  induction k generalizing p with
  | zero => simp
  | succ k ih =>
      have hshift : n * 10 ^ (k + 1) = 10 * (n * 10 ^ k) := by
        rw [Nat.pow_succ', Nat.mul_left_comm]
      have hpower : p + 1 + (k : Int) = p + (k + 1 : Nat) := by omega
      rw [hshift, trim_ten_mul, ih, hpower]

end Decimal

/-- A number that ends in zero is written with a zero at the end. -/
theorem decimalText_of_dvd {n : Nat} (hn : n ≠ 0) (hzero : n % 10 = 0) :
    decimalText n = decimalText (n / 10) ++ ['0'] := by
  rw [decimalText, digitsOf, if_neg (by omega), hzero, List.map_append]
  rfl

/-- Trimmed zeros are written again. -/
theorem positional_trimZeros {n : Nat} {p : Int} (hn : n ≠ 0) (hp : 0 ≤ p) :
    (Decimal.trimZeros n p).positional = decimalText n ++ zeros p.toNat := by
  fun_induction Decimal.trimZeros n p with
  | case1 n p h ih =>
      have hpower : (p + 1).toNat = p.toNat + 1 := by omega
      rw [ih (by omega) (by omega), decimalText_of_dvd h.1 h.2, hpower, List.append_assoc]
      rfl
  | case2 n p h => exact if_pos hp

namespace Binary64

/-! ## Whole doubles -/

/-- A double is a whole number whose significand has all of its bits. -/
structure IsWhole (x : Binary64) (n : Nat) : Prop where
  nonneg : x.negative = false
  exponent_le : x.exponent ≤ 0
  significand_eq : x.significand = n * 2 ^ (-x.exponent).toNat

theorem IsWhole.inj {x : Binary64} {n m : Nat} (hn : x.IsWhole n) (hm : x.IsWhole m) : n = m :=
  Nat.eq_of_mul_eq_mul_right (Nat.two_pow_pos _) (hn.significand_eq.symm.trans hm.significand_eq)

theorem IsWhole.ratio_eq {x : Binary64} {n : Nat} (h : x.IsWhole n) :
    x.ratio = (x.significand, 2 ^ (-x.exponent).toNat) := by
  rw [ratio, Int.toNat_of_nonpos h.exponent_le]
  exact congrArg (·, _) (Nat.mul_one _)

/-- The exponent for a whole number is that of its leading bit, 52 places down. -/
theorem exponentFor_one {n : Nat} (hn : n ≠ 0) : exponentFor n 1 = (n.log2 : Int) - 52 := by
  have hleading : 2 ^ n.log2 ≤ n := Nat.log2_self_le hn
  have hfull : ¬ (inUnits n 1 ((n.log2 : Int) - 52)).1
      < Nat.pow 2 52 * (inUnits n 1 ((n.log2 : Int) - 52)).2 := by
    have hshift : 52 + ((n.log2 : Int) - 52).toNat = n.log2 + (-((n.log2 : Int) - 52)).toNat := by
      omega
    show ¬ n * 2 ^ _ < 2 ^ 52 * (1 * 2 ^ _)
    rw [Nat.one_mul, ← Nat.pow_add, hshift, Nat.pow_add, Nat.not_lt]
    exact Nat.mul_le_mul_right _ hleading
  have hone : (Nat.log2 1 : Int) = 0 := by decide
  unfold exponentFor
  dsimp only
  rw [hone, Int.sub_zero, if_neg hfull]
  omega

theorem roundHalfEven_one (n : Nat) : roundHalfEven n 1 = n := by
  simp [roundHalfEven, Nat.mod_one]

/-- A number is shifted to where its leading bit is the first of 53. -/
theorem shifted_bounds {n k : Nat} (hn : n ≠ 0) (hk : n.log2 + k = 52) :
    2 ^ 52 ≤ n * 2 ^ k ∧ n * 2 ^ k < 2 ^ 53 := by
  have hleading : 2 ^ n.log2 ≤ n := Nat.log2_self_le hn
  have hbelow : n < 2 ^ (n.log2 + 1) := Nat.lt_log2_self
  constructor
  · calc 2 ^ 52 = 2 ^ n.log2 * 2 ^ k := by rw [← hk, Nat.pow_add]
      _ ≤ n * 2 ^ k := Nat.mul_le_mul_right _ hleading
  · have hsplit : 53 = n.log2 + 1 + k := by omega
    calc n * 2 ^ k < 2 ^ (n.log2 + 1) * 2 ^ k :=
          Nat.mul_lt_mul_of_pos_right hbelow (Nat.two_pow_pos k)
      _ = 2 ^ 53 := by rw [← Nat.pow_add, ← hsplit]

/-- **A number below `2 ^ 53` is a double.** -/
theorem exists_isWhole {n : Nat} (hn : n ≠ 0) (hlt : n < 2 ^ 53) :
    ∃ x, ofRatio? false n 1 = some x ∧ x.IsWhole n := by
  have hlog : n.log2 < 53 := (Nat.log2_lt hn).mpr hlt
  obtain ⟨k, hk⟩ : ∃ k, n.log2 + k = 52 := ⟨52 - n.log2, by omega⟩
  obtain ⟨hlow, hhigh⟩ := shifted_bounds hn hk
  have hup : (- -(k : Int)).toNat = k := by omega
  have hdown : (-(k : Int)).toNat = 0 := by omega
  have hexponent : exponentFor n 1 = -(k : Int) := by
    rw [exponentFor_one hn]
    omega
  have hscaled : inUnits n 1 (-(k : Int)) = (n * 2 ^ k, 1) := by
    rw [inUnits, hup, hdown]
    rfl
  have hnormal : NormalForm (n * 2 ^ k) (-(k : Int)) := .inr ⟨hlow, hhigh, by omega, by omega⟩
  have hread : ofRatio? false n 1 = some ⟨false, n * 2 ^ k, -(k : Int), hnormal⟩ := by
    have hne : n * 2 ^ k ≠ Nat.pow 2 53 := Nat.ne_of_lt hhigh
    rw [ofRatio?, if_neg hn]
    dsimp only
    rw [hexponent, hscaled, roundHalfEven_one, if_neg hne, ofParts?, dif_pos hnormal]
  exact ⟨_, hread, rfl, Int.neg_nonpos_of_nonneg (by omega), congrArg (n * 2 ^ ·) hup.symm⟩

/-- From `2 ^ 53` on the exponent is above zero. -/
theorem exponent_pos_of_ofRatio? {negative : Bool} {n : Nat} {x : Binary64} (hle : 2 ^ 53 ≤ n)
    (h : ofRatio? negative n 1 = some x) : 0 < x.exponent := by
  have hn : n ≠ 0 := by
    have : 0 < 2 ^ 53 := Nat.two_pow_pos 53
    omega
  have hlog : 53 ≤ n.log2 := (Nat.le_log2 hn).mpr hle
  have hexponent {significand : Nat} {exponent : Int} (hparts :
      ofParts? negative significand exponent = some x) : x.exponent = exponent := by
    unfold ofParts? at hparts
    split_ifs at hparts
    rw [← Option.some.inj hparts]
  rw [ofRatio?, if_neg hn] at h
  dsimp only at h
  rw [exponentFor_one hn] at h
  split_ifs at h
  all_goals
    have := hexponent h
    omega

/-- **The double of a whole number has no exponent above zero only if it is the number.** -/
theorem isWhole_of_ofRatio? {n : Nat} {x : Binary64} (hn : n ≠ 0)
    (h : ofRatio? false n 1 = some x) (hexponent : x.exponent ≤ 0) : x.IsWhole n := by
  have hlt : n < 2 ^ 53 := by
    by_contra hle
    have := exponent_pos_of_ofRatio? (Nat.not_lt.mp hle) h
    omega
  obtain ⟨y, hy, hwhole⟩ := exists_isWhole hn hlt
  obtain rfl := Option.some.inj (h.symm.trans hy)
  exact hwhole

/-! ## Decimals that read back -/

/-- A decimal without a fraction is read as the whole number that it stands for. -/
theorem ofDecimal?_of_nonneg {negative : Bool} {d : Decimal} (hne : d.significand ≠ 0)
    (hpower : 0 ≤ d.power) : ofDecimal? negative d =
      if 310 < d.trim.power then none else ofRatio? negative d.num 1 := by
  have htrim : d.trim = Decimal.trimZeros d.significand d.power := if_neg hne
  obtain ⟨hnonneg, hsignificand, hnum⟩ := Decimal.trimZeros_of_nonneg hne hpower
  rw [← htrim] at hnonneg hsignificand hnum
  have hden : d.trim.den = 1 := by
    rw [Decimal.den, Int.toNat_of_nonpos (Int.neg_nonpos_of_nonneg hnonneg), Nat.pow_eq,
      Nat.pow_zero]
  unfold ofDecimal?
  dsimp only
  rw [if_neg hsignificand, hden, hnum]
  split_ifs
  · rfl
  · omega
  · rfl

variable {x : Binary64} {n : Nat}

/-- The significand of a whole number above zero has all of its bits. -/
theorem IsWhole.full (h : x.IsWhole n) (hn : n ≠ 0) :
    2 ^ 52 ≤ x.significand ∧ x.significand < 2 ^ 53 := by
  rcases x.normal with ⟨hshort, hexponent⟩ | ⟨hlow, hhigh, -⟩
  · have hshift : 52 ≤ (-x.exponent).toNat := by omega
    have hlarge : 2 ^ 52 ≤ x.significand := by
      rw [h.significand_eq]
      calc 2 ^ 52 ≤ 2 ^ (-x.exponent).toNat := Nat.pow_le_pow_right (by decide) hshift
        _ ≤ n * 2 ^ (-x.exponent).toNat := Nat.le_mul_of_pos_left _ (Nat.pos_of_ne_zero hn)
    exact absurd hshort (Nat.not_lt.mpr hlarge)
  · exact ⟨hlow, hhigh⟩

/-- **A decimal without a fraction that reads back as a whole number is the number.** -/
theorem num_of_readsBack {d : Decimal} (h : x.IsWhole n) (hn : n ≠ 0) (hpower : 0 ≤ d.power)
    (hread : x.readsBack d = true) : d.num = n := by
  have hread : ofDecimal? false d = some x := by
    rw [readsBack, h.nonneg] at hread
    exact beq_iff_eq.mp hread
  by_cases hzero : d.significand = 0
  · have hx : x = zero false := by
      rw [ofDecimal?, Decimal.trim, if_pos hzero] at hread
      exact (Option.some.inj hread).symm
    have hfull := (h.full hn).1
    rw [hx] at hfull
    exact absurd hfull (by decide)
  · rw [ofDecimal?_of_nonneg hzero hpower] at hread
    split_ifs at hread
    have hnum : d.num ≠ 0 := Nat.mul_ne_zero hzero (Nat.ne_of_gt (Nat.pow_pos (by decide)))
    exact (isWhole_of_ofRatio? hnum hread h.exponent_le).inj h

theorem IsWhole.lt (h : x.IsWhole n) (hn : n ≠ 0) : n < 2 ^ 53 :=
  calc n ≤ n * 2 ^ (-x.exponent).toNat := Nat.le_mul_of_pos_right n (Nat.two_pow_pos _)
    _ = x.significand := h.significand_eq.symm
    _ < 2 ^ 53 := (h.full hn).2

/-- A whole number is read back from its digits. -/
theorem readsBack_of_isWhole (h : x.IsWhole n) (hn : n ≠ 0) (hx : ofRatio? false n 1 = some x) :
    x.readsBack ⟨n, 0⟩ = true := by
  have htrim : Decimal.trim ⟨n, 0⟩ = Decimal.trimZeros n 0 := if_neg hn
  obtain ⟨hnonneg, hsignificand, hnum⟩ := Decimal.trimZeros_of_nonneg hn (Int.le_refl 0)
  rw [← htrim] at hnonneg hsignificand hnum
  have hpower : ¬ 310 < (Decimal.trim ⟨n, 0⟩).power := by
    intro hlarge
    have hle : 10 ^ 16 ≤ n :=
      calc 10 ^ 16 ≤ 10 ^ (Decimal.trim ⟨n, 0⟩).power.toNat :=
            Nat.pow_le_pow_right (by decide) (by omega)
        _ ≤ (Decimal.trim ⟨n, 0⟩).num := Nat.le_mul_of_pos_left _ (Nat.pos_of_ne_zero hsignificand)
        _ = n := by rw [hnum]; exact Nat.mul_one n
    exact absurd (Nat.lt_of_le_of_lt hle (h.lt hn)) (by decide)
  have hread : ofDecimal? false ⟨n, 0⟩ = some x := by
    rw [ofDecimal?_of_nonneg hn (Int.le_refl 0), if_neg hpower, ← hx]
    exact congrArg (ofRatio? false · 1) (Nat.mul_one n)
  rw [readsBack, h.nonneg, hread]
  exact beq_self_eq_true _

/-! ## The search -/

/-- What is found on a grid stands on it and reads back. -/
theorem of_onGrid? {tie : TieRule} {power : Int} {d : Decimal} (h : x.onGrid? tie power = some d) :
    d.power = power ∧ x.readsBack d = true := by
  unfold onGrid? at h
  dsimp only at h
  split_ifs at h
  all_goals
    refine ⟨?_, List.find?_some h⟩
    have hmem := List.mem_of_find?_eq_some h
    simp only [List.mem_cons, List.not_mem_nil, or_false] at hmem
    rcases hmem with rfl | rfl <;> rfl

/-- A whole number is found on the grid of the units. -/
theorem onGrid?_zero {tie : TieRule} (h : x.IsWhole n) (hread : x.readsBack ⟨n, 0⟩ = true) :
    x.onGrid? tie 0 = some ⟨n, 0⟩ := by
  have hpos : 0 < 2 ^ (-x.exponent).toNat := Nat.two_pow_pos _
  have hnum : x.ratio.1 * Nat.pow 10 (-(0 : Int)).toNat = n * 2 ^ (-x.exponent).toNat := by
    rw [h.ratio_eq, ← h.significand_eq]
    exact Nat.mul_one _
  have hden : x.ratio.2 * Nat.pow 10 (0 : Int).toNat = 2 ^ (-x.exponent).toNat := by
    rw [h.ratio_eq]
    exact Nat.mul_one _
  unfold onGrid?
  dsimp only
  rw [hnum, hden, Nat.mul_div_cancel n hpos, Nat.mul_mod_left, if_pos (.inl hpos),
    List.find?_cons_of_pos hread]

/-- The search starts on a coarse grid and reaches that of the units. -/
theorem decimalBound_of_isWhole (h : x.IsWhole n) (hn : n ≠ 0) :
    0 ≤ decimalBound x.ratio.1 x.ratio.2 ∧ decimalBound x.ratio.1 x.ratio.2 < 20 := by
  obtain ⟨hlow, hhigh⟩ := h.full hn
  have hsignificand : x.significand ≠ 0 := by
    have : 0 < 2 ^ 52 := Nat.two_pow_pos 52
    omega
  have hlog : x.significand.log2 = 52 := by
    have hle : 52 ≤ x.significand.log2 := (Nat.le_log2 hsignificand).mpr hlow
    have hlt : x.significand.log2 < 53 := (Nat.log2_lt hsignificand).mpr hhigh
    omega
  have hshift : (-x.exponent).toNat < 53 := by
    have hlt : 2 ^ (-x.exponent).toNat < 2 ^ 53 :=
      calc 2 ^ (-x.exponent).toNat ≤ n * 2 ^ (-x.exponent).toNat :=
            Nat.le_mul_of_pos_left _ (Nat.pos_of_ne_zero hn)
        _ = x.significand := h.significand_eq.symm
        _ < 2 ^ 53 := hhigh
    exact (Nat.pow_lt_pow_iff_right (by decide)).mp hlt
  rw [h.ratio_eq, decimalBound, hlog, Nat.log2_two_pow]
  omega

/-- A search through falling powers does not pass a power at which something is found. -/
theorem exists_findSome?_of_mem {α : Type} {f : Int → Option α} {powers : List Int} {p : Int}
    {a : α} (hfalling : powers.Pairwise (· > ·)) (hmem : p ∈ powers) (hp : f p = some a) :
    ∃ q b, p ≤ q ∧ f q = some b ∧ powers.findSome? f = some b := by
  induction powers with
  | nil => cases hmem
  | cons q rest ih =>
      obtain ⟨hq, hrest⟩ := List.pairwise_cons.mp hfalling
      cases hfound : f q with
      | some b =>
          have hle : p ≤ q := by
            rcases List.mem_cons.mp hmem with rfl | hmem
            · exact Int.le_refl p
            · exact Int.le_of_lt (hq p hmem)
          exact ⟨q, b, hle, hfound, by rw [List.findSome?_cons, hfound]⟩
      | none =>
          have hmem : p ∈ rest := by
            rcases List.mem_cons.mp hmem with rfl | hmem
            · cases hfound.symm.trans hp
            · exact hmem
          obtain ⟨q', b, hle, hq', hb⟩ := ih hrest hmem
          exact ⟨q', b, hle, hq', by rw [List.findSome?_cons, hfound]; exact hb⟩

/-- **The shortest decimal of a whole number is the number**, whatever the rule for ties. -/
theorem shortest_of_isWhole {tie : TieRule} (h : x.IsWhole n) (hn : n ≠ 0)
    (hx : ofRatio? false n 1 = some x) : x.shortest tie = Decimal.trim ⟨n, 0⟩ := by
  have hunits : x.onGrid? tie 0 = some ⟨n, 0⟩ := onGrid?_zero h (readsBack_of_isWhole h hn hx)
  obtain ⟨hlow, hhigh⟩ := decimalBound_of_isWhole h hn
  generalize hbound : decimalBound x.ratio.1 x.ratio.2 = bound at hlow hhigh
  have hmem : (0 : Int) ∈ (List.range 20).map fun (i : Nat) => bound - i :=
    List.mem_map.mpr ⟨bound.toNat, List.mem_range.mpr (by omega), by omega⟩
  have hfalling : ((List.range 20).map fun (i : Nat) => bound - i).Pairwise (· > ·) :=
    List.pairwise_map.mpr (List.pairwise_lt_range.imp fun hij => by omega)
  obtain ⟨power, d, hpower, hgrid, hfound⟩ := exists_findSome?_of_mem hfalling hmem hunits
  obtain ⟨hplace, hread⟩ := of_onGrid? hgrid
  have hnum : d.num = n := num_of_readsBack h hn (by omega) hread
  have hshift : d.power = 0 + (d.power.toNat : Int) := by omega
  unfold shortest
  dsimp only
  rw [hbound, hfound, Option.getD_some]
  calc d.trim = Decimal.trim ⟨d.significand, 0 + (d.power.toNat : Int)⟩ := by rw [← hshift]
    _ = Decimal.trim ⟨d.significand * 10 ^ d.power.toNat, 0⟩ :=
      (Decimal.trim_mul_pow _ _ _).symm
    _ = Decimal.trim ⟨n, 0⟩ := congrArg (fun m => Decimal.trim ⟨m, 0⟩) hnum

/-! ## The text -/

theorem plainText_of_isWhole (h : x.IsWhole n) (hn : n ≠ 0) (hx : ofRatio? false n 1 = some x) :
    x.plainText = decimalText n := by
  have htrim : Decimal.trim ⟨n, 0⟩ = Decimal.trimZeros n 0 := if_neg hn
  have hsign : x.sign = [] := by
    rw [sign, h.nonneg]
    rfl
  rw [plainText, hsign, shortest_of_isWhole h hn hx, htrim,
    positional_trimZeros hn (Int.le_refl 0)]
  exact List.append_nil _

/-- **A number up to `2 ^ 53` is written as its digits.** -/
theorem plainText_ofRatio? {n : Nat} (hle : n ≤ 2 ^ 53) :
    ∃ x, ofRatio? false n 1 = some x ∧ x.plainText = decimalText n := by
  rcases Nat.lt_or_eq_of_le hle with hlt | rfl
  · by_cases hn : n = 0
    · subst hn
      exact ⟨zero false, rfl, by decide +kernel⟩
    · obtain ⟨x, hx, hwhole⟩ := exists_isWhole hn hlt
      exact ⟨x, hx, plainText_of_isWhole hwhole hn hx⟩
  · -- the last one has an exponent above zero, so it is looked at by itself
    have hlast : (ofRatio? false (2 ^ 53) 1).map plainText = some (decimalText (2 ^ 53)) := by
      decide +kernel
    exact Option.map_eq_some_iff.mp hlast

end Binary64

end SchemaQuery.Numeric
