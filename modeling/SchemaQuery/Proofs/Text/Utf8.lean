import Mathlib.Data.List.Basic
import Mathlib.Data.String.Basic
import SchemaQuery.Text.Utf8

/-!
# Texts as bytes

A text is encoded one character after the other, and every character is had back from its
bytes, whatever follows them.  The bytes of texts are ordered as the texts are.

## Main statements

* `toList_toUTF8` - the bytes of a text are those of its characters.
* `symbols_toUTF8`, `decode?_toUTF8` - **a text is read back from its bytes.**
* `toUTF8_lt_iff` - **texts are ordered as their bytes.**
-/

namespace SchemaQuery.Text

open String (utf8EncodeChar)

/-! ## Encoding -/

theorem toList_loop (bytes : ByteArray) (i : Nat) (front : List UInt8) :
    ByteArray.toList.loop bytes i front = front.reverse ++ bytes.data.toList.drop i := by
  fun_induction ByteArray.toList.loop bytes i front with
  | case1 i front hlt ih =>
      have hlength : i < bytes.data.toList.length := hlt
      have hbyte : bytes.get! i = bytes.data.toList[i] := getElem!_pos bytes.data i hlt
      rw [ih, List.drop_eq_getElem_cons hlength, List.reverse_cons, List.append_assoc, hbyte,
        List.singleton_append]
  | case2 i front hge =>
      have hlength : bytes.data.toList.length ≤ i := Nat.le_of_not_lt hge
      rw [List.drop_eq_nil_of_le hlength, List.append_nil]

/-- The bytes of a text are those of its characters. -/
theorem toList_toUTF8 (s : String) : s.toUTF8.toList = s.toList.flatMap utf8EncodeChar := by
  have hbytes : s.toUTF8 = (s.toList.flatMap utf8EncodeChar).toByteArray :=
    (congrArg String.toByteArray s.ofList_toList).symm.trans String.toByteArray_ofList
  rw [hbytes, ByteArray.toList, toList_loop, List.toList_data_toByteArray]
  rfl

/-- A text is not shortened where every part is written with something. -/
theorem length_le_length_flatMap {α β : Type} {f : α → List β} {xs : List α}
    (h : ∀ x ∈ xs, f x ≠ []) : xs.length ≤ (xs.flatMap f).length := by
  induction xs with
  | nil => exact Nat.le_refl _
  | cons x rest ih =>
      obtain ⟨hx, hrest⟩ := List.forall_mem_cons.mp h
      have hpos : 0 < (f x).length := List.length_pos_of_ne_nil hx
      have hle : rest.length ≤ (rest.flatMap f).length := ih hrest
      rw [List.flatMap_cons, List.length_append, List.length_cons]
      omega

theorem utf8EncodeChar_of_lt {c : Char} (h : c.toNat < 0x80) :
    utf8EncodeChar c = [UInt8.ofNat c.toNat] :=
  if_pos (Nat.le_of_lt_succ h)

theorem toNat_ofNat {n : Nat} (h : n < 256) : (UInt8.ofNat n).toNat = n :=
  Nat.mod_eq_of_lt h

/-! ## Reading -/

theorem continuationCount?_eq (first : UInt8) :
    continuationCount? first
      = if first.toNat < 0x80 then some 0
        else if 0xc2 ≤ first.toNat ∧ first.toNat < 0xe0 then some 1
        else if 0xe0 ≤ first.toNat ∧ first.toNat < 0xf0 then some 2
        else if 0xf0 ≤ first.toNat ∧ first.toNat < 0xf5 then some 3
        else none := by
  simp only [continuationCount?, UInt8.lt_iff_toNat_lt, UInt8.le_iff_toNat_le]
  rfl

/-- A character is read if its bytes are as many as the first one announces, and not more than
it takes. -/
theorem firstChar?_append {first : UInt8} {more rest : List UInt8} {c : Char}
    (hcount : continuationCount? first = some more.length)
    (hmore : ∀ byte ∈ more, 0x80 ≤ byte.toNat ∧ byte.toNat < 0xc0)
    (hcode : more.foldl (fun code byte => code * 0x40 + byte.toNat % 0x40)
      (leadBits first more.length) = c.toNat)
    (hleast : leastCode more.length ≤ c.toNat) :
    firstChar? first (more ++ rest) = some (c, more.length) := by
  have hall : more.all (fun byte => 0x80 ≤ byte && byte < 0xc0) = true := by
    refine List.all_eq_true.mpr fun byte hbyte => ?_
    simpa [UInt8.le_iff_toNat_le, UInt8.lt_iff_toNat_lt] using hmore byte hbyte
  have hvalid : c.toNat.isValidChar := c.valid
  simp only [firstChar?, hcount, Option.bind_eq_bind, Option.bind_some, List.take_left, hcode]
  rw [if_pos ⟨trivial, hall, hleast, hvalid⟩, Char.ofNat_toNat]
  rfl

theorem toNat_lt (c : Char) : c.toNat < 0x110000 := by
  have hvalid : c.toNat.isValidChar := c.valid
  rcases hvalid with h | h <;> omega

/-- The first byte of a character announces the others, whatever follows them. -/
theorem exists_firstChar?_eq (c : Char) (rest : List UInt8) :
    ∃ first more, utf8EncodeChar c = first :: more ∧
      firstChar? first (more ++ rest) = some (c, more.length) := by
  have hlt := toNat_lt c
  unfold utf8EncodeChar
  simp only [Char.toNat_val]
  split_ifs with hone htwo hthree
  · refine ⟨_, [], rfl, firstChar?_append ?_ nofun ?_ (Nat.zero_le _)⟩
    · rw [continuationCount?_eq, toNat_ofNat (by omega), if_pos (by omega)]
      rfl
    · exact toNat_ofNat (by omega)
  · refine ⟨_, [_], rfl, firstChar?_append ?_ ?_ ?_ (Nat.lt_of_not_le hone)⟩
    · rw [continuationCount?_eq, toNat_ofNat (by omega), if_neg (by omega), if_pos (by omega)]
      rfl
    · simp (disch := omega) only [List.mem_singleton, forall_eq, toNat_ofNat]
      omega
    · simp (disch := omega) only [List.foldl, leadBits, List.length_singleton, toNat_ofNat]
      omega
  · refine ⟨_, [_, _], rfl, firstChar?_append ?_ ?_ ?_ (Nat.lt_of_not_le htwo)⟩
    · rw [continuationCount?_eq, toNat_ofNat (by omega), if_neg (by omega), if_neg (by omega),
        if_pos (by omega)]
      rfl
    · simp (disch := omega) only [List.forall_mem_cons, toNat_ofNat]
      exact ⟨by omega, by omega, nofun⟩
    · simp (disch := omega) only [List.foldl, leadBits, List.length_cons, List.length_nil,
        toNat_ofNat]
      omega
  · refine ⟨_, [_, _, _], rfl, firstChar?_append ?_ ?_ ?_ (Nat.lt_of_not_le hthree)⟩
    · rw [continuationCount?_eq, toNat_ofNat (by omega), if_neg (by omega), if_neg (by omega),
        if_neg (by omega), if_pos (by omega)]
      rfl
    · simp (disch := omega) only [List.forall_mem_cons, toNat_ofNat]
      exact ⟨by omega, by omega, by omega, nofun⟩
    · simp (disch := omega) only [List.foldl, leadBits, List.length_cons, List.length_nil,
        toNat_ofNat]
      omega

/-- **A character is read back from its bytes.** -/
theorem symbols_utf8EncodeChar (c : Char) (rest : List UInt8) :
    symbols (utf8EncodeChar c ++ rest) = .char c :: symbols rest := by
  obtain ⟨first, more, hbytes, hread⟩ := exists_firstChar?_eq c rest
  rw [hbytes, List.cons_append, symbols, hread]
  simp only [List.drop_left]

/-- **A text is read from its bytes**, character by character. -/
theorem symbols_toUTF8 (s : String) : symbols s.toUTF8.toList = s.toList.map .char := by
  rw [toList_toUTF8]
  induction s.toList with
  | nil => rw [List.flatMap_nil, symbols, List.map_nil]
  | cons c rest ih => rw [List.flatMap_cons, symbols_utf8EncodeChar, ih, List.map_cons]

theorem mapM_char? (cs : List Char) : (cs.map Symbol.char).mapM Symbol.char? = some cs := by
  induction cs with
  | nil => rfl
  | cons c rest ih =>
      rw [List.map_cons, List.mapM_cons, ih]
      rfl

/-- **A text is had back from its bytes.** -/
theorem decode?_toUTF8 (s : String) : decode? s.toUTF8.toList = some s := by
  rw [decode?, symbols_toUTF8, mapM_char?, Option.map_some, s.ofList_toList]

/-! ## Order -/

/-- A number is less than another if its leading digits are, or if they are the same and its
last digit is less. -/
theorem lt_iff_digits {m n : Nat} :
    m < n ↔ m / 64 < n / 64 ∨ m / 64 = n / 64 ∧ m % 64 < n % 64 := by
  omega

theorem ofNat_lt_iff {m n : Nat} (hm : m < 256) (hn : n < 256) :
    UInt8.ofNat m < UInt8.ofNat n ↔ m < n := by
  rw [UInt8.lt_iff_toNat_lt, toNat_ofNat hm, toNat_ofNat hn]

theorem ofNat_eq_iff {m n : Nat} (hm : m < 256) (hn : n < 256) :
    UInt8.ofNat m = UInt8.ofNat n ↔ m = n := by
  rw [← UInt8.toNat_inj, toNat_ofNat hm, toNat_ofNat hn]

/-- The bytes of a lower character are lower, whatever follows. -/
theorem utf8EncodeChar_append_lt {c d : Char} (h : c < d) (rest rest' : List UInt8) :
    utf8EncodeChar c ++ rest < utf8EncodeChar d ++ rest' := by
  have hlt : c.toNat < d.toNat := h
  have hvalid := toNat_lt d
  -- the bytes hold the digits, the leading ones first
  have hdigits := hlt
  rw [lt_iff_digits, lt_iff_digits (m := c.toNat / 64), lt_iff_digits (m := c.toNat / 64 / 64)]
    at hdigits
  simp only [Nat.div_div_eq_div_mul, Nat.reduceMul] at hdigits
  have hlead : c.toNat / 262144 % 8 = c.toNat / 262144 := Nat.mod_eq_of_lt (by omega)
  have hlead' : d.toNat / 262144 % 8 = d.toNat / 262144 := Nat.mod_eq_of_lt (by omega)
  unfold utf8EncodeChar
  simp only [Char.toNat_val]
  split_ifs <;>
    simp (disch := omega) only [List.cons_append, List.nil_append, List.cons_lt_cons_iff,
      ofNat_lt_iff, ofNat_eq_iff, hlead, hlead'] <;>
    omega

theorem flatMap_utf8EncodeChar_lt {cs ds : List Char} (h : cs < ds) :
    cs.flatMap utf8EncodeChar < ds.flatMap utf8EncodeChar := by
  induction cs generalizing ds with
  | nil =>
      cases ds with
      | nil => exact absurd h (List.lt_irrefl _)
      | cons d rest =>
          obtain ⟨byte, more, hbytes⟩ := List.exists_cons_of_ne_nil (String.utf8EncodeChar_ne_nil)
          rw [List.flatMap_nil, List.flatMap_cons, hbytes, List.cons_append]
          exact List.nil_lt_cons _ _
  | cons c rest ih =>
      cases ds with
      | nil => exact absurd h (List.not_lt_nil _)
      | cons d rest' =>
          rw [List.flatMap_cons, List.flatMap_cons]
          rcases List.cons_lt_cons_iff.mp h with hlt | ⟨rfl, hrest⟩
          · exact utf8EncodeChar_append_lt hlt _ _
          · exact List.append_left_lt (ih hrest)

/-- **Texts are ordered as their bytes.** -/
theorem toUTF8_lt_iff {s t : String} : s.toUTF8.toList < t.toUTF8.toList ↔ s < t := by
  have hmono {s t : String} (h : s < t) : s.toUTF8.toList < t.toUTF8.toList := by
    rw [toList_toUTF8, toList_toUTF8]
    exact flatMap_utf8EncodeChar_lt (String.lt_iff_toList_lt.mp h)
  refine ⟨fun h => ?_, hmono⟩
  by_contra hnot
  rcases le_iff_lt_or_eq.mp (String.not_lt.mp hnot) with hlt | rfl
  · exact List.lt_asymm h (hmono hlt)
  · exact List.lt_irrefl _ h

end SchemaQuery.Text
