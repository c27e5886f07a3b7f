import Mathlib.Data.List.TakeWhile
import SchemaQuery.Json.Reader
import SchemaQuery.Json.Writer

/-!
# JSON text says what it was written from

Two trees with the same text have the same shape, with the same keys and strings; only what
stands behind the text of a number is not asked.  So the text of an array is the list of the
texts of its items, and the text of an object that of its keys with the texts of their values.

The reason is that a text shows where it ends: a string at its quotation mark, an array or an
object at its bracket, and a number at the first character that no number is written with.
Nothing of that needs a reader of whole texts; for strings the reader of their pieces is used,
since it undoes every escape.

## Main definitions

* `Ends` - no number goes on into a text.
* `Tree.Delimits` - the text of a tree shows where it ends.

## Main statements

* `readPieces_escaped` - an escaped string is read back, and `renderString_append_inj` - so it
  is told by its text.
* `Tree.delimits` - the text of every tree shows where it ends.
* `Tree.render_array_inj`, `Tree.render_object_inj` - the texts of arrays and objects are
  those of their parts.
-/

namespace SchemaQuery.Json

open Numeric (Binary64 Decimal decimalText digitChar digitsOf intText)

/-! ## Strings -/

/-- An escape by a letter is read as the character that it stands for. -/
theorem readPieces_shortEscape {e c : Char} (h : shortEscape? e = some c) (rest : List Char) :
    readPieces ('\\' :: e :: rest) =
      (readPieces rest).map fun read => (.char c :: read.1, read.2) := by
  rw [readPieces, h]
  · cases readPieces rest <;> rfl
  · rintro _ _ _ _ _ rfl _
    cases h

/-- The number of a control character is read as the character. -/
theorem readPieces_control {c : Char} (h : c.toNat < 0x20) (rest : List Char) :
    readPieces ('\\' :: 'u' :: '0' :: '0' :: Text.hexDigit (c.toNat / 16)
        :: Text.hexDigit (c.toNat % 16) :: rest) =
      (readPieces rest).map fun read => (.char c :: read.1, read.2) := by
  have hunit : ∀ n < 0x20, hexUnit? '0' '0' (Text.hexDigit (n / 16)) (Text.hexDigit (n % 16))
      = some n ∧ Piece.ofUnit n = .char (Char.ofNat n) := by decide
  obtain ⟨hread, hpiece⟩ := hunit c.toNat h
  rw [readPieces, hread]
  rw [Char.ofNat_toNat] at hpiece
  cases readPieces rest <;> simp [hpiece]

/-- Any other character is read as it is. -/
theorem readPieces_plain {c : Char} (hquote : c ≠ '"') (hbackslash : c ≠ '\\')
    (hcontrol : ¬c.toNat < 0x20) (rest : List Char) :
    readPieces (c :: rest) = (readPieces rest).map fun read => (.char c :: read.1, read.2) := by
  rw [readPieces, if_neg (not_or.mpr ⟨hbackslash, hcontrol⟩)]
  · cases readPieces rest <;> rfl
  · exact hquote
  · intro _ _ _ _ _ h _
    exact hbackslash h
  · intro _ _ h _
    exact hbackslash h

theorem escapeChar_ne_nil (c : Char) : escapeChar c ≠ [] := by
  unfold escapeChar
  split
  case h_8 =>
    split_ifs
    · exact List.cons_ne_nil _ _
    · exact List.cons_ne_nil _ _
  all_goals exact List.cons_ne_nil _ _

/-- An escaped character is read back as the character. -/
theorem readPieces_escapeChar (c : Char) (rest : List Char) :
    readPieces (escapeChar c ++ rest) =
      (readPieces rest).map fun read => (.char c :: read.1, read.2) := by
  unfold escapeChar
  split
  case h_8 hquote hbackslash _ _ _ _ _ =>
    split
    · exact readPieces_control ‹_› rest
    · exact readPieces_plain hquote hbackslash ‹_› rest
  all_goals exact readPieces_shortEscape rfl rest

/-- The pieces of a written string are its characters. -/
theorem readPieces_escaped (cs rest : List Char) :
    readPieces (cs.flatMap escapeChar ++ '"' :: rest) = some (cs.map .char, rest) := by
  induction cs with
  | nil => rw [List.flatMap_nil, List.nil_append, readPieces, List.map_nil]
  | cons c cs ih =>
      rw [List.flatMap_cons, List.append_assoc, readPieces_escapeChar, ih]
      rfl

/-- **A string shows where it ends**, and no other string is written like it. -/
theorem renderString_append_inj {s t : String} {rest rest' : List Char}
    (h : renderString s ++ rest = renderString t ++ rest') : s = t ∧ rest = rest' := by
  have hread (u : String) (r : List Char) :
      readPieces ((renderString u ++ r).tail) = some (u.toList.map .char, r) := by
    rw [renderString, List.cons_append, List.cons_append, List.tail_cons, List.append_assoc]
    exact readPieces_escaped u.toList r
  have hsame : some (s.toList.map Piece.char, rest) = some (t.toList.map Piece.char, rest') := by
    rw [← hread, ← hread, h]
  obtain ⟨hchars, hrest⟩ := Prod.mk.inj (Option.some.inj hsame)
  exact ⟨String.toList_inj.mp ((List.map_inj_right fun _ _ => Piece.char.inj).mp hchars), hrest⟩

/-! ## Numbers -/

/-- The characters that numbers are written with. -/
def isNumberChar (c : Char) : Bool := c.isDigit || c == '-' || c == '+' || c == '.' || c == 'e'

/-- A text of such characters. -/
def NumberText (cs : List Char) : Prop := cs.all isNumberChar = true

instance (cs : List Char) : Decidable (NumberText cs) := inferInstanceAs (Decidable (_ = true))

theorem numberText_iff {cs : List Char} : NumberText cs ↔ ∀ c ∈ cs, isNumberChar c = true :=
  List.all_eq_true

theorem numberText_append {xs ys : List Char} :
    NumberText (xs ++ ys) ↔ NumberText xs ∧ NumberText ys := by
  simp only [numberText_iff, List.forall_mem_append]

theorem numberText_cons {c : Char} {cs : List Char} :
    NumberText (c :: cs) ↔ isNumberChar c = true ∧ NumberText cs := by
  simp only [numberText_iff, List.forall_mem_cons]

theorem NumberText.subset {xs ys : List Char} (h : NumberText ys) (hsub : xs ⊆ ys) :
    NumberText xs :=
  numberText_iff.mpr fun c hc => numberText_iff.mp h c (hsub hc)

theorem numberText_decimalText (n : Nat) : NumberText (decimalText n) := by
  refine numberText_iff.mpr fun c hc => ?_
  obtain ⟨d, hd, rfl⟩ := List.mem_map.mp hc
  have hdigit : ∀ d < 10, isNumberChar (digitChar d) = true := by decide
  exact hdigit d (Numeric.digitsOf_lt_ten n d hd)

theorem decimalText_ne_nil (n : Nat) : decimalText n ≠ [] := by
  rw [decimalText, Ne, List.map_eq_nil_iff]
  exact Numeric.digitsOf_ne_nil n

theorem numberText_zeros (n : Nat) : NumberText (Numeric.zeros n) := by
  refine numberText_iff.mpr fun c hc => ?_
  rw [List.eq_of_mem_replicate hc]
  decide

theorem numberText_positional (d : Decimal) : NumberText d.positional := by
  have hdigits := numberText_decimalText d.significand
  unfold Decimal.positional
  dsimp only
  split_ifs
  · exact numberText_append.mpr ⟨hdigits, numberText_zeros _⟩
  · refine numberText_append.mpr ⟨hdigits.subset (List.take_subset _ _), ?_⟩
    exact numberText_cons.mpr ⟨by decide, hdigits.subset (List.drop_subset _ _)⟩
  · refine numberText_append.mpr ⟨?_, hdigits⟩
    exact numberText_cons.mpr ⟨by decide, numberText_cons.mpr ⟨by decide, numberText_zeros _⟩⟩

theorem positional_ne_nil (d : Decimal) : d.positional ≠ [] := by
  unfold Decimal.positional
  dsimp only
  split_ifs
  · exact List.append_ne_nil_of_left_ne_nil (decimalText_ne_nil _) _
  · exact List.append_ne_nil_of_right_ne_nil _ (List.cons_ne_nil _ _)
  · exact List.append_ne_nil_of_left_ne_nil (List.cons_ne_nil _ _) _

theorem numberText_scientific (d : Decimal) : NumberText d.scientific := by
  have hdigits := numberText_decimalText d.significand
  unfold Decimal.scientific
  dsimp only
  refine numberText_append.mpr ⟨?_, ?_⟩
  · split
    · rename_i first second rest hsplit
      rw [hsplit] at hdigits
      obtain ⟨hfirst, hrest⟩ := numberText_cons.mp hdigits
      exact numberText_cons.mpr ⟨hfirst, numberText_cons.mpr ⟨by decide, hrest⟩⟩
    · exact hdigits
  · refine numberText_cons.mpr ⟨by decide, numberText_cons.mpr ⟨?_, numberText_decimalText _⟩⟩
    split_ifs <;> decide

theorem scientific_ne_nil (d : Decimal) : d.scientific ≠ [] :=
  List.append_ne_nil_of_right_ne_nil _ (List.cons_ne_nil _ _)

theorem numberText_dataText (x : Binary64) : NumberText x.dataText := by
  unfold Binary64.dataText Binary64.sign
  dsimp only
  refine numberText_append.mpr ⟨?_, ?_⟩
  · split_ifs <;> decide
  · split_ifs
    · decide
    · exact numberText_scientific _
    · exact numberText_append.mpr ⟨numberText_positional _, by decide⟩
    · exact numberText_positional _

theorem dataText_ne_nil (x : Binary64) : x.dataText ≠ [] := by
  unfold Binary64.dataText
  dsimp only
  refine List.append_ne_nil_of_right_ne_nil _ ?_
  split_ifs
  · exact List.cons_ne_nil _ _
  · exact scientific_ne_nil _
  · exact List.append_ne_nil_of_left_ne_nil (positional_ne_nil _) _
  · exact positional_ne_nil _

theorem Number.numberText_render (n : Number) : NumberText n.render := by
  cases n with
  | int i =>
      show NumberText (intText i)
      unfold intText
      split_ifs
      · exact numberText_cons.mpr ⟨by decide, numberText_decimalText _⟩
      · exact numberText_decimalText _
  | float x => exact numberText_dataText x

theorem Number.render_ne_nil (n : Number) : n.render ≠ [] := by
  cases n with
  | int i =>
      show intText i ≠ []
      unfold intText
      split_ifs
      · exact List.cons_ne_nil _ _
      · exact decimalText_ne_nil _
  | float x => exact dataText_ne_nil x

/-- No number goes on into a text. -/
def Ends (rest : List Char) : Prop := ∀ c ∈ rest.head?, isNumberChar c = false

theorem ends_cons {c : Char} {rest : List Char} (h : isNumberChar c = false) :
    Ends (c :: rest) := fun _ hc => Option.some.inj hc ▸ h

/-- A number shows where it ends, if what follows it is not the text of a number. -/
theorem numberText_append_inj {xs ys rest rest' : List Char} (hx : NumberText xs)
    (hy : NumberText ys) (hrest : Ends rest) (hrest' : Ends rest')
    (h : xs ++ rest = ys ++ rest') : xs = ys ∧ rest = rest' := by
  have hrun {cs r : List Char} (hcs : NumberText cs) (hr : Ends r) :
      (cs ++ r).takeWhile isNumberChar = cs := by
    have hstop : r.takeWhile isNumberChar = [] := by
      cases r with
      | nil => rfl
      | cons c r => rw [List.takeWhile_cons, hr c rfl]; rfl
    rw [List.takeWhile_append_of_pos (numberText_iff.mp hcs), hstop, List.append_nil]
  have hxy : xs = ys := by rw [← hrun hx hrest, h, hrun hy hrest']
  exact ⟨hxy, List.append_cancel_left (hxy ▸ h)⟩

/-! ## Lists with commas -/

/-- Items one after the other, separated by commas. -/
def joined (items : List (List Char)) : List Char := [','].intercalate items

theorem joined_singleton (item : List Char) : joined [item] = item := List.intercalate_singleton

theorem joined_cons_cons (item next : List Char) (rest : List (List Char)) :
    joined (item :: next :: rest) = item ++ ',' :: joined (next :: rest) := by
  rw [joined, List.intercalate_cons_cons, List.append_assoc]
  rfl

/-- **A list shows where it ends** if its items do: behind an item stands a comma or the
closing bracket, and no item begins with the bracket. -/
theorem joined_append_inj {close : Char} {xs ys : List (List Char)} {rest rest' : List Char}
    (hitem : ∀ x ∈ xs, ∀ y ∈ ys, ∀ r r', Ends r → Ends r' → x ++ r = y ++ r' → x = y ∧ r = r')
    (hx : ∀ x ∈ xs, ∀ r r', x ++ r ≠ close :: r') (hy : ∀ y ∈ ys, ∀ r r', y ++ r ≠ close :: r')
    (hclose : isNumberChar close = false) (hcomma : close ≠ ',')
    (h : joined xs ++ close :: rest = joined ys ++ close :: rest') : xs = ys ∧ rest = rest' := by
  have hends (r : List Char) : Ends (close :: r) := ends_cons hclose
  have hends' (r : List Char) : Ends (',' :: r) := ends_cons (by decide)
  have hstart (x : List Char) (xs : List (List Char)) (r : List Char) :
      ∃ tail, joined (x :: xs) ++ r = x ++ tail := by
    cases xs with
    | nil => exact ⟨r, by rw [joined_singleton]⟩
    | cons next xs =>
        exact ⟨',' :: joined (next :: xs) ++ r, by rw [joined_cons_cons, List.append_assoc]⟩
  induction xs generalizing ys with
  | nil =>
      cases ys with
      | nil => exact ⟨rfl, (List.cons.inj h).2⟩
      | cons y ys =>
          obtain ⟨tail, htail⟩ := hstart y ys (close :: rest')
          exact absurd (htail.symm.trans h.symm) (hy y List.mem_cons_self tail rest)
  | cons x xs ih =>
      cases ys with
      | nil =>
          obtain ⟨tail, htail⟩ := hstart x xs (close :: rest)
          exact absurd (htail.symm.trans h) (hx x List.mem_cons_self tail rest')
      | cons y ys =>
          have hhead := hitem x List.mem_cons_self y List.mem_cons_self
          cases xs with
          | nil =>
              cases ys with
              | nil =>
                  rw [joined_singleton, joined_singleton] at h
                  obtain ⟨rfl, hrest⟩ := hhead _ _ (hends _) (hends _) h
                  exact ⟨rfl, (List.cons.inj hrest).2⟩
              | cons z zs =>
                  rw [joined_singleton, joined_cons_cons, List.append_assoc] at h
                  obtain ⟨-, hrest⟩ := hhead _ _ (hends _) (hends' _) h
                  exact absurd (List.cons.inj hrest).1 hcomma
          | cons z zs =>
              cases ys with
              | nil =>
                  rw [joined_singleton, joined_cons_cons, List.append_assoc] at h
                  obtain ⟨-, hrest⟩ := hhead _ _ (hends' _) (hends _) h
                  exact absurd (List.cons.inj hrest).1.symm hcomma
              | cons w ws =>
                  rw [joined_cons_cons, joined_cons_cons, List.append_assoc,
                    List.append_assoc] at h
                  obtain ⟨rfl, hrest⟩ := hhead _ _ (hends' _) (hends' _) h
                  obtain ⟨htail, hrest⟩ := ih
                    (fun x hx y hy => hitem x (List.mem_cons_of_mem _ hx) y
                      (List.mem_cons_of_mem _ hy))
                    (fun x h => hx x (List.mem_cons_of_mem _ h))
                    (fun y h => hy y (List.mem_cons_of_mem _ h)) (List.cons.inj hrest).2
                  exact ⟨by rw [htail], hrest⟩

/-! ## Trees -/

namespace Tree

/-- A member as it is written. -/
def renderMember (member : String × Tree) : List Char :=
  renderString member.1 ++ ':' :: member.2.render

theorem renderItems_eq_joined (items : List Tree) :
    renderItems items = joined (items.map render) := by
  induction items with
  | nil => rfl
  | cons item rest ih =>
      cases rest with
      | nil => rw [renderItems, List.map_singleton, joined_singleton]
      | cons next rest =>
          rw [renderItems, ih]
          exact (joined_cons_cons _ _ _).symm

theorem renderMembers_eq_joined (members : List (String × Tree)) :
    renderMembers members = joined (members.map renderMember) := by
  induction members with
  | nil => rfl
  | cons member rest ih =>
      cases rest with
      | nil => rw [renderMembers, List.map_singleton, joined_singleton, renderMember]
      | cons next rest =>
          rw [renderMembers, ih]
          exact (joined_cons_cons _ _ _).symm

/-- One more last member stands behind a comma. -/
theorem renderMembers_concat {members : List (String × Tree)} (hne : members ≠ [])
    (last : String × Tree) :
    renderMembers (members ++ [last]) = renderMembers members ++ ',' :: renderMember last := by
  induction members with
  | nil => exact absurd rfl hne
  | cons member rest ih =>
      cases rest with
      | nil => rfl
      | cons next rest =>
          rw [List.cons_append, List.cons_append, renderMembers, ← List.cons_append,
            ih (List.cons_ne_nil _ _), renderMembers]
          simp only [List.append_assoc, List.cons_append]

/-- What the first character of a text tells of its tree. -/
inductive Kind where
  | null
  | bool
  | number
  | text
  | array
  | object

/-- The kind of a tree. -/
def kind : Tree → Kind
  | .null => .null
  | .bool _ => .bool
  | .number _ => .number
  | .text _ => .text
  | .array _ => .array
  | .object _ => .object

/-- The kind of the trees whose text begins with a character. -/
def kindOf (c : Char) : Kind :=
  match c with
  | 'n' => .null
  | 't' | 'f' => .bool
  | '"' => .text
  | '[' => .array
  | '\x7b' => .object
  | _ => .number

/-- The text of a tree begins with a character that tells its kind, and closes no bracket. -/
theorem exists_render_eq_cons (t : Tree) :
    ∃ c rest, t.render = c :: rest ∧ kindOf c = t.kind ∧ c ≠ ']' := by
  cases t with
  | null => exact ⟨_, _, rfl, rfl, by decide⟩
  | bool b => cases b <;> exact ⟨_, _, rfl, rfl, by decide⟩
  | text s => exact ⟨_, _, rfl, rfl, by decide⟩
  | array items => exact ⟨_, _, rfl, rfl, by decide⟩
  | object members => exact ⟨_, _, rfl, rfl, by decide⟩
  | number n =>
      obtain ⟨c, rest, hlist⟩ := List.exists_cons_of_ne_nil n.render_ne_nil
      have hc : isNumberChar c = true := (numberText_cons.mp (hlist ▸ n.numberText_render)).1
      refine ⟨c, rest, hlist, ?_, ?_⟩
      · unfold kindOf
        split
        case h_7 => rfl
        all_goals exact absurd hc (by decide)
      · rintro rfl
        exact absurd hc (by decide)

/-- The text of a tree shows where it ends. -/
def Delimits (t : Tree) : Prop :=
  ∀ (t' : Tree) (rest rest' : List Char), Ends rest → Ends rest' →
    t.render ++ rest = t'.render ++ rest' → t.render = t'.render ∧ rest = rest'

/-- Trees are told apart by kind. -/
theorem kind_eq_of_render_append {t t' : Tree} {rest rest' : List Char}
    (h : t.render ++ rest = t'.render ++ rest') : t.kind = t'.kind := by
  obtain ⟨c, tail, ht, hc, -⟩ := t.exists_render_eq_cons
  obtain ⟨c', tail', ht', hc', -⟩ := t'.exists_render_eq_cons
  rw [ht, ht'] at h
  rw [← hc, ← hc', (List.cons.inj h).1]

theorem renderItems_append_inj {xs ys : List Tree} {rest rest' : List Char}
    (hxs : ∀ x ∈ xs, x.Delimits)
    (h : renderItems xs ++ ']' :: rest = renderItems ys ++ ']' :: rest') :
    xs.map render = ys.map render ∧ rest = rest' := by
  have hopen (t : Tree) (r r' : List Char) : t.render ++ r ≠ ']' :: r' := by
    intro hclose
    obtain ⟨c, tail, ht, -, hne⟩ := t.exists_render_eq_cons
    rw [ht] at hclose
    exact hne (List.cons.inj hclose).1
  rw [renderItems_eq_joined, renderItems_eq_joined] at h
  refine joined_append_inj ?_ ?_ ?_ (by decide) (by decide) h
  · intro x hx y hy r r' hr hr' hxy
    obtain ⟨t, ht, rfl⟩ := List.mem_map.mp hx
    obtain ⟨t', -, rfl⟩ := List.mem_map.mp hy
    exact hxs t ht t' r r' hr hr' hxy
  · exact List.forall_mem_map.mpr fun t _ => hopen t
  · exact List.forall_mem_map.mpr fun t _ => hopen t

/-- A member as its key and the text of its value. -/
def written (member : String × Tree) : String × List Char := (member.1, member.2.render)

/-- The key of a member and the text of its value can be told from its text. -/
theorem map_renderMember_inj {ms ns : List (String × Tree)} :
    ms.map renderMember = ns.map renderMember ↔ ms.map written = ns.map written := by
  let write (member : String × List Char) : List Char := renderString member.1 ++ ':' :: member.2
  have hwrite (members : List (String × Tree)) :
      members.map renderMember = (members.map written).map write := by
    rw [List.map_map]
    rfl
  have hinjective (m n : String × List Char) (h : write m = write n) : m = n := by
    obtain ⟨hkey, hvalue⟩ := renderString_append_inj h
    exact Prod.ext hkey (List.cons.inj hvalue).2
  rw [hwrite, hwrite, List.map_inj_right hinjective]

theorem renderMembers_append_inj {ms ns : List (String × Tree)} {rest rest' : List Char}
    (hms : ∀ m ∈ ms, m.2.Delimits)
    (h : renderMembers ms ++ '\x7d' :: rest = renderMembers ns ++ '\x7d' :: rest') :
    ms.map written = ns.map written ∧ rest = rest' := by
  have hopen (m : String × Tree) (r r' : List Char) : renderMember m ++ r ≠ '\x7d' :: r' := by
    intro hclose
    exact absurd (List.cons.inj hclose).1 (by decide)
  rw [renderMembers_eq_joined, renderMembers_eq_joined] at h
  rw [← map_renderMember_inj]
  refine joined_append_inj ?_ ?_ ?_ (by decide) (by decide) h
  · intro x hx y hy r r' hr hr' hxy
    obtain ⟨m, hm, rfl⟩ := List.mem_map.mp hx
    obtain ⟨n, -, rfl⟩ := List.mem_map.mp hy
    simp only [renderMember, List.append_assoc, List.cons_append] at hxy
    obtain ⟨hkey, hvalue⟩ := renderString_append_inj hxy
    obtain ⟨hsame, hrest⟩ := hms m hm n.2 r r' hr hr' (List.cons.inj hvalue).2
    exact ⟨by rw [renderMember, renderMember, hkey, hsame], hrest⟩
  · exact List.forall_mem_map.mpr fun m _ => hopen m
  · exact List.forall_mem_map.mpr fun m _ => hopen m

mutual

/-- **The text of every tree shows where it ends.** -/
theorem delimits : ∀ t : Tree, t.Delimits
  | .null => by
      intro t' rest rest' _ _ h
      have hkind := kind_eq_of_render_append h
      cases t' with
      | null => exact ⟨rfl, List.append_cancel_left h⟩
      | _ => cases hkind
  | .bool b => by
      intro t' rest rest' _ _ h
      have hkind := kind_eq_of_render_append h
      cases t' with
      | bool b' => cases b <;> cases b' <;> simp_all [render]
      | _ => cases hkind
  | .number n => by
      intro t' rest rest' hrest hrest' h
      have hkind := kind_eq_of_render_append h
      cases t' with
      | number n' =>
          exact numberText_append_inj n.numberText_render n'.numberText_render hrest hrest' h
      | _ => cases hkind
  | .text s => by
      intro t' rest rest' _ _ h
      have hkind := kind_eq_of_render_append h
      cases t' with
      | text s' =>
          obtain ⟨rfl, hrest⟩ := renderString_append_inj h
          exact ⟨rfl, hrest⟩
      | _ => cases hkind
  | .array xs => by
      intro t' rest rest' _ _ h
      have hkind := kind_eq_of_render_append h
      cases t' with
      | array ys =>
          simp only [render, List.cons_append, List.append_assoc, List.nil_append] at h
          obtain ⟨hitems, hrest⟩ := renderItems_append_inj (delimits_items xs) (List.cons.inj h).2
          refine ⟨?_, hrest⟩
          rw [render, render, renderItems_eq_joined, renderItems_eq_joined, hitems]
      | _ => cases hkind
  | .object ms => by
      intro t' rest rest' _ _ h
      have hkind := kind_eq_of_render_append h
      cases t' with
      | object ns =>
          simp only [render, List.cons_append, List.append_assoc, List.nil_append] at h
          obtain ⟨hmembers, hrest⟩ :=
            renderMembers_append_inj (delimits_members ms) (List.cons.inj h).2
          refine ⟨?_, hrest⟩
          rw [render, render, renderMembers_eq_joined, renderMembers_eq_joined,
            map_renderMember_inj.mpr hmembers]
      | _ => cases hkind

theorem delimits_items : ∀ xs : List Tree, ∀ x ∈ xs, x.Delimits
  | [], _, hx => absurd hx List.not_mem_nil
  | x :: rest, y, hy => by
      rcases List.mem_cons.mp hy with hx | hy
      · exact hx ▸ delimits x
      · exact delimits_items rest y hy

theorem delimits_members : ∀ ms : List (String × Tree), ∀ m ∈ ms, m.2.Delimits
  | [], _, hm => absurd hm List.not_mem_nil
  | (key, value) :: rest, n, hn => by
      rcases List.mem_cons.mp hn with hm | hn
      · exact hm ▸ delimits value
      · exact delimits_members rest n hn

end

/-! ## Equal texts -/

theorem toText_inj {t t' : Tree} : t.toText = t'.toText ↔ t.render = t'.render := by
  rw [toText, toText, String.ofList_inj]

@[simp] theorem render_text_inj {s s' : String} :
    (Tree.text s).render = (Tree.text s').render ↔ s = s' := by
  constructor
  · intro h
    exact (renderString_append_inj (congrArg (· ++ []) h)).1
  · rintro rfl
    rfl

@[simp] theorem render_bool_inj {b b' : Bool} :
    (Tree.bool b).render = (Tree.bool b').render ↔ b = b' := by
  cases b <;> cases b' <;> decide

/-- **The text of an array is that of its items.** -/
@[simp] theorem render_array_inj {xs ys : List Tree} :
    (Tree.array xs).render = (Tree.array ys).render ↔ xs.map render = ys.map render := by
  rw [render, render, List.cons_append, List.cons_append]
  constructor
  · intro h
    exact (renderItems_append_inj (delimits_items xs) (List.cons.inj h).2).1
  · intro h
    rw [renderItems_eq_joined, renderItems_eq_joined, h]

/-- **The text of an object is that of its keys and values.** -/
@[simp] theorem render_object_inj {ms ns : List (String × Tree)} :
    (Tree.object ms).render = (Tree.object ns).render ↔ ms.map written = ns.map written := by
  rw [render, render, List.cons_append, List.cons_append]
  constructor
  · intro h
    exact (renderMembers_append_inj (delimits_members ms) (List.cons.inj h).2).1
  · intro h
    rw [renderMembers_eq_joined, renderMembers_eq_joined, map_renderMember_inj.mpr h]

end Tree

end SchemaQuery.Json
