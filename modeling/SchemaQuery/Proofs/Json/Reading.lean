import SchemaQuery.Json.Decode
import SchemaQuery.Proofs.Json.Numerals
import SchemaQuery.Proofs.Outcome

/-!
# Written text is read

The text of a tree is JSON, and the reader finds in it the tree that was written: every member
in its place, strings without their escapes, and numerals in place of numbers.  That is the
`document` of the tree.  The statement needs no condition on the tree; what its numbers and
objects have to satisfy matters only when the document is given a value.

The reader counts the calls that it nests.  A call is paid for by a character of the text, so
the induction is over the tree with the length of its text as the bound, for any text that may
follow.

## Main definitions

* `Tree.document` - what the reader finds in the text of a tree.
* `Tree.numbers` - the numbers of a tree.
* `Tree.ReadsBack` - all of them read back.

## Main statements

* `Document.parseStart?_toText` - the text of a tree is read as its document.
* `Document.decodeText_eq_ok_iff`, `Document.decodeText_toText` - what data is read from a text,
  and from the text of a tree.
* `Tree.depth_document` - a document nests as deep as its tree.
* `Tree.toTree?_document` - the value of the document of a canonical tree is the tree.
-/

namespace SchemaQuery.Json

namespace Tree

mutual

/-- What the reader finds in the text of a tree. -/
def document : Tree → Document
  | .null => .null
  | .bool b => .bool b
  | .number n => .number n.numeral
  | .text s => .text (some s)
  | .array items => .array (documents items)
  | .object members => .object (documentMembers members)

/-- The documents of the items of an array. -/
def documents : List Tree → List Document
  | [] => []
  | item :: rest => item.document :: documents rest

/-- The members of an object, as the reader finds them. -/
def documentMembers : List (String × Tree) → List (Option String × Document)
  | [] => []
  | (key, value) :: rest => (some key, value.document) :: documentMembers rest

end

end Tree

/-! ## Strings and numbers -/

theorem skipSpace_cons {c : Char} {rest : List Char} (h : isSpace c = false) :
    skipSpace (c :: rest) = c :: rest := by
  rw [skipSpace, List.dropWhile_cons, h]
  rfl

/-- Characters alone are joined as they are. -/
theorem joinPieces_map_char (cs : List Char) : joinPieces (cs.map .char) = some cs := by
  induction cs with
  | nil => rfl
  | cons c cs ih => rw [List.map_cons, joinPieces, ih, Option.map_some]

/-- A written string is read after its quotation mark. -/
theorem readString_escaped (s : String) (rest : List Char) :
    readString (s.toList.flatMap escapeChar ++ '"' :: rest) = some (some s, rest) := by
  rw [readString, readPieces_escaped]
  simp [joinPieces_map_char]

theorem isSpace_of_isNumberChar {c : Char} (h : isNumberChar c = true) : isSpace c = false := by
  by_contra hspace
  simp only [isSpace, Bool.not_eq_false, Bool.or_eq_true, decide_eq_true_eq] at hspace
  rcases hspace with ((rfl | rfl) | rfl) | rfl <;> exact absurd h (by decide)

/-- What begins like a number is read as one. -/
theorem readValue_of_isNumberChar {c : Char} (h : isNumberChar c = true) (fuel : Nat)
    (tail : List Char) :
    readValue (fuel + 1) (c :: tail)
      = (readNumeral (c :: tail)).map fun read => (.number read.1, read.2) := by
  rw [readValue, skipSpace_cons (isSpace_of_isNumberChar h)]
  split
  case h_7 => rfl
  all_goals
    rename_i hcons
    obtain ⟨rfl, -⟩ := List.cons.inj hcons
    exact absurd h (by decide)

/-! ## One step of the reader -/

/-- After a bracket that nothing closes, the items of an array are read. -/
theorem readValue_array {c : Char} {cs tail : List Char} (hskip : skipSpace cs = c :: tail)
    (hclose : c ≠ ']') (fuel : Nat) :
    readValue (fuel + 1) ('[' :: cs)
      = (readItems fuel (c :: tail)).map fun read => (.array read.1, read.2) := by
  have hbracket : skipSpace ('[' :: cs) = '[' :: cs := rfl
  simp only [readValue, hbracket, hskip]
  split
  · rename_i h
    exact absurd (List.cons.inj h).1 hclose
  · rfl

/-- After the last item, the array is closed. -/
theorem readItems_last {fuel : Nat} {cs rest : List Char} {item : Document}
    (hitem : readValue fuel cs = some (item, ']' :: rest)) :
    readItems (fuel + 1) cs = some ([item], rest) := by
  rw [readItems, hitem]
  rfl

/-- After any other item, a comma leads to the next. -/
theorem readItems_more {fuel : Nat} {cs rest : List Char} {item : Document}
    (hitem : readValue fuel cs = some (item, ',' :: rest)) :
    readItems (fuel + 1) cs
      = (readItems fuel rest).map fun read => (item :: read.1, read.2) := by
  rw [readItems, hitem]
  show (readItems fuel rest).bind _ = _
  rw [Option.map_eq_bind]
  rfl

/-- After a brace, the members of an object are read. -/
theorem readValue_object (fuel : Nat) (key : String) (cs : List Char) :
    readValue (fuel + 1) ('\x7b' :: (renderString key ++ cs))
      = (readMembers fuel (renderString key ++ cs)).map fun read => (.object read.1, read.2) := by
  rw [readValue]
  rfl

/-- After the last member, the object is closed. -/
theorem readMembers_last {fuel : Nat} {key : String} {value : Document} {cs rest : List Char}
    (hvalue : readValue fuel cs = some (value, '\x7d' :: rest)) :
    readMembers (fuel + 1) (renderString key ++ ':' :: cs) = some ([(some key, value)], rest) := by
  rw [renderString, List.append_assoc, List.cons_append, List.singleton_append, readMembers]
  show ((readString _).bind fun read => _) = _
  rw [readString_escaped]
  show ((readValue fuel cs).bind fun read => _) = _
  rw [hvalue]
  rfl

/-- After any other member, a comma leads to the next. -/
theorem readMembers_more {fuel : Nat} {key : String} {value : Document} {cs rest : List Char}
    (hvalue : readValue fuel cs = some (value, ',' :: rest)) :
    readMembers (fuel + 1) (renderString key ++ ':' :: cs)
      = (readMembers fuel rest).map fun read => ((some key, value) :: read.1, read.2) := by
  rw [renderString, List.append_assoc, List.cons_append, List.singleton_append, readMembers]
  show ((readString _).bind fun read => _) = _
  rw [readString_escaped]
  show ((readValue fuel cs).bind fun read => _) = _
  rw [hvalue]
  show (readMembers fuel rest).bind _ = _
  rw [Option.map_eq_bind]
  rfl

/-! ## From text to document -/

namespace Tree

/-- No blank stands before a tree, and nothing that closes an array. -/
theorem skipSpace_render (t : Tree) (rest : List Char) :
    ∃ c tail, skipSpace (t.render ++ rest) = c :: tail ∧ t.render ++ rest = c :: tail ∧
      c ≠ ']' := by
  obtain ⟨c, tail, hcons, hkind, hclose⟩ := t.exists_render_eq_cons
  have hspace : isSpace c = false := by
    by_contra hspace
    -- a blank tells no kind but that of numbers, and no number begins with one
    cases t with
    | number n =>
        have htext : NumberText (c :: tail) := by
          rw [← hcons]
          exact n.numberText_render
        exact hspace (isSpace_of_isNumberChar (numberText_cons.mp htext).1)
    | _ =>
        simp only [isSpace, Bool.not_eq_false, Bool.or_eq_true, decide_eq_true_eq] at hspace
        rcases hspace with ((rfl | rfl) | rfl) | rfl <;> cases hkind
  refine ⟨c, tail ++ rest, ?_, ?_, hclose⟩
  · rw [hcons, List.cons_append, skipSpace_cons hspace]
  · rw [hcons, List.cons_append]

theorem renderItems_cons (item : Tree) (items : List Tree) (rest : List Char) :
    ∃ tail, renderItems (item :: items) ++ rest = item.render ++ tail := by
  cases items with
  | nil => exact ⟨rest, rfl⟩
  | cons next items =>
      exact ⟨',' :: renderItems (next :: items) ++ rest, by rw [renderItems, List.append_assoc]⟩

theorem renderMembers_cons (key : String) (value : Tree) (members : List (String × Tree))
    (rest : List Char) :
    ∃ tail, renderMembers ((key, value) :: members) ++ rest = renderString key ++ tail := by
  cases members with
  | nil => exact ⟨':' :: value.render ++ rest, by rw [renderMembers, List.append_assoc]⟩
  | cons next members =>
      refine ⟨':' :: value.render ++ ',' :: renderMembers (next :: members) ++ rest, ?_⟩
      simp only [renderMembers, List.append_assoc, List.cons_append]

theorem length_render_pos (t : Tree) : 0 < t.render.length := by
  obtain ⟨c, tail, hcons, -, -⟩ := t.exists_render_eq_cons
  rw [hcons]
  exact Nat.succ_pos _

mutual

/-- The reader finds the document of a tree in its text, whatever follows, if its calls may
nest as often as the text has characters. -/
theorem readValue_render : ∀ (t : Tree) {fuel : Nat} {rest : List Char},
    t.render.length ≤ fuel → Stops rest →
      readValue fuel (t.render ++ rest) = some (t.document, rest)
  | .null, fuel + 1, rest, _, _ => by
      rw [readValue]
      rfl
  | .bool true, fuel + 1, rest, _, _ => by
      rw [readValue]
      rfl
  | .bool false, fuel + 1, rest, _, _ => by
      rw [readValue]
      rfl
  | .number n, fuel + 1, rest, _, hrest => by
      obtain ⟨c, tail, hcons⟩ := List.exists_cons_of_ne_nil n.render_ne_nil
      have hc : isNumberChar c = true := (numberText_cons.mp (hcons ▸ n.numberText_render)).1
      have hread := n.readNumeral_render hrest
      rw [hcons, List.cons_append] at hread
      rw [render, hcons, List.cons_append, readValue_of_isNumberChar hc, hread]
      rfl
  | .text s, fuel + 1, rest, _, _ => by
      rw [render, renderString, List.cons_append, List.cons_append, List.append_assoc, readValue]
      show (readString _).map _ = _
      rw [List.singleton_append, readString_escaped]
      rfl
  | .array [], fuel + 1, rest, _, _ => by
      rw [readValue]
      rfl
  | .array (item :: items), fuel + 1, rest, hfuel, _ => by
      rw [render, List.cons_append, List.length_cons, List.length_append, List.length_singleton]
        at hfuel
      have hitems : readItems fuel (renderItems (item :: items) ++ ']' :: rest)
          = some (documents (item :: items), rest) :=
        readItems_renderItems item items (by omega)
      obtain ⟨tail, htail⟩ := renderItems_cons item items (']' :: rest)
      obtain ⟨c, cs, hskip, hcons, hclose⟩ := item.skipSpace_render tail
      rw [← htail] at hskip hcons
      rw [render, List.cons_append, List.cons_append, List.append_assoc, List.singleton_append,
        readValue_array hskip hclose, ← hcons, hitems]
      rfl
  | .object [], fuel + 1, rest, _, _ => by
      rw [readValue]
      rfl
  | .object ((key, value) :: members), fuel + 1, rest, hfuel, _ => by
      rw [render, List.cons_append, List.length_cons, List.length_append, List.length_singleton]
        at hfuel
      have hmembers : readMembers fuel (renderMembers ((key, value) :: members) ++ '\x7d' :: rest)
          = some (documentMembers ((key, value) :: members), rest) :=
        readMembers_renderMembers key value members (by omega)
      obtain ⟨tail, htail⟩ := renderMembers_cons key value members ('\x7d' :: rest)
      rw [render, List.cons_append, List.cons_append, List.append_assoc, List.singleton_append,
        htail, readValue_object, ← htail, hmembers]
      rfl
  | t, 0, rest, hfuel, _ => absurd t.length_render_pos (by omega)

theorem readItems_renderItems : ∀ (item : Tree) (items : List Tree) {fuel : Nat}
    {rest : List Char}, (renderItems (item :: items)).length < fuel →
      readItems fuel (renderItems (item :: items) ++ ']' :: rest)
        = some (documents (item :: items), rest)
  | item, [], fuel + 1, rest, hfuel => by
      have hitem : readValue fuel (item.render ++ ']' :: rest)
          = some (item.document, ']' :: rest) :=
        readValue_render item (Nat.le_of_lt_succ hfuel) (stops_bracket rest)
      rw [renderItems, readItems_last hitem]
      rfl
  | item, next :: items, fuel + 1, rest, hfuel => by
      rw [renderItems, List.length_append, List.length_cons] at hfuel
      have hpos : 0 < item.render.length := item.length_render_pos
      have hitem : readValue fuel
          (item.render ++ ',' :: (renderItems (next :: items) ++ ']' :: rest))
            = some (item.document, ',' :: (renderItems (next :: items) ++ ']' :: rest)) :=
        readValue_render item (by omega) (stops_comma _)
      have hitems : readItems fuel (renderItems (next :: items) ++ ']' :: rest)
          = some (documents (next :: items), rest) :=
        readItems_renderItems next items (by omega)
      rw [renderItems, List.append_assoc, List.cons_append, readItems_more hitem,
        hitems]
      rfl

theorem readMembers_renderMembers : ∀ (key : String) (value : Tree)
    (members : List (String × Tree)) {fuel : Nat} {rest : List Char},
      (renderMembers ((key, value) :: members)).length < fuel →
        readMembers fuel (renderMembers ((key, value) :: members) ++ '\x7d' :: rest)
          = some (documentMembers ((key, value) :: members), rest)
  | key, value, [], fuel + 1, rest, hfuel => by
      rw [renderMembers, List.length_append, List.length_cons] at hfuel
      have hvalue : readValue fuel (value.render ++ '\x7d' :: rest)
          = some (value.document, '\x7d' :: rest) :=
        readValue_render value (by omega) (stops_brace rest)
      rw [renderMembers, List.append_assoc, List.cons_append, readMembers_last hvalue]
      rfl
  | key, value, (nextKey, next) :: members, fuel + 1, rest, hfuel => by
      rw [renderMembers, List.length_append, List.length_append, List.length_cons,
        List.length_cons] at hfuel
      have hvalue : readValue fuel
          (value.render ++ ',' :: (renderMembers ((nextKey, next) :: members) ++ '\x7d' :: rest))
            = some (value.document,
                ',' :: (renderMembers ((nextKey, next) :: members) ++ '\x7d' :: rest)) :=
        readValue_render value (by omega) (stops_comma _)
      have hmembers : readMembers fuel
          (renderMembers ((nextKey, next) :: members) ++ '\x7d' :: rest)
            = some (documentMembers ((nextKey, next) :: members), rest) :=
        readMembers_renderMembers nextKey next members (by omega)
      rw [renderMembers]
      simp only [List.append_assoc, List.cons_append]
      rw [readMembers_more hvalue, hmembers]
      rfl

end

end Tree

/-- **The text of a tree is read as its document**, and nothing follows. -/
theorem Document.parseStart?_toText (t : Tree) :
    parseStart? t.toText.toList = some (t.document, []) := by
  have hread : readValue (t.render.length + 1) (t.render ++ []) = some (t.document, []) :=
    t.readValue_render (Nat.le_succ _) stops_nil
  rw [List.append_nil] at hread
  rw [parseStart?, Tree.toText, String.toList_ofList, hread]

/-! ## Data in texts -/

namespace Document

variable {α : Type} {read : Document → Decoded α} {value : α}

/-- Data is read from a text exactly if the text starts with a value that holds it. -/
theorem decodeStart_eq_ok_iff {cs rest : List Char} :
    decodeStart read cs = .ok (value, rest) ↔
      ∃ d, parseStart? cs = some (d, rest) ∧ read d = .ok value := by
  unfold decodeStart
  cases parseStart? cs with
  | none =>
      simp only [Outcome.bind_eq_ok_iff]
      exact iff_of_false (fun ⟨_, _, h⟩ => by cases h) (fun ⟨_, h, _⟩ => by cases h)
  | some start =>
      simp only [Outcome.bind_eq_ok_iff, Outcome.pure_eq_ok, Except.ok.injEq, Option.some.injEq]
      constructor
      · rintro ⟨value', hread, hpair⟩
        obtain ⟨rfl, rfl⟩ := Prod.mk.inj hpair
        exact ⟨_, rfl, hread⟩
      · rintro ⟨d, rfl, hread⟩
        exact ⟨value, hread, rfl⟩

/-- Data is read from a whole text exactly if the text is that of a value that holds it. -/
theorem decodeText_eq_ok_iff {s : String} :
    decodeText read s = .ok value ↔ ∃ d, parse? s = some d ∧ read d = .ok value := by
  simp only [decodeText, parse?, Outcome.bind_eq_ok_iff, Prod.exists, decodeStart_eq_ok_iff,
    Option.bind_eq_bind, Option.bind_eq_some_iff]
  constructor
  · rintro ⟨value', rest, ⟨d, hparse, hread⟩, hrest⟩
    split_ifs at hrest with hblank
    obtain rfl := Except.ok.inj hrest
    exact ⟨d, ⟨d, rest, hparse, if_pos hblank⟩, hread⟩
  · rintro ⟨d, ⟨d', rest, hparse, hrest⟩, hread⟩
    split_ifs at hrest with hblank
    obtain rfl := Option.some.inj hrest
    exact ⟨value, rest, ⟨d', hparse, hread⟩, if_pos hblank⟩

/-- **What is read from the text of a tree is what its document holds.** -/
theorem decodeText_toText (read : Document → Decoded α) (t : Tree) :
    decodeText read t.toText = read t.document := by
  rw [decodeText, decodeStart, parseStart?_toText]
  dsimp only
  cases read t.document <;> rfl

end Document

/-! ## From document to value -/

namespace Tree

mutual

/-- The numbers of a tree from left to right. -/
def numbers : Tree → List Number
  | .number n => [n]
  | .array items => numbersOf items
  | .object members => memberNumbers members
  | _ => []

/-- The numbers of the items of an array. -/
def numbersOf : List Tree → List Number
  | [] => []
  | item :: rest => item.numbers ++ numbersOf rest

/-- The numbers of the members of an object. -/
def memberNumbers : List (String × Tree) → List Number
  | [] => []
  | (_, value) :: rest => value.numbers ++ memberNumbers rest

end

/-- Reading the numbers of a tree gives them back, one by one. -/
def ReadsBack (t : Tree) : Prop := ∀ n ∈ t.numbers, n.ReadsBack

mutual

/-- The integers of a canonical tree fit. -/
theorem fits_of_mem_numbers : ∀ {t : Tree} {n : Number}, t.IsCanonical → n ∈ t.numbers → n.Fits
  | .null, n, _, hn | .bool _, n, _, hn | .text _, n, _, hn => absurd hn List.not_mem_nil
  | .number m, n, hcanonical, hn => by
      rw [IsCanonical] at hcanonical
      rwa [List.mem_singleton.mp hn]
  | .array items, n, hcanonical, hn => fits_of_mem_numbersOf hcanonical hn
  | .object members, n, hcanonical, hn => fits_of_mem_memberNumbers hcanonical.2 hn

theorem fits_of_mem_numbersOf : ∀ {items : List Tree} {n : Number}, AreCanonical items →
    n ∈ numbersOf items → n.Fits
  | [], n, _, hn => absurd hn List.not_mem_nil
  | item :: rest, n, hcanonical, hn => by
      rcases List.mem_append.mp hn with hn | hn
      · exact fits_of_mem_numbers hcanonical.1 hn
      · exact fits_of_mem_numbersOf hcanonical.2 hn

theorem fits_of_mem_memberNumbers : ∀ {members : List (String × Tree)} {n : Number},
    MembersCanonical members → n ∈ memberNumbers members → n.Fits
  | [], n, _, hn => absurd hn List.not_mem_nil
  | (_, value) :: rest, n, hcanonical, hn => by
      rcases List.mem_append.mp hn with hn | hn
      · exact fits_of_mem_numbers hcanonical.1 hn
      · exact fits_of_mem_memberNumbers hcanonical.2 hn

end

mutual

/-- A document nests as deep as its tree. -/
@[simp] theorem depth_document : ∀ t : Tree, t.document.depth = t.depth
  | .null | .bool _ | .number _ | .text _ => rfl
  | .array items => by rw [document, Document.depth, depth, itemsDepth_documents items]
  | .object members => by
      rw [document, Document.depth, depth, membersDepth_documentMembers members]

theorem itemsDepth_documents : ∀ items : List Tree,
    Document.itemsDepth (documents items) = itemsDepth items
  | [] => rfl
  | item :: rest => by
      rw [documents, Document.itemsDepth, itemsDepth, depth_document item,
        itemsDepth_documents rest]

theorem membersDepth_documentMembers : ∀ members : List (String × Tree),
    Document.membersDepth (documentMembers members) = membersDepth members
  | [] => rfl
  | (_, value) :: rest => by
      rw [documentMembers, Document.membersDepth, membersDepth, depth_document value,
        membersDepth_documentMembers rest]

end

mutual

/-- Where the numbers of a tree read back, every part of its document has a value. -/
theorem isMeaningful_document : ∀ {t : Tree}, t.ReadsBack → t.document.isMeaningful = true
  | .null, _ | .bool _, _ | .text _, _ => rfl
  | .number n, h => by
      have hvalue : n.numeral.value? = some n := h n (List.mem_singleton_self n)
      rw [document, Document.isMeaningful, hvalue]
      rfl
  | .array items, h => areMeaningful_documents h
  | .object members, h => membersMeaningful_documentMembers h

theorem areMeaningful_documents : ∀ {items : List Tree}, (∀ n ∈ numbersOf items, n.ReadsBack) →
    Document.areMeaningful (documents items) = true
  | [], _ => rfl
  | item :: rest, h => by
      obtain ⟨hitem, hrest⟩ := List.forall_mem_append.mp h
      rw [documents, Document.areMeaningful, isMeaningful_document hitem,
        areMeaningful_documents hrest]
      rfl

theorem membersMeaningful_documentMembers : ∀ {members : List (String × Tree)},
    (∀ n ∈ memberNumbers members, n.ReadsBack) →
      Document.membersMeaningful (documentMembers members) = true
  | [], _ => rfl
  | (_, value) :: rest, h => by
      obtain ⟨hvalue, hrest⟩ := List.forall_mem_append.mp h
      rw [documentMembers, Document.membersMeaningful, isMeaningful_document hvalue,
        membersMeaningful_documentMembers hrest]
      rfl

end

/-- The document of a tree whose numbers read back can be read as a whole, if it does not nest
too deep. -/
theorem isDecodable_document {t : Tree} {outer : Nat} (h : t.ReadsBack)
    (hdepth : outer + t.depth ≤ Document.maxDepth) : t.document.isDecodable outer = true :=
  Bool.and_eq_true_iff.mpr
    ⟨isMeaningful_document h, decide_eq_true (by rwa [depth_document])⟩

end Tree

/-- A member whose key comes after all others is put at the end. -/
theorem insertMember_of_lt {key : String} {value : Tree} {members : List (String × Tree)}
    (h : ∀ k ∈ members.map (·.1), k < key) :
    insertMember key value members = members ++ [(key, value)] := by
  induction members with
  | nil => rfl
  | cons member rest ih =>
      obtain ⟨k, v⟩ := member
      obtain ⟨hk, hrest⟩ := List.forall_mem_cons.mp h
      have hafter : ¬key < k := fun hlt => String.lt_irrefl k (String.lt_trans hk hlt)
      have hne : key ≠ k := by
        rintro rfl
        exact String.lt_irrefl key hk
      rw [insertMember, if_neg hafter, if_neg hne, ih hrest, List.cons_append]

/-- Members whose keys increase are sorted. -/
theorem sortMembers_of_keysIncrease {members : List (String × Tree)} (h : KeysIncrease members) :
    sortMembers members = members := by
  suffices hstep : ∀ sorted, KeysIncrease (sorted ++ members) →
      members.foldl (fun sorted member => insertMember member.1 member.2 sorted) sorted
        = sorted ++ members from hstep [] h
  clear h
  induction members with
  | nil => exact fun sorted _ => (List.append_nil sorted).symm
  | cons member rest ih =>
      intro sorted h
      have hbefore : ∀ k ∈ sorted.map (·.1), k < member.1 := by
        rw [KeysIncrease, List.map_append, List.pairwise_append] at h
        exact fun k hk => h.2.2 k hk member.1 List.mem_cons_self
      rw [List.foldl_cons, insertMember_of_lt hbefore, ih _ (by rwa [List.append_assoc]),
        List.append_assoc]
      rfl

namespace Tree

mutual

/-- **The value of the document of a canonical tree is the tree**, where its numbers read
back. -/
theorem toTree?_document : ∀ {t : Tree}, t.IsCanonical → t.ReadsBack →
    t.document.toTree? = some t
  | .null, _, _ | .bool _, _, _ | .text _, _, _ => rfl
  | .number n, _, h => by
      have hvalue : n.numeral.value? = some n := h n (List.mem_singleton_self n)
      rw [document, Document.toTree?, hvalue]
      rfl
  | .array items, hcanonical, h => by
      rw [document, Document.toTree?, toTrees?_documents hcanonical h]
      rfl
  | .object members, hcanonical, h => by
      rw [document, Document.toTree?, toMembers?_documentMembers hcanonical.2 h,
        Option.map_some, sortMembers_of_keysIncrease hcanonical.1]

theorem toTrees?_documents : ∀ {items : List Tree}, AreCanonical items →
    (∀ n ∈ numbersOf items, n.ReadsBack) → Document.toTrees? (documents items) = some items
  | [], _, _ => rfl
  | item :: rest, hcanonical, h => by
      obtain ⟨hitem, hrest⟩ := List.forall_mem_append.mp h
      rw [documents, Document.toTrees?, toTree?_document hcanonical.1 hitem,
        toTrees?_documents hcanonical.2 hrest]
      rfl

theorem toMembers?_documentMembers : ∀ {members : List (String × Tree)},
    MembersCanonical members → (∀ n ∈ memberNumbers members, n.ReadsBack) →
      Document.toMembers? (documentMembers members) = some members
  | [], _, _ => rfl
  | (_, value) :: rest, hcanonical, h => by
      obtain ⟨hvalue, hrest⟩ := List.forall_mem_append.mp h
      rw [documentMembers, Document.toMembers?, toTree?_document hcanonical.1 hvalue,
        toMembers?_documentMembers hcanonical.2 hrest]
      rfl

end

end Tree

/-- The value of a document is its tree. -/
theorem Document.toValue?_eq_some {d : Document} {v : Value} (h : d.toTree? = some v.tree) :
    d.toValue? = some v := by
  unfold toValue?
  split
  · rename_i t ht
    obtain ⟨tree, canonical⟩ := v
    obtain rfl := Option.some.inj (ht.symm.trans h)
    rfl
  · rename_i ht
    cases ht.symm.trans h

end SchemaQuery.Json
