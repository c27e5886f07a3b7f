import SchemaQuery.Proofs.Json.Clauses
import SchemaQuery.Proofs.Json.Reading
import SchemaQuery.Proofs.Query.Decoding

/-!
# Written records are read

A record is written as an object, clause by clause, and some of its clauses may be left out.
The reader goes through the members in the order of the text and places each of them into a
blank record, so a written record is read back as soon as placing its clauses, one after
another, builds it.  What the reader checks besides, that no member stands twice and none is
missing, is a matter of the names alone and is settled here once for all records.

## Main definitions

* `Record.placeClauses` - places the clauses of a record into it, one after another.

## Main statements

* `Record.toRecord_clausesOf` - a record whose clauses build it is read from its object.
* `Document.toValue_document` - a value whose numbers read back is read from its text.
-/

namespace SchemaQuery.Json

open Outcome

/-! ## Parts of trees -/

namespace Tree

theorem mem_numbersOf {items : List Tree} {item : Tree} {n : Number} (hitem : item ∈ items)
    (hn : n ∈ item.numbers) : n ∈ numbersOf items := by
  induction items with
  | nil => exact absurd hitem List.not_mem_nil
  | cons first rest ih =>
      refine List.mem_append.mpr ?_
      rcases List.mem_cons.mp hitem with rfl | hitem
      · exact .inl hn
      · exact .inr (ih hitem)

theorem mem_memberNumbers {members : List (String × Tree)} {name : String} {value : Tree}
    {n : Number} (hm : (name, value) ∈ members) (hn : n ∈ value.numbers) :
    n ∈ memberNumbers members := by
  induction members with
  | nil => exact absurd hm List.not_mem_nil
  | cons first rest ih =>
      refine List.mem_append.mpr ?_
      rcases List.mem_cons.mp hm with rfl | hm
      · exact .inl hn
      · exact .inr (ih hm)

theorem depth_lt_of_mem_items {items : List Tree} {item : Tree} (hitem : item ∈ items) :
    item.depth < (array items).depth := by
  refine Nat.lt_succ_of_le ?_
  induction items with
  | nil => exact absurd hitem List.not_mem_nil
  | cons first rest ih =>
      rcases List.mem_cons.mp hitem with rfl | hitem
      · exact Nat.le_max_left _ _
      · exact Nat.le_trans (ih hitem) (Nat.le_max_right _ _)

theorem depth_lt_of_mem_members {members : List (String × Tree)} {name : String} {value : Tree}
    (hm : (name, value) ∈ members) : value.depth < (object members).depth := by
  refine Nat.lt_succ_of_le ?_
  induction members with
  | nil => exact absurd hm List.not_mem_nil
  | cons first rest ih =>
      rcases List.mem_cons.mp hm with rfl | hm
      · exact Nat.le_max_left _ _
      · exact Nat.le_trans (ih hm) (Nat.le_max_right _ _)

theorem ReadsBack.of_mem_items {items : List Tree} {item : Tree} (h : (array items).ReadsBack)
    (hitem : item ∈ items) : item.ReadsBack :=
  fun n hn => h n (mem_numbersOf hitem hn)

theorem ReadsBack.of_mem_members {members : List (String × Tree)} {name : String} {value : Tree}
    (h : (object members).ReadsBack) (hm : (name, value) ∈ members) : value.ReadsBack :=
  fun n hn => h n (mem_memberNumbers hm hn)

/-- Where the integers of a tree fit and its floats read back, all its numbers do. -/
theorem readsBack_of_fits {t : Tree} (hfits : ∀ n ∈ t.numbers, n.Fits)
    (hfloats : ∀ x, Number.float x ∈ t.numbers → (Number.float x).ReadsBack) : t.ReadsBack := by
  intro n hn
  cases n with
  | int i => exact Number.readsBack_int (hfits _ hn)
  | float x => exact hfloats x hn

end Tree

/-! ## Parts of records -/

namespace Document

theorem toInt64_ofInt (i : Int64) : (Tree.ofInt i.toInt).document.toInt64 = .ok i := by
  have hvalue : (Number.int i.toInt).numeral.value? = some (.int i.toInt) :=
    Number.readsBack_int (Value.ofInt64 i).canonical
  have hle : i.toInt ≤ Int64.maxValue.toInt := Int64.toInt_le i
  rw [Tree.ofInt, Tree.document]
  simp only [toInt64, hvalue, if_pos hle, Int64.ofInt_toInt]

/-- A value whose numbers read back is read where there is room for it. -/
theorem toValue_document {v : Value} {outer : Nat} (hnumbers : v.tree.ReadsBack)
    (hdepth : outer + v.tree.depth ≤ maxDepth) : v.tree.document.toValue outer = .ok v := by
  have hvalue : v.tree.document.toValue? = some v :=
    toValue?_eq_some (Tree.toTree?_document v.canonical hnumbers)
  rw [toValue, if_pos (Tree.isDecodable_document hnumbers hdepth), hvalue]

/-- What is not `null` and has been read is there. -/
theorem toOption_eq_some {α : Type} {read : Document → Decoded α} {d : Document} {a : α}
    (hnull : d ≠ .null) (h : read d = .ok a) : d.toOption read = .ok (some a) := by
  unfold toOption
  split
  · exact absurd rfl hnull
  · rw [h]
    rfl

theorem toItems_documents {α : Type} {read : Document → Decoded α} {write : α → Tree}
    {xs : List α} (h : ∀ x ∈ xs, read (write x).document = .ok x) (index : Nat) :
    toItems read index (Tree.documents (xs.map write)) = .ok xs := by
  induction xs generalizing index with
  | nil => rfl
  | cons x rest ih =>
      obtain ⟨hx, hrest⟩ := List.forall_mem_cons.mp h
      have hitem : under (.item index) (read (write x).document) = .ok x := under_eq_ok_iff.mpr hx
      rw [List.map_cons, Tree.documents, toItems, hitem, ok_bind, ih hrest, ok_bind]
      rfl

/-- A list whose items are read back is read back. -/
theorem toList_document {α : Type} {read : Document → Decoded α} {write : α → Tree} {xs : List α}
    (h : ∀ x ∈ xs, read (write x).document = .ok x) :
    (Tree.array (xs.map write)).document.toList read = .ok xs :=
  toItems_documents h 0

end Document

/-! ## Records -/

namespace Record

variable {α : Type} {r : Record α}

/-- Places the clauses of a record into it, one after another, skipping those that are not
given. -/
def placeClauses (r : Record α) : α → List (String × Option Tree) → Decoded α
  | acc, [] => .ok acc
  | acc, (_, none) :: rest => r.placeClauses acc rest
  | acc, (name, some tree) :: rest => do
    let acc ← r.place acc name tree.document
    r.placeClauses acc rest

/-- A clause that is placed leads to the placing of the others. -/
theorem placeClauses_some {acc acc' : α} {name : String} {tree : Tree}
    (h : r.place acc name tree.document = .ok acc') (rest : List (String × Option Tree)) :
    r.placeClauses acc ((name, some tree) :: rest) = r.placeClauses acc' rest := by
  rw [placeClauses, h, ok_bind]

/-- The same for a clause that may not be given, if then there is nothing to place. -/
theorem placeClauses_cons {acc acc' : α} {name : String} {clause : Option Tree}
    (hsome : ∀ tree ∈ clause, r.place acc name tree.document = .ok acc')
    (hnone : clause = none → acc' = acc) (rest : List (String × Option Tree)) :
    r.placeClauses acc ((name, clause) :: rest) = r.placeClauses acc' rest := by
  cases clause with
  | none => rw [placeClauses, hnone rfl]
  | some tree => exact placeClauses_some (hsome tree rfl) rest

theorem placeClauses_list {β : Type} {acc acc' : α} {name : String} {write : β → Tree}
    {xs : List β} (hlist : r.place acc name (Tree.array (xs.map write)).document = .ok acc')
    (hnil : xs = [] → acc' = acc) (rest : List (String × Option Tree)) :
    r.placeClauses acc ((name, listClause write xs) :: rest) = r.placeClauses acc' rest := by
  refine placeClauses_cons (fun tree htree => ?_) (fun hnone => ?_) rest
  · unfold listClause at htree
    split at htree
    · cases htree
    · rwa [← Option.some.inj htree]
  · unfold listClause at hnone
    split at hnone
    · rename_i hempty
      exact hnil (List.isEmpty_iff.mp hempty)
    · cases hnone

/-- The reader places the clauses of an object and meets their names. -/
theorem readMembers_clausesOf {clauses : List (String × Option Tree)} {met : List String}
    {acc a : α} (hknown : ∀ name ∈ clauses.map (·.1), name ∈ r.names)
    (hnodup : (clauses.map (·.1)).Nodup) (hnew : ∀ name ∈ clauses.map (·.1), name ∉ met)
    (h : r.placeClauses acc clauses = .ok a) :
    r.readMembers met acc (Tree.documentMembers (clausesOf clauses))
      = .ok (((clausesOf clauses).map (·.1)).reverse ++ met, a) := by
  induction clauses generalizing met acc with
  | nil =>
      obtain rfl := Except.ok.inj h
      rfl
  | cons clause rest ih =>
      obtain ⟨name, content⟩ := clause
      obtain ⟨hname, hrest⟩ := List.forall_mem_cons.mp hknown
      obtain ⟨hnotMet, hnewRest⟩ := List.forall_mem_cons.mp hnew
      obtain ⟨hnotRest, hdistinct⟩ := List.nodup_cons.mp hnodup
      cases content with
      | none => exact ih hrest hdistinct hnewRest h
      | some tree =>
          obtain ⟨acc', hplace, h⟩ := bind_eq_ok_iff.mp h
          have hmember : under (.member name) (r.place acc name tree.document) = .ok acc' :=
            under_eq_ok_iff.mpr hplace
          have hnotMetRest : ∀ other ∈ rest.map (·.1), other ∉ name :: met := by
            intro other hother hmet
            rcases List.mem_cons.mp hmet with rfl | hmet
            · exact hnotRest hother
            · exact hnewRest other hother hmet
          show r.readMembers met acc
            ((some name, tree.document) :: Tree.documentMembers (clausesOf rest)) = _
          rw [readMembers, if_pos hname, if_neg hnotMet, hmember, ok_bind,
            ih hrest hdistinct hnotMetRest h]
          simp [clausesOf, optionMember]

/-- **A record whose clauses build it is read from its object**, if the clauses are those of
the record and the required ones are given. -/
theorem toRecord_clausesOf {clauses : List (String × Option Tree)} {a : α} (origin : Origin)
    (hnames : r.names = clauses.map (·.1)) (hnodup : r.names.Nodup)
    (hrequired : ∀ m ∈ r.members, m.2 = .required → m.1 ∈ (clausesOf clauses).map (·.1))
    (h : r.placeClauses r.blank clauses = .ok a) :
    (Tree.object (clausesOf clauses)).document.toRecord r origin = .ok a := by
  have hread : r.readMembers [] r.blank (Tree.documentMembers (clausesOf clauses))
      = .ok (((clausesOf clauses).map (·.1)).reverse ++ [], a) :=
    readMembers_clausesOf (fun name hname => hnames ▸ hname) (hnames ▸ hnodup)
      (fun _ _ => List.not_mem_nil) h
  have habsent : r.absent? (((clausesOf clauses).map (·.1)).reverse ++ []) = none := by
    rw [absent?, Option.map_eq_none_iff, List.find?_eq_none]
    intro m hm
    simp only [decide_eq_true_eq, not_and, not_not, List.append_nil, List.mem_reverse]
    exact hrequired m hm
  show r.ofMembers (Tree.documentMembers (clausesOf clauses)) = .ok a
  rw [ofMembers, hread, ok_bind]
  dsimp only
  rw [habsent]
  rfl

end Record

end SchemaQuery.Json
