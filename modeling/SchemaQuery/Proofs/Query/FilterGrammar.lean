import Mathlib.Data.List.Nodup
import SchemaQuery.Proofs.Query.Decoding

/-!
# The grammar of filters

What a filter may look like as a JSON value is said here without the reader: which keys an
object may have, what their values have to be, and what is meant if one of them is missing.
The reader accepts just that.  It tells the kinds of filters apart by their keys before it
looks at any value, so an object whose keys name no kind is refused for its keys alone.

Free values hold no key twice, and so a member is had by its name; that is why the order in
which the reader places the members does not show in what it reads.

## Main definitions

* `Comparison.Written`, `Filter.Written` - the values that are comparisons and filters.
* `FilterShape.Describes` - the keys of an object name no kind of filter.

## Main statements

* `Comparison.ofValue_eq_ok_iff`, `Filter.ofValue_eq_ok_iff` - a value is read as what it is
  written as.
* `Filter.ofValue_of_describes` - keys that name no kind are refused with their own message.
* `Filter.decoding_exact` - **filters are decoded exactly by their grammar.**
-/

namespace SchemaQuery

open Json (Document Value Decoded offend)
open Outcome

/-! ## Values at their top -/

namespace Json.Value

theorem tree_of_view_array {v : Value} {items : List Value} (h : v.view = .array items) :
    v.tree = .array (items.map (·.tree)) := by
  obtain ⟨tree, canonical⟩ := v
  cases tree with
  | array trees =>
      obtain rfl := View.array.inj h
      exact congrArg Tree.array (map_tree_itemsOf trees canonical).symm
  | null | bool | number | text | object => cases h

theorem tree_of_view_object {v : Value} {members : List (String × Value)}
    (h : v.view = .object members) :
    v.tree = .object (members.map fun member => (member.1, member.2.tree)) := by
  obtain ⟨tree, canonical⟩ := v
  cases tree with
  | object trees =>
      obtain rfl := View.object.inj h
      exact congrArg Tree.object (map_tree_membersOf trees canonical.2).symm
  | null | bool | number | text | array => cases h

/-- No key stands twice in a value. -/
theorem nodup_keys_of_view {v : Value} {members : List (String × Value)}
    (h : v.view = .object members) : (members.map (·.1)).Nodup := by
  have hcanonical := v.canonical
  rw [tree_of_view_object h] at hcanonical
  have hincrease : (members.map (·.1)).Pairwise (· < ·) := by
    have hkeys := hcanonical.1
    rwa [KeysIncrease, List.map_map] at hkeys
  refine hincrease.imp fun hlt heq => ?_
  subst heq
  exact String.lt_irrefl _ hlt

end Json.Value

/-! ## Comparisons -/

namespace Comparison

/-- A member holds a text; where there is no member, the text is the given one. -/
def HoldsText (blank : String) (member : Option Value) (s : String) : Prop :=
  match member with
  | some v => v.view = .text s
  | none => s = blank

/-- A member holds a value, if it is not `null`; where there is no member, the value is the
given one. -/
def HoldsValue (blank : Option Value) (member value : Option Value) : Prop :=
  match member with
  | some v => value = if v.isNull then none else some v
  | none => value = blank

/-- The members `field`, `op` and `value` hold a comparison, which agrees with a given one
where there is no member. -/
structure Holds (blank : Comparison) (field op value : Option Value) (c : Comparison) : Prop where
  field : HoldsText blank.field field c.field
  op : HoldsText blank.op op c.op
  value : HoldsValue blank.value value c.value

/-- The values that are comparisons.  An object has no keys but `field`, `op` and `value`; an
array has at most three items, which stand for the members of these names.  What is missing is
empty. -/
inductive Written : Value → Comparison → Prop where
  | object {v : Value} {members : List (String × Value)} {c : Comparison}
    (view : v.view = .object members)
    (known : ∀ key ∈ members.map (·.1), key = "field" ∨ key = "op" ∨ key = "value")
    (holds : Holds {} (members.lookup "field") (members.lookup "op") (members.lookup "value") c) :
    Written v c
  | array {v : Value} {items : List Value} {c : Comparison} (view : v.view = .array items)
    (short : items.length ≤ 3) (holds : Holds {} items[0]? items[1]? items[2]? c) : Written v c

theorem holds_none_iff {blank c : Comparison} : Holds blank none none none c ↔ c = blank := by
  constructor
  · rintro ⟨hfield, hop, hvalue⟩
    obtain ⟨field, op, value⟩ := c
    obtain rfl : field = blank.field := hfield
    obtain rfl : op = blank.op := hop
    obtain rfl : value = blank.value := hvalue
    rfl
  · rintro rfl
    exact ⟨rfl, rfl, rfl⟩

theorem textOfValue_eq_ok_iff {v : Value} {s : String} :
    textOfValue v = .ok s ↔ v.view = .text s := by
  unfold textOfValue
  cases v.view <;> simp

/-- Only members that a comparison has are placed. -/
theorem mem_memberNames_of_place {c d : Comparison} {name : String} {v : Value}
    (h : c.place name v = .ok d) : name ∈ memberNames := by
  unfold place at h
  split at h
  case h_4 => exact absurd h Json.offend_ne_ok
  all_goals decide

section Placing

variable {blank c : Comparison} {field op value : Option Value} {v : Value}

/-- A comparison is held after a member was placed as it is held by the member with the
others. -/
theorem exists_place_field_iff :
    (∃ b, blank.place "field" v = .ok b ∧ Holds b none op value c) ↔
      Holds blank (some v) op value c := by
  have hplace (b : Comparison) : blank.place "field" v = .ok b ↔
      ∃ s, v.view = .text s ∧ { blank with field := s } = b := by
    show (textOfValue v >>= fun s => Except.ok { blank with field := s }) = .ok b ↔ _
    simp only [bind_eq_ok_iff, textOfValue_eq_ok_iff, Except.ok.injEq]
  simp only [hplace]
  constructor
  · rintro ⟨_, ⟨s, hs, rfl⟩, ⟨hfield, hop, hvalue⟩⟩
    obtain rfl : c.field = s := hfield
    exact ⟨hs, hop, hvalue⟩
  · rintro ⟨hfield, hop, hvalue⟩
    exact ⟨_, ⟨c.field, hfield, rfl⟩, rfl, hop, hvalue⟩

theorem exists_place_op_iff :
    (∃ b, blank.place "op" v = .ok b ∧ Holds b field none value c) ↔
      Holds blank field (some v) value c := by
  have hplace (b : Comparison) : blank.place "op" v = .ok b ↔
      ∃ s, v.view = .text s ∧ { blank with op := s } = b := by
    show (textOfValue v >>= fun s => Except.ok { blank with op := s }) = .ok b ↔ _
    simp only [bind_eq_ok_iff, textOfValue_eq_ok_iff, Except.ok.injEq]
  simp only [hplace]
  constructor
  · rintro ⟨_, ⟨s, hs, rfl⟩, ⟨hfield, hop, hvalue⟩⟩
    obtain rfl : c.op = s := hop
    exact ⟨hfield, hs, hvalue⟩
  · rintro ⟨hfield, hop, hvalue⟩
    exact ⟨_, ⟨c.op, hop, rfl⟩, hfield, rfl, hvalue⟩

theorem exists_place_value_iff :
    (∃ b, blank.place "value" v = .ok b ∧ Holds b field op none c) ↔
      Holds blank field op (some v) c := by
  constructor
  · rintro ⟨_, ⟨⟩, ⟨hfield, hop, hvalue⟩⟩
    exact ⟨hfield, hop, hvalue⟩
  · rintro ⟨hfield, hop, hvalue⟩
    exact ⟨_, rfl, hfield, hop, hvalue⟩

/-- **Members that are placed one after another hold the comparison**, whichever come first. -/
theorem placeAll_eq_ok_iff {members : List (String × Value)}
    (hnodup : (members.map (·.1)).Nodup) :
    members.foldlM (fun c member => c.place member.1 member.2) blank = .ok c ↔
      (∀ key ∈ members.map (·.1), key ∈ memberNames) ∧
        Holds blank (members.lookup "field") (members.lookup "op") (members.lookup "value") c := by
  induction members generalizing blank with
  | nil =>
      show Except.ok blank = Except.ok c ↔ _ ∧ Holds blank none none none c
      rw [holds_none_iff, Except.ok.injEq, eq_comm]
      simp
  | cons member rest ih =>
      obtain ⟨name, v⟩ := member
      obtain ⟨hnew, hnodup⟩ := List.nodup_cons.mp hnodup
      have hnone : rest.lookup name = none := by
        rw [List.lookup_eq_none_iff]
        intro other hother
        have hne : name ≠ other.1 := fun heq => hnew (heq ▸ List.mem_map.mpr ⟨other, hother, rfl⟩)
        simpa using hne
      rw [List.foldlM_cons, bind_eq_ok_iff, List.map_cons, List.forall_mem_cons]
      simp only [ih hnodup, and_left_comm (b := ∀ key ∈ rest.map (·.1), key ∈ memberNames),
        exists_and_left]
      by_cases hname : name ∈ memberNames
      · rw [and_iff_right hname]
        refine and_congr_right fun _ => ?_
        simp only [memberNames, List.mem_cons, List.not_mem_nil, or_false] at hname
        rcases hname with rfl | rfl | rfl
        · rw [hnone]
          exact exists_place_field_iff
        · rw [hnone]
          exact exists_place_op_iff
        · rw [hnone]
          exact exists_place_value_iff
      · constructor
        · rintro ⟨-, b, hplace, -⟩
          exact absurd (mem_memberNames_of_place hplace) hname
        · rintro ⟨⟨hmem, -⟩, -⟩
          exact absurd hmem hname

end Placing

/-- The items of an array stand for the members in order. -/
theorem lookup_zip_memberNames (items : List Value) :
    (memberNames.zip items).lookup "field" = items[0]? ∧
      (memberNames.zip items).lookup "op" = items[1]? ∧
      (memberNames.zip items).lookup "value" = items[2]? := by
  match items with
  | [] | [_] | [_, _] | _ :: _ :: _ :: _ => exact ⟨rfl, rfl, rfl⟩

theorem keys_zip_memberNames (items : List Value) :
    ((memberNames.zip items).map (·.1)).Sublist memberNames := by
  match items with
  | [] | [_] | [_, _] | _ :: _ :: _ :: _ => simp [memberNames]

/-- **A value is read as the comparison that it is written as**, and as no other. -/
theorem ofValue_eq_ok_iff {v : Value} {c : Comparison} : ofValue v = .ok c ↔ Written v c := by
  have hmem {key : String} : key ∈ memberNames ↔ key = "field" ∨ key = "op" ∨ key = "value" := by
    simp [memberNames]
  unfold ofValue
  cases hview : v.view with
  | object members =>
      dsimp only
      simp only [placeAll_eq_ok_iff (Value.nodup_keys_of_view hview), hmem]
      constructor
      · rintro ⟨hknown, hholds⟩
        exact .object hview hknown hholds
      · intro h
        cases h with
        | object hview' hknown hholds =>
            obtain rfl := Value.View.object.inj (hview.symm.trans hview')
            exact ⟨hknown, hholds⟩
        | array hview' => cases hview.symm.trans hview'
  | array items =>
      have hnodup : ((memberNames.zip items).map (·.1)).Nodup :=
        (keys_zip_memberNames items).nodup (by decide)
      have hknown : ∀ key ∈ (memberNames.zip items).map (·.1), key ∈ memberNames :=
        fun _ hkey => (keys_zip_memberNames items).subset hkey
      obtain ⟨hfield, hop, hvalue⟩ := lookup_zip_memberNames items
      dsimp only
      simp only [bind_eq_ok_iff, placeAll_eq_ok_iff hnodup, and_iff_right hknown, hfield, hop,
        hvalue]
      constructor
      · rintro ⟨d, hholds, h⟩
        split_ifs at h with hshort
        · obtain rfl := Except.ok.inj h
          exact .array hview hshort hholds
        · exact absurd h Json.offend_ne_ok
      · intro h
        cases h with
        | object hview' => cases hview.symm.trans hview'
        | array hview' hshort hholds =>
            obtain rfl := Value.View.array.inj (hview.symm.trans hview')
            exact ⟨c, hholds, if_pos hshort⟩
  | null | bool | number | text =>
      simp only [mismatchValue_ne_ok, false_iff]
      intro h
      cases h with
      | object hview' => cases hview.symm.trans hview'
      | array hview' => cases hview.symm.trans hview'

end Comparison

/-! ## Filters -/

/-- The keys of an object name no kind of filter, each shape in its own way. -/
def FilterShape.Describes (shape : FilterShape) (keys : List String) : Prop :=
  match shape with
  | fieldWithConnective => "field" ∈ keys ∧ ∃ key ∈ Filter.connectiveKeys, key ∈ keys
  | severalConnectives =>
    "field" ∉ keys ∧ ∃ key ∈ Filter.connectiveKeys, ∃ other ∈ Filter.connectiveKeys,
      key ≠ other ∧ key ∈ keys ∧ other ∈ keys
  | connectiveNotAlone =>
    "field" ∉ keys ∧ ∃ key ∈ Filter.connectiveKeys, key ∈ keys ∧
      (∀ other ∈ Filter.connectiveKeys, other ∈ keys → other = key) ∧ ∃ other ∈ keys, other ≠ key
  | noKind => "field" ∉ keys ∧ ∀ key ∈ Filter.connectiveKeys, key ∉ keys

namespace Filter

/-- The values that are filters.  A comparison has the key `field`, and a logical filter has a
connective for its only key. -/
inductive Written : Value → Filter → Prop where
  | comparison {v : Value} {members : List (String × Value)} {c : Comparison}
    (view : v.view = .object members) (field : "field" ∈ members.map (·.1))
    (unconnected : ∀ key ∈ connectiveKeys, key ∉ members.map (·.1))
    (content : Comparison.Written v c) : Written v (.comparison c)
  | and {v w : Value} {items : List Value} {branches : List Comparison}
    (view : v.view = .object [("and", w)]) (array : w.view = .array items)
    (content : List.Forall₂ Comparison.Written items branches) : Written v (.and branches)
  | or {v w : Value} {items : List Value} {branches : List Comparison}
    (view : v.view = .object [("or", w)]) (array : w.view = .array items)
    (content : List.Forall₂ Comparison.Written items branches) : Written v (.or branches)
  | not {v w : Value} {c : Comparison} (view : v.view = .object [("not", w)])
    (content : Comparison.Written w c) : Written v (.not c)

theorem branchesOfValue_eq_ok_iff {v : Value} {branches : List Comparison} :
    branchesOfValue v = .ok branches ↔
      ∃ items, v.view = .array items ∧ List.Forall₂ Comparison.Written items branches := by
  unfold branchesOfValue
  cases v.view with
  | array items =>
      simp only [mapM_eq_ok_iff, Comparison.ofValue_eq_ok_iff, Value.View.array.injEq]
      simp
  | null | bool | number | text | object => simp

/-- The connectives among the keys of an object. -/
theorem mem_filter_connectiveKeys {keys : List String} {key : String} :
    key ∈ connectiveKeys.filter (· ∈ keys) ↔ key ∈ connectiveKeys ∧ key ∈ keys := by
  simp

/-- A connective that is the only key is read with its content. -/
theorem ofValue_of_connective {v w : Value} {key : String} (hview : v.view = .object [(key, w)])
    (hkey : key ∈ connectiveKeys) : ofValue v = ofConnective key w := by
  unfold ofValue
  rw [hview]
  simp only [connectiveKeys, List.mem_cons, List.not_mem_nil, or_false] at hkey
  rcases hkey with rfl | rfl | rfl <;> rfl

/-- **Keys that name no kind of filter are refused for what they are**, whatever the values. -/
theorem ofValue_of_describes {v : Value} {members : List (String × Value)} {shape : FilterShape}
    (hview : v.view = .object members) (h : shape.Describes (members.map (·.1))) :
    ofValue v = offend (.rejected shape.message) := by
  unfold ofValue
  rw [hview]
  dsimp only
  cases shape with
  | fieldWithConnective =>
      obtain ⟨hfield, key, hkey, hmem⟩ := h
      have hany : connectiveKeys.any (· ∈ members.map (·.1)) = true :=
        List.any_eq_true.mpr ⟨key, hkey, decide_eq_true hmem⟩
      rw [if_pos hfield, if_pos hany]
  | noKind =>
      obtain ⟨hfield, hnone⟩ := h
      have hfilter : connectiveKeys.filter (· ∈ members.map (·.1)) = [] :=
        List.filter_eq_nil_iff.mpr fun key hkey => by simpa using hnone key hkey
      rw [if_neg hfield, hfilter]
  | severalConnectives =>
      obtain ⟨hfield, key, hkey, other, hother, hne, hmem, hmem'⟩ := h
      have hkey : key ∈ connectiveKeys.filter (· ∈ members.map (·.1)) :=
        mem_filter_connectiveKeys.mpr ⟨hkey, hmem⟩
      have hother : other ∈ connectiveKeys.filter (· ∈ members.map (·.1)) :=
        mem_filter_connectiveKeys.mpr ⟨hother, hmem'⟩
      rw [if_neg hfield]
      split
      · rename_i hfilter
        rw [hfilter] at hkey
        exact absurd hkey List.not_mem_nil
      · rename_i hfilter
        rw [hfilter, List.mem_singleton] at hkey hother
        exact absurd (hkey.trans hother.symm) hne
      · rename_i hfilter
        rw [hfilter, List.mem_singleton] at hkey hother
        exact absurd (hkey.trans hother.symm) hne
      · rfl
  | connectiveNotAlone =>
      obtain ⟨hfield, key, hkey, hmem, honly, other, hother, hne⟩ := h
      have hnodup : (connectiveKeys.filter (· ∈ members.map (·.1))).Nodup :=
        List.Nodup.filter _ (by decide)
      have hfilter : connectiveKeys.filter (· ∈ members.map (·.1)) = [key] := by
        refine List.perm_singleton.mp
          ((List.perm_ext_iff_of_nodup hnodup (List.nodup_singleton key)).mpr fun k => ?_)
        rw [mem_filter_connectiveKeys, List.mem_singleton]
        constructor
        · rintro ⟨hk, hk'⟩
          exact honly k hk hk'
        · rintro rfl
          exact ⟨hkey, hmem⟩
      rw [if_neg hfield, hfilter]
      split
      · rename_i heq
        cases heq
      · -- the key could not differ from the other one, if it were alone
        rw [List.map_singleton, List.mem_singleton] at hmem hother
        exact absurd (hother.trans hmem.symm) hne
      · rfl
      · rename_i hsingle _
        exact absurd rfl (hsingle key)

/-- A connective that is the only key is read as the logical filter that it makes of its
content. -/
theorem written_of_ofConnective {v w : Value} {key : String} {filter : Filter}
    (hview : v.view = .object [(key, w)]) (hkey : key ∈ connectiveKeys)
    (h : ofConnective key w = .ok filter) : Written v filter := by
  simp only [connectiveKeys, List.mem_cons, List.not_mem_nil, or_false] at hkey
  rcases hkey with rfl | rfl | rfl
  · obtain ⟨branches, hbranches, h⟩ := bind_eq_ok_iff.mp h
    obtain rfl := Except.ok.inj h
    obtain ⟨items, harray, hcontent⟩ := branchesOfValue_eq_ok_iff.mp hbranches
    exact .and hview harray hcontent
  · obtain ⟨branches, hbranches, h⟩ := bind_eq_ok_iff.mp h
    obtain rfl := Except.ok.inj h
    obtain ⟨items, harray, hcontent⟩ := branchesOfValue_eq_ok_iff.mp hbranches
    exact .or hview harray hcontent
  · obtain ⟨c, hc, h⟩ := bind_eq_ok_iff.mp h
    obtain rfl := Except.ok.inj h
    exact .not hview (Comparison.ofValue_eq_ok_iff.mp hc)

theorem ofValue_of_written {v : Value} {filter : Filter} (h : Written v filter) :
    ofValue v = .ok filter := by
  cases h with
  | @comparison members c hview hfield hunconnected hcontent =>
      have hany : ¬ connectiveKeys.any (· ∈ members.map (·.1)) = true := by
        rw [List.any_eq_true]
        rintro ⟨key, hkey, hmem⟩
        exact hunconnected key hkey (of_decide_eq_true hmem)
      unfold ofValue
      rw [hview]
      dsimp only
      rw [if_pos hfield, if_neg hany, Comparison.ofValue_eq_ok_iff.mpr hcontent]
      rfl
  | and hview harray hcontent =>
      rw [ofValue_of_connective hview (by decide)]
      show (branchesOfValue _ >>= fun branches => _) = _
      rw [branchesOfValue_eq_ok_iff.mpr ⟨_, harray, hcontent⟩]
      rfl
  | or hview harray hcontent =>
      rw [ofValue_of_connective hview (by decide)]
      show (branchesOfValue _ >>= fun branches => _) = _
      rw [branchesOfValue_eq_ok_iff.mpr ⟨_, harray, hcontent⟩]
      rfl
  | not hview hcontent =>
      rw [ofValue_of_connective hview (by decide)]
      show (Comparison.ofValue _ >>= fun c => _) = _
      rw [Comparison.ofValue_eq_ok_iff.mpr hcontent]
      rfl

/-- **A value is read as the filter that it is written as**, and as no other. -/
theorem ofValue_eq_ok_iff {v : Value} {filter : Filter} :
    ofValue v = .ok filter ↔ Written v filter := by
  refine ⟨fun h => ?_, ofValue_of_written⟩
  unfold ofValue at h
  split at h
  · rename_i members hview
    dsimp only at h
    split_ifs at h with hfield hconnective
    · exact absurd h Json.offend_ne_ok
    · obtain ⟨c, hc, h⟩ := bind_eq_ok_iff.mp h
      obtain rfl := Except.ok.inj h
      refine .comparison hview hfield (fun key hkey hmem => hconnective ?_)
        (Comparison.ofValue_eq_ok_iff.mp hc)
      exact List.any_eq_true.mpr ⟨key, hkey, decide_eq_true hmem⟩
    · split at h
      · exact absurd h Json.offend_ne_ok
      · rename_i k key w hfilter
        have hk : k ∈ connectiveKeys ∧ k ∈ [(key, w)].map (·.1) :=
          mem_filter_connectiveKeys.mp (hfilter ▸ List.mem_singleton_self k)
        obtain rfl : k = key := List.mem_singleton.mp hk.2
        exact written_of_ofConnective hview hk.1 h
      · exact absurd h Json.offend_ne_ok
      · exact absurd h Json.offend_ne_ok
  · exact absurd h mismatchValue_ne_ok

/-- **Filters are decoded exactly by their grammar.**  A value is decoded as a filter just
when it is written as that filter, and an object whose keys name no kind of filter is refused
with the message for its keys. -/
theorem decoding_exact (v : Value) :
    (∀ filter, ofValue v = .ok filter ↔ Written v filter) ∧
      ∀ members, v.view = .object members → ∀ shape : FilterShape,
        shape.Describes (members.map (·.1)) → ofValue v = offend (.rejected shape.message) :=
  ⟨fun _ => ofValue_eq_ok_iff, fun _ hview _ h => ofValue_of_describes hview h⟩

end Filter

/-! ## Filters at the edge of the grammar -/

namespace Edge

/-- A comparison as an array, with a `null` for its value. -/
def branch : Value :=
  ⟨.array [.text "placed", .text "is_null", .null], trivial, trivial, trivial, trivial⟩

/-- The negation of a comparison that is written as an array. -/
def negation : Value :=
  ⟨.object [("not", branch.tree)], List.pairwise_singleton _ _, branch.canonical, trivial⟩

theorem connectives_increase : ["and", "or"].Pairwise (· < ·) := by decide

/-- Two connectives with contents that are no branches. -/
def connectives : Value :=
  ⟨.object [("and", .array [.null]), ("or", .bool true)], connectives_increase,
    ⟨trivial, trivial⟩, trivial, trivial⟩

end Edge

/-- A branch that is an array stands for a comparison, and two connectives are refused before
their branches are looked at. -/
theorem Filter.decoding_exact_edge :
    Written Edge.negation (.not ⟨"placed", "is_null", none⟩) ∧
      Edge.connectives.view = .object [("and", ⟨.array [.null], trivial, trivial⟩),
        ("or", ⟨.bool true, trivial⟩)] ∧
      FilterShape.severalConnectives.Describes ["and", "or"] ∧
      ofValue Edge.connectives = offend (.rejected FilterShape.severalConnectives.message) := by
  have hkeys : FilterShape.severalConnectives.Describes ["and", "or"] :=
    ⟨by decide, "and", by decide, "or", by decide, by decide, by decide, by decide⟩
  exact ⟨((decoding_exact Edge.negation).1 _).mp rfl, rfl, hkeys,
    (decoding_exact Edge.connectives).2 _ rfl .severalConnectives hkeys⟩

end SchemaQuery
