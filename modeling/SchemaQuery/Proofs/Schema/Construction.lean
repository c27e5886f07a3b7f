import Mathlib.Data.List.TakeDrop
import Mathlib.Data.List.TakeWhile
import SchemaQuery.Proofs.Outcome
import SchemaQuery.Schema.Registry

/-!
# What a registry is built from

A registry holds identifiers, table names and field types, while the document it was built
from holds texts.  Here the two are tied together: a registry that was built from a document
describes just the models of the document, in their order, and every name in it is written as
it was in the document.  Since the types of the registry admit nothing but plain names, this
is where the shape of a name is traced back to the document.

## Main definitions

* `IsPlainName` - ASCII letters, digits and underscores, the first of them no digit.
* `Field.Describes`, `Model.Describes`, `Registry.Describes` - a part of a registry has the
  content of an entry of a document.

## Main statements

* `isIdentifier_iff_isPlainName` - the identifiers are the plain names.
* `TableName.ofText?_eq_some_iff` - a table name is read from its own text and no other.
* `Registry.describes_of_ofSchema` - a registry describes the document it was built from.
-/

namespace SchemaQuery

open Outcome

/-! ## Plain names -/

/-- An ASCII letter or an underscore. -/
def IsNameStart (c : Char) : Prop := ('a' ≤ c ∧ c ≤ 'z') ∨ ('A' ≤ c ∧ c ≤ 'Z') ∨ c = '_'

/-- An ASCII letter or digit or an underscore. -/
def IsNameChar (c : Char) : Prop := IsNameStart c ∨ ('0' ≤ c ∧ c ≤ '9')

/-- A plain name is an ASCII letter or underscore with any number of ASCII letters, digits and
underscores after it. -/
def IsPlainName (s : String) : Prop :=
  ∃ first rest, s.toList = first :: rest ∧ IsNameStart first ∧ ∀ c ∈ rest, IsNameChar c

theorem IsPlainName.ne_empty {s : String} (h : IsPlainName s) : s ≠ "" := by
  rintro rfl
  obtain ⟨first, rest, hlist, -, -⟩ := h
  cases hlist

theorem isIdentifierStart_iff {c : Char} : isIdentifierStart c = true ↔ IsNameStart c := by
  have hupper : c.isUpper = true ↔ 'A' ≤ c ∧ c ≤ 'Z' := decide_eq_true_iff
  have hlower : c.isLower = true ↔ 'a' ≤ c ∧ c ≤ 'z' :=
    (Bool.and_eq_true_iff).trans (and_congr decide_eq_true_iff decide_eq_true_iff)
  have halpha : c.isAlpha = true ↔ c.isUpper = true ∨ c.isLower = true := Bool.or_eq_true_iff
  rw [isIdentifierStart, Bool.or_eq_true, beq_iff_eq, halpha, hupper, hlower, IsNameStart]
  tauto

theorem isIdentifierChar_iff {c : Char} : isIdentifierChar c = true ↔ IsNameChar c := by
  have hdigit : c.isDigit = true ↔ '0' ≤ c ∧ c ≤ '9' :=
    (Bool.and_eq_true_iff).trans (and_congr decide_eq_true_iff decide_eq_true_iff)
  have halphanum : c.isAlphanum = true ↔ c.isAlpha = true ∨ c.isDigit = true := Bool.or_eq_true_iff
  rw [IsNameChar, ← isIdentifierStart_iff, isIdentifierChar, isIdentifierStart, Bool.or_eq_true,
    Bool.or_eq_true, halphanum, hdigit]
  tauto

/-- **The identifiers are the plain names.** -/
theorem isIdentifier_iff_isPlainName {s : String} : isIdentifier s = true ↔ IsPlainName s := by
  unfold isIdentifier IsPlainName
  cases s.toList with
  | nil => simp [areIdentifier]
  | cons first rest =>
      simp only [areIdentifier, Bool.and_eq_true, List.all_eq_true, isIdentifierStart_iff,
        isIdentifierChar_iff]
      constructor
      · rintro ⟨hfirst, hrest⟩
        exact ⟨first, rest, rfl, hfirst, hrest⟩
      · rintro ⟨_, _, hcons, hfirst, hrest⟩
        obtain ⟨rfl, rfl⟩ := List.cons.inj hcons
        exact ⟨hfirst, hrest⟩

/-- Every character of an identifier may stand in one. -/
theorem isIdentifierChar_of_mem {s : String} (h : isIdentifier s = true) {c : Char}
    (hc : c ∈ s.toList) : isIdentifierChar c = true := by
  obtain ⟨first, rest, hlist, hfirst, hrest⟩ := isIdentifier_iff_isPlainName.mp h
  rw [hlist] at hc
  refine isIdentifierChar_iff.mpr ?_
  rcases List.mem_cons.mp hc with rfl | hc
  · exact .inl hfirst
  · exact hrest c hc

/-! ## Names read from texts -/

/-- An identifier is read from its own text and no other. -/
theorem Identifier.ofText?_eq_some_iff {s : String} {i : Identifier} :
    Identifier.ofText? s = some i ↔ i.text = s := by
  unfold Identifier.ofText?
  constructor
  · intro h
    split at h
    · rw [← Option.some.inj h]
    · cases h
  · rintro rfl
    rw [dif_pos i.valid]

/-- No point stands in an identifier. -/
theorem Identifier.point_notMem (i : Identifier) : '.' ∉ i.text.toList := fun h =>
  absurd (isIdentifierChar_of_mem i.valid h) (by decide)

/-- The characters of an identifier go on up to the first point. -/
theorem Identifier.forall_ne_point (i : Identifier) :
    ∀ c ∈ i.text.toList, decide (c ≠ '.') = true := fun _ hc =>
  decide_eq_true fun hpoint => i.point_notMem (hpoint ▸ hc)

namespace TableName

/-- The identifiers of a table name, the schema before the table. -/
def parts (name : TableName) : List Identifier := name.schema.toList ++ [name.table]

/-- The parts of a table name are what its points leave of its text. -/
theorem splitOn_text (name : TableName) :
    name.text.toList.splitOn '.' = name.parts.map (·.text.toList) := by
  have hjoined : name.text.toList = ['.'].intercalate (name.parts.map (·.text.toList)) := by
    obtain ⟨schema, table⟩ := name
    cases schema <;> simp [text, parts, List.intercalate]
  have hplain : ∀ part ∈ name.parts.map (·.text.toList), '.' ∉ part := by
    intro part hpart
    obtain ⟨i, -, rfl⟩ := List.mem_map.mp hpart
    exact i.point_notMem
  rw [hjoined, List.splitOn_intercalate '.' hplain (by simp [parts])]

/-- A table name is read from its own text. -/
theorem ofText?_text (name : TableName) : ofText? name.text = some name := by
  obtain ⟨schema, table⟩ := name
  have hname : ∀ i : Identifier, Identifier.ofText? i.text = some i := fun _ =>
    Identifier.ofText?_eq_some_iff.mpr rfl
  unfold ofText?
  rw [List.span_eq_takeWhile_dropWhile]
  cases schema with
  | none =>
      have hrest : table.text.toList.dropWhile (fun c => decide (c ≠ '.')) = [] :=
        List.dropWhile_eq_nil_iff.mpr table.forall_ne_point
      simp only [text, hrest, hname, Option.map_some]
  | some schema =>
      have hlist : (⟨some schema, table⟩ : TableName).text.toList
          = schema.text.toList ++ '.' :: table.text.toList := by
        simp [text]
      rw [hlist, List.takeWhile_append_of_pos schema.forall_ne_point,
        List.dropWhile_append_of_pos schema.forall_ne_point]
      simp [hname]

/-- Where a text is split at its first point, the point stands between the two parts. -/
theorem eq_append_of_span {cs front rest : List Char} {c : Char}
    (h : cs.span (fun c => decide (c ≠ '.')) = (front, c :: rest)) : cs = front ++ '.' :: rest := by
  rw [List.span_eq_takeWhile_dropWhile] at h
  obtain ⟨rfl, hrest⟩ := Prod.mk.inj h
  have hpoint : c = '.' := by
    have hhead := List.head?_dropWhile_not (fun c => decide (c ≠ '.')) cs
    rw [hrest] at hhead
    simpa using hhead
  have hsplit := List.takeWhile_append_dropWhile (p := fun c => decide (c ≠ '.')) (l := cs)
  rw [hrest] at hsplit
  rw [← hpoint]
  exact hpoint ▸ hsplit.symm

/-- **A table name is read from its own text and no other.** -/
theorem ofText?_eq_some_iff {s : String} {name : TableName} :
    ofText? s = some name ↔ name.text = s := by
  constructor
  · intro h
    unfold ofText? at h
    split at h
    · obtain ⟨table, htable, rfl⟩ := Option.map_eq_some_iff.mp h
      exact Identifier.ofText?_eq_some_iff.mp htable
    · rename_i front c rest hspan
      simp only [Option.bind_eq_bind, Option.bind_eq_some_iff, Identifier.ofText?_eq_some_iff] at h
      obtain ⟨schema, hschema, table, htable, hname⟩ := h
      obtain rfl := Option.some.inj hname
      have htext : (⟨some schema, table⟩ : TableName).text
          = schema.text ++ "." ++ table.text := rfl
      rw [← String.toList_inj, eq_append_of_span hspan, htext, hschema, htable]
      simp
  · rintro rfl
    exact ofText?_text name

end TableName

/-! ## Fields, models and registries -/

/-- A field has the content of an entry, with the defaults for the flags that are not given:
it can be filtered and grouped by, and aggregated if it is numeric. -/
structure Field.Describes (f : Field) (entry : FieldEntry) : Prop where
  name : f.key = entry.name
  type : f.type.name = entry.type
  nullable : f.nullable = entry.nullable
  filterable : f.filterable = entry.filterable.getD true
  groupable : f.groupable = entry.groupable.getD true
  aggregatable : f.aggregatable = entry.aggregatable.getD f.type.isNumeric

/-- A model has the content of an entry, with the same fields in the same order. -/
structure Model.Describes (m : Model) (entry : ModelEntry) : Prop where
  name : m.key = entry.name
  table : m.table.text = entry.table
  primaryKey : m.primaryKey = entry.primaryKey
  fields : List.Forall₂ Field.Describes m.fields.entries entry.fields

/-- A registry has the content of a document, with the same models in the same order. -/
def Registry.Describes (registry : Registry) (schema : SchemaDocument) : Prop :=
  List.Forall₂ Model.Describes registry.models.entries schema.models

theorem Field.describes_of_ofEntry {entry : FieldEntry} {f : Field}
    (h : Field.ofEntry entry = .ok f) : f.Describes entry := by
  revert h
  fun_cases Field.ofEntry entry with
  | case5 _ name hname _ type htype =>
      intro h
      obtain rfl := Except.ok.inj h
      exact ⟨Identifier.ofText?_eq_some_iff.mp hname, FieldType.ofName?_eq_some_iff.mp htype,
        rfl, rfl, rfl, rfl⟩
  | _ =>
      intro h
      cases h

/-! ## Entries added one by one -/

namespace Catalog

variable {α : Type} {key : α → String}

/-- An entry that was added stands at the end, and any longer catalog comes about in this
way. -/
theorem add?_eq_some_iff {c d : Catalog α key} {x : α} :
    c.add? x = some d ↔ d.entries = c.entries ++ [x] := by
  refine ⟨entries_add?, fun h => ?_⟩
  have hnew : key x ∉ c.names := by
    have hdistinct := d.distinct
    rw [h, List.map_append, List.nodup_append] at hdistinct
    exact fun hmem => hdistinct.2.2 _ hmem _ (by simp) rfl
  obtain ⟨e, he⟩ : ∃ e, c.add? x = some e :=
    Option.ne_none_iff_exists'.mp fun hnone => hnew (add?_eq_none_iff.mp hnone)
  obtain ⟨entries, distinct⟩ := e
  obtain ⟨entries', distinct'⟩ := d
  obtain rfl : entries' = entries := h.trans (entries_add? he).symm
  exact he

variable {β δ : Type} {add : Nat → Catalog α key → List β → Except δ (Catalog α key)}

/-- **Adding one by one what entries describe**, as long as no name is taken, puts it after
what was there, in the order of the entries. -/
theorem adds_eq_ok_iff (describes : α → β → Prop)
    (hnil : ∀ index c, add index c [] = .ok c)
    (hcons : ∀ index c entry rest all, add index c (entry :: rest) = .ok all ↔
      ∃ x d, describes x entry ∧ c.add? x = some d ∧ add (index + 1) d rest = .ok all)
    {index : Nat} {c all : Catalog α key} {entries : List β} :
    add index c entries = .ok all ↔
      ∃ xs, all.entries = c.entries ++ xs ∧ List.Forall₂ describes xs entries := by
  induction entries generalizing index c with
  | nil =>
      rw [hnil, Except.ok.injEq]
      constructor
      · rintro rfl
        exact ⟨[], (List.append_nil _).symm, .nil⟩
      · rintro ⟨xs, hall, hxs⟩
        cases hxs
        obtain ⟨entries, distinct⟩ := c
        obtain ⟨entries', distinct'⟩ := all
        obtain rfl : entries' = entries := hall.trans (List.append_nil _)
        rfl
  | cons entry rest ih =>
      simp only [hcons, ih]
      constructor
      · rintro ⟨x, d, hx, hd, xs, hall, hxs⟩
        refine ⟨x :: xs, ?_, .cons hx hxs⟩
        rw [hall, entries_add? hd, List.append_assoc, List.singleton_append]
      · rintro ⟨_, hall, hxs⟩
        cases hxs with
        | @cons x _ xs _ hx hxs =>
            have hsplit : all.entries = (c.entries ++ [x]) ++ xs := by
              rw [hall, List.append_assoc, List.singleton_append]
            have hdistinct : ((c.entries ++ [x]).map key).Nodup := by
              have hnodup := all.distinct
              rw [hsplit, List.map_append] at hnodup
              exact (List.nodup_append.mp hnodup).1
            exact ⟨x, ⟨c.entries ++ [x], hdistinct⟩, hx, add?_eq_some_iff.mpr rfl, xs, hsplit, hxs⟩

end Catalog

theorem Model.addFields_cons_eq_ok_iff (index : Nat) (fields : Catalog Field Field.key)
    (entry : FieldEntry) (rest : List FieldEntry) (all : Catalog Field Field.key) :
    addFields index fields (entry :: rest) = .ok all ↔
      ∃ f extended, Field.ofEntry entry = .ok f ∧ fields.add? f = some extended ∧
        addFields (index + 1) extended rest = .ok all := by
  rw [addFields]
  cases Field.ofEntry entry with
  | error defect => simp
  | ok f => cases hadd : fields.add? f <;> simp [hadd]

/-- The fields that are added come after those that were there, one for each entry. -/
theorem Model.describes_of_addFields {index : Nat} {fields all : Catalog Field Field.key}
    {entries : List FieldEntry} (h : Model.addFields index fields entries = .ok all) :
    ∃ added, all.entries = fields.entries ++ added ∧
      List.Forall₂ Field.Describes added entries := by
  obtain ⟨added, hall, hadded⟩ :=
    (Catalog.adds_eq_ok_iff (fun f entry => Field.ofEntry entry = .ok f) (fun _ _ => rfl)
      addFields_cons_eq_ok_iff).mp h
  exact ⟨added, hall, hadded.imp fun _ _ => Field.describes_of_ofEntry⟩

theorem Model.describes_of_ofEntry {entry : ModelEntry} {m : Model}
    (h : Model.ofEntry entry = .ok m) : m.Describes entry := by
  revert h
  fun_cases Model.ofEntry entry with
  | case7 _ name hname _ table htable =>
      intro h
      obtain ⟨fields, hfields, h⟩ := bind_eq_ok_iff.mp h
      split at h
      · obtain rfl := Except.ok.inj h
        obtain ⟨added, hadded, hdescribes⟩ := Model.describes_of_addFields hfields
        have hall : fields.entries = added := by simpa using hadded
        exact ⟨Identifier.ofText?_eq_some_iff.mp hname, TableName.ofText?_eq_some_iff.mp htable,
          rfl, hall ▸ hdescribes⟩
      · cases h
  | _ =>
      intro h
      cases h

namespace Registry

theorem addModels_cons_eq_ok_iff (index : Nat) (models : Catalog Model Model.key)
    (entry : ModelEntry) (rest : List ModelEntry) (all : Catalog Model Model.key) :
    addModels index models (entry :: rest) = .ok all ↔
      ∃ m extended, Model.ofEntry entry = .ok m ∧ models.add? m = some extended ∧
        addModels (index + 1) extended rest = .ok all := by
  rw [addModels]
  cases Model.ofEntry entry with
  | error defect => simp
  | ok m => cases hadd : models.add? m <;> simp [hadd]

/-- The models that are added come after those that were there, one for each entry. -/
theorem describes_of_addModels {index : Nat} {models all : Catalog Model Model.key}
    {entries : List ModelEntry} (h : addModels index models entries = .ok all) :
    ∃ added, all.entries = models.entries ++ added ∧
      List.Forall₂ Model.Describes added entries := by
  obtain ⟨added, hall, hadded⟩ :=
    (Catalog.adds_eq_ok_iff (fun m entry => Model.ofEntry entry = .ok m) (fun _ _ => rfl)
      addModels_cons_eq_ok_iff).mp h
  exact ⟨added, hall, hadded.imp fun _ _ => Model.describes_of_ofEntry⟩

/-- **A registry describes the document it was built from.** -/
theorem describes_of_ofSchema {schema : SchemaDocument} {registry : Registry}
    (h : ofSchema schema = .ok registry) : registry.Describes schema := by
  obtain ⟨models, hmodels, h⟩ := bind_eq_ok_iff.mp h
  split at h
  · obtain rfl := Except.ok.inj h
    obtain ⟨added, hadded, hdescribes⟩ := describes_of_addModels hmodels
    have hall : models.entries = added := by simpa using hadded
    show List.Forall₂ Model.Describes models.entries schema.models
    exact hall ▸ hdescribes
  · cases h

/-- A registry that was built from a text describes the document in the text. -/
theorem describes_of_ofText {s : String} {registry : Registry} (h : ofText s = .ok registry) :
    ∃ schema, SchemaDocument.ofText s = .ok schema ∧ registry.Describes schema := by
  obtain ⟨schema, hread, hbuilt⟩ := bind_eq_ok_iff.mp h
  exact ⟨schema, mapError_eq_ok_iff.mp hread, describes_of_ofSchema (mapError_eq_ok_iff.mp hbuilt)⟩

end Registry

end SchemaQuery
