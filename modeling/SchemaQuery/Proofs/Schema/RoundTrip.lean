import SchemaQuery.Proofs.Json.Records
import SchemaQuery.Proofs.Schema.Exactness

/-!
# Schema documents are read back from their texts

A schema document holds no numbers and nests to a fixed depth, so that nothing stands in the
way of reading it back: every document is had from its text.  Since every registry describes a
document, each registry is the one that some text describes.

## Main definitions

* `Field.entry`, `Model.entry`, `Registry.schema` - a registry as a document, with all flags
  given.

## Main statements

* `SchemaDocument.ofText_toText` - schema documents are read back.
* `Registry.exists_ofText` - every registry is built from some text.
-/

namespace SchemaQuery

open Json (Tree Record Document)
open Json.Document (toList_document toOption_eq_some)
open Json.Record (placeClauses_cons placeClauses_some toRecord_clausesOf)
open Outcome

/-! ## Documents -/

theorem FieldEntry.toTree_eq (entry : FieldEntry) :
    entry.toTree = .object (clausesOf
      [("name", some (.text entry.name)), ("type", some (.text entry.type)),
        ("nullable", some (.bool entry.nullable)), ("filterable", entry.filterable.map .bool),
        ("groupable", entry.groupable.map .bool),
        ("aggregatable", entry.aggregatable.map .bool)]) := by
  obtain ⟨name, type, nullable, filterable, groupable, aggregatable⟩ := entry
  cases filterable <;> cases groupable <;> cases aggregatable <;> rfl

/-- A field is read back, whichever of its flags are given. -/
theorem FieldEntry.toRecord_toTree (entry : FieldEntry) :
    entry.toTree.document.toRecord record .text = .ok entry := by
  obtain ⟨name, type, nullable, filterable, groupable, aggregatable⟩ := entry
  -- a flag is placed in one way, whichever member of the field it is
  have hflag {flag : Option Bool} (put : Option Bool → FieldEntry) :
      ∀ tree ∈ flag.map Tree.bool,
        (do return put (← tree.document.toOption Document.toBool)) = Except.ok (put flag) := by
    intro tree htree
    obtain ⟨b, hb, rfl⟩ := Option.map_eq_some_iff.mp htree
    rw [hb]
    rfl
  have hfilterable (e : FieldEntry) : ∀ tree ∈ filterable.map Tree.bool,
      record.place e "filterable" tree.document = .ok { e with filterable } :=
    hflag fun filterable => { e with filterable }
  have hgroupable (e : FieldEntry) : ∀ tree ∈ groupable.map Tree.bool,
      record.place e "groupable" tree.document = .ok { e with groupable } :=
    hflag fun groupable => { e with groupable }
  have haggregatable (e : FieldEntry) : ∀ tree ∈ aggregatable.map Tree.bool,
      record.place e "aggregatable" tree.document = .ok { e with aggregatable } :=
    hflag fun aggregatable => { e with aggregatable }
  have hplace : record.placeClauses record.blank
      [("name", some (.text name)), ("type", some (.text type)),
        ("nullable", some (.bool nullable)), ("filterable", filterable.map .bool),
        ("groupable", groupable.map .bool), ("aggregatable", aggregatable.map .bool)]
          = .ok ⟨name, type, nullable, filterable, groupable, aggregatable⟩ := by
    have hname : record.place record.blank "name" (Tree.text name).document
        = .ok { name } := rfl
    have htype : record.place { name } "type" (Tree.text type).document
        = .ok { name, type } := rfl
    have hnullable : record.place { name, type } "nullable" (Tree.bool nullable).document
        = .ok { name, type, nullable } := rfl
    -- a flag that is not given is not given in the blank field either
    rw [placeClauses_some hname, placeClauses_some htype, placeClauses_some hnullable,
      placeClauses_cons (hfilterable _) fun hnone => by rw [Option.map_eq_none_iff.mp hnone],
      placeClauses_cons (hgroupable _) fun hnone => by rw [Option.map_eq_none_iff.mp hnone],
      placeClauses_cons (haggregatable _) fun hnone => by rw [Option.map_eq_none_iff.mp hnone]]
    rfl
  rw [toTree_eq]
  exact toRecord_clausesOf .text rfl (by simp [Record.names, record]) (by simp [record]) hplace

theorem ModelEntry.toRecord_toTree (entry : ModelEntry) :
    entry.toTree.document.toRecord record .text = .ok entry := by
  have hplace : record.placeClauses record.blank
      [("name", some (.text entry.name)), ("table", some (.text entry.table)),
        ("primaryKey", some (.text entry.primaryKey)),
        ("fields", some (.array (entry.fields.map (·.toTree))))] = .ok entry := by
    have hfields : record.place ⟨entry.name, entry.table, entry.primaryKey, []⟩ "fields"
        (Tree.array (entry.fields.map (·.toTree))).document = .ok entry := by
      show ((Tree.array _).document.toList _ >>= fun fields => _) = _
      rw [toList_document fun field _ => field.toRecord_toTree]
      rfl
    exact placeClauses_some hfields []
  exact toRecord_clausesOf .text rfl (by simp [Record.names, record]) (by simp [record]) hplace

theorem SchemaDocument.ofDocument_toTree (schema : SchemaDocument) :
    ofDocument schema.toTree.document = .ok schema := by
  have hmodels : record.place record.blank "models"
      (Tree.array (schema.models.map (·.toTree))).document = .ok schema := by
    show ((Tree.array _).document.toList _ >>= fun models => _) = _
    rw [toList_document fun model _ => model.toRecord_toTree]
    rfl
  exact toRecord_clausesOf .text rfl (by simp [Record.names, record]) (by simp [record])
    (placeClauses_some hmodels [])

/-- **A schema document is read back from its text.** -/
theorem SchemaDocument.ofText_toText (schema : SchemaDocument) :
    ofText schema.toTree.toText = .ok schema := by
  rw [ofText, Document.decodeText_toText]
  exact schema.ofDocument_toTree

/-! ## Registries -/

/-- A field as an entry of a document. -/
def Field.entry (f : Field) : FieldEntry where
  name := f.key
  type := f.type.name
  nullable := f.nullable
  filterable := some f.filterable
  groupable := some f.groupable
  aggregatable := some f.aggregatable

theorem Field.describes_entry (f : Field) : f.Describes f.entry := ⟨rfl, rfl, rfl, rfl, rfl, rfl⟩

/-- A model as an entry of a document. -/
def Model.entry (m : Model) : ModelEntry where
  name := m.key
  table := m.table.text
  primaryKey := m.primaryKey
  fields := m.fields.entries.map Field.entry

theorem Model.describes_entry (m : Model) : m.Describes m.entry := by
  refine ⟨rfl, rfl, rfl, ?_⟩
  show List.Forall₂ Field.Describes m.fields.entries (m.fields.entries.map Field.entry)
  rw [List.forall₂_map_right_iff, List.forall₂_same]
  exact fun f _ => f.describes_entry

namespace Registry

/-- A registry as a document. -/
def schema (registry : Registry) : SchemaDocument := ⟨registry.models.entries.map Model.entry⟩

theorem describes_schema (registry : Registry) : registry.Describes registry.schema := by
  show List.Forall₂ Model.Describes registry.models.entries
    (registry.models.entries.map Model.entry)
  rw [List.forall₂_map_right_iff, List.forall₂_same]
  exact fun m _ => m.describes_entry

/-- **Every registry is built from some text**, that of its document. -/
theorem exists_ofText (registry : Registry) : ∃ text, ofText text = .ok registry := by
  refine ⟨registry.schema.toTree.toText, ?_⟩
  have hread : SchemaDocument.read registry.schema.toTree.toText = .ok registry.schema :=
    mapError_eq_ok_iff.mpr (SchemaDocument.ofText_toText _)
  have hbuilt : ofSchema registry.schema = .ok registry :=
    ofSchema_eq_ok_iff.mpr registry.describes_schema
  rw [ofText, hread, ok_bind]
  exact mapError_eq_ok_iff.mpr hbuilt

end Registry

end SchemaQuery
