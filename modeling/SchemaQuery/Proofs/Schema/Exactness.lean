import SchemaQuery.Proofs.Schema.Construction

/-!
# Registries are exactly what documents describe

A registry is built from a document just when it describes the document, and some registry
describes a document just when the document is well-formed: the checks of the construction ask
for nothing more, and the types of the registry for nothing less.  Since names are distinct,
the content of a registry can be had by name as well as in order, and both ways agree with the
document for every name, known or not.

## Main definitions

* `FieldEntry.WellFormed`, `ModelEntry.WellFormed`, `SchemaDocument.WellFormed` - what a
  document has to be, said without any of the checks.
* `Model.Agrees`, `Registry.Agrees` - every look-up answers with what the document says.

## Main statements

* `Registry.ofSchema_eq_ok_iff` - a registry is built from a document exactly when it
  describes it.
* `Registry.agrees_of_describes` - a registry answers as the document that it describes.
* `registry_exact` - **registries are built from well-formed documents and no others, and
  answer as these say.**
-/

namespace SchemaQuery

open Outcome

/-! ## Well-formed documents -/

/-- The spellings of the types. -/
def typeNames : List String :=
  ["string", "integer", "int", "float", "decimal", "boolean", "datetime", "timestamp", "date",
    "uuid", "json"]

/-- A plain name, or two with a single point between them. -/
def IsTableName (s : String) : Prop :=
  IsPlainName s ∨ ∃ schema table, IsPlainName schema ∧ IsPlainName table ∧
    s = schema ++ "." ++ table

/-- An entry gives a field a plain name and one of the types. -/
structure FieldEntry.WellFormed (entry : FieldEntry) : Prop where
  name : IsPlainName entry.name
  type : entry.type ∈ typeNames

/-- An entry gives a model a plain name, a table and at least one field; its fields have
distinct names, and one of them is the primary key. -/
structure ModelEntry.WellFormed (entry : ModelEntry) : Prop where
  name : IsPlainName entry.name
  table : IsTableName entry.table
  nonempty : entry.fields ≠ []
  fields : ∀ field ∈ entry.fields, field.WellFormed
  distinct : (entry.fields.map (·.name)).Nodup
  primaryKey : entry.primaryKey ∈ entry.fields.map (·.name)

/-- A document has at least one model, and its models have distinct names. -/
structure SchemaDocument.WellFormed (schema : SchemaDocument) : Prop where
  nonempty : schema.models ≠ []
  models : ∀ model ∈ schema.models, model.WellFormed
  distinct : (schema.models.map (·.name)).Nodup

/-! ## Fields -/

theorem mem_typeNames_iff {s : String} : s ∈ typeNames ↔ ∃ type : FieldType, type.name = s := by
  have htable : typeNames = FieldType.all.map (·.name) := rfl
  rw [htable, List.mem_map]
  exact ⟨fun ⟨type, _, h⟩ => ⟨type, h⟩, fun ⟨type, h⟩ => ⟨type, type.mem_all, h⟩⟩

theorem Identifier.text_ne_empty (i : Identifier) : i.text ≠ "" :=
  (isIdentifier_iff_isPlainName.mp i.valid).ne_empty

theorem FieldType.name_ne_empty (t : FieldType) : t.name ≠ "" := by
  cases t <;> decide

/-- **A field is built from an entry exactly when it describes the entry.** -/
theorem Field.ofEntry_eq_ok_iff {entry : FieldEntry} {f : Field} :
    Field.ofEntry entry = .ok f ↔ f.Describes entry := by
  refine ⟨describes_of_ofEntry, fun h => ?_⟩
  have hname : Identifier.ofText? entry.name = some f.name :=
    Identifier.ofText?_eq_some_iff.mpr h.name
  have htype : FieldType.ofName? entry.type = some f.type :=
    FieldType.ofName?_eq_some_iff.mpr h.type
  have hne : entry.name ≠ "" := h.name ▸ f.name.text_ne_empty
  have hne' : entry.type ≠ "" := h.type ▸ f.type.name_ne_empty
  rw [Field.ofEntry, if_neg hne, hname]
  dsimp only
  rw [if_neg hne', htype]
  dsimp only
  rw [← h.nullable, ← h.filterable, ← h.groupable, ← h.aggregatable]

/-- Some field describes a well-formed entry, and no other entry. -/
theorem Field.exists_describes_iff {entry : FieldEntry} :
    (∃ f : Field, f.Describes entry) ↔ entry.WellFormed := by
  constructor
  · rintro ⟨f, h⟩
    exact ⟨h.name ▸ isIdentifier_iff_isPlainName.mp f.name.valid,
      mem_typeNames_iff.mpr ⟨f.type, h.type⟩⟩
  · intro h
    obtain ⟨type, htype⟩ := mem_typeNames_iff.mp h.type
    exact ⟨⟨⟨entry.name, isIdentifier_iff_isPlainName.mpr h.name⟩, type, entry.nullable,
      entry.filterable.getD true, entry.groupable.getD true,
      entry.aggregatable.getD type.isNumeric⟩, rfl, htype, rfl, rfl, rfl, rfl⟩

/-! ## Models -/

/-- What is described item by item has the names of the entries. -/
theorem names_eq_of_describes {α β : Type} {describes : α → β → Prop} {key : α → String}
    {name : β → String} (hname : ∀ x entry, describes x entry → key x = name entry)
    {xs : List α} {entries : List β} (h : List.Forall₂ describes xs entries) :
    xs.map key = entries.map name := by
  induction h with
  | nil => rfl
  | cons hx _ ih => rw [List.map_cons, List.map_cons, hname _ _ hx, ih]

/-- Entries that are described one by one can be described together. -/
theorem exists_forall₂_of_forall {α β : Type} {describes : α → β → Prop} {entries : List β}
    (h : ∀ entry ∈ entries, ∃ x, describes x entry) :
    ∃ xs, List.Forall₂ describes xs entries := by
  induction entries with
  | nil => exact ⟨[], .nil⟩
  | cons entry rest ih =>
      obtain ⟨hentry, hrest⟩ := List.forall_mem_cons.mp h
      obtain ⟨x, hx⟩ := hentry
      obtain ⟨xs, hxs⟩ := ih hrest
      exact ⟨x :: xs, .cons hx hxs⟩

theorem Model.addFields_eq_ok_iff {index : Nat} {fields all : Catalog Field Field.key}
    {entries : List FieldEntry} :
    addFields index fields entries = .ok all ↔
      ∃ added, all.entries = fields.entries ++ added ∧
        List.Forall₂ Field.Describes added entries := by
  refine Catalog.adds_eq_ok_iff Field.Describes (fun _ _ => rfl)
    fun index fields entry rest all => ?_
  simp only [addFields_cons_eq_ok_iff, Field.ofEntry_eq_ok_iff]

theorem Model.Describes.names {m : Model} {entry : ModelEntry} (h : m.Describes entry) :
    m.fields.names = entry.fields.map (·.name) :=
  names_eq_of_describes (fun _ _ hfield => hfield.name) h.fields

theorem TableName.isTableName (name : TableName) : IsTableName name.text := by
  have hplain (i : Identifier) : IsPlainName i.text := isIdentifier_iff_isPlainName.mp i.valid
  obtain ⟨schema, table⟩ := name
  cases schema with
  | none => exact .inl (hplain table)
  | some schema => exact .inr ⟨schema.text, table.text, hplain schema, hplain table, rfl⟩

theorem TableName.text_ne_empty (name : TableName) : name.text ≠ "" := by
  obtain ⟨schema, table⟩ := name
  have htable : table.text ≠ "" := table.text_ne_empty
  cases schema with
  | none => exact htable
  | some schema =>
      intro h
      have hlist := congrArg String.toList h
      simp [text] at hlist

theorem IsTableName.exists_text {s : String} (h : IsTableName s) :
    ∃ name : TableName, name.text = s := by
  rcases h with hplain | ⟨schema, table, hschema, htable, rfl⟩
  · exact ⟨⟨none, ⟨s, isIdentifier_iff_isPlainName.mpr hplain⟩⟩, rfl⟩
  · exact ⟨⟨some ⟨schema, isIdentifier_iff_isPlainName.mpr hschema⟩,
      ⟨table, isIdentifier_iff_isPlainName.mpr htable⟩⟩, rfl⟩

/-- **A model is built from an entry exactly when it describes the entry.** -/
theorem Model.ofEntry_eq_ok_iff {entry : ModelEntry} {m : Model} :
    Model.ofEntry entry = .ok m ↔ m.Describes entry := by
  refine ⟨describes_of_ofEntry, fun h => ?_⟩
  have hname : Identifier.ofText? entry.name = some m.name :=
    Identifier.ofText?_eq_some_iff.mpr h.name
  have htable : TableName.ofText? entry.table = some m.table :=
    TableName.ofText?_eq_some_iff.mpr h.table
  have hfields : addFields 0 Catalog.empty entry.fields = .ok m.fields :=
    addFields_eq_ok_iff.mpr ⟨m.fields.entries, rfl, h.fields⟩
  -- the primary key is the name of a field, so that neither of the two can be missing
  obtain ⟨f, hf, hkey⟩ := List.mem_map.mp (Catalog.contains_iff.mp m.primaryKey_declared)
  have hkeyNe : entry.primaryKey ≠ "" := by
    rw [← h.primaryKey, ← hkey]
    exact f.name.text_ne_empty
  have hfieldsNe : entry.fields ≠ [] := by
    intro hnil
    have hentries := h.fields
    rw [hnil, List.forall₂_nil_right_iff] at hentries
    exact absurd hf (hentries ▸ List.not_mem_nil)
  have hdeclared : m.fields.contains entry.primaryKey = true :=
    h.primaryKey ▸ m.primaryKey_declared
  rw [Model.ofEntry, if_neg (h.name ▸ m.name.text_ne_empty), hname]
  dsimp only
  rw [if_neg (h.table ▸ m.table.text_ne_empty), htable]
  dsimp only
  rw [if_neg hkeyNe, if_neg hfieldsNe, hfields, ok_bind, dif_pos hdeclared]
  obtain ⟨name, table, primaryKey, fields, declared⟩ := m
  obtain rfl := h.primaryKey
  rfl

/-- Some model describes a well-formed entry, and no other entry. -/
theorem Model.exists_describes_iff {entry : ModelEntry} :
    (∃ m : Model, m.Describes entry) ↔ entry.WellFormed := by
  constructor
  · rintro ⟨m, h⟩
    obtain ⟨f, hf, hkey⟩ := List.mem_map.mp (Catalog.contains_iff.mp m.primaryKey_declared)
    refine ⟨h.name ▸ isIdentifier_iff_isPlainName.mp m.name.valid, h.table ▸ m.table.isTableName,
      ?_, ?_, ?_, ?_⟩
    · intro hnil
      have hentries := h.fields
      rw [hnil, List.forall₂_nil_right_iff] at hentries
      exact absurd hf (hentries ▸ List.not_mem_nil)
    · intro field hfield
      obtain ⟨g, -, hg⟩ := exists_of_mem_forall₂ h.fields.flip hfield
      exact Field.exists_describes_iff.mp ⟨g, hg⟩
    · rw [← h.names]
      exact m.fields.distinct
    · rw [← h.names, ← h.primaryKey]
      exact Catalog.contains_iff.mp m.primaryKey_declared
  · intro h
    obtain ⟨table, htable⟩ := h.table.exists_text
    obtain ⟨fields, hfields⟩ := exists_forall₂_of_forall fun field hfield =>
      Field.exists_describes_iff.mpr (h.fields field hfield)
    have hnames : fields.map Field.key = entry.fields.map (·.name) :=
      names_eq_of_describes (fun _ _ hfield => hfield.name) hfields
    let catalog : Catalog Field Field.key := ⟨fields, hnames ▸ h.distinct⟩
    have hdeclared : catalog.contains entry.primaryKey = true := by
      rw [Catalog.contains_iff, Catalog.names, hnames]
      exact h.primaryKey
    exact ⟨⟨⟨entry.name, isIdentifier_iff_isPlainName.mpr h.name⟩, table, entry.primaryKey, catalog,
      hdeclared⟩, rfl, htable, rfl, hfields⟩

/-! ## Registries -/

namespace Registry

theorem addModels_eq_ok_iff {index : Nat} {models all : Catalog Model Model.key}
    {entries : List ModelEntry} :
    addModels index models entries = .ok all ↔
      ∃ added, all.entries = models.entries ++ added ∧
        List.Forall₂ Model.Describes added entries := by
  refine Catalog.adds_eq_ok_iff Model.Describes (fun _ _ => rfl)
    fun index models entry rest all => ?_
  simp only [addModels_cons_eq_ok_iff, Model.ofEntry_eq_ok_iff]

/-- **A registry is built from a document exactly when it describes the document.** -/
theorem ofSchema_eq_ok_iff {schema : SchemaDocument} {registry : Registry} :
    ofSchema schema = .ok registry ↔ registry.Describes schema := by
  refine ⟨describes_of_ofSchema, fun h => ?_⟩
  have hmodels : addModels 0 Catalog.empty schema.models = .ok registry.models :=
    addModels_eq_ok_iff.mpr ⟨registry.models.entries, rfl, h⟩
  rw [ofSchema, hmodels, ok_bind, dif_pos registry.nonempty]
  rfl

theorem Describes.names {registry : Registry} {schema : SchemaDocument}
    (h : registry.Describes schema) :
    registry.models.names = schema.models.map (·.name) :=
  names_eq_of_describes (fun _ _ hmodel => hmodel.name) h

/-- Some registry describes a well-formed document, and no other document. -/
theorem exists_describes_iff {schema : SchemaDocument} :
    (∃ registry : Registry, registry.Describes schema) ↔ schema.WellFormed := by
  constructor
  · rintro ⟨registry, h⟩
    refine ⟨?_, ?_, ?_⟩
    · intro hnil
      have hentries : List.Forall₂ Model.Describes registry.models.entries schema.models := h
      rw [hnil, List.forall₂_nil_right_iff] at hentries
      exact registry.nonempty hentries
    · intro entry hentry
      obtain ⟨m, -, hm⟩ := exists_of_mem_forall₂ h.flip hentry
      exact Model.exists_describes_iff.mp ⟨m, hm⟩
    · rw [← h.names]
      exact registry.models.distinct
  · intro h
    obtain ⟨models, hmodels⟩ := exists_forall₂_of_forall fun entry hentry =>
      Model.exists_describes_iff.mpr (h.models entry hentry)
    have hnames : models.map Model.key = schema.models.map (·.name) :=
      names_eq_of_describes (fun _ _ hmodel => hmodel.name) hmodels
    refine ⟨⟨⟨models, hnames ▸ h.distinct⟩, ?_⟩, hmodels⟩
    rintro rfl
    rw [List.forall₂_nil_left_iff] at hmodels
    exact h.nonempty hmodels

/-- A text has a registry exactly when it is a schema document that keeps the rules. -/
theorem exists_ofText_iff {text : String} :
    (∃ registry, ofText text = .ok registry) ↔
      ∃ schema, SchemaDocument.ofText text = .ok schema ∧ schema.WellFormed := by
  simp only [ofText, SchemaDocument.read, bind_eq_ok_iff, mapError_eq_ok_iff,
    ← exists_describes_iff, ofSchema_eq_ok_iff]
  constructor
  · rintro ⟨registry, schema, hread, h⟩
    exact ⟨schema, hread, registry, h⟩
  · rintro ⟨schema, hread, registry, h⟩
    exact ⟨registry, schema, hread, h⟩

end Registry

/-! ## Look-ups -/

/-- A model answers for its fields as its entry says: the fields stand in the order of the
entry and are found by their names, and the primary key is one of them. -/
structure Model.Agrees (m : Model) (entry : ModelEntry) : Prop where
  describes : m.Describes entry
  order : m.fields.names = entry.fields.map (·.name)
  distinct : m.fields.names.Nodup
  field : ∀ name f, m.field? name = some f ↔ f ∈ m.fields.entries ∧ f.key = name
  hasField : ∀ name, m.hasField name = true ↔ name ∈ entry.fields.map (·.name)
  primaryKey : m.primaryKeyField ∈ m.fields.entries ∧ m.primaryKeyField.key = entry.primaryKey

/-- A registry answers as a document says, for names that the document has and for all
others. -/
structure Registry.Agrees (registry : Registry) (schema : SchemaDocument) : Prop where
  /-- The models are listed once each. -/
  names : registry.sortedNames.Perm (schema.models.map (·.name))
  distinct : registry.sortedNames.Nodup
  size : registry.size = schema.models.length
  hasModel : ∀ name, registry.hasModel name = true ↔ name ∈ schema.models.map (·.name)
  model : ∀ entry ∈ schema.models, ∃ m, registry.model? entry.name = some m ∧ m.Agrees entry
  model_none : ∀ name, name ∉ schema.models.map (·.name) → registry.model? name = none
  /-- The fields of a model are those of its entry in order, and are looked up among them. -/
  fields : ∀ entry ∈ schema.models, ∃ fields, registry.fieldsOf entry.name = .ok fields ∧
    List.Forall₂ Field.Describes fields entry.fields ∧
    (∀ name f, registry.field entry.name name = .ok f ↔ f ∈ fields ∧ f.key = name) ∧
    ∀ name, name ∉ entry.fields.map (·.name) →
      registry.field entry.name name = .error (.fieldNotFound entry.name name)
  fields_error : ∀ name, name ∉ schema.models.map (·.name) →
    registry.fieldsOf name = .error (.modelNotFound name) ∧
      ∀ field, registry.field name field = .error (.modelNotFound name)
  hasField : ∀ model field, registry.hasField model field = true ↔
    ∃ entry ∈ schema.models, entry.name = model ∧ field ∈ entry.fields.map (·.name)

theorem Model.agrees_of_describes {m : Model} {entry : ModelEntry} (h : m.Describes entry) :
    m.Agrees entry where
  describes := h
  order := h.names
  distinct := m.fields.distinct
  field := fun _ _ => Catalog.find?_eq_some_iff
  hasField := by
    intro name
    rw [← h.names]
    exact Catalog.contains_iff
  primaryKey := by
    have hfound : m.fields.find? m.primaryKey = some m.primaryKeyField :=
      (Option.some_get m.primaryKey_declared).symm
    rw [← h.primaryKey]
    exact Catalog.find?_eq_some_iff.mp hfound

namespace Registry

variable {registry : Registry} {schema : SchemaDocument}

theorem model?_of_mem (h : registry.Describes schema) {entry : ModelEntry}
    (hentry : entry ∈ schema.models) :
    ∃ m, registry.model? entry.name = some m ∧ m.Describes entry := by
  obtain ⟨m, hm, hdescribes⟩ := exists_of_mem_forall₂ h.flip hentry
  exact ⟨m, Catalog.find?_eq_some_iff.mpr ⟨hm, hdescribes.name⟩, hdescribes⟩

theorem model?_eq_none (h : registry.Describes schema) {name : String}
    (hname : name ∉ schema.models.map (·.name)) : registry.model? name = none := by
  rw [← h.names, ← Catalog.contains_iff] at hname
  exact Option.not_isSome_iff_eq_none.mp hname

/-- **A registry answers as the document that it describes.** -/
theorem agrees_of_describes (h : registry.Describes schema) : registry.Agrees schema where
  names := by
    rw [← h.names]
    exact (List.mergeSort_perm _ _).map Model.key
  distinct := by
    have hperm : registry.sortedNames.Perm registry.models.names :=
      (List.mergeSort_perm _ _).map Model.key
    exact hperm.nodup_iff.mpr registry.models.distinct
  size := List.Forall₂.length_eq h
  hasModel := by
    intro name
    rw [← h.names]
    exact Catalog.contains_iff
  model := by
    intro entry hentry
    obtain ⟨m, hm, hdescribes⟩ := model?_of_mem h hentry
    exact ⟨m, hm, Model.agrees_of_describes hdescribes⟩
  model_none := fun _ => model?_eq_none h
  fields := by
    intro entry hentry
    obtain ⟨m, hm, hdescribes⟩ := model?_of_mem h hentry
    have hagrees := Model.agrees_of_describes hdescribes
    refine ⟨m.fields.entries, ?_, hdescribes.fields, ?_, ?_⟩
    · rw [fieldsOf, hm]
    · intro name f
      rw [← hagrees.field, Registry.field, hm]
      dsimp only
      cases m.field? name <;> simp
    · intro name hname
      have hnone : m.field? name = none := by
        rw [← hagrees.hasField] at hname
        exact Option.not_isSome_iff_eq_none.mp hname
      rw [Registry.field, hm]
      dsimp only
      rw [hnone]
  fields_error := by
    intro name hname
    have hnone := model?_eq_none h hname
    exact ⟨by rw [fieldsOf, hnone], fun field => by rw [Registry.field, hnone]⟩
  hasField := by
    intro model field
    rw [Registry.hasField]
    constructor
    · intro hfield
      split at hfield
      · rename_i m hm
        obtain ⟨hmem, hkey⟩ := Catalog.find?_eq_some_iff.mp hm
        obtain ⟨entry, hentry, hdescribes⟩ := exists_of_mem_forall₂ h hmem
        exact ⟨entry, hentry, hdescribes.name ▸ hkey,
          ((Model.agrees_of_describes hdescribes).hasField field).mp hfield⟩
      · cases hfield
    · rintro ⟨entry, hentry, rfl, hfield⟩
      obtain ⟨m, hm, hdescribes⟩ := model?_of_mem h hentry
      rw [hm]
      exact ((Model.agrees_of_describes hdescribes).hasField field).mpr hfield

end Registry

/-- **Registries are built from well-formed documents and no others, and answer as these
say.**  A document is well-formed if it has at least one model, names are plain and distinct,
tables are plain names with at most one schema, types are known, and every primary key is a
field.  The registry then lists, counts and finds just these models and their fields, in the
order of the document and with the defaults for the flags that it does not give. -/
theorem registry_exact (schema : SchemaDocument) :
    ((∃ registry, Registry.ofSchema schema = .ok registry) ↔ schema.WellFormed) ∧
      ∀ registry, Registry.ofSchema schema = .ok registry → registry.Agrees schema := by
  constructor
  · simp only [Registry.ofSchema_eq_ok_iff]
    exact Registry.exists_describes_iff
  · intro registry h
    exact Registry.agrees_of_describes (Registry.ofSchema_eq_ok_iff.mp h)

/-! ## A schema with one model -/

namespace Shop

/-- One model in a schema, with a flag that is given and others that are not. -/
def model : ModelEntry where
  name := "orders"
  table := "sales.orders"
  primaryKey := "id"
  fields :=
    [{ name := "id", type := "integer" },
      { name := "note", type := "json", filterable := some false }]

end Shop

/-- The model alone is a schema, and twice it is none. -/
theorem registry_exact_shop :
    (∃ registry, Registry.ofSchema ⟨[Shop.model]⟩ = .ok registry ∧ registry.Agrees ⟨[Shop.model]⟩) ∧
      ¬ (SchemaDocument.mk [Shop.model, Shop.model]).WellFormed := by
  have hbuilt : ∃ registry, Registry.ofSchema ⟨[Shop.model]⟩ = .ok registry := ⟨_, rfl⟩
  obtain ⟨registry, hregistry⟩ := hbuilt
  refine ⟨⟨registry, hregistry, (registry_exact _).2 registry hregistry⟩, fun h => ?_⟩
  obtain ⟨twice, htwice⟩ := (registry_exact _).1.mpr h
  cases htwice

end SchemaQuery
