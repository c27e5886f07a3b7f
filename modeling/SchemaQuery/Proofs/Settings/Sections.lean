import SchemaQuery.Settings.File

/-!
# The settings that a document holds

A section is read entry by entry into a record that starts with the defaults.  What the record
holds in the end can be said without the order of the entries: a setting is what stands under
its key, or its default where nothing does.  For this no known key may come twice, which is
one of the conditions under which a section is read at all.

Sections and their settings are read by the same function, the settings as parts of a section
and the sections as parts of the whole, so that the argument is made once and used on both
levels.

## Main definitions

* `valueAt?` - what stands under a key of a section.
* `HoldsSection` - the conditions under which a section is read.
* `Fills` - a key of a section goes into one part of the record, and no other key does.
* `Setting` - the seven settings, with their sections, keys, values and defaults.
* `PlacesSettings` - a section is read setting by setting.
* `HoldsSettings`, `Setting.inDocument?` - a document holds settings, and the value it gives
  to one.

## Main statements

* `exists_readSection_iff`, `Fills.get_of_readSection` - when a section is read, and as what.
* `Settings.ofDocument?_eq_some_iff` - **the settings of a document are those it gives, and the
  defaults for all others.**
-/

namespace SchemaQuery

open Yaml (Node Document)

variable {d : Document}

section

variable {α β : Type} {known : List String} {place : α → String → Node → Option α}

/-! ## Sections -/

/-- What the first entry with a key says. -/
def valueIn? (d : Document) (entries : List (Node × Node)) (key : String) : Option Node :=
  (entries.find? fun entry => textOfNode? d entry.1 = some key).map (·.2)

/-- What stands under a key of a section. -/
def valueAt? (d : Document) (node : Node) (key : String) : Option Node :=
  (entriesOf? d node).bind fun entries => valueIn? d entries key

/-- Entries that can be read: every key is a text, no known key comes twice, and what stands
under a known key is admitted there. -/
structure AdmitsEntries (d : Document) (known : List String) (admits : String → Node → Prop)
    (entries : List (Node × Node)) : Prop where
  named : ∀ entry ∈ entries, ∃ key, textOfNode? d entry.1 = some key
  once : entries.Pairwise fun entry later => ∀ key ∈ known, textOfNode? d entry.1 = some key →
    textOfNode? d later.1 ≠ some key
  admitted : ∀ entry ∈ entries, ∀ key ∈ known, textOfNode? d entry.1 = some key →
    admits key entry.2

/-- A section that can be read. -/
def HoldsSection (d : Document) (known : List String) (admits : String → Node → Prop)
    (node : Node) : Prop :=
  ∃ entries, entriesOf? d node = some entries ∧ AdmitsEntries d known admits entries

theorem readSection_eq_some_iff {defaults r : α} {node : Node} :
    readSection d known place defaults node = some r ↔
      ∃ entries, entriesOf? d node = some entries ∧
        readSettings d known place [] defaults entries = some r :=
  Option.bind_eq_some_iff

/-- An entry is placed if its key is known and new, and skipped if its key is not known. -/
theorem readSettings_cons_eq_some_iff {met : List String} {c r : α} {entry : Node × Node}
    {rest : List (Node × Node)} :
    readSettings d known place met c (entry :: rest) = some r ↔
      ∃ key, textOfNode? d entry.1 = some key ∧
        ((key ∈ known ∧ key ∉ met ∧ ∃ c', place c key entry.2 = some c' ∧
            readSettings d known place (key :: met) c' rest = some r) ∨
          (key ∉ known ∧ readSettings d known place met c rest = some r)) := by
  rw [readSettings]
  cases textOfNode? d entry.1 with
  | none => simp
  | some key =>
      by_cases hknown : key ∈ known
      · by_cases hmet : key ∈ met <;> simp [hknown, hmet, Option.bind_eq_some_iff]
      · simp [hknown]

/-! ### When a section is read -/

/-- An entry before others can be read if its value is admitted and its key does not come
again, or if its key is not known. -/
theorem admitsEntries_cons_iff {admits : String → Node → Prop} {entry : Node × Node}
    {rest : List (Node × Node)} {key : String} (hkey : textOfNode? d entry.1 = some key) :
    AdmitsEntries d known admits (entry :: rest) ↔
      (key ∈ known → admits key entry.2 ∧ ∀ later ∈ rest, textOfNode? d later.1 ≠ some key) ∧
        AdmitsEntries d known admits rest := by
  constructor
  · rintro ⟨hnamed, honce, hadmitted⟩
    obtain ⟨hlater, honce⟩ := List.pairwise_cons.mp honce
    obtain ⟨hvalue, hadmitted⟩ := List.forall_mem_cons.mp hadmitted
    refine ⟨fun hknown => ⟨hvalue key hknown hkey, fun later hmem => ?_⟩,
      (List.forall_mem_cons.mp hnamed).2, honce, hadmitted⟩
    exact hlater later hmem key hknown hkey
  · rintro ⟨hfirst, hnamed, honce, hadmitted⟩
    refine ⟨List.forall_mem_cons.mpr ⟨⟨key, hkey⟩, hnamed⟩, List.pairwise_cons.mpr ⟨?_, honce⟩,
      List.forall_mem_cons.mpr ⟨?_, hadmitted⟩⟩
    · intro later hmem key' hknown hkey'
      obtain rfl : key = key' := Option.some.inj (hkey.symm.trans hkey')
      exact (hfirst hknown).2 later hmem
    · intro key' hknown hkey'
      obtain rfl : key = key' := Option.some.inj (hkey.symm.trans hkey')
      exact (hfirst hknown).1

/-- **Entries are read exactly when they can be read and bring none of the keys that were
met**, if what is admitted is what is placed. -/
theorem exists_readSettings_iff {admits : String → Node → Prop}
    (hplace : ∀ c, ∀ key ∈ known, ∀ v, (∃ c', place c key v = some c') ↔ admits key v)
    {met : List String} {c : α} {entries : List (Node × Node)} :
    (∃ r, readSettings d known place met c entries = some r) ↔
      AdmitsEntries d known admits entries ∧
        ∀ key ∈ known, key ∈ met → ∀ entry ∈ entries, textOfNode? d entry.1 ≠ some key := by
  -- On the entries.  The keys met grow and the record changes, so both are general; the second
  -- condition is what the keys met add to the first.
  induction entries generalizing met c with
  | nil => simpa [readSettings] using ⟨by simp, by simp, by simp⟩
  | cons entry rest ih =>
      simp only [readSettings_cons_eq_some_iff]
      constructor
      · rintro ⟨r, key, hkey, ⟨hknown, hnew, c', hplaced, hrest⟩ | ⟨hunknown, hrest⟩⟩
        · obtain ⟨hadmits, hdistinct⟩ := ih.mp ⟨r, hrest⟩
          have hvalue : admits key entry.2 := (hplace c key hknown entry.2).mp ⟨c', hplaced⟩
          have hlater := hdistinct key hknown List.mem_cons_self
          refine ⟨(admitsEntries_cons_iff hkey).mpr ⟨fun _ => ⟨hvalue, hlater⟩, hadmits⟩, ?_⟩
          intro key' hknown' hmet
          refine List.forall_mem_cons.mpr ⟨fun hkey' => ?_, ?_⟩
          · obtain rfl : key = key' := Option.some.inj (hkey.symm.trans hkey')
            exact hnew hmet
          · exact hdistinct key' hknown' (List.mem_cons_of_mem _ hmet)
        · obtain ⟨hadmits, hdistinct⟩ := ih.mp ⟨r, hrest⟩
          refine ⟨(admitsEntries_cons_iff hkey).mpr ⟨(absurd · hunknown), hadmits⟩, ?_⟩
          intro key' hknown' hmet
          refine List.forall_mem_cons.mpr ⟨fun hkey' => ?_, hdistinct key' hknown' hmet⟩
          obtain rfl : key = key' := Option.some.inj (hkey.symm.trans hkey')
          exact hunknown hknown'
      · rintro ⟨hadmits, hdistinct⟩
        obtain ⟨key, hkey⟩ := hadmits.named entry List.mem_cons_self
        obtain ⟨hfirst, hrest⟩ := (admitsEntries_cons_iff hkey).mp hadmits
        have hdistinctRest (key' : String) (hknown' : key' ∈ known) (hmet : key' ∈ met) :
            ∀ later ∈ rest, textOfNode? d later.1 ≠ some key' :=
          (List.forall_mem_cons.mp (hdistinct key' hknown' hmet)).2
        by_cases hknown : key ∈ known
        · obtain ⟨hvalue, hlater⟩ := hfirst hknown
          have hnew : key ∉ met := fun hmet =>
            hdistinct key hknown hmet entry List.mem_cons_self hkey
          obtain ⟨c', hplaced⟩ := (hplace c key hknown entry.2).mpr hvalue
          obtain ⟨r, hr⟩ := (ih (c := c')).mpr ⟨hrest, fun key' hknown' hmet =>
            (List.mem_cons.mp hmet).elim (fun hsame => hsame ▸ hlater) (hdistinctRest key' hknown')⟩
          exact ⟨r, key, hkey, .inl ⟨hknown, hnew, c', hplaced, hr⟩⟩
        · obtain ⟨r, hr⟩ := (ih (c := c)).mpr ⟨hrest, hdistinctRest⟩
          exact ⟨r, key, hkey, .inr ⟨hknown, hr⟩⟩

/-- **A section is read exactly when it can be read.** -/
theorem exists_readSection_iff {admits : String → Node → Prop}
    (hplace : ∀ c, ∀ key ∈ known, ∀ v, (∃ c', place c key v = some c') ↔ admits key v)
    {defaults : α} {node : Node} :
    (∃ r, readSection d known place defaults node = some r) ↔
      HoldsSection d known admits node := by
  simp only [readSection_eq_some_iff]
  constructor
  · rintro ⟨r, entries, hentries, hr⟩
    exact ⟨entries, hentries, ((exists_readSettings_iff hplace).mp ⟨r, hr⟩).1⟩
  · rintro ⟨entries, hentries, hadmits⟩
    obtain ⟨r, hr⟩ := (exists_readSettings_iff hplace (c := defaults)).mpr
      ⟨hadmits, fun _ _ hmet => absurd hmet List.not_mem_nil⟩
    exact ⟨r, entries, hentries, hr⟩

/-! ### What a section is read as -/

/-- A key of a section goes into one part of the record that the section is read into, and no
other key does. -/
structure Fills (known : List String) (place : α → String → Node → Option α) (key : String)
    (read : Node → Option β) (get : α → β) : Prop where
  isKnown : key ∈ known
  own : ∀ {c v c'}, place c key v = some c' → read v = some (get c')
  other : ∀ {c k v c'}, k ∈ known → k ≠ key → place c k v = some c' → get c' = get c

namespace Fills

variable {key : String} {read : Node → Option β} {get : α → β}

/-- Once a key was met, its part of the record stays. -/
theorem get_of_met (fills : Fills known place key read get) {met : List String} {c r : α}
    {entries : List (Node × Node)} (hmet : key ∈ met)
    (h : readSettings d known place met c entries = some r) : get r = get c := by
  induction entries generalizing met c with
  | nil =>
      obtain rfl := Option.some.inj h
      rfl
  | cons entry rest ih =>
      obtain ⟨k, -, ⟨hknown, hnew, c', hplaced, hrest⟩ | ⟨-, hrest⟩⟩ :=
        readSettings_cons_eq_some_iff.mp h
      · have hne : k ≠ key := fun hk => hnew (hk ▸ hmet)
        rw [ih (List.mem_cons_of_mem _ hmet) hrest, fills.other hknown hne hplaced]
      · exact ih hmet hrest

/-- A part of the record is what the first entry with its key says, or else what it was
before. -/
theorem get_of_readSettings (fills : Fills known place key read get) {met : List String} {c r : α}
    {entries : List (Node × Node)} (hmet : key ∉ met)
    (h : readSettings d known place met c entries = some r) :
    (valueIn? d entries key = none ∧ get r = get c) ∨
      ∃ v, valueIn? d entries key = some v ∧ read v = some (get r) := by
  induction entries generalizing met c with
  | nil =>
      obtain rfl := Option.some.inj h
      exact .inl ⟨rfl, rfl⟩
  | cons entry rest ih =>
      obtain ⟨k, hk, hcases⟩ := readSettings_cons_eq_some_iff.mp h
      -- At its own key the part is set for good; before, it is still what it was.
      by_cases hkey : k = key
      · obtain rfl := hkey
        have hfound : valueIn? d (entry :: rest) k = some entry.2 := by simp [valueIn?, hk]
        obtain ⟨-, -, c', hplaced, hrest⟩ :=
          hcases.resolve_right fun hskipped => hskipped.1 fills.isKnown
        rw [fills.get_of_met List.mem_cons_self hrest]
        exact .inr ⟨entry.2, hfound, fills.own hplaced⟩
      · have hskip : valueIn? d (entry :: rest) key = valueIn? d rest key := by
          simp [valueIn?, hk, hkey]
        rw [hskip]
        obtain ⟨hknown, -, c', hplaced, hrest⟩ | ⟨-, hrest⟩ := hcases
        · have hstill : key ∉ k :: met := fun hmem =>
            (List.mem_cons.mp hmem).elim (Ne.symm hkey) hmet
          rw [← fills.other hknown hkey hplaced]
          exact ih hstill hrest
        · exact ih hmet hrest

/-- **A part of the record is what stands under its key, or its default.** -/
theorem get_of_readSection (fills : Fills known place key read get) {defaults r : α} {node : Node}
    (h : readSection d known place defaults node = some r) :
    (valueAt? d node key = none ∧ get r = get defaults) ∨
      ∃ v, valueAt? d node key = some v ∧ read v = some (get r) := by
  obtain ⟨entries, hentries, hr⟩ := readSection_eq_some_iff.mp h
  have hvalue : valueAt? d node key = valueIn? d entries key := by rw [valueAt?, hentries]; rfl
  rw [hvalue]
  exact fills.get_of_readSettings List.not_mem_nil hr

/-- The same for a part of a section that is itself a part of a record. -/
theorem getD_nested {γ δ : Type} {outer : List String} {placeOuter : γ → String → Node → Option γ}
    {outerKey : String} {part : γ → α} {read : Node → Option δ} {get : α → δ} {defaults : α}
    {whole r : γ} {node : Node}
    (sections : Fills outer placeOuter outerKey (readSection d known place defaults) part)
    (fills : Fills known place key read get) (hpart : part whole = defaults)
    (h : readSection d outer placeOuter whole node = some r) :
    (((valueAt? d node outerKey).bind fun inner => valueAt? d inner key).bind read).getD
      (get defaults) = get (part r) := by
  rcases sections.get_of_readSection h with ⟨hnone, hkept⟩ | ⟨inner, hinner, hread⟩
  · rw [hnone, hkept, hpart]
    rfl
  · rw [hinner]
    rcases fills.get_of_readSection hread with ⟨hnone, hkept⟩ | ⟨v, hv, hvalue⟩
    · simp [hnone, hkept]
    · simp [hv, hvalue]

end Fills

end

/-! ## The seven settings -/

/-- The settings of the server. -/
inductive Setting where
  | host
  | port
  | schemaPath
  | level
  | format
  | output
  | directory
  deriving DecidableEq, Repr

namespace Setting

/-- All settings. -/
def all : List Setting := [host, port, schemaPath, level, format, output, directory]

/-- What a setting is: a number for the port and a text for all others. -/
abbrev Value : Setting → Type
  | port => UInt16
  | host | schemaPath | level | format | output | directory => String

/-- The key of the section of a setting. -/
def sectionKey : Setting → String
  | host | port => "server"
  | schemaPath => "schema"
  | level | format | output | directory => "logging"

/-- The key of a setting in its section. -/
def key : Setting → String
  | host => "host"
  | port => "port"
  | schemaPath => "models_path"
  | level => "level"
  | format => "format"
  | output => "output"
  | directory => "directory"

/-- The keys of the settings of a section. -/
def keysOf (sectionKey : String) : List String :=
  (all.filter fun x => x.sectionKey = sectionKey).map key

/-- The keys of the sections. -/
def sectionKeys : List String := ["server", "schema", "logging"]

/-- The value that a node of a document gives to a setting. -/
def ofNode? (d : Document) : (x : Setting) → Node → Option x.Value
  | port => portOfNode? d
  | host | schemaPath | level | format | output | directory => textOfNode? d

end Setting

/-- The value of a setting. -/
def Settings.get (s : Settings) : (x : Setting) → x.Value
  | .host => s.server.host
  | .port => s.server.port
  | .schemaPath => s.schema.path
  | .level => s.logging.level
  | .format => s.logging.format
  | .output => s.logging.output
  | .directory => s.logging.directory

/-- The settings with one of them replaced. -/
def Settings.set (s : Settings) : (x : Setting) → x.Value → Settings
  | .host, host => { s with server := { s.server with host } }
  | .port, port => { s with server := { s.server with port } }
  | .schemaPath, path => { s with schema := ⟨path⟩ }
  | .level, level => { s with logging := { s.logging with level } }
  | .format, format => { s with logging := { s.logging with format } }
  | .output, output => { s with logging := { s.logging with output } }
  | .directory, directory => { s with logging := { s.logging with directory } }

@[simp] theorem Settings.get_set_self (s : Settings) (x : Setting) (value : x.Value) :
    (s.set x value).get x = value := by
  cases x <;> rfl

theorem Settings.get_set_of_ne (s : Settings) {x y : Setting} (hne : y ≠ x) (value : y.Value) :
    (s.set y value).get x = s.get x := by
  cases y <;> cases x <;> first | rfl | exact absurd rfl hne

/-- Settings are what they are setting by setting. -/
theorem Settings.ext_get {s t : Settings} (h : ∀ x, s.get x = t.get x) : s = t := by
  obtain ⟨⟨host, port⟩, ⟨path⟩, ⟨level, format, output, directory⟩⟩ := s
  obtain ⟨⟨host', port'⟩, ⟨path'⟩, ⟨level', format', output', directory'⟩⟩ := t
  obtain rfl : host = host' := h .host
  obtain rfl : port = port' := h .port
  obtain rfl : path = path' := h .schemaPath
  obtain rfl : level = level' := h .level
  obtain rfl : format = format' := h .format
  obtain rfl : output = output' := h .output
  obtain rfl : directory = directory' := h .directory
  rfl

namespace Setting

/-- The default of a setting. -/
def default (x : Setting) : x.Value := ({} : Settings).get x

/-- The value that a document gives to a setting: what stands under its key in its section. -/
def inDocument? (d : Document) (x : Setting) : Option x.Value :=
  ((valueAt? d d.root x.sectionKey).bind fun inner => valueAt? d inner x.key).bind (x.ofNode? d)

/-- What may stand under a key of a section: what gives a value to the setting of that key. -/
def Admits (d : Document) (sectionKey key : String) (v : Node) : Prop :=
  ∀ x : Setting, x.sectionKey = sectionKey → x.key = key → ∃ value, x.ofNode? d v = some value

end Setting

/-- A document that holds settings: sections under the keys of the sections, and in each of
them values under the keys of its settings. -/
def HoldsSettings (d : Document) : Prop :=
  HoldsSection d Setting.sectionKeys
    (fun sectionKey => HoldsSection d (Setting.keysOf sectionKey) (Setting.Admits d sectionKey))
    d.root

/-! ## Reading the parts of a section -/

namespace Setting

theorem key_inj {x y : Setting} : x.key = y.key ↔ x = y := by
  cases x <;> cases y <;> decide

theorem mem_keysOf_iff {k sectionKey : String} :
    k ∈ keysOf sectionKey ↔ ∃ x : Setting, x.sectionKey = sectionKey ∧ x.key = k := by
  have hall (x : Setting) : x ∈ all := by cases x <;> decide
  simp [keysOf, hall]

theorem mem_sectionKeys_iff {key : String} :
    key ∈ sectionKeys ↔ key = "server" ∨ key = "schema" ∨ key = "logging" := by
  simp [sectionKeys]

/-- Under the key of a setting stands what gives a value to it. -/
theorem admits_iff (x : Setting) {v : Node} :
    Admits d x.sectionKey x.key v ↔ ∃ value, x.ofNode? d v = some value := by
  constructor
  · intro h
    exact h x rfl rfl
  · rintro h y - hkey
    obtain rfl := key_inj.mp hkey
    exact h

end Setting

theorem exists_map_eq_some_iff {α β : Type} {f : α → β} {x : Option α} :
    (∃ b, x.map f = some b) ↔ ∃ a, x = some a := by
  cases x <;> simp

/-- Each setting of a section is placed as itself, if the section is seen as a part of the
settings. -/
def PlacesSettings {α : Type} (d : Document) (sectionKey : String)
    (place : α → String → Node → Option α) (embed : α → Settings) : Prop :=
  ∀ (c : α) (x : Setting) (v : Node), x.sectionKey = sectionKey →
    (place c x.key v).map embed = (x.ofNode? d v).map ((embed c).set x)

namespace PlacesSettings

-- The three sections are records of their own, so that each is compared as a part of the
-- settings.
variable {α : Type} {sectionKey : String} {place : α → String → Node → Option α}
  {embed : α → Settings}

theorem exists_place_iff (places : PlacesSettings d sectionKey place embed) (c : α) (key : String)
    (hkey : key ∈ Setting.keysOf sectionKey) (v : Node) :
    (∃ c', place c key v = some c') ↔ Setting.Admits d sectionKey key v := by
  obtain ⟨x, rfl, rfl⟩ := Setting.mem_keysOf_iff.mp hkey
  rw [Setting.admits_iff, ← exists_map_eq_some_iff (f := embed), places c x v rfl,
    exists_map_eq_some_iff]

/-- What is placed is one setting, with the value that stands there. -/
theorem exists_set_of_place (places : PlacesSettings d sectionKey place embed) {c c' : α}
    {x : Setting} {v : Node} (hx : x.sectionKey = sectionKey) (h : place c x.key v = some c') :
    ∃ value, x.ofNode? d v = some value ∧ (embed c).set x value = embed c' := by
  have hplaced : (x.ofNode? d v).map ((embed c).set x) = some (embed c') := by
    rw [← places c x v hx, h]
    rfl
  exact Option.map_eq_some_iff.mp hplaced

/-- Every setting of a section has a part of its own there. -/
theorem fills (places : PlacesSettings d sectionKey place embed) {x : Setting}
    (hx : x.sectionKey = sectionKey) :
    Fills (Setting.keysOf sectionKey) place x.key (x.ofNode? d) (fun s => (embed s).get x) where
  isKnown := Setting.mem_keysOf_iff.mpr ⟨x, hx, rfl⟩
  own h := by
    obtain ⟨value, hvalue, hset⟩ := places.exists_set_of_place hx h
    rw [hvalue, ← hset, Settings.get_set_self]
  other hk hne h := by
    obtain ⟨y, hy, rfl⟩ := Setting.mem_keysOf_iff.mp hk
    obtain ⟨value, -, hset⟩ := places.exists_set_of_place hy h
    have hdistinct : y ≠ x := fun hsame => hne (Setting.key_inj.mpr hsame)
    rw [← hset, Settings.get_set_of_ne _ hdistinct]

end PlacesSettings

theorem ListenSettings.placesSettings :
    PlacesSettings d "server" (place d) fun server => { server } := by
  intro c x v hx
  cases x with
  | host | port => exact Option.map_map _ _ _
  | _ => exact absurd hx (by decide)

theorem ListenSettings.exists_ofNode?_iff {node : Node} :
    (∃ s, ofNode? d node = some s) ↔
      HoldsSection d (Setting.keysOf "server") (Setting.Admits d "server") node :=
  exists_readSection_iff placesSettings.exists_place_iff

theorem SchemaSettings.placesSettings :
    PlacesSettings d "schema" (place d) fun schema => { schema } := by
  intro c x v hx
  cases x with
  | schemaPath => exact Option.map_map _ _ _
  | _ => exact absurd hx (by decide)

theorem SchemaSettings.exists_ofNode?_iff {node : Node} :
    (∃ s, ofNode? d node = some s) ↔
      HoldsSection d (Setting.keysOf "schema") (Setting.Admits d "schema") node :=
  exists_readSection_iff placesSettings.exists_place_iff

theorem LogSettings.placesSettings :
    PlacesSettings d "logging" (place d) fun logging => { logging } := by
  intro c x v hx
  cases x with
  | level | format | output | directory => exact Option.map_map _ _ _
  | _ => exact absurd hx (by decide)

theorem LogSettings.exists_ofNode?_iff {node : Node} :
    (∃ s, ofNode? d node = some s) ↔
      HoldsSection d (Setting.keysOf "logging") (Setting.Admits d "logging") node :=
  exists_readSection_iff placesSettings.exists_place_iff

namespace Settings

/-! ## The settings of a document -/

/-- A section goes into the settings if it can be read. -/
theorem exists_place_iff (c : Settings) (key : String) (hkey : key ∈ Setting.sectionKeys)
    (v : Node) : (∃ c', place d c key v = some c') ↔
      HoldsSection d (Setting.keysOf key) (Setting.Admits d key) v := by
  obtain rfl | rfl | rfl := Setting.mem_sectionKeys_iff.mp hkey
  · exact exists_map_eq_some_iff.trans ListenSettings.exists_ofNode?_iff
  · exact exists_map_eq_some_iff.trans SchemaSettings.exists_ofNode?_iff
  · exact exists_map_eq_some_iff.trans LogSettings.exists_ofNode?_iff

theorem exists_ofDocument?_iff : (∃ s, ofDocument? d = some s) ↔ HoldsSettings d :=
  exists_readSection_iff exists_place_iff

/-- What is placed is one of the three sections. -/
theorem place_cases {c c' : Settings} {key : String} {v : Node} (hkey : key ∈ Setting.sectionKeys)
    (h : place d c key v = some c') :
    (key = "server" ∧ ∃ server, ListenSettings.ofNode? d v = some server ∧ { c with server } = c') ∨
      (key = "schema" ∧
        ∃ schema, SchemaSettings.ofNode? d v = some schema ∧ { c with schema } = c') ∨
      (key = "logging" ∧
        ∃ logging, LogSettings.ofNode? d v = some logging ∧ { c with logging } = c') := by
  obtain rfl | rfl | rfl := Setting.mem_sectionKeys_iff.mp hkey
  · exact .inl ⟨rfl, Option.map_eq_some_iff.mp h⟩
  · exact .inr (.inl ⟨rfl, Option.map_eq_some_iff.mp h⟩)
  · exact .inr (.inr ⟨rfl, Option.map_eq_some_iff.mp h⟩)

/-- The section on listening has a part of the settings of its own. -/
theorem fills_server :
    Fills Setting.sectionKeys (place d) "server" (ListenSettings.ofNode? d) Settings.server where
  isKnown := by decide
  own h := by
    obtain ⟨server, hserver, rfl⟩ := Option.map_eq_some_iff.mp h
    exact hserver
  other hk hne h := by
    obtain ⟨hkey, -⟩ | ⟨-, _, -, rfl⟩ | ⟨-, _, -, rfl⟩ := place_cases hk h
    · exact absurd hkey hne
    · rfl
    · rfl

/-- The section on the schema has a part of the settings of its own. -/
theorem fills_schema :
    Fills Setting.sectionKeys (place d) "schema" (SchemaSettings.ofNode? d) Settings.schema where
  isKnown := by decide
  own h := by
    obtain ⟨schema, hschema, rfl⟩ := Option.map_eq_some_iff.mp h
    exact hschema
  other hk hne h := by
    obtain ⟨-, _, -, rfl⟩ | ⟨hkey, -⟩ | ⟨-, _, -, rfl⟩ := place_cases hk h
    · rfl
    · exact absurd hkey hne
    · rfl

/-- The section on logging has a part of the settings of its own. -/
theorem fills_logging :
    Fills Setting.sectionKeys (place d) "logging" (LogSettings.ofNode? d) Settings.logging where
  isKnown := by decide
  own h := by
    obtain ⟨logging, hlogging, rfl⟩ := Option.map_eq_some_iff.mp h
    exact hlogging
  other hk hne h := by
    obtain ⟨-, _, -, rfl⟩ | ⟨-, _, -, rfl⟩ | ⟨hkey, -⟩ := place_cases hk h
    · rfl
    · rfl
    · exact absurd hkey hne

/-- A setting is what the document gives it, or its default. -/
theorem get_of_ofDocument? {s : Settings} (h : ofDocument? d = some s) (x : Setting) :
    s.get x = (x.inDocument? d).getD x.default := by
  have hserver (hx : x.sectionKey = "server") :=
    fills_server.getD_nested (ListenSettings.placesSettings.fills hx) rfl h
  have hschema (hx : x.sectionKey = "schema") :=
    fills_schema.getD_nested (SchemaSettings.placesSettings.fills hx) rfl h
  have hlogging (hx : x.sectionKey = "logging") :=
    fills_logging.getD_nested (LogSettings.placesSettings.fills hx) rfl h
  cases x with
  | host | port => exact (hserver rfl).symm
  | schemaPath => exact (hschema rfl).symm
  | level | format | output | directory => exact (hlogging rfl).symm

/-- **A document is read as settings exactly when it holds settings, and each setting is then
the one the document gives, or its default where the document is silent.** -/
theorem ofDocument?_eq_some_iff {s : Settings} :
    ofDocument? d = some s ↔
      HoldsSettings d ∧ ∀ x : Setting, s.get x = (x.inDocument? d).getD x.default := by
  constructor
  · intro h
    exact ⟨exists_ofDocument?_iff.mp ⟨s, h⟩, get_of_ofDocument? h⟩
  · rintro ⟨hholds, hget⟩
    obtain ⟨t, ht⟩ := exists_ofDocument?_iff.mpr hholds
    have hsame : t = s := ext_get fun x => (get_of_ofDocument? ht x).trans (hget x).symm
    exact hsame ▸ ht

end Settings

end SchemaQuery
