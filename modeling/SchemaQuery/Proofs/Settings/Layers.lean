import SchemaQuery.Proofs.Json.Numerals
import SchemaQuery.Proofs.Outcome
import SchemaQuery.Proofs.Settings.Sections
import SchemaQuery.Settings.Environment

/-!
# Settings in three layers

A setting in force is the one of its variable, or else the one of the file, or else its
default.  Each setting goes through the layers by itself: `Setting.InForce` takes what the
variable and the file say about one setting, and no part of the others enters it.

Loading can fail in two ways only.  The file may hold no settings, which is told first, and
the variable of the port may be no numeral of a port; every other variable is taken as it is,
the empty text included.

The logging settings in force are written back to the environment.  Their variables then say
what is in force, so that the logger finds it there and loading again changes nothing.

## Main definitions

* `IsPortNumeral` - how a variable spells a port.
* `Setting.InForce` - the value of a setting, from its variable and what holds without it.
* `IsReadable`, `Setting.inFile?` - a file holds settings, and the value it gives to one.

## Main statements

* `Settings.override_eq_ok_iff`, `Settings.override_eq_error_iff` - what the variables do.
* `Settings.get_eq_of_load` - a setting is not touched by the others.
* `Settings.load_layers` - **loading, setting by setting, with both of its failures, and
  loading again.**
-/

namespace SchemaQuery

open Numeric (digitChar ofDigits)
open Json (AreDigits)
open Yaml (Document)

/-! ## Ports in variables -/

/-- A text that spells a port: decimal digits, as many as one likes but not none, after an
optional plus sign. -/
def IsPortNumeral (text : String) (port : UInt16) : Prop :=
  ∃ digits : List Nat, digits ≠ [] ∧ AreDigits digits ∧
    (text.toList = digits.map digitChar ∨ text.toList = '+' :: digits.map digitChar) ∧
    ofDigits digits = port.toNat

/-- A decimal digit is a hexadecimal one below ten. -/
theorem hexValue?_lt_ten_eq_some_iff {c : Char} {digit : Nat} :
    (Text.hexValue? c).filter (· < 10) = some digit ↔ digit < 10 ∧ digitChar digit = c := by
  constructor
  · intro h
    obtain ⟨hvalue, hlt⟩ := Option.filter_eq_some_iff.mp h
    have hdigit : digit < 10 := of_decide_eq_true hlt
    refine ⟨hdigit, ?_⟩
    simp only [Text.hexValue?] at hvalue
    -- Letters stand for ten and more, which leaves the first of the three ranges.
    split_ifs at hvalue with hdecimal
    · have hchar : 0x30 + digit = c.toNat := by
        have := Option.some.inj hvalue
        omega
      rw [digitChar, hchar, Char.ofNat_toNat]
    all_goals
      have := Option.some.inj hvalue
      omega
  · rintro ⟨hdigit, rfl⟩
    have hall : ∀ digit < 10,
        (Text.hexValue? (digitChar digit)).filter (· < 10) = some digit := by decide
    exact hall digit hdigit

/-- Digits are read from their characters. -/
theorem mapM_hexValue?_eq_some_iff {cs : List Char} {digits : List Nat} :
    (cs.mapM fun c => (Text.hexValue? c).filter (· < 10)) = some digits ↔
      AreDigits digits ∧ digits.map digitChar = cs := by
  induction cs generalizing digits with
  | nil =>
      constructor
      · intro h
        obtain rfl := Option.some.inj h
        exact ⟨fun _ hmem => absurd hmem List.not_mem_nil, rfl⟩
      · rintro ⟨-, hmap⟩
        rw [List.map_eq_nil_iff.mp hmap]
        rfl
  | cons c cs ih =>
      simp only [List.mapM_cons, Option.bind_eq_bind, Option.bind_eq_some_iff,
        hexValue?_lt_ten_eq_some_iff, ih]
      constructor
      · rintro ⟨digit, ⟨hdigit, rfl⟩, rest, ⟨hrest, rfl⟩, hdigits⟩
        obtain rfl := Option.some.inj hdigits
        exact ⟨List.forall_mem_cons.mpr ⟨hdigit, hrest⟩, rfl⟩
      · rintro ⟨hdigits, hmap⟩
        obtain ⟨digit, rest, rfl, rfl, rfl⟩ := List.map_eq_cons_iff.mp hmap
        obtain ⟨hdigit, hrest⟩ := List.forall_mem_cons.mp hdigits
        exact ⟨digit, ⟨hdigit, rfl⟩, rest, ⟨hrest, rfl⟩, rfl⟩

theorem numberInBase?_ten_eq_some_iff {cs : List Char} {n : Nat} :
    numberInBase? 10 cs = some n ↔
      ∃ digits : List Nat, digits ≠ [] ∧ AreDigits digits ∧ cs = digits.map digitChar ∧
        ofDigits digits = n := by
  have hfold (digits : List Nat) :
      digits.foldl (fun n value => n * 10 + value) 0 = ofDigits digits := by
    simp only [ofDigits, Nat.mul_comm]
  unfold numberInBase?
  split_ifs with hempty
  · have hnil : cs = [] := List.isEmpty_iff.mp hempty
    simp only [false_iff, not_exists]
    rintro digits ⟨hne, -, hcs, -⟩
    exact hne (List.map_eq_nil_iff.mp (hcs.symm.trans hnil))
  · simp only [Option.map_eq_some_iff, mapM_hexValue?_eq_some_iff, hfold]
    constructor
    · rintro ⟨digits, ⟨hdigits, rfl⟩, hn⟩
      exact ⟨digits, fun hnil => hempty (by simp [hnil]), hdigits, rfl, hn⟩
    · rintro ⟨digits, -, hdigits, rfl, hn⟩
      exact ⟨digits, ⟨hdigits, rfl⟩, hn⟩

theorem portOf?_eq_some_iff {n : Nat} {port : UInt16} : portOf? n = some port ↔ n = port.toNat := by
  unfold portOf?
  split_ifs with hlt
  · rw [Option.some.injEq]
    constructor
    · rintro rfl
      exact (UInt16.toNat_ofNat_of_lt' hlt).symm
    · rintro rfl
      exact UInt16.ofNat_toNat
  · simp only [false_iff]
    rintro rfl
    exact hlt port.toNat_lt

/-- **A variable gives a port exactly if it spells one.** -/
theorem portOfText?_eq_some_iff {text : String} {port : UInt16} :
    portOfText? text = some port ↔ IsPortNumeral text port := by
  -- A numeral is signed or not, never both, because no digit is written as a sign.
  have hsign (digits : List Nat) (hdigits : AreDigits digits) (rest : List Char) :
      digits.map digitChar ≠ '+' :: rest := by
    intro hmap
    obtain ⟨digit, rest, rfl, hchar, -⟩ := List.map_eq_cons_iff.mp hmap
    have hall : ∀ digit < 10, digitChar digit ≠ '+' := by decide
    exact hall digit (hdigits digit List.mem_cons_self) hchar
  unfold portOfText? IsPortNumeral
  simp only [Option.bind_eq_some_iff, numberInBase?_ten_eq_some_iff, portOf?_eq_some_iff]
  split
  · rename_i rest htext
    rw [htext]
    constructor
    · rintro ⟨n, ⟨digits, hne, hdigits, rfl, hn⟩, hport⟩
      exact ⟨digits, hne, hdigits, .inr rfl, hn.trans hport⟩
    · rintro ⟨digits, hne, hdigits, hplain | hsigned, hport⟩
      · exact absurd hplain.symm (hsign digits hdigits rest)
      · exact ⟨_, ⟨digits, hne, hdigits, (List.cons.inj hsigned).2, hport⟩, rfl⟩
  · rename_i cs hunsigned
    constructor
    · rintro ⟨n, ⟨digits, hne, hdigits, hcs, hn⟩, hport⟩
      exact ⟨digits, hne, hdigits, .inl hcs, hn.trans hport⟩
    · rintro ⟨digits, hne, hdigits, hplain | hsigned, hport⟩
      · exact ⟨_, ⟨digits, hne, hdigits, hplain, hport⟩, rfl⟩
      · exact absurd hsigned (hunsigned _)

/-! ## The variables -/

/-- The variable of a setting. -/
def Environment.get (env : Environment) : Setting → Option String
  | .host => env.host
  | .port => env.port
  | .schemaPath => env.schemaPath
  | .level => env.level
  | .format => env.format
  | .output => env.output
  | .directory => env.directory

namespace Setting

/-- A text is how a variable gives a value to a setting: a port is spelt, and any other
setting is the text itself. -/
def Spells : (x : Setting) → String → x.Value → Prop
  | port => IsPortNumeral
  | host | schemaPath | level | format | output | directory => fun text value => value = text

/-- The value of a setting in force: what its variable spells, if it is set, and else the value
without it. -/
def InForce (x : Setting) (given : Option String) (fallback value : x.Value) : Prop :=
  match given with
  | some text => x.Spells text value
  | none => value = fallback

/-- Any text spells a text. -/
theorem inForce_text_iff {given : Option String} {fallback value : String} :
    (match given with
      | some text => value = text
      | none => value = fallback) ↔ value = given.getD fallback := by
  cases given <;> rfl

/-- One value is in force. -/
theorem inForce_unique {x : Setting} {given : Option String} {fallback value other : x.Value}
    (h : x.InForce given fallback value) (hother : x.InForce given fallback other) :
    value = other := by
  cases given with
  | none => exact h.trans hother.symm
  | some text =>
      cases x with
      | port =>
          have hport := portOfText?_eq_some_iff.mpr h
          exact Option.some.inj (hport.symm.trans (portOfText?_eq_some_iff.mpr hother))
      | host | schemaPath | level | format | output | directory => exact h.trans hother.symm

end Setting

namespace Settings

variable {s t : Settings} {env : Environment}

theorem overridePort_eq_ok_iff {fallback port : UInt16} {given : Option String} :
    overridePort fallback given = .ok port ↔ Setting.port.InForce given fallback port := by
  cases given with
  | none => simp [overridePort, Setting.InForce, eq_comm]
  | some text =>
      rw [Setting.InForce, Setting.Spells, ← portOfText?_eq_some_iff, overridePort]
      cases portOfText? text <;> simp

theorem overridePort_eq_error_iff {fallback : UInt16} {given : Option String} {e : SettingsError} :
    overridePort fallback given = .error e ↔
      ∃ text, given = some text ∧ (∀ port, ¬ IsPortNumeral text port) ∧
        e = .invalidVariable "UDV_SERVER_PORT" text := by
  cases given with
  | none => simp [overridePort]
  | some text =>
      simp only [Option.some.injEq, exists_eq_left', ← portOfText?_eq_some_iff, overridePort]
      cases portOfText? text <;> simp [eq_comm]

/-- **The variables act setting by setting.** -/
theorem override_eq_ok_iff :
    s.override env = .ok t ↔ ∀ x : Setting, x.InForce (env.get x) (s.get x) (t.get x) := by
  constructor
  · intro h x
    obtain ⟨port, hport, ht⟩ := Outcome.bind_eq_ok_iff.mp h
    obtain rfl := Except.ok.inj ht
    cases x with
    | port => exact overridePort_eq_ok_iff.mp hport
    | host | schemaPath | level | format | output | directory =>
        exact Setting.inForce_text_iff.mpr rfl
  · intro h
    -- Only the port may fail; for the rest it is enough that the parts agree one by one.
    have hport := overridePort_eq_ok_iff.mpr (h .port)
    refine Outcome.bind_eq_ok_iff.mpr ⟨_, hport, congrArg Except.ok (ext_get fun x => ?_)⟩
    cases x with
    | port => rfl
    | host => exact (Setting.inForce_text_iff.mp (h .host)).symm
    | schemaPath => exact (Setting.inForce_text_iff.mp (h .schemaPath)).symm
    | level => exact (Setting.inForce_text_iff.mp (h .level)).symm
    | format => exact (Setting.inForce_text_iff.mp (h .format)).symm
    | output => exact (Setting.inForce_text_iff.mp (h .output)).symm
    | directory => exact (Setting.inForce_text_iff.mp (h .directory)).symm

/-- **Only the variable of the port can be refused.** -/
theorem override_eq_error_iff {e : SettingsError} :
    s.override env = .error e ↔
      ∃ text, env.port = some text ∧ (∀ port, ¬ IsPortNumeral text port) ∧
        e = .invalidVariable "UDV_SERVER_PORT" text := by
  rw [← overridePort_eq_error_iff]
  unfold override
  cases overridePort s.server.port env.port <;> simp

end Settings

/-! ## The file -/

/-- A text without anything to see. -/
def IsBlank (text : String) : Prop := ∀ c ∈ text.toList, Settings.isWhite c = true

instance (text : String) : Decidable (IsBlank text) :=
  decidable_of_iff (text.toList.all Settings.isWhite = true) List.all_eq_true

/-- A file, if there is one, is blank or a document that holds settings. -/
def IsReadable (file : Option String) : Prop :=
  ∀ text ∈ file, ¬ IsBlank text → ∃ d, Document.parse? text = some d ∧ HoldsSettings d

/-- The value that a file gives to a setting; without a file, and in a blank one, there is
none. -/
def Setting.inFile? (file : Option String) (x : Setting) : Option x.Value :=
  file.bind fun text =>
    if IsBlank text then none else (Document.parse? text).bind fun d => x.inDocument? d

namespace Settings

variable {file : Option String} {s t : Settings} {env : Environment}

/-- The settings of a file that may be absent. -/
def ofAnyFile? (file : Option String) : Option Settings :=
  match file with
  | none => some {}
  | some text => ofFile? text

theorem load_eq (file : Option String) (env : Environment) :
    load file env = match ofAnyFile? file with
      | none => .error .unreadableFile
      | some s => s.override env := by
  cases file <;> rfl

theorem default_eq_some_iff :
    some ({} : Settings) = some s ↔ ∀ x : Setting, s.get x = x.default := by
  constructor
  · rintro h x
    obtain rfl := Option.some.inj h
    rfl
  · intro h
    exact congrArg some (ext_get fun x => (h x).symm)

theorem isReadable_some_iff {text : String} :
    IsReadable (some text) ↔
      (¬ IsBlank text → ∃ d, Document.parse? text = some d ∧ HoldsSettings d) := by
  simp only [IsReadable, Option.mem_some_iff, forall_eq']

/-- A file is absent or blank, or it is one document, or it cannot be read. -/
theorem ofAnyFile?_cases (file : Option String) :
    (IsReadable file ∧ (∀ x : Setting, x.inFile? file = none) ∧ ofAnyFile? file = some {}) ∨
      (∃ d, (IsReadable file ↔ HoldsSettings d) ∧
        (∀ x : Setting, x.inFile? file = x.inDocument? d) ∧ ofAnyFile? file = ofDocument? d) ∨
      (¬ IsReadable file ∧ ofAnyFile? file = none) := by
  cases file with
  | none => exact .inl ⟨fun _ hmem => absurd hmem (Option.not_mem_none _), fun _ => rfl, rfl⟩
  | some text =>
      rw [isReadable_some_iff]
      by_cases hblank : IsBlank text
      · have hfile : ofFile? text = some {} := if_pos (List.all_eq_true.mpr hblank)
        exact .inl ⟨(absurd hblank ·), fun _ => if_pos hblank, hfile⟩
      · have hfile : ofFile? text = (Document.parse? text).bind ofDocument? :=
          if_neg (mt List.all_eq_true.mp hblank)
        have hvalue (x : Setting) : x.inFile? (some text) =
            (Document.parse? text).bind fun d => x.inDocument? d := if_neg hblank
        cases hparse : Document.parse? text with
        | none =>
            rw [hparse] at hfile
            exact .inr (.inr ⟨by simp [hblank], hfile⟩)
        | some d =>
            simp only [hparse, Option.bind_some] at hfile hvalue
            exact .inr (.inl ⟨d, by simp [hblank], hvalue, hfile⟩)

theorem exists_ofAnyFile?_iff : (∃ s, ofAnyFile? file = some s) ↔ IsReadable file := by
  obtain ⟨hreadable, -, hfile⟩ | ⟨d, hreadable, -, hfile⟩ | ⟨hreadable, hfile⟩ :=
    ofAnyFile?_cases file
  · simp [hreadable, hfile]
  · rw [hreadable, hfile, exists_ofDocument?_iff]
  · simp [hreadable, hfile]

/-- **A file gives the settings of its document, and all defaults where there is none.** -/
theorem ofAnyFile?_eq_some_iff :
    ofAnyFile? file = some s ↔
      IsReadable file ∧ ∀ x : Setting, s.get x = (x.inFile? file).getD x.default := by
  obtain ⟨hreadable, hvalue, hfile⟩ | ⟨d, hreadable, hvalue, hfile⟩ | ⟨hreadable, hfile⟩ :=
    ofAnyFile?_cases file
  · simp only [hreadable, hvalue, hfile, default_eq_some_iff, true_and, Option.getD_none]
  · simp only [hreadable, hvalue, hfile, ofDocument?_eq_some_iff]
  · simp [hreadable, hfile]

/-! ## Loading -/

/-- **A setting in force is the one of its variable, of the file, or the default.** -/
theorem load_eq_ok_iff :
    load file env = .ok s ↔
      IsReadable file ∧
        ∀ x : Setting, x.InForce (env.get x) ((x.inFile? file).getD x.default) (s.get x) := by
  rw [load_eq]
  constructor
  · intro h
    cases hfile : ofAnyFile? file with
    | none => simp [hfile] at h
    | some t =>
        obtain ⟨hreadable, hvalue⟩ := ofAnyFile?_eq_some_iff.mp hfile
        have hoverride : t.override env = .ok s := by simpa [hfile] using h
        -- What holds without variables is what the file was read as.
        refine ⟨hreadable, fun x => ?_⟩
        rw [← hvalue x]
        exact override_eq_ok_iff.mp hoverride x
  · rintro ⟨hreadable, hforce⟩
    obtain ⟨t, hfile⟩ := exists_ofAnyFile?_iff.mpr hreadable
    obtain ⟨-, hvalue⟩ := ofAnyFile?_eq_some_iff.mp hfile
    have hoverride : t.override env = .ok s :=
      override_eq_ok_iff.mpr fun x => (hvalue x).symm ▸ hforce x
    simpa [hfile] using hoverride

/-- **Loading fails in two ways, and what is wrong with the file is told first.** -/
theorem load_eq_error_iff {e : SettingsError} :
    load file env = .error e ↔
      (¬ IsReadable file ∧ e = .unreadableFile) ∨
        (IsReadable file ∧ ∃ text, env.port = some text ∧ (∀ port, ¬ IsPortNumeral text port) ∧
          e = .invalidVariable "UDV_SERVER_PORT" text) := by
  rw [load_eq]
  by_cases hreadable : IsReadable file
  · obtain ⟨t, hfile⟩ := exists_ofAnyFile?_iff.mpr hreadable
    simp only [hfile, hreadable, override_eq_error_iff, not_true_eq_false, false_and, true_and,
      false_or]
  · have hfile : ofAnyFile? file = none := by
      rw [← Option.not_isSome_iff_eq_none, Option.isSome_iff_exists, exists_ofAnyFile?_iff]
      exact hreadable
    simp [hfile, hreadable, eq_comm]

/-- **A setting is not touched by the others**: where its own variable and its own place in
the file say the same, it is the same. -/
theorem get_eq_of_load {file' : Option String} {env' : Environment} (h : load file env = .ok s)
    (h' : load file' env' = .ok t) {x : Setting} (hfile : x.inFile? file = x.inFile? file')
    (hvariable : env.get x = env'.get x) : s.get x = t.get x := by
  have hs := (load_eq_ok_iff.mp h).2 x
  have ht := (load_eq_ok_iff.mp h').2 x
  rw [hfile, hvariable] at hs
  exact Setting.inForce_unique hs ht

/-! ## Loading again -/

/-- A value in force stays in force once the logging settings are written back. -/
theorem inForce_applyLogging {x : Setting} {fallback : x.Value}
    (h : x.InForce (env.get x) fallback (s.get x)) :
    x.InForce ((s.applyLogging env).get x) fallback (s.get x) := by
  cases x with
  -- These variables are left alone.
  | host | port | schemaPath => exact h
  -- These now hold the value itself, and a text spells itself.
  | level | format | output | directory => rfl

/-- **Loading again changes nothing.** -/
theorem load_applyLogging (h : load file env = .ok s) :
    load file (s.applyLogging env) = .ok s := by
  obtain ⟨hreadable, hforce⟩ := load_eq_ok_iff.mp h
  exact load_eq_ok_iff.mpr ⟨hreadable, fun x => inForce_applyLogging (hforce x)⟩

end Settings

/-! ## The logger -/

/-- The words that ask for a form of log lines: its own name, and for the readable form
whatever asks for no other. -/
def LogFormat.IsAskedBy : LogFormat → String → Prop
  | json, word => word = "json"
  | compact, word => word = "compact"
  | pretty, word => word ≠ "json" ∧ word ≠ "compact"

/-- The words that ask for a place of log lines: its own name, and for standard output
whatever asks for no other. -/
def LogOutput.IsAskedBy : LogOutput → String → Prop
  | file, word => word = "file"
  | both, word => word = "both"
  | stdout, word => word ≠ "file" ∧ word ≠ "both"

theorem LogFormat.ofWord_eq_iff {word : String} {form : LogFormat} :
    ofWord word = form ↔ form.IsAskedBy word := by
  unfold ofWord
  split_ifs with hjson hcompact
  · cases form <;> simp [IsAskedBy, hjson]
  · cases form <;> simp [IsAskedBy, hcompact]
  · cases form <;> simp [IsAskedBy, hjson, hcompact]

theorem LogOutput.ofWord_eq_iff {word : String} {place : LogOutput} :
    ofWord word = place ↔ place.IsAskedBy word := by
  unfold ofWord
  split_ifs with hfile hboth
  · cases place <;> simp [IsAskedBy, hfile]
  · cases place <;> simp [IsAskedBy, hboth]
  · cases place <;> simp [IsAskedBy, hfile, hboth]

namespace Settings

/-- **Loading goes setting by setting, and loading again changes nothing.**

It fails if the file cannot be read, and, if it can, for a variable of the port that spells
none.  Otherwise every setting is in force by its own variable, its own place in the file and
its own default, and no other setting touches it.  The logger then finds the two logging words
in force, whatever the variables said before, and the same file with the variables as they are
now gives the same settings.

A variable cannot hold a NUL, so that settings with one are never written back; nothing here
needs to set them apart. -/
theorem load_layers (file : Option String) (env : Environment) :
    (load file env = .error .unreadableFile ↔ ¬ IsReadable file) ∧
      (∀ name text, load file env = .error (.invalidVariable name text) ↔
        IsReadable file ∧ name = "UDV_SERVER_PORT" ∧ env.port = some text ∧
          ∀ port, ¬ IsPortNumeral text port) ∧
      (∀ s, load file env = .ok s ↔
        IsReadable file ∧
          ∀ x : Setting, x.InForce (env.get x) ((x.inFile? file).getD x.default) (s.get x)) ∧
      ∀ s, load file env = .ok s →
        (∀ file' env' t, load file' env' = .ok t → ∀ x : Setting,
          x.inFile? file = x.inFile? file' → env.get x = env'.get x → s.get x = t.get x) ∧
        (∀ form : LogFormat,
          (s.applyLogging env).logFormat = form ↔ form.IsAskedBy (s.get .format)) ∧
        (∀ place : LogOutput,
          (s.applyLogging env).logOutput = place ↔ place.IsAskedBy (s.get .output)) ∧
        load file (s.applyLogging env) = .ok s := by
  refine ⟨?_, fun name text => ?_, fun _ => load_eq_ok_iff, fun s hload =>
    ⟨fun _ _ _ hload' _ => get_eq_of_load hload hload', fun _ => LogFormat.ofWord_eq_iff,
      fun _ => LogOutput.ofWord_eq_iff, load_applyLogging hload⟩⟩
  · simp [load_eq_error_iff]
  · rw [load_eq_error_iff]
    constructor
    · rintro (⟨-, herror⟩ | ⟨hreadable, text', hgiven, hnumeral, herror⟩)
      · cases herror
      · obtain ⟨rfl, rfl⟩ := SettingsError.invalidVariable.inj herror
        exact ⟨hreadable, rfl, hgiven, hnumeral⟩
    · rintro ⟨hreadable, rfl, hgiven, hnumeral⟩
      exact .inr ⟨hreadable, text, hgiven, hnumeral, rfl⟩

/-- The port of the file gives way to its variable, the form of log lines is the one of the
file, their place becomes an unknown word, and all else is by default. -/
theorem load_layers_mixed :
    let file := some "server:\n  port: 9000\nlogging:\n  format: json\n"
    let env : Environment := { port := some "+09090", output := some "" }
    let s : Settings :=
      { server := { port := 9090 }, logging := { format := "json", output := "" } }
    load file env = .ok s ∧
      (s.applyLogging env).logFormat = .json ∧
      (s.applyLogging env).logOutput = .stdout ∧
      load file (s.applyLogging env) = .ok s := by
  intro file env s
  have hfile : ofAnyFile? file =
      some { server := { port := 9000 }, logging := { format := "json" } } := by decide +kernel
  have hload : load file env = .ok s := by
    rw [load_eq, hfile]
    rfl
  obtain ⟨-, hform, hplace, hagain⟩ := (load_layers file env).2.2.2 s hload
  exact ⟨hload, (hform .json).mpr rfl, (hplace .stdout).mpr ⟨by decide, by decide⟩, hagain⟩

end Settings

end SchemaQuery
