import SchemaQuery.Settings.File

/-!
# Settings from the environment

Seven environment variables override what the settings file says.  After loading, the logging
settings are written back to the environment, where the logger finds them.

## Main definitions

* `Environment` - the variables.
* `portOfText?` - the port that a variable stands for.
* `Settings.override`, `Settings.load` - the settings in force.
* `Settings.applyLogging` - the environment that the logger sees.
-/

namespace SchemaQuery

/-- The environment variables that the server knows. -/
structure Environment where
  host : Option String := none
  port : Option String := none
  schemaPath : Option String := none
  level : Option String := none
  format : Option String := none
  output : Option String := none
  directory : Option String := none
  deriving DecidableEq, Repr

/-- Why the settings cannot be loaded. -/
inductive SettingsError where
  /-- The file is no YAML, or holds no settings. -/
  | unreadableFile
  /-- A variable has a value that its setting cannot have. -/
  | invalidVariable (name value : String)
  deriving DecidableEq, Repr

/-- The wording of the error. -/
def SettingsError.message : SettingsError → String
  | unreadableFile => "Failed to parse YAML"
  | invalidVariable name value => "Invalid value for " ++ name ++ ": " ++ value

/-- The port that a text stands for: decimal digits after an optional plus sign. -/
def portOfText? (s : String) : Option UInt16 :=
  let digits :=
    match s.toList with
    | '+' :: rest => rest
    | cs => cs
  (numberInBase? 10 digits).bind portOf?

namespace Settings

/-- The port with its variable taken into account. -/
def overridePort (port : UInt16) : Option String → Except SettingsError UInt16
  | none => .ok port
  | some text =>
    match portOfText? text with
    | some port => .ok port
    | none => .error (.invalidVariable "UDV_SERVER_PORT" text)

/-- The settings with the variables taken into account: one that is set, even to nothing, wins
over the file. -/
def override (s : Settings) (env : Environment) : Except SettingsError Settings := do
  let port ← overridePort s.server.port env.port
  return {
    server := ⟨env.host.getD s.server.host, port⟩
    schema := ⟨env.schemaPath.getD s.schema.path⟩
    logging :=
      ⟨env.level.getD s.logging.level, env.format.getD s.logging.format,
        env.output.getD s.logging.output, env.directory.getD s.logging.directory⟩ }

/-- Loads the settings from the text of the file, if there is one, and the environment. -/
def load (file : Option String) (env : Environment) : Except SettingsError Settings :=
  match file with
  | none => override {} env
  | some text =>
    match ofFile? text with
    | none => .error .unreadableFile
    | some s => s.override env

/-- The environment with the logging settings written to it. -/
def applyLogging (s : Settings) (env : Environment) : Environment :=
  { env with
    level := some s.logging.level
    format := some s.logging.format
    output := some s.logging.output
    directory := some s.logging.directory }

end Settings

/-- The form of log lines that the environment asks for. -/
def Environment.logFormat (env : Environment) : LogFormat := .ofWord (env.format.getD "")

/-- Where the environment asks log lines to go. -/
def Environment.logOutput (env : Environment) : LogOutput := .ofWord (env.output.getD "")

end SchemaQuery
