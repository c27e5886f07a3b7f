import SchemaQuery.Json.Writer

/-!
# Settings of the server

Where the server listens, where its schema is, and how it logs.

## Main definitions

* `Settings` and its sections - the settings, with their defaults.
* `Settings.listenAddress`, `Settings.toTree` - what is derived from them.
* `LogFormat`, `LogOutput` - the meaning of the two logging words.
-/

namespace SchemaQuery

open Json (Tree)

/-- Where the server listens. -/
structure ListenSettings where
  host : String := "127.0.0.1"
  port : UInt16 := 8080
  deriving DecidableEq, Repr

/-- Where the schema document is. -/
structure SchemaSettings where
  path : String := "configs/models.json"
  deriving DecidableEq, Repr

/-- How the server logs. -/
structure LogSettings where
  level : String := "info"
  format : String := "pretty"
  output : String := "stdout"
  directory : String := "./logs"
  deriving DecidableEq, Repr

/-- The settings of the server. -/
structure Settings where
  server : ListenSettings := {}
  schema : SchemaSettings := {}
  logging : LogSettings := {}
  deriving DecidableEq, Repr

namespace Settings

/-- The address to listen on. -/
def listenAddress (s : Settings) : String :=
  s.server.host ++ ":" ++ String.ofList (Numeric.decimalText s.server.port.toNat)

/-- The settings as JSON. -/
def toTree (s : Settings) : Tree :=
  .object
    [("server", .object
        [("host", .text s.server.host), ("port", .ofInt s.server.port.toNat)]),
      ("schema", .object [("models_path", .text s.schema.path)]),
      ("logging", .object
        [("level", .text s.logging.level), ("format", .text s.logging.format),
          ("output", .text s.logging.output), ("directory", .text s.logging.directory)])]

end Settings

/-- The form of log lines. -/
inductive LogFormat where
  | pretty
  | json
  | compact
  deriving DecidableEq, Repr

namespace LogFormat

/-- The name of a form. -/
def name : LogFormat → String
  | pretty => "Pretty"
  | json => "Json"
  | compact => "Compact"

/-- The form that a word asks for; any other word asks for the readable one. -/
def ofWord (word : String) : LogFormat :=
  if word = "json" then json
  else if word = "compact" then compact
  else pretty

end LogFormat

/-- Where log lines go. -/
inductive LogOutput where
  | stdout
  | file
  | both
  deriving DecidableEq, Repr

namespace LogOutput

/-- The name of a destination. -/
def name : LogOutput → String
  | stdout => "Stdout"
  | file => "File"
  | both => "Both"

/-- The destination that a word asks for; any other word asks for standard output. -/
def ofWord (word : String) : LogOutput :=
  if word = "file" then file
  else if word = "both" then both
  else stdout

end LogOutput

end SchemaQuery
