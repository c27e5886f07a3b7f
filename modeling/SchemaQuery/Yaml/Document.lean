import SchemaQuery.Yaml.Lexer
import SchemaQuery.Yaml.Node

/-!
# YAML documents

A text holds one document: directives and a marker, which may both be left out, a root node,
and a marker for its end, which may be left out as well.

## Main definitions

* `Document`, `Document.content?` - a document, and a node of it with its alias resolved.
* `readDirectives` - the directives before a document.
* `Document.parse?` - the one document of a text.
-/

namespace SchemaQuery.Yaml

/-- The document of a text: its root, and its nodes with an anchor under their numbers. -/
structure Document where
  root : Node
  anchored : List (Nat × Node)

namespace Document

/-- A document with the given root. -/
def ofRoot (root : Node) : Document := ⟨root, root.anchored⟩

/-- A node itself, or the node that an alias stands for: the last one with its number. -/
def content? (d : Document) : Node → Option Node
  | .reference number => d.anchored.reverse.lookup number
  | node => some node

end Document

/-! ## Directives -/

/-- The tag handles that need no directive. -/
def standardHandles : Handles := [("!", "!"), ("!!", "tag:yaml.org,2002:")]

/-- Reads the directives before a document: at most one for the version, which has to be 1.1 or
1.2, and one for each tag handle.  Returns the handles in force. -/
def readDirectives (versioned : Bool) (handles : Handles) :
    List Token → Option (Handles × List Token)
  | .version major minor :: rest =>
    if versioned || major ≠ 1 || (minor ≠ 1 && minor ≠ 2) then none
    else readDirectives true handles rest
  | .handle name uri :: rest =>
    if (handles.lookup name).isSome then none
    else readDirectives versioned ((name, uri) :: handles) rest
  | ts => some (handles ++ standardHandles, ts)

/-! ## Documents -/

/-- Whether a token belongs to what is between documents. -/
def isBoundary : Token → Bool
  | .version _ _ => true
  | .handle _ _ => true
  | .documentStart => true
  | .documentEnd => true
  | _ => false

/-- Reads the root of a document. -/
def readRoot (handles : Handles) (ts : List Token) : Option (Node × List Token) :=
  (readNode handles (2 * ts.length + 2) .inBlock ⟨[], ts⟩).map fun (root, r) => (root, r.tokens)

/-- Reads a document with directives or a marker before it; its root may be left out. -/
def readMarkedRoot (ts : List Token) : Option (Node × List Token) := do
  let (handles, rest) ← readDirectives false [] ts
  match rest with
  | .documentStart :: rest =>
    if rest.head?.all isBoundary then some (.empty, rest) else readRoot handles rest
  | _ => none

namespace Document

/-- The document of a list of tokens.  After it nothing may follow but markers for its end. -/
def ofTokens? : List Token → Option Document
  | [] => some (ofRoot .empty)
  | t :: ts => do
    let (root, rest) ←
      if isBoundary t && t ≠ .documentEnd then readMarkedRoot (t :: ts)
      else readRoot standardHandles (t :: ts)
    if rest.all (· = .documentEnd) then some (ofRoot root) else none

/-- The one document of a text, which may be empty. -/
def parse? (s : String) : Option Document := do
  let cs ← Placed.ofText? s
  ofTokens? (← tokens? cs)

end Document

end SchemaQuery.Yaml
