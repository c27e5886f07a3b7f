import SchemaQuery.Yaml.Token

/-!
# YAML nodes

A node is a scalar, a sequence or a mapping, or an alias of a node with an anchor.

## Main definitions

* `Node` - a value.
* `Anchors` - the anchors met so far and their numbers.
* `readNode` - the node that a list of tokens starts with.
* `Node.anchored` - all nodes with an anchor.

## Design notes

An anchor gets the number of different names that were anchored before it, and an alias the
number of the last anchor of its name.  When a name is anchored again, its anchor can share
its number with the next new name; an alias then stands for the node that comes last in the
text.

The readers call one another and take a bound on the nesting of these calls.  At least half of
the calls in a nest take a token before the next one, so twice the number of tokens is enough.
-/

namespace SchemaQuery.Yaml

/-! ## Values -/

/-- A scalar: its style, its tag if it has one, and its text. -/
structure Scalar where
  style : Style := .plain
  tag : Option String := none
  text : String := ""
  deriving DecidableEq, Repr

/-- A YAML value; other nodes than aliases may have an anchor, which is given by its number. -/
inductive Node where
  | reference (number : Nat)
  | scalar (anchor : Option Nat) (value : Scalar)
  | sequence (anchor : Option Nat) (items : List Node)
  | mapping (anchor : Option Nat) (entries : List (Node × Node))

namespace Node

/-- The value that is not written. -/
def empty : Node := .scalar none {}

/-- A node under its number, if it has an anchor. -/
def numbered (anchor : Option Nat) (node : Node) : List (Nat × Node) :=
  match anchor with
  | some number => [(number, node)]
  | none => []

mutual

/-- The nodes with an anchor under their numbers, in the order in which they start. -/
def anchored : Node → List (Nat × Node)
  | .reference _ => []
  | .scalar anchor value => numbered anchor (.scalar anchor value)
  | .sequence anchor items => numbered anchor (.sequence anchor items) ++ anchoredItems items
  | .mapping anchor entries => numbered anchor (.mapping anchor entries) ++ anchoredEntries entries

/-- The nodes with an anchor in the items of a sequence. -/
def anchoredItems : List Node → List (Nat × Node)
  | [] => []
  | item :: rest => item.anchored ++ anchoredItems rest

/-- The nodes with an anchor in the entries of a mapping. -/
def anchoredEntries : List (Node × Node) → List (Nat × Node)
  | [] => []
  | (key, value) :: rest => key.anchored ++ value.anchored ++ anchoredEntries rest

end

end Node

/-! ## Anchors and tags -/

/-- The names with an anchor and the numbers of their last anchors; every name occurs once. -/
abbrev Anchors := List (String × Nat)

namespace Anchors

/-- The number of the last anchor of a name. -/
def find? (anchors : Anchors) (name : String) : Option Nat := List.lookup name anchors

/-- Adds an anchor, if a node has one, and returns its number. -/
def add (anchors : Anchors) : Option String → Option Nat × Anchors
  | none => (none, anchors)
  | some name =>
    let number := anchors.length
    (some number, (name, number) :: anchors.filter fun entry => entry.1 ≠ name)

end Anchors

/-- The tag handles of a document and what they stand for. -/
abbrev Handles := List (String × String)

/-- The tag of a handle and a suffix; a tag without a handle is its suffix. -/
def Handles.tag? (handles : Handles) (handle suffix : String) : Option String :=
  if handle.isEmpty then some suffix else (handles.lookup handle).map (· ++ suffix)

/-- The anchor and the tag before a node. -/
structure Properties where
  anchor : Option String := none
  tag : Option (String × String) := none

namespace Properties

/-- Reads the anchor and the tag before a node, which come in either order. -/
def read : List Token → Properties × List Token
  | .anchor name :: .tag handle suffix :: rest => (⟨some name, some (handle, suffix)⟩, rest)
  | .tag handle suffix :: .anchor name :: rest => (⟨some name, some (handle, suffix)⟩, rest)
  | .anchor name :: rest => (⟨some name, none⟩, rest)
  | .tag handle suffix :: rest => (⟨none, some (handle, suffix)⟩, rest)
  | ts => ({}, ts)

/-- Whether there is neither an anchor nor a tag. -/
def isEmpty (p : Properties) : Bool := p.anchor.isNone && p.tag.isNone

end Properties

/-! ## Reading nodes -/

/-- Where a node stands: in a block collection, where it may be one itself; after the key or
colon of a block mapping, where it may also be a sequence that is not indented; or in
brackets. -/
inductive Position where
  | inBlock
  | inMapping
  | inFlow
  deriving DecidableEq, Repr

/-- The anchors met and the tokens that are left. -/
structure Remaining where
  anchors : Anchors
  tokens : List Token

namespace Remaining

/-- The first token that is left. -/
def next? (r : Remaining) : Option Token := r.tokens.head?

/-- What is left after the first token. -/
def skip (r : Remaining) : Remaining := { r with tokens := r.tokens.drop 1 }

end Remaining

/-- Whether a block sequence has no content before a token. -/
def endsEntry (t : Option Token) : Bool := t = some .blockEntry || t = some .blockEnd

/-- Whether a key or value of a block mapping has no content before a token. -/
def endsPart (t : Option Token) : Bool := t = some .key || t = some .value || t = some .blockEnd

/-- Whether an entry of a sequence that is not indented has no content before a token. -/
def endsUnindented (t : Option Token) : Bool := t = some .blockEntry || endsPart t

/-- Whether a value in brackets has no content before a token. -/
def endsFlowValue (closing : Token) (t : Option Token) : Bool :=
  t = some .flowEntry || t = some closing

mutual

/-- Reads a node. -/
def readNode (handles : Handles) : Nat → Position → Remaining → Option (Node × Remaining)
  | 0, _, _ => none
  | fuel + 1, position, r =>
    match r.next? with
    | some (.reference name) =>
      (r.anchors.find? name).map fun number => (.reference number, r.skip)
    | _ =>
      let (properties, tokens) := Properties.read r.tokens
      let (anchor, anchors) := r.anchors.add properties.anchor
      let r : Remaining := ⟨anchors, tokens⟩
      match properties.tag.map fun (handle, suffix) => handles.tag? handle suffix with
      | some none => none
      | tag =>
        let tag := tag.join
        match r.next? with
        | some (.scalar style text) =>
          -- the tag that is only an exclamation mark says nothing
          let tag := if tag = some "!" then none else tag
          some (.scalar anchor ⟨style, tag, text⟩, r.skip)
        | some .flowSequenceStart =>
          (readFlowItems handles fuel true r.skip).map fun (items, r) =>
            (.sequence anchor items, r)
        | some .flowMappingStart =>
          (readFlowEntries handles fuel true r.skip).map fun (entries, r) =>
            (.mapping anchor entries, r)
        | next =>
          if next = some .blockEntry && position = .inMapping then
            (readUnindented handles fuel r).map fun (items, r) => (.sequence anchor items, r)
          else if next = some .blockSequenceStart && position ≠ .inFlow then
            (readItems handles fuel r.skip).map fun (items, r) => (.sequence anchor items, r)
          else if next = some .blockMappingStart && position ≠ .inFlow then
            (readEntries handles fuel r.skip).map fun (entries, r) => (.mapping anchor entries, r)
          else if properties.isEmpty then none
          else some (.scalar anchor ⟨.plain, tag, ""⟩, r)

/-- Reads the items of a block sequence and its end. -/
def readItems (handles : Handles) : Nat → Remaining → Option (List Node × Remaining)
  | 0, _ => none
  | fuel + 1, r =>
    match r.next? with
    | some .blockEntry => do
      let r := r.skip
      let (item, r) ←
        if endsEntry r.next? then some (Node.empty, r) else readNode handles fuel .inBlock r
      let (items, r) ← readItems handles fuel r
      return (item :: items, r)
    | some .blockEnd => some ([], r.skip)
    | _ => none

/-- Reads the items of a sequence that is not indented. -/
def readUnindented (handles : Handles) : Nat → Remaining → Option (List Node × Remaining)
  | 0, _ => none
  | fuel + 1, r =>
    match r.next? with
    | some .blockEntry => do
      let r := r.skip
      let (item, r) ←
        if endsUnindented r.next? then some (Node.empty, r) else readNode handles fuel .inBlock r
      let (items, r) ← readUnindented handles fuel r
      return (item :: items, r)
    | _ => some ([], r)

/-- Reads the entries of a block mapping and its end. -/
def readEntries (handles : Handles) : Nat → Remaining → Option (List (Node × Node) × Remaining)
  | 0, _ => none
  | fuel + 1, r =>
    match r.next? with
    | some .key => do
      let (key, r) ← readPart handles fuel r.skip
      let (value, r) ←
        if r.next? = some .value then readPart handles fuel r.skip else some (Node.empty, r)
      let (entries, r) ← readEntries handles fuel r
      return ((key, value) :: entries, r)
    | some .blockEnd => some ([], r.skip)
    | _ => none

/-- Reads a key or a value of a block mapping, which may be left out. -/
def readPart (handles : Handles) : Nat → Remaining → Option (Node × Remaining)
  | 0, _ => none
  | fuel + 1, r =>
    if endsPart r.next? then some (.empty, r) else readNode handles fuel .inMapping r

/-- Reads the items of a sequence in brackets and the closing bracket.  Each but the first
comes after a comma, and a comma may come last. -/
def readFlowItems (handles : Handles) : Nat → (first : Bool) → Remaining →
    Option (List Node × Remaining)
  | 0, _, _ => none
  | fuel + 1, first, r =>
    if r.next? = some .flowSequenceEnd then some ([], r.skip)
    else if !first && r.next? ≠ some .flowEntry then none
    else
      let r := if first then r else r.skip
      if r.next? = some .flowSequenceEnd then some ([], r.skip)
      else do
        let (item, r) ←
          if r.next? = some .key then readPair handles fuel r.skip
          else readNode handles fuel .inFlow r
        let (items, r) ← readFlowItems handles fuel false r
        return (item :: items, r)

/-- Reads a mapping of one entry that is an item of a sequence in brackets.  Where a question
mark has no key after it, the token that shows this is not looked at again. -/
def readPair (handles : Handles) : Nat → Remaining → Option (Node × Remaining)
  | 0, _ => none
  | fuel + 1, r => do
    let (key, r) ←
      if r.next? = some .value || endsFlowValue .flowSequenceEnd r.next? then
        some (Node.empty, r.skip)
      else readNode handles fuel .inFlow r
    let (value, r) ← readFlowValue handles fuel .flowSequenceEnd r
    return (.mapping none [(key, value)], r)

/-- Reads the entries of a mapping in brackets and the closing brace.  Each but the first comes
after a comma, and a comma may come last. -/
def readFlowEntries (handles : Handles) : Nat → (first : Bool) → Remaining →
    Option (List (Node × Node) × Remaining)
  | 0, _, _ => none
  | fuel + 1, first, r =>
    if r.next? = some .flowMappingEnd then some ([], r.skip)
    else if !first && r.next? ≠ some .flowEntry then none
    else
      let r := if first then r else r.skip
      if r.next? = some .flowMappingEnd then some ([], r.skip)
      else do
        let (entry, r) ←
          if r.next? = some .key then do
            let r := r.skip
            let (key, r) ←
              if r.next? = some .value || endsFlowValue .flowMappingEnd r.next? then
                some (Node.empty, r)
              else readNode handles fuel .inFlow r
            let (value, r) ← readFlowValue handles fuel .flowMappingEnd r
            pure ((key, value), r)
          else do
            let (key, r) ← readNode handles fuel .inFlow r
            pure ((key, Node.empty), r)
        let (entries, r) ← readFlowEntries handles fuel false r
        return (entry :: entries, r)

/-- Reads the value after a key in brackets, which may be left out with or without its
colon. -/
def readFlowValue (handles : Handles) : Nat → (closing : Token) → Remaining →
    Option (Node × Remaining)
  | 0, _, _ => none
  | fuel + 1, closing, r =>
    if r.next? = some .value then
      let r := r.skip
      if endsFlowValue closing r.next? then some (.empty, r) else readNode handles fuel .inFlow r
    else some (.empty, r)

end

end SchemaQuery.Yaml
