import SchemaQuery.Json.Value
import SchemaQuery.Numeric.Layout
import SchemaQuery.Text.Quoted

/-!
# Writing JSON text

A tree is written without blanks and with its members in their order.  Only what must be
escaped is: the quotation mark, the backslash and the characters below U+0020.

## Main definitions

* `Number.render` - the text of a number.
* `Tree.render` - the characters of a tree.
* `Tree.toText` - the same as a string.
-/

namespace SchemaQuery.Json

open Numeric (intText)

/-- The text of a number: integers in decimal, doubles by `Binary64.dataText`. -/
def Number.render : Number → List Char
  | .int value => intText value
  | .float value => value.dataText

/-- How a character is written inside a string. -/
def escapeChar (c : Char) : List Char :=
  match c with
  | '"' => ['\\', '"']
  | '\\' => ['\\', '\\']
  | '\x08' => ['\\', 'b']
  | '\t' => ['\\', 't']
  | '\n' => ['\\', 'n']
  | '\x0c' => ['\\', 'f']
  | '\r' => ['\\', 'r']
  | c =>
    if c.toNat < 0x20 then
      ['\\', 'u', '0', '0', Text.hexDigit (c.toNat / 16), Text.hexDigit (c.toNat % 16)]
    else [c]

/-- A string in quotation marks. -/
def renderString (s : String) : List Char := '"' :: s.toList.flatMap escapeChar ++ ['"']

namespace Tree

mutual

/-- The characters of a tree. -/
def render : Tree → List Char
  | .null => ['n', 'u', 'l', 'l']
  | .bool true => ['t', 'r', 'u', 'e']
  | .bool false => ['f', 'a', 'l', 's', 'e']
  | .number n => n.render
  | .text s => renderString s
  | .array items => '[' :: renderItems items ++ [']']
  | .object members => '\x7b' :: renderMembers members ++ ['\x7d']

/-- The items of an array, separated by commas. -/
def renderItems : List Tree → List Char
  | [] => []
  | [item] => item.render
  | item :: next :: rest => item.render ++ ',' :: renderItems (next :: rest)

/-- The members of an object, separated by commas. -/
def renderMembers : List (String × Tree) → List Char
  | [] => []
  | [(key, value)] => renderString key ++ ':' :: value.render
  | (key, value) :: next :: rest =>
    renderString key ++ ':' :: value.render ++ ',' :: renderMembers (next :: rest)

end

/-- The JSON text of a tree. -/
def toText (t : Tree) : String := String.ofList t.render

end Tree

/-- The JSON text of a value. -/
def Value.toText (v : Value) : String := v.tree.toText

end SchemaQuery.Json
