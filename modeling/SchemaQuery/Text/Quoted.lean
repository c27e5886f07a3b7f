import SchemaQuery.Text.Hexadecimal
import SchemaQuery.Text.Printable

/-!
# Quoted text

Messages show a text that came from outside between double quotes, with everything escaped that
would not be seen or would end the quotation.

## Main definitions

* `quoteChar` - how one character is written inside a quotation.
* `quote` - a text in quotation marks.
-/

namespace SchemaQuery.Text

/-- How a character is written inside a quotation: a short escape where there is one, the
character itself if it is printable, and its code point in hexadecimal otherwise. -/
def quoteChar (c : Char) : List Char :=
  match c with
  | '"' => ['\\', '"']
  | '\\' => ['\\', '\\']
  | '\n' => ['\\', 'n']
  | '\r' => ['\\', 'r']
  | '\t' => ['\\', 't']
  | '\x00' => ['\\', '0']
  | c =>
    if isPrintable c then [c]
    else ['\\', 'u', '\x7b'] ++ hexDigits c.toNat ++ ['\x7d']

/-- A text between double quotes, every character written by `quoteChar`. -/
def quote (s : String) : String :=
  String.ofList ('"' :: s.toList.flatMap quoteChar ++ ['"'])

end SchemaQuery.Text
