import EntityIndex.Json.Value
import EntityIndex.Text.Quote

/-!
# Writing JSON

Compact JSON text: no spaces, fields in the order the object holds them, numbers as their
literal text. Strings escape the quote, the backslash and every control character (`\b \f \n
\r \t` by name, the rest as `\u00XX`), and the line and paragraph separators U+2028 and U+2029,
which some readers take for line ends. When `escapeHtml` is set, `<`, `>` and `&` are escaped
too (as `\u003c`, `\u003e`, `\u0026`), so the text can sit inside an HTML page; stored payloads are
written that way, replies are not.
-/

namespace EntityIndex.Json

/-- The escaped form of one character inside a JSON string. -/
def escapeChar (escapeHtml : Bool) (c : Char) : String :=
  let n := c.toNat
  if c = '"' then "\\\""
  else if c = '\\' then "\\\\"
  else if c = '\n' then "\\n"
  else if c = '\r' then "\\r"
  else if c = '\t' then "\\t"
  else if n = 8 then "\\b"
  else if n = 12 then "\\f"
  else if n < 32 ∨ n = 0x2028 ∨ n = 0x2029 then
    "\\u" ++ String.ofList (Quote.hexDigits 4 n)
  else if escapeHtml ∧ (c = '<' ∨ c = '>' ∨ c = '&') then
    "\\u00" ++ String.ofList (Quote.hexDigits 2 n)
  else c.toString

/-- A JSON string literal. -/
def quoteString (escapeHtml : Bool) (s : String) : String :=
  "\"" ++ s.toList.foldl (fun acc c => acc ++ escapeChar escapeHtml c) "" ++ "\""

mutual

/-- Compact JSON text of a document. -/
def render (escapeHtml : Bool) : Value → String
  | .null => "null"
  | .bool b => if b then "true" else "false"
  | .number t => t
  | .string s => quoteString escapeHtml s
  | .array xs => "[" ++ renderItems escapeHtml xs ++ "]"
  | .object fs => "\x7b" ++ renderFields escapeHtml fs ++ "\x7d"

/-- The items of an array, comma-separated. -/
def renderItems (escapeHtml : Bool) : List Value → String
  | [] => ""
  | [x] => render escapeHtml x
  | x :: xs => render escapeHtml x ++ "," ++ renderItems escapeHtml xs

/-- The fields of an object, comma-separated. -/
def renderFields (escapeHtml : Bool) : List (String × Value) → String
  | [] => ""
  | [(k, v)] => quoteString escapeHtml k ++ ":" ++ render escapeHtml v
  | (k, v) :: fs =>
    quoteString escapeHtml k ++ ":" ++ render escapeHtml v ++ "," ++ renderFields escapeHtml fs

end

end EntityIndex.Json
