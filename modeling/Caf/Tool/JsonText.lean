import Caf.Text.Hex

/-!
# JSON documents

Reports for machines are JSON documents, written over several lines with two blanks for each level.
A report is a record of named values or a list of such records.
-/

namespace Caf.Tool

/-- A value of a record. -/
inductive JsonValue where
  /-- A text. -/
  | text (value : String)
  /-- A number, in the digits that it is written with. -/
  | number (digits : String)
  deriving DecidableEq, Repr

/-- Named values in the order in which they are written. -/
abbrev JsonRecord := List (String × JsonValue)

namespace JsonText

/-- A character inside quotation marks. -/
def escapeChar (c : Char) : List Char :=
  if c = '"' then ['\\', '"']
  else if c = '\\' then ['\\', '\\']
  else if c = '\n' then ['\\', 'n']
  else if c = '\r' then ['\\', 'r']
  else if c = '\t' then ['\\', 't']
  else if c = '\x08' then ['\\', 'b']
  else if c = '\x0c' then ['\\', 'f']
  else if c.toNat < 32 then '\\' :: 'u' :: '0' :: '0' :: Hex.ofByte (UInt8.ofNat c.toNat)
  else [c]

/-- The `text` in quotation marks. -/
def quote (text : String) : String :=
  "\"" ++ String.ofList (text.toList.flatMap escapeChar) ++ "\""

/-- A value as it is written. -/
def value : JsonValue → String
  | .text value => quote value
  | .number digits => digits

/-- Lines with a comma behind each but the last. -/
def separated : List String → String
  | [] => ""
  | lines => String.intercalate ",\n" lines ++ "\n"

/-- A record of `fields` whose braces are indented by `indent`. -/
def record (indent : String) (fields : JsonRecord) : String :=
  indent ++ "\x7b\n" ++
    separated (fields.map fun (name, v) => indent ++ "  " ++ quote name ++ ": " ++ value v) ++
    indent ++ "\x7d"

/-- A list of records. -/
def list (records : List JsonRecord) : String :=
  if records.isEmpty then "[]"
  else "[\n" ++ separated (records.map (record "  ")) ++ "]"

end JsonText

end Caf.Tool
