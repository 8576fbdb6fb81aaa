import RestSql.Json.Basic
import RestSql.Number.Decimal

/-!
The texts of JSON values: on one line without blanks, and indented by two blanks a level. Both write
the fields of an object in the order of its `Dict`.
-/

namespace RestSql

/-- Numbers have a fraction or an exponent: no exponent from `0.00001` up to below `1e+16`. -/
def JsonNumber.layout : DecimalLayout :=
  { tie := .even, positional := some (-4, 16), wholeEnd := ".0", infinite := "null",
    notANumber := "null" }

/-- The text of a number. -/
def JsonNumber.write : JsonNumber → String
  | .integer n => Text.ofInt n
  | .float x => layout.write x

namespace Json

/-- The text of a character inside a quoted string. -/
def escape (c : Char) : String :=
  if c = '\x22' then "\\\""
  else if c = '\\' then "\\\\"
  else if c = '\x08' then "\\b"
  else if c = '\x0c' then "\\f"
  else if c = '\n' then "\\n"
  else if c = '\r' then "\\r"
  else if c = '\t' then "\\t"
  else if c.toNat < 0x10 then "\\u000" ++ String.ofList (Nat.toDigits 16 c.toNat)
  else if c.toNat < 0x20 then "\\u00" ++ String.ofList (Nat.toDigits 16 c.toNat)
  else c.toString

/-- The text in double quotes. -/
def quote (s : String) : String :=
  "\"" ++ String.join (s.toList.map escape) ++ "\""

mutual

/-- The value on one line. -/
def write : Json → String
  | null => "null"
  | bool b => if b then "true" else "false"
  | number n => n.write
  | string s => quote s
  | array items => "[" ++ String.intercalate "," (writeItems items) ++ "]"
  | object fields => "\x7b" ++ String.intercalate "," (writeFields fields) ++ "\x7d"

def writeItems : List Json → List String
  | [] => []
  | v :: vs => write v :: writeItems vs

def writeFields : List (String × Json) → List String
  | [] => []
  | (k, v) :: fields => (quote k ++ ":" ++ write v) :: writeFields fields

end

/-- Lines between an opening and a closing bracket, each line a level deeper. -/
def block (opening closing margin : String) (lines : List String) : String :=
  if lines.isEmpty then opening ++ closing
  else
    opening ++ "\n" ++ String.intercalate ",\n" (lines.map fun l => margin ++ "  " ++ l) ++ "\n" ++
      margin ++ closing

mutual

/-- The value on several lines, those after the first set in by `margin`. -/
def layOut (margin : String) : Json → String
  | null => "null"
  | bool b => if b then "true" else "false"
  | number n => n.write
  | string s => quote s
  | array items => block "[" "]" margin (layOutItems (margin ++ "  ") items)
  | object fields => block "\x7b" "\x7d" margin (layOutFields (margin ++ "  ") fields)

def layOutItems (margin : String) : List Json → List String
  | [] => []
  | v :: vs => layOut margin v :: layOutItems margin vs

def layOutFields (margin : String) : List (String × Json) → List String
  | [] => []
  | (k, v) :: fields => (quote k ++ ": " ++ layOut margin v) :: layOutFields margin fields

end

/-- The value on several lines. -/
def writePretty (v : Json) : String :=
  layOut "" v

end Json
end RestSql
