import RestSql.Json.Writer
import RestSql.Text.Cut

/-!
Rows and their cells. A column name that is no field of the row reaches into nested objects at its
dots.
-/

namespace RestSql

/-- A row is the fields of a JSON object. -/
abbrev Row := Fields

/-- The text of a value in a cell. -/
def Json.cellText : Json → String
  | null => "null"
  | string s => s
  | bool b => if b then "true" else "false"
  | number n => n.write
  | array _ => "[array]"
  | object _ => "\x7bobject\x7d"

namespace Row

/-- The value at the end of a path of field names. -/
def reach? (v : Json) : List String → Option Json
  | [] => some v
  | name :: path =>
    match v.field? name with
    | some inner => reach? inner path
    | none => none

/-- The value of a column. -/
def cell? (row : Row) (column : String) : Option Json :=
  match Dict.find? row column with
  | some v => some v
  | none => reach? (.object row) (Text.cutAt '.' column)

/-- A row of texts. -/
def ofTexts (cells : List (String × String)) : Row :=
  Dict.ofEntries (cells.map fun (k, s) => (k, .string s))

/-- The row that an item of an array is; one that is no object stands in the column `value`. -/
def ofItem : Json → Row
  | .object fields => fields
  | v => [("value", v)]

/-- The rows of a response: the items of the array under `key`, or the whole object without a key. -/
def ofResponse (body : Json) (key : Option String) : List Row :=
  match key with
  | some k =>
    match body.field? k with
    | some (.array items) => items.map ofItem
    | _ => []
  | none =>
    match body with
    | .object fields => [fields]
    | _ => []

theorem cell?_of_field {row : Row} {column : String} {v : Json}
    (h : Dict.find? row column = some v) : cell? row column = some v := by
  simp [cell?, h]

end Row
end RestSql
