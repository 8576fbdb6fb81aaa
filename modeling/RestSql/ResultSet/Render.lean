import RestSql.ResultSet

/-!
The texts of result sets: a table of padded columns, JSON, records with a delimiter, and records with
tabulators.
-/

namespace RestSql

/-- How results are written. -/
inductive OutputFormat
  | table
  | json
  | csv
  | text
  deriving DecidableEq, Repr, Inhabited

namespace OutputFormat

def all : List OutputFormat := [table, json, csv, text]

/-- The word for a format. -/
def word : OutputFormat → String
  | table => "table"
  | json => "json"
  | csv => "csv"
  | text => "text"

/-- The format with the given word. -/
def named? (word : String) : Option OutputFormat :=
  all.find? (·.word == word)

end OutputFormat

/-- What a written result looks like. -/
structure RenderOptions where
  format : OutputFormat
  delimiter : Char
  hideHeaders : Bool
  deriving DecidableEq, Repr

/-- A table with headers; commas between the fields of a record. -/
def RenderOptions.standard : RenderOptions :=
  { format := .table, delimiter := ',', hideHeaders := false }

namespace ResultSet

/-- The text with blanks after it up to a width. -/
def pad (width : Nat) (s : String) : String :=
  s ++ String.ofList (List.replicate (width - s.length) ' ')

/-- The greatest width of each column, its header included. -/
def widths (columns : List String) (records : List (List String)) : List Nat :=
  columns.zipIdx.map fun (c, i) =>
    records.foldl (fun w record => max w ((record[i]?).getD "").length) c.length

/-- The lines of a table: the header, a rule, and a line for each row. -/
def tableLines (r : ResultSet) (hideHeaders : Bool) : List String :=
  let records := r.rows.map r.recordOf
  let ws := widths r.columns records
  let line (fields : List String) := String.intercalate " │ " (List.zipWith pad ws fields)
  let rule := String.intercalate "─┼─" (ws.map fun w => String.ofList (List.replicate w '─'))
  (if hideHeaders then [] else [line r.columns, rule]) ++ records.map line

/-- The objects of the rows, each with all columns. -/
def toJson (r : ResultSet) : Json :=
  .array <| r.rows.map fun row =>
    Json.ofFields (r.columns.map fun c => (c, (row.cell? c).getD .null))

/-- A field of a record: in quotes, and its quotes written twice, if it holds a delimiter, a quote or a
line feed. -/
def csvField (delimiter : Char) (s : String) : String :=
  let cs := s.toList
  if cs.contains delimiter || cs.contains '\x22' || cs.contains '\n' then
    "\"" ++ String.ofList (cs.flatMap fun c => if c = '\x22' then ['\x22', '\x22'] else [c]) ++ "\""
  else s

/-- The header, if wanted, and the records of the rows, one a line. -/
def recordLines (r : ResultSet) (hideHeaders : Bool) (line : List String → String) : String :=
  String.intercalate "\n"
    ((if hideHeaders then [] else [line r.columns]) ++ r.rows.map fun row => line (r.recordOf row))

/-- The text of a result. -/
def render (r : ResultSet) (options : RenderOptions) : String :=
  match options.format with
  | .table => String.intercalate "\n" (r.tableLines options.hideHeaders)
  | .json => r.toJson.writePretty
  | .csv => r.recordLines options.hideHeaders fun fields =>
    String.intercalate options.delimiter.toString (fields.map (csvField options.delimiter))
  | .text => r.recordLines options.hideHeaders (String.intercalate "\t")

end ResultSet
end RestSql
