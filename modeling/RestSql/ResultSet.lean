import RestSql.Row

/-!
Result sets: rows with the order of their columns.
-/

namespace RestSql

structure ResultSet where
  columns : List String
  rows : List Row
  deriving Repr, Inhabited

namespace ResultSet

/-- The columns that come first where they are present. -/
def leadingColumns : List String :=
  ["id", "name", "description"]

/-- The leading columns among the keys, then the other keys in increasing order, each once. -/
def columnOrder (keys : List String) : List String :=
  let sorted := Dict.keys (Dict.ofEntries (keys.map fun k => (k, ())))
  leadingColumns.filter (sorted.contains ·) ++ sorted.filter (!leadingColumns.contains ·)

/-- The rows with the columns that any of them has. -/
def ofRows (rows : List Row) : ResultSet :=
  { columns := columnOrder (rows.flatMap Dict.keys), rows }

/-- The text of a cell, empty if the row has no such column. -/
def cellText (row : Row) (column : String) : String :=
  ((row.cell? column).map Json.cellText).getD ""

/-- The texts of a column. -/
def columnTexts (r : ResultSet) (column : String) : List String :=
  r.rows.map (cellText · column)

/-- The texts of a row, in column order. -/
def recordOf (r : ResultSet) (row : Row) : List String :=
  r.columns.map (cellText row)

end ResultSet
end RestSql
