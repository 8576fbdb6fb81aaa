import RestSql.Filter
import RestSql.ResultSet
import RestSql.Sql.Statement

/-!
From fetched rows to a result set: the rows are filtered, sorted and cut, and then the output columns
are taken from them. Main statement: sorting only rearranges (`sortRows_perm`).
-/

namespace RestSql

/-- Where the values of an output column come from. -/
inductive ColumnSource
  | field (column : String)
  /-- The same value in each row. -/
  | value (v : Json)
  deriving Repr

structure OutputColumn where
  header : String
  source : ColumnSource
  deriving Repr

/-- A column under its own name. -/
def OutputColumn.named (column : String) : OutputColumn :=
  ⟨column, .field column⟩

/-- The columns of a result set. -/
abbrev Projection := List OutputColumn

namespace Projection

/-- The column that a name to sort by means: that behind the header, or the name itself. -/
def columnOf (p : Projection) (name : String) : String :=
  match p.find? (·.header == name) with
  | some ⟨_, .field column⟩ => column
  | _ => name

/-- The value of an output column. -/
def valueOf (row : Row) (c : OutputColumn) : Json :=
  match c.source with
  | .field column => (row.cell? column).getD .null
  | .value v => v

/-- A row of the result set; of equal headers the last one wins. -/
def rowOf (p : Projection) (row : Row) : Row :=
  Dict.ofEntries (p.map fun c => (c.header, valueOf row c))

/-- The result set with the given rows. -/
def apply (p : Projection) (rows : List Row) : ResultSet :=
  { columns := p.map (·.header), rows := rows.map p.rowOf }

end Projection

/-- What a query makes of the rows that it fetches. -/
structure Shape where
  projection : Projection
  filter : Option Filter
  orderBy : List Sql.OrderBy
  limit : Option Nat
  deriving Repr

namespace Shape

/-- The order of two rows by the columns to sort by, the first of which weighs most. -/
def compareRows (p : Projection) (a b : Row) : List Sql.OrderBy → Ordering
  | [] => .eq
  | o :: more =>
    let column := p.columnOf o.column
    let order := Json.sortOrder (a.cell? column) (b.cell? column)
    (if o.descending then order.swap else order).then (compareRows p a b more)

/-- The row put into rows that are sorted backwards, behind its equals. -/
def insertRow (order : Row → Row → Ordering) (row : Row) : List Row → List Row
  | [] => [row]
  | last :: rest =>
    if order row last = .lt then last :: insertRow order row rest else row :: last :: rest

/-- The rows in order; equals keep their places. -/
def sortRows (order : Row → Row → Ordering) (rows : List Row) : List Row :=
  (rows.foldl (fun sorted row => insertRow order row sorted) []).reverse

/-- The rows that the filter keeps. -/
def filterRows (filter : Option Filter) (rows : List Row) : List Row :=
  match filter with
  | some f => rows.filter fun row => f.keeps row
  | none => rows

/-- The result of a query. -/
def apply (s : Shape) (rows : List Row) : ResultSet :=
  let rows := filterRows s.filter rows
  let rows := if s.orderBy.isEmpty then rows
    else sortRows (fun a b => compareRows s.projection a b s.orderBy) rows
  let rows := match s.limit with
    | some n => rows.take n
    | none => rows
  s.projection.apply rows

theorem insertRow_perm (order : Row → Row → Ordering) (row : Row) (rows : List Row) :
    (insertRow order row rows).Perm (row :: rows) := by
  induction rows with
  | nil => exact .refl _
  | cons last rest ih =>
    unfold insertRow
    split
    · exact (ih.cons last).trans (.swap row last rest)
    · exact .refl _

theorem sortRows_perm (order : Row → Row → Ordering) (rows : List Row) :
    (sortRows order rows).Perm rows := by
  suffices h : ∀ sorted : List Row,
      (rows.foldl (fun sorted row => insertRow order row sorted) sorted).Perm (rows ++ sorted) by
    simpa [sortRows] using (List.reverse_perm _).trans (h [])
  induction rows with
  | nil => exact fun sorted => .refl _
  | cons row rows ih =>
    intro sorted
    refine (ih _).trans ?_
    exact (List.Perm.append_left rows (insertRow_perm order row sorted)).trans List.perm_middle

end Shape
end RestSql
