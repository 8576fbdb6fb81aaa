import RestSql.Cell.Order
import RestSql.Filter.Like

/-!
Row filters. A WHERE clause is compiled into a `Filter`, which holds of a row or not. Listings accept
only comparisons joined by AND and OR; queries accept NOT and IS NULL too.
-/

namespace RestSql

/-- A condition on rows. -/
inductive Filter
  | always
  | compare (column : String) (op : Sql.CompareOp) (value : Json)
  /-- Some of the columns matches the pattern. -/
  | like (columns : List String) (pattern : LikePattern) (negated : Bool)
  | isNull (column : String) (negated : Bool)
  | and (left right : Filter)
  | or (left right : Filter)
  | not (operand : Filter)
  deriving Repr

/-- Where a filter is used: on a listing, or on fetched rows. -/
inductive FilterUse
  | listing
  | rows
  deriving DecidableEq, Repr

namespace Filter

open Sql (Expr CompareOp)

/-- A bare LIKE over several columns. -/
def likeAny (columns : List String) (pattern : String) : Filter :=
  .like columns (.ofText pattern) false

/-- The column, operator and literal of a comparison that has a column on one side and a literal on
the other. -/
def comparison? (left : Expr) (op : CompareOp) (right : Expr) :
    Option (String × CompareOp × Sql.Literal) :=
  match left, right with
  | .column _ name, .literal l => some (name, op, l)
  | .literal l, .column _ name => some (name, op.flip, l)
  | _, _ => none

/-- The filter of a single comparison. -/
def ofComparison (column : String) (op : CompareOp) (l : Sql.Literal) : Filter :=
  match op with
  | .like => .like [column] (.ofText l.raw) false
  | .notLike => .like [column] (.ofText l.raw) true
  | op => .compare column op l.toJson

/-- The filter that an expression says; conditions on a column with `skip` always hold. The error is the
part of the expression that has no filter. -/
def ofExpr (use : FilterUse) (skip : String → Bool) (e : Expr) : Except Expr Filter :=
  match e with
  | .and l r => do
    let l ← ofExpr use skip l
    let r ← ofExpr use skip r
    return .and l r
  | .or l r => do
    let l ← ofExpr use skip l
    let r ← ofExpr use skip r
    return .or l r
  | .not inner =>
    match use with
    | .listing => .error e
    | .rows => do
      let f ← ofExpr use skip inner
      return .not f
  | .isNull inner negated =>
    match use, inner with
    | .rows, .column _ name => .ok (if skip name then .always else .isNull name negated)
    | _, _ => .error e
  | .comparison l op r =>
    match comparison? l op r with
    | some (column, op, literal) =>
      .ok (if skip column then .always else ofComparison column op literal)
    | none => .error e
  | _ => .error e

/-- The filter of a listing. -/
def ofListing (e : Expr) : Except Expr Filter :=
  ofExpr .listing (fun _ => false) e

/-- The filter of fetched rows, with the columns that always pass. -/
def ofRows (skip : String → Bool) (e : Expr) : Except Expr Filter :=
  ofExpr .rows skip e

/-- The columns that the filter reads, in order. -/
def columns : Filter → List String
  | always => []
  | compare column _ _ => [column]
  | like columns _ _ => columns
  | isNull column _ => [column]
  | and l r => columns l ++ columns r
  | or l r => columns l ++ columns r
  | not f => columns f

/-- A cell that is not null and whose text matches the pattern. -/
def likeCell (pattern : LikePattern) : Option Json → Bool
  | none => false
  | some v => !v.isNull && pattern.matches v.cellText

/-- The filter holds of a row. -/
def keeps (row : Row) : Filter → Bool
  | always => true
  | compare column op value =>
    match row.cell? column with
    | none => false
    | some v => !v.isNull && op.holds v value
  | like columns pattern negated =>
    columns.any (fun c => likeCell pattern (row.cell? c)) != negated
  | isNull column negated => ((row.cell? column).map Json.isNull).getD true != negated
  | and l r => keeps row l && keeps row r
  | or l r => keeps row l || keeps row r
  | not f => !keeps row f

end Filter
end RestSql
