import RestSql.Json.Basic
import RestSql.Number.Decimal

/-!
Expressions of the dialect: literals, columns, comparisons, connectives and function calls, with their
display text.
-/

namespace RestSql.Sql

/-- A literal value. -/
inductive Literal
  | string (s : String)
  | integer (n : Int)
  | float (x : Binary64)
  | bool (b : Bool)
  | null
  deriving DecidableEq, Repr

namespace Literal

/-- Numbers with a fraction are written without an exponent, whole ones without a point. -/
def floatLayout : DecimalLayout :=
  { tie := .up, positional := none, wholeEnd := "", infinite := "inf", notANumber := "NaN" }

/-- The JSON value that the literal stands for; null for a number that is not finite. -/
def toJson : Literal → Json
  | string s => .string s
  | integer n => .ofInt n
  | float x => .ofBinary x
  | bool b => .bool b
  | null => .null

/-- The bare text of the value, as it is sent in URLs. -/
def raw : Literal → String
  | string s => s
  | integer n => Text.ofInt n
  | float x => floatLayout.write x
  | bool b => if b then "true" else "false"
  | null => "null"

/-- The text between single quotes, the quotes in it written twice. -/
def quote (s : String) : String :=
  "'" ++ String.ofList (s.toList.flatMap fun c => if c = '\x27' then ['\x27', '\x27'] else [c]) ++ "'"

/-- The display text: strings in quotes, all else bare. -/
def text : Literal → String
  | string s => quote s
  | l => l.raw

end Literal

/-- The comparison operators. -/
inductive CompareOp
  | eq
  | notEq
  | lt
  | ltEq
  | gt
  | gtEq
  | like
  | notLike
  deriving DecidableEq, Repr

namespace CompareOp

/-- The operator as it is written. -/
def text : CompareOp → String
  | eq => "="
  | notEq => "!="
  | lt => "<"
  | ltEq => "<="
  | gt => ">"
  | gtEq => ">="
  | like => "like"
  | notLike => "not like"

/-- The operator that holds of `(b, a)` when this one holds of `(a, b)`. LIKE has no such operator and
stays as it is. -/
def flip : CompareOp → CompareOp
  | lt => gt
  | ltEq => gtEq
  | gt => lt
  | gtEq => ltEq
  | op => op

end CompareOp

/-- An expression. -/
inductive Expr
  | column (qualifier : Option String) (name : String)
  | literal (value : Literal)
  | comparison (left : Expr) (op : CompareOp) (right : Expr)
  | and (left right : Expr)
  | or (left right : Expr)
  | not (operand : Expr)
  | isNull (operand : Expr) (negated : Bool)
  | call (function : String) (arguments : List Expr)
  deriving Repr, Inhabited

namespace Expr

mutual

/-- The names of the columns, in the order in which they are written. -/
def columnNames : Expr → List String
  | column _ name => [name]
  | literal _ => []
  | comparison l _ r => columnNames l ++ columnNames r
  | and l r => columnNames l ++ columnNames r
  | or l r => columnNames l ++ columnNames r
  | not e => columnNames e
  | isNull e _ => columnNames e
  | call _ args => columnNamesAll args

def columnNamesAll : List Expr → List String
  | [] => []
  | e :: es => columnNames e ++ columnNamesAll es

end

mutual

/-- The display text. Only OR is written in parentheses. -/
def text : Expr → String
  | column (some q) name => q ++ "." ++ name
  | column none name => name
  | literal l => l.text
  | comparison l op r => text l ++ " " ++ op.text ++ " " ++ text r
  | and l r => text l ++ " and " ++ text r
  | or l r => "(" ++ text l ++ " or " ++ text r ++ ")"
  | not e => "not " ++ text e
  | isNull e negated => text e ++ if negated then " is not null" else " is null"
  | call f args => f ++ "(" ++ String.intercalate ", " (textAll args) ++ ")"

def textAll : List Expr → List String
  | [] => []
  | e :: es => text e :: textAll es

end

end Expr
end RestSql.Sql
