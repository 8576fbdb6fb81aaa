import RestSql.Sql.Comment
import RestSql.Sql.Expr

/-!
The statements of the dialect, with the directives of their comments.
-/

namespace RestSql.Sql

/-- A table or method name of up to four parts, from left to right. -/
structure Name where
  parts : List String
  deriving DecidableEq, Repr, Inhabited

namespace Name

/-- The part at a distance from the right end; empty if the name is too short. -/
def fromRight (n : Name) (distance : Nat) : String :=
  (n.parts.reverse[distance]?).getD ""

/-- The last part. -/
def last (n : Name) : String :=
  n.fromRight 0

/-- The part before the last one. -/
def second (n : Name) : String :=
  n.fromRight 1

/-- The third part from the right. -/
def third (n : Name) : String :=
  n.fromRight 2

/-- The fourth part from the right. -/
def fourth (n : Name) : String :=
  n.fromRight 3

/-- The parts with dots between them; a part that holds a dot is written in back quotes. -/
def text (n : Name) : String :=
  String.intercalate "." <| n.parts.map fun p =>
    if p.toList.contains '.' then "\x60" ++ p ++ "\x60" else p

end Name

/-- An item of a select list. -/
inductive SelectItem
  | star
  | expr (e : Expr) (label : Option String)
  deriving Repr

/-- The kinds of joins. -/
inductive JoinKind
  | inner
  | left
  | right
  | cross
  deriving DecidableEq, Repr

/-- What a FROM clause names. -/
inductive Source
  | table (name : Name) (label : Option String)
  | join (left right : Source) (kind : JoinKind) (on : Option Expr)
  deriving Repr

/-- The names of the tables, from left to right. -/
def Source.names : Source → List Name
  | table name _ => [name]
  | join l r _ _ => l.names ++ r.names

/-- A column to order by. -/
structure OrderBy where
  column : String
  descending : Bool
  deriving DecidableEq, Repr

structure Select where
  directives : Directives
  items : List SelectItem
  source : Option Source
  condition : Option Expr
  orderBy : List OrderBy
  limit : Option Nat
  deriving Repr

structure Insert where
  directives : Directives
  table : Name
  columns : List String
  rows : List (List Expr)
  deriving Repr

structure Delete where
  directives : Directives
  table : Name
  condition : Option Expr
  deriving Repr

/-- The request body of an EXEC statement, `@@format = 'content'`. -/
structure Payload where
  format : String
  content : String
  deriving DecidableEq, Repr

structure Exec where
  directives : Directives
  method : Name
  bindings : List (String × Expr)
  payload : Option Payload
  deriving Repr

/-- The filter of a SHOW statement. -/
inductive ShowFilter
  | like (pattern : String)
  | condition (e : Expr)
  deriving Repr

structure Show where
  directives : Directives
  /-- What is shown, in upper case. -/
  kind : String
  extended : Bool
  target : Option Name
  columns : List String
  filter : Option ShowFilter
  deriving Repr

structure Describe where
  extended : Bool
  full : Bool
  table : Name
  deriving Repr

structure Auth where
  provider : String
  kind : Option String
  keyFile : Option String
  deriving DecidableEq, Repr

/-- A statement. -/
inductive Statement
  | select (s : Select)
  | insert (s : Insert)
  | delete (s : Delete)
  | exec (s : Exec)
  | show (s : Show)
  | describe (s : Describe)
  | auth (s : Auth)
  | revoke (provider : String)
  | use (provider : String)
  | sleep (duration : Expr)
  /-- A statement that is recognised but not executed. -/
  | unsupported (kind : String)
  deriving Repr

namespace Statement

/-- The name of the kind, in upper case. -/
def kind : Statement → String
  | select _ => "SELECT"
  | insert _ => "INSERT"
  | delete _ => "DELETE"
  | exec _ => "EXEC"
  | «show» _ => "SHOW"
  | describe _ => "DESCRIBE"
  | auth _ => "AUTH"
  | revoke _ => "AUTH REVOKE"
  | use _ => "USE"
  | sleep _ => "SLEEP"
  | unsupported kind => kind

/-- The directives, if the kind of statement carries any. -/
def directives? : Statement → Option Directives
  | select s => some s.directives
  | insert s => some s.directives
  | delete s => some s.directives
  | exec s => some s.directives
  | «show» s => some s.directives
  | _ => none

/-- The statement with the given directives, if its kind carries any. -/
def withDirectives (d : Directives) : Statement → Statement
  | select s => select { s with directives := d }
  | insert s => insert { s with directives := d }
  | delete s => delete { s with directives := d }
  | exec s => exec { s with directives := d }
  | «show» s => «show» { s with directives := d }
  | s => s

/-- The provider part of a table name, if it has one. -/
def tableProvider (n : Name) : List String :=
  if 3 ≤ n.parts.length then [n.third] else []

/-- The provider names in the order in which they are written, each once, empty ones left out. -/
def providerNames (s : Statement) : List String :=
  let names := match s with
    | select s => (s.source.map Source.names).getD [] |>.flatMap tableProvider
    | insert s => tableProvider s.table
    | delete s => tableProvider s.table
    | exec s => if 4 ≤ s.method.parts.length then [s.method.fourth] else []
    | describe s => tableProvider s.table
    | auth s => [s.provider]
    | revoke provider => [provider]
    | use provider => [provider]
    | _ => []
  (names.filter (· ≠ "")).foldl (fun out n => if out.contains n then out else out ++ [n]) []

end Statement
end RestSql.Sql
