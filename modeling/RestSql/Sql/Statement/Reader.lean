import RestSql.Number.Word
import RestSql.Sql.Expr.Reader
import RestSql.Sql.Statement
import RestSql.Text.Blank
import RestSql.Text.Utf8

/-!
Reading statements. `Statement.ofText` removes the comments, trims the text, drops one semicolon at
its end and reads one statement that takes all of what is left; its errors carry byte offsets into
that text.
-/

namespace RestSql.Sql

/-- Why a text is no statement. -/
inductive ParseError
  /-- A comment that starts at a byte offset of the whole text has no end. -/
  | openComment (position : Nat)
  | empty
  /-- What follows the statement from a byte offset on. -/
  | trailing (position : Nat) (rest : String)
  /-- The text that is no statement, from a byte offset on. -/
  | noStatement (position : Nat) (rest : String)
  deriving DecidableEq, Repr

namespace ParseError

/-- How many characters of a text a message shows. -/
def previewLength : Nat := 24

def position : ParseError → Nat
  | openComment p => p
  | empty => 0
  | trailing p _ => p
  | noStatement p _ => p

def cause : ParseError → String
  | openComment _ => "Unterminated comment"
  | empty => "empty statement"
  | trailing _ rest => "Unexpected trailing content: '" ++ rest ++ "'"
  | noStatement _ rest =>
    "Parse failed near '" ++ String.ofList (rest.toList.take previewLength) ++ "'"

end ParseError

/-- How many parts a name may have. -/
def Name.maxParts : Nat := 4

/-- A table or method name. -/
def Name.read : Reader Name := fun cs =>
  match Reader.sepBy (Reader.symbol '.') anyName cs with
  | some (parts, rest) => if parts.length ≤ Name.maxParts then some (⟨parts⟩, rest) else none
  | none => none

/-- The name that another one is given. -/
def labelName : Reader String := fun cs =>
  columnName (Reader.optional (keyword "AS") cs).2

/-- Names between commas in parentheses. -/
def nameList : Reader (List String) :=
  (Reader.symbol '(').after ((Reader.sepBy comma anyName).before (Reader.symbol ')'))

/-- What follows the keyword `word`, if it is there. -/
def clause {α : Type} (word : String) (p : Reader α) (cs : List Char) : Option α × List Char :=
  Reader.optional ((keyword word).after p) cs

/-- A string literal after spaces. -/
def spacedString : Reader String := fun cs =>
  stringLiteral (skipSpace cs)

/-- The first of the keywords that is there. -/
def oneOf {α : Type} : List (String × α) → Reader α
  | [] => fun _ => none
  | (word, a) :: more => ((keyword word).map fun _ => a).orElse (oneOf more)

namespace Source

/-- A table with its label. -/
def readTable : Reader Source := fun cs => do
  let (name, cs) ← Name.read cs
  let (label, cs) := Reader.optional labelName cs
  some (table name label, cs)

/-- A join that a table is added with. -/
structure Joined where
  kind : JoinKind
  right : Source
  on : Option Expr

/-- `JOIN` with its kind, table and condition. -/
def readJoin : Reader Joined := fun cs => do
  let (kind, cs) := Reader.optional
    (oneOf [("INNER", JoinKind.inner), ("LEFT", .left), ("RIGHT", .right), ("CROSS", .cross)]) cs
  let (_, cs) ← keyword "JOIN" cs
  let (right, cs) ← readTable cs
  let (on, cs) := clause "ON" Expr.read cs
  some (⟨kind.getD .inner, right, on⟩, cs)

/-- A table after a comma, which joins it without a condition. -/
def readComma : Reader Joined :=
  Reader.map (fun t => ⟨.cross, t, none⟩) (comma.after readTable)

/-- A table and its joins, from left to right. -/
def read : Reader Source := fun cs => do
  let (first, cs) ← readTable cs
  let (joins, cs) := Reader.many (readJoin.orElse readComma) cs
  some (joins.foldl (fun left j => join left j.right j.kind j.on) first, cs)

end Source

namespace SelectItem

def read : Reader SelectItem :=
  ((Reader.symbol '*').map fun _ => star).orElse fun cs => do
    let (e, cs) ← Expr.read cs
    let (label, cs) := Reader.optional labelName cs
    some (expr e label, cs)

end SelectItem

def OrderBy.read : Reader OrderBy := fun cs => do
  let (column, cs) ← columnName cs
  let (descending, cs) := Reader.optional (oneOf [("ASC", false), ("DESC", true)]) cs
  some (⟨column, descending.getD false⟩, cs)

/-- The number that a LIMIT clause gives; none beyond 64 bits. -/
def limitOf (ds : List Char) : Option Nat :=
  let n := Text.naturalOf ds
  if Word.isUnsigned n then some n else none

def Select.read : Reader Select := fun cs => do
  let (_, cs) ← keyword "SELECT" cs
  let (items, cs) ← Reader.sepBy comma SelectItem.read cs
  let (source, cs) := clause "FROM" Source.read cs
  let (condition, cs) := clause "WHERE" Expr.read cs
  let (orderBy, cs) := clause "ORDER" ((keyword "BY").after (Reader.sepBy comma OrderBy.read)) cs
  let (limit, cs) := clause "LIMIT" (fun cs => Reader.digits (skipSpace cs)) cs
  some ({ directives := .empty, items, source, condition, orderBy := orderBy.getD []
          limit := limit.bind limitOf }, cs)

/-- The rows of an INSERT: lists of values in parentheses, or the one row of a SELECT. -/
def Insert.readRows : Reader (List (List Expr)) :=
  ((keyword "VALUES").after (Reader.sepBy comma
    ((Reader.symbol '(').after ((Reader.sepBy comma Expr.read).before (Reader.symbol ')'))))).orElse
  (Reader.map (fun row => [row]) ((keyword "SELECT").after (Reader.sepBy comma Expr.read)))

def Insert.read : Reader Insert := fun cs => do
  let (_, cs) ← keyword "INSERT" cs
  let (_, cs) ← keyword "INTO" cs
  let (table, cs) ← Name.read cs
  let (columns, cs) := Reader.optional nameList cs
  let (rows, cs) ← Insert.readRows cs
  some ({ directives := .empty, table, columns := columns.getD [], rows }, cs)

def Delete.read : Reader Delete := fun cs => do
  let (_, cs) ← keyword "DELETE" cs
  let (_, cs) ← keyword "FROM" cs
  let (table, cs) ← Name.read cs
  let (condition, cs) := clause "WHERE" Expr.read cs
  some ({ directives := .empty, table, condition }, cs)

namespace Exec

/-- An argument of EXEC. -/
inductive Argument
  | binding (name : String) (value : Expr)
  | payload (p : Payload)

/-- A name, an equals sign, and what `p` reads. -/
def readBinding {α : Type} (p : Reader α) : Reader (String × α) := fun cs => do
  let (name, cs) ← bareName cs
  let (_, cs) ← Reader.symbol '=' cs
  let (a, cs) ← p cs
  some ((name, a), cs)

/-- `@@format = 'content'`, or `@name = value`. -/
def readArgument : Reader Argument := fun cs =>
  let payload : Reader Argument := Reader.map (fun (format, content) => .payload ⟨format, content⟩)
    ((Reader.one '@').after ((Reader.one '@').after (readBinding spacedString)))
  let binding : Reader Argument := Reader.map (fun (name, value) => .binding name value)
    ((Reader.one '@').after (readBinding Expr.readOperand))
  (payload.orElse binding) (skipSpace cs)

/-- The variable that an argument is. -/
def Argument.binding? : Argument → Option (String × Expr)
  | binding name value => some (name, value)
  | payload _ => none

/-- The payload that an argument is. -/
def Argument.payload? : Argument → Option Payload
  | binding _ _ => none
  | payload p => some p

/-- An EXEC statement; the last of several payloads counts. -/
def read : Reader Exec := fun cs => do
  let (_, cs) ← keyword "EXEC" cs
  let (method, cs) ← Name.read cs
  let (args, cs) := Reader.many (fun cs => readArgument (Reader.optional comma cs).2) cs
  some ({ directives := .empty, method, bindings := args.filterMap Argument.binding?
          payload := (args.filterMap Argument.payload?).getLast? }, cs)

end Exec

namespace Show

/-- The table and the columns of `SHOW INSERT INTO`, and the target of every other kind. -/
def readTarget (kind : String) : Reader (Option Name × List String) := fun cs =>
  if kind = "INSERT" then do
    let (_, cs) ← keyword "INTO" cs
    let (table, cs) ← Name.read cs
    let (columns, cs) := Reader.optional nameList cs
    some ((some table, columns.getD []), cs)
  else
    let (target, cs) := Reader.optional ((oneOf [("IN", ()), ("FROM", ())]).after Name.read) cs
    some ((target, []), cs)

def readFilter : Reader ShowFilter :=
  (Reader.map ShowFilter.like ((keyword "LIKE").after spacedString)).orElse
    (Reader.map ShowFilter.condition ((keyword "WHERE").after Expr.read))

def read : Reader Show := fun cs => do
  let (_, cs) ← keyword "SHOW" cs
  let (extended, cs) := Reader.optional (keyword "EXTENDED") cs
  let (kind, cs) ← bareName (skipSpace cs)
  let kind := Text.upper kind
  let ((target, columns), cs) ← readTarget kind cs
  let (filter, cs) := Reader.optional readFilter cs
  some ({ directives := .empty, kind, extended := extended.isSome, target, columns, filter }, cs)

end Show

def Describe.read : Reader Describe := fun cs => do
  let (_, cs) ← oneOf [("DESCRIBE", ()), ("DESC", ())] cs
  let (extended, cs) := Reader.optional (keyword "EXTENDED") cs
  let (full, cs) := Reader.optional (keyword "FULL") cs
  let (table, cs) ← Name.read cs
  some ({ extended := extended.isSome, full := full.isSome, table }, cs)

namespace Statement

/-- Words that start statements which are recognised and not executed. -/
def unsupportedLeaders : List String :=
  ["BEGIN", "COMMIT", "ROLLBACK", "CREATE", "DROP", "ALTER", "UPDATE", "EXPLAIN", "SET", "TRUNCATE",
   "RENAME", "GRANT", "REPLACE"]

/-- A SELECT statement. One with a set operation or a grouping is unsupported, whatever follows. -/
def readSelect : Reader Statement := fun cs => do
  let (s, cs) ← Select.read cs
  match oneOf [("UNION", "UNION"), ("GROUP", "SELECT with GROUP"), ("HAVING", "SELECT with HAVING")]
      cs with
  | some (kind, _) => some (unsupported kind, [])
  | none => some (select s, cs)

/-- `AUTH REVOKE` with its provider, or `AUTH` with provider, type and key file. -/
def readAuth : Reader Statement := fun cs => do
  let (_, cs) ← keyword "AUTH" cs
  match keyword "REVOKE" cs with
  | some (_, cs) => Reader.map revoke anyName cs
  | none =>
    let (provider, cs) ← anyName cs
    let (kind, cs) := Reader.optional
      (oneOf [("INTERACTIVE", "interactive"), ("SERVICEACCOUNT", "serviceaccount"),
        ("SA", "serviceaccount")]) cs
    let (keyFile, cs) := clause "KEYFILE" spacedString cs
    some (auth { provider, kind, keyFile }, cs)

/-- A statement that is not executed; it takes the rest of the text. -/
def readUnsupported : Reader Statement := fun cs => do
  let (word, _) ← bareName (skipSpace cs)
  if unsupportedLeaders.contains (Text.upper word) then some (unsupported (Text.upper word), [])
  else none

/-- A statement at the front of a text. -/
def read : Reader Statement :=
  readSelect.orElse <| (Reader.map insert Insert.read).orElse <|
    (Reader.map delete Delete.read).orElse <| (Reader.map exec Exec.read).orElse <|
      (Reader.map «show» Show.read).orElse <| (Reader.map describe Describe.read).orElse <|
        readAuth.orElse <| (Reader.map use ((keyword "USE").after anyName)).orElse <|
          (Reader.map sleep ((keyword "SLEEP").after Expr.readOperand)).orElse readUnsupported

/-- The text without one semicolon at its end. -/
def dropEnd (cs : List Char) : List Char :=
  if cs.getLast? = some ';' then cs.dropLast else cs

/-- The statement that a text without comments is. -/
def ofBareText (cs : List Char) : Except ParseError Statement :=
  if cs.isEmpty then .error .empty
  else match read cs with
    | none => .error (.noStatement 0 (String.ofList cs))
    | some (s, rest) =>
      match skipSpace rest with
      | [] => .ok s
      | rest =>
        .error (.trailing (Text.byteLength cs - Text.byteLength rest) (String.ofList rest))

/-- The statement that a text is. -/
def ofText (text : String) : Except ParseError Statement := do
  let (text, directives) ← (strip text).mapError .openComment
  let s ← ofBareText (Text.trimEnd (dropEnd (Text.trim text.toList)))
  return s.withDirectives directives

/-- The statements of a text, up to the first that is none. -/
def allOfText (text : String) : Except ParseError (List Statement) :=
  (split text).mapM ofText

end Statement
end RestSql.Sql
