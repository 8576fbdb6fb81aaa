import RestSql.Sql.Token

/-!
Reading expressions. OR binds weakest, then AND, then NOT, then the comparisons; AND and OR associate
to the left. Each reader takes the reader of the expressions that parentheses and calls enclose, and
`Expr.read` ties the knot with as many levels as the text has characters.
-/

namespace RestSql.Sql

namespace Expr

/-- The arguments of a call: a star, or expressions between commas. -/
def arguments (inner : Reader Expr) : Reader (List Expr) :=
  ((Reader.symbol '*').map fun _ => [column none "*"]).orElse fun cs =>
    let (args, rest) := Reader.optional (Reader.sepBy comma inner) cs
    some (args.getD [], rest)

/-- A call of a function. -/
def callOf (inner : Reader Expr) : Reader Expr := fun cs => do
  let (name, cs) ← bareName cs
  let (_, cs) ← Reader.symbol '(' cs
  let (args, cs) ← (arguments inner).before (Reader.symbol ')') cs
  some (call name args, cs)

/-- A column, maybe with a qualifier before a dot. -/
def columnRef : Reader Expr := fun cs => do
  let (first, cs) ← columnName cs
  match Reader.optional (Reader.after (Reader.one '.') (quotedName.orElse bareName)) cs with
  | (some name, cs) => some (column (some first) name, cs)
  | (none, cs) => some (column none first, cs)

/-- An expression in parentheses, a literal, a call or a column. -/
def operand (inner : Reader Expr) : Reader Expr := fun cs =>
  (((Reader.one '(').after (inner.before (Reader.symbol ')'))).orElse <|
    (Reader.map Expr.literal Sql.literal).orElse <| (callOf inner).orElse columnRef) (skipSpace cs)

/-- `IS NULL` or `IS NOT NULL`: whether it is negated. -/
def nullTest : Reader Bool := fun cs => do
  let (_, cs) ← keyword "IS" cs
  let (negation, cs) := Reader.optional (keyword "NOT") cs
  let (_, cs) ← keyword "NULL" cs
  some (negation.isSome, cs)

/-- `LIKE` or `NOT LIKE` with its right operand. -/
def likeTest (inner : Reader Expr) : Reader (CompareOp × Expr) := fun cs => do
  let (negation, cs) := Reader.optional (keyword "NOT") cs
  let (_, cs) ← keyword "LIKE" cs
  let (right, cs) ← operand inner cs
  some ((if negation.isSome then .notLike else .like, right), cs)

/-- A comparison operator that is no word. -/
def compareOp : Reader CompareOp := fun cs =>
  match skipSpace cs with
  | '!' :: '=' :: r => some (.notEq, r)
  | '<' :: '>' :: r => some (.notEq, r)
  | '<' :: '=' :: r => some (.ltEq, r)
  | '>' :: '=' :: r => some (.gtEq, r)
  | '<' :: r => some (.lt, r)
  | '>' :: r => some (.gt, r)
  | '=' :: r => some (.eq, r)
  | _ => none

/-- A comparison operator with its right operand. -/
def compareTest (inner : Reader Expr) : Reader (CompareOp × Expr) := fun cs => do
  let (op, cs) ← compareOp cs
  let (right, cs) ← operand inner cs
  some ((op, right), cs)

/-- An operand, maybe with a test after it. -/
def test (inner : Reader Expr) : Reader Expr := fun cs => do
  let (left, cs) ← operand inner cs
  match nullTest cs with
  | some (negated, rest) => some (isNull left negated, rest)
  | none =>
    match (likeTest inner).orElse (compareTest inner) cs with
    | some ((op, right), rest) => some (comparison left op right, rest)
    | none => some (left, cs)

/-- A test with any number of NOTs before it, at most `fuel`. -/
def negation (inner : Reader Expr) : Nat → Reader Expr
  | 0 => test inner
  | fuel + 1 =>
    (Reader.map Expr.not ((keyword "NOT").after (negation inner fuel))).orElse (test inner)

/-- Operands with the keyword `word` between them, joined from the left. -/
def chain (word : String) (join : Expr → Expr → Expr) (p : Reader Expr) : Reader Expr := fun cs =>
  match p cs with
  | some (first, cs) =>
    let (more, cs) := Reader.many ((keyword word).after p) cs
    some (more.foldl join first, cs)
  | none => none

/-- An expression whose parentheses and calls nest at most `depth` levels deep. -/
def readWithin : Nat → Reader Expr
  | 0 => fun _ => none
  | depth + 1 => fun cs =>
    chain "OR" or (chain "AND" and (negation (readWithin depth) cs.length)) cs

/-- An expression at the front of a text. -/
def read : Reader Expr := fun cs =>
  readWithin (cs.length + 1) cs

/-- The operand at the front of a text, `SLEEP`'s and EXEC's argument. -/
def readOperand : Reader Expr := fun cs =>
  operand read cs

end Expr
end RestSql.Sql
