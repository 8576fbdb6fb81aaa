import RestSql.Number.Binary64
import RestSql.Number.Word
import RestSql.Sql.Comment
import RestSql.Sql.Expr
import RestSql.Text.Cut
import RestSql.Text.Letter
import RestSql.Text.Digits

/-!
The words of the dialect: keywords, names, string literals and numbers.
-/

namespace RestSql.Sql

/-- A character that continues a name. -/
def isNameChar (c : Char) : Bool :=
  Text.isLetterOrDigit c || c = '_' || c = '$'

/-- A character that a bare name starts with. -/
def isNameStart (c : Char) : Bool :=
  Text.isLetter c || c = '_'

/-- The words that cannot stand bare for a column. -/
def reservedWords : List String :=
  ["SELECT", "FROM", "WHERE", "AND", "OR", "NOT", "LIKE", "IS", "NULL", "TRUE", "FALSE", "ORDER",
   "BY", "LIMIT", "JOIN", "INNER", "LEFT", "RIGHT", "CROSS", "ON", "AS", "INTO", "VALUES", "ASC",
   "DESC", "GROUP", "HAVING", "UNION", "IN"]

def isReserved (word : String) : Bool :=
  reservedWords.contains (Text.upper word)

/-- No character at the front that continues a name. -/
def atWordEnd : List Char → Bool
  | c :: _ => !isNameChar c
  | [] => true

/-- What follows `word`, the case of which does not matter. -/
def afterWord? : List Char → List Char → Option (List Char)
  | [], cs => some cs
  | _ :: _, [] => none
  | w :: ws, c :: cs => if w = c.toUpper then afterWord? ws cs else none

/-- The keyword `word`, given in upper case, after spaces: its letters in any case, and no character
after them that would continue a name. -/
def keyword (word : String) : Reader Unit := fun cs =>
  match afterWord? word.toList (skipSpace cs) with
  | some rest => if atWordEnd rest then some ((), rest) else none
  | none => none

def comma : Reader Unit := fun cs =>
  ((Reader.symbol ',').map fun _ => ()) cs

/-- A name without quotes. -/
def bareName : Reader String
  | c :: cs =>
    if isNameStart c then
      some (String.ofList (c :: cs.takeWhile isNameChar), cs.dropWhile isNameChar)
    else none
  | [] => none

/-- A name between back quotes, not empty. -/
def quotedName : Reader String
  | c :: cs =>
    if c = '\x60' then
      match Text.cutFirst (· == '\x60') cs with
      | some ([], _) => none
      | some (name, rest) => some (String.ofList name, rest)
      | none => none
    else none
  | [] => none

/-- A name, quoted or bare. -/
def anyName : Reader String := fun cs =>
  (quotedName.orElse bareName) (skipSpace cs)

/-- A bare name that is not reserved. -/
def unreservedName : Reader String := fun cs =>
  match bareName cs with
  | some (name, rest) => if isReserved name then none else some (name, rest)
  | none => none

/-- A name that can stand for a column: quoted, or bare and not reserved. -/
def columnName : Reader String := fun cs =>
  (quotedName.orElse unreservedName) (skipSpace cs)

/-- The text up to the closing quote `q`; a doubled quote stands for one. -/
def quotedRest (q : Char) : Reader (List Char)
  | [] => none
  | c :: cs =>
    if c = q then
      match cs with
      | d :: rest =>
        if d = q then (quotedRest q rest).map fun (s, r) => (q :: s, r) else some ([], d :: rest)
      | [] => some ([], [])
    else (quotedRest q cs).map fun (s, r) => (c :: s, r)

/-- A text in single or double quotes. -/
def stringLiteral : Reader String
  | c :: cs =>
    if c = '\x27' || c = '\x22' then
      (quotedRest c cs).map fun (s, r) => (String.ofList s, r)
    else none
  | [] => none

/-- The literal with the given sign, digits and digits after the point, if there is a point; none for
an integer beyond 64 bits. -/
def numberOf? (negative : Bool) (whole : List Char) (fraction : Option (List Char)) :
    Option Literal :=
  match fraction with
  | some ds => some (.float (.ofDecimal negative (Text.naturalOf (whole ++ ds)) (-(ds.length : Int))))
  | none =>
    let n : Int := if negative then -(Text.naturalOf whole : Int) else Text.naturalOf whole
    if Word.isSigned n then some (.integer n) else none

/-- A number: digits, maybe with a sign before and a fraction after them. -/
def number : Reader Literal := fun cs => do
  let (sign, cs) := Reader.optional (Reader.one '-') cs
  let (whole, cs) ← Reader.digits cs
  let (fraction, cs) := Reader.optional (Reader.after (Reader.one '.') Reader.digits) cs
  if atWordEnd cs then
    let l ← numberOf? sign.isSome whole fraction
    some (l, cs)
  else none

/-- A literal. -/
def literal : Reader Literal :=
  (stringLiteral.map .string).orElse <| number.orElse <|
    ((keyword "TRUE").map fun _ => .bool true).orElse <|
      ((keyword "FALSE").map fun _ => .bool false).orElse <|
        (keyword "NULL").map fun _ => .null

end RestSql.Sql
