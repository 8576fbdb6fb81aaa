import RestSql.Number.Word
import RestSql.Text.Cut
import RestSql.Text.Digits
import RestSql.Toml.Basic

/-!
Reading TOML. A document is a list of lines: assignments, and headers that start a block of assignments.
Arrays may span lines, tables between braces may not.
-/

namespace RestSql.Toml

/-- A space or a tabulator. -/
def isGap (c : Char) : Bool :=
  c = ' ' || c = '\t'

/-- A character of comments and strings: the tabulator, or no ASCII control character. -/
def isPlain (c : Char) : Bool :=
  c = '\t' || (0x20 ≤ c.toNat && c.toNat != 0x7F)

/-- A character of keys without quotes. -/
def isKeyChar (c : Char) : Bool :=
  c.isAlphanum || c = '-' || c = '_'

def skipGap (cs : List Char) : List Char :=
  cs.dropWhile isGap

def skipComment : List Char → List Char
  | '#' :: cs => cs.dropWhile isPlain
  | cs => cs

/-- What follows the end of a line. -/
def lineEnd? : List Char → Option (List Char)
  | '\n' :: cs => some cs
  | '\r' :: '\n' :: cs => some cs
  | _ => none

/-- What follows a line that holds at most a comment any more; the last line needs no end. -/
def restOfLine? (cs : List Char) : Option (List Char) :=
  match skipComment (skipGap cs) with
  | [] => some []
  | cs => lineEnd? cs

/-- A line that holds at most a comment. -/
def blankLine : Reader Unit := fun cs =>
  (lineEnd? (skipComment (skipGap cs))).map fun cs => ((), cs)

def skipLines (cs : List Char) : List Char :=
  skipGap (Reader.many blankLine cs).2

/-! ## Strings and keys -/

/-- The character with a code of `n` hexadecimal digits. -/
def coded (n : Nat) : Reader Char := fun cs => do
  let ds := cs.take n
  if ds.length < n then none
  let code ← Text.naturalIn? 16 ds
  if code.isValidChar then some (Char.ofNat code, cs.drop n) else none

/-- The character that is written after a backslash. -/
def escaped : Reader Char
  | 'b' :: cs => some ('\x08', cs)
  | 't' :: cs => some ('\t', cs)
  | 'n' :: cs => some ('\n', cs)
  | 'f' :: cs => some ('\x0c', cs)
  | 'r' :: cs => some ('\r', cs)
  | '\x22' :: cs => some ('\x22', cs)
  | '\\' :: cs => some ('\\', cs)
  | 'u' :: cs => coded 4 cs
  | 'U' :: cs => coded 8 cs
  | _ => none

/-- A character between double quotes. -/
def basicChar : Reader Char
  | '\\' :: cs => escaped cs
  | cs => Reader.satisfying (fun c => isPlain c && c != '\x22') cs

/-- A text between double quotes. -/
def basicString : Reader String := fun cs => do
  let (_, cs) ← Reader.one '\x22' cs
  let (text, cs) := Reader.many basicChar cs
  let (_, cs) ← Reader.one '\x22' cs
  some (String.ofList text, cs)

/-- A text between single quotes, as it is. -/
def literalString : Reader String := fun cs => do
  let (_, cs) ← Reader.one '\x27' cs
  let (text, cs) := Reader.many (Reader.satisfying fun c => isPlain c && c != '\x27') cs
  let (_, cs) ← Reader.one '\x27' cs
  some (String.ofList text, cs)

/-- One or two quotes that do not end a text between three. -/
def innerQuotes (quote : Char) : Reader (List Char) := fun cs =>
  let run := cs.takeWhile (· == quote)
  if run.isEmpty || 3 ≤ run.length then none else some (run, cs.dropWhile (· == quote))

/-- Three quotes, before which up to two more belong to the text. -/
def endQuotes (quote : Char) : Reader (List Char) := fun cs =>
  let run := cs.takeWhile (· == quote)
  if 3 ≤ run.length && run.length ≤ 5 then some (run.drop 3, cs.dropWhile (· == quote)) else none

/-- The end of a line in a text, always a line feed. -/
def innerLineEnd : Reader (List Char) := fun cs =>
  (lineEnd? cs).map fun cs => (['\n'], cs)

/-- A backslash before the end of a line; the blanks after it do not count. -/
def joinedLines : Reader (List Char)
  | '\\' :: cs => (lineEnd? (skipGap cs)).map fun cs => ([], skipGapsAndLines cs)
  | _ => none
where
  skipGapsAndLines (cs : List Char) : List Char :=
    skipGap (Reader.many (fun cs => (lineEnd? (skipGap cs)).map fun cs => ((), cs)) cs).2

/-- A text between three quotes that starts after the first end of a line. -/
def longString (quote : Char) (part : Reader (List Char)) : Reader String := fun cs => do
  let cs ← Text.after? [quote, quote, quote] cs
  let (parts, cs) := Reader.many
    (((part.orElse innerLineEnd).orElse (innerQuotes quote))) ((lineEnd? cs).getD cs)
  let (last, cs) ← endQuotes quote cs
  some (String.ofList (parts.flatten ++ last), cs)

/-- A text in any kind of quotes. -/
def quotedString : Reader String := fun cs =>
  if (Text.after? ['\x22', '\x22', '\x22'] cs).isSome then
    longString '\x22' (joinedLines.orElse (basicChar.map fun c => [c])) cs
  else if (Text.after? ['\x27', '\x27', '\x27'] cs).isSome then
    longString '\x27' ((Reader.satisfying fun c => isPlain c && c != '\x27').map fun c => [c]) cs
  else (basicString.orElse literalString) cs

/-- A key without quotes. -/
def bareKey : Reader String := fun cs =>
  match cs.takeWhile isKeyChar with
  | [] => none
  | key => some (String.ofList key, cs.dropWhile isKeyChar)

/-- A key between dots. -/
def simpleKey : Reader String := fun cs => do
  let (key, cs) ← (basicString.orElse (literalString.orElse bareKey)) (skipGap cs)
  some (key, skipGap cs)

/-- How many levels values may be nested, and how many keys may stand before the last. -/
def maxDepth : Nat := 79

/-- Keys with dots between them: the ones before the last, and the last. -/
def keys : Reader (List String × String) := fun cs => do
  let (keys, cs) ← Reader.sepBy (Reader.one '.') simpleKey cs
  if maxDepth < keys.length then none
  some ((keys.dropLast, keys.getLastD ""), cs)

/-! ## Numbers and moments -/

/-- Digits with single underscores between them. -/
def digits (p : Char → Bool) : Reader (List Char) := fun cs => do
  let digit := Reader.satisfying p
  let (d, cs) ← digit cs
  let (ds, cs) := Reader.many (digit.orElse ((Reader.one '_').after digit)) cs
  some (d :: ds, cs)

/-- A minus or a plus sign: it is a minus sign. -/
def sign (cs : List Char) : Bool × List Char :=
  match cs with
  | '-' :: cs => (true, cs)
  | '+' :: cs => (false, cs)
  | cs => (false, cs)

/-- Decimal digits without needless zeros before them. -/
def wholeDigits : Reader (List Char)
  | '0' :: cs => some (['0'], cs)
  | cs => digits Char.isDigit cs

/-- A decimal integer of 64 bits. -/
def decimalInteger : Reader Toml := fun cs => do
  let (negative, cs) := sign cs
  let (ds, cs) ← wholeDigits cs
  let n : Int := if negative then -(Text.naturalOf ds : Int) else Text.naturalOf ds
  if Word.isSigned n then some (integer n, cs) else none

/-- An integer after a mark for its base. -/
def basedInteger (mark : Char) (base : Nat) : Reader Toml := fun cs => do
  let cs ← Text.after? ['0', mark] cs
  let (ds, cs) ← digits (fun c => (Text.naturalIn? base [c]).isSome) cs
  let n ← Text.naturalIn? base ds
  if Word.isSigned n then some (integer n, cs) else none

/-- The digits after a point. -/
def fraction : Reader (List Char) :=
  (Reader.one '.').after (digits Char.isDigit)

/-- The exponent of a number. -/
def exponent : Reader Int := fun cs => do
  let (_, cs) ← Reader.satisfying (fun c => c = 'e' || c = 'E') cs
  let (negative, cs) := sign cs
  let (ds, cs) ← digits Char.isDigit cs
  some (if negative then -(Text.naturalOf ds : Int) else Text.naturalOf ds, cs)

/-- A number with a fraction or an exponent. -/
def decimalFloat : Reader Toml := fun cs => do
  let (negative, cs) := sign cs
  let (whole, cs) ← wholeDigits cs
  let (places, cs) := Reader.optional fraction cs
  let (exp, cs) := Reader.optional exponent cs
  if places.isNone && exp.isNone then none
  let places := places.getD []
  let x := Binary64.ofDecimal negative (Text.naturalOf (whole ++ places)) (exp.getD 0 - places.length)
  if x = .infinity then none else some (float x, cs)

/-- The word for infinity, or for the value that is no number. -/
def specialFloat : Reader Toml := fun cs =>
  let (negative, cs) := sign cs
  match cs with
  | 'i' :: 'n' :: 'f' :: cs => some (float ⟨negative, Binary64.infinityPattern⟩, cs)
  | 'n' :: 'a' :: 'n' :: cs => some (float { Binary64.nan with negative }, cs)
  | _ => none

/-- A number of `n` digits within bounds. -/
def fixedDigits (n low high : Nat) : Reader Nat := fun cs =>
  let ds := cs.take n
  let k := Text.naturalOf ds
  if ds.length = n ∧ ds.all Char.isDigit ∧ low ≤ k ∧ k ≤ high then some (k, cs.drop n) else none

/-- The number of days of a month. -/
def daysIn (year month : Nat) : Nat :=
  if month = 2 then if year % 4 = 0 ∧ (year % 100 ≠ 0 ∨ year % 400 = 0) then 29 else 28
  else if month = 4 ∨ month = 6 ∨ month = 9 ∨ month = 11 then 30
  else 31

def date : Reader Unit := fun cs => do
  let (year, cs) ← (fixedDigits 4 0 9999).before (Reader.one '-') cs
  let (month, cs) ← (fixedDigits 2 1 12).before (Reader.one '-') cs
  let (_, cs) ← fixedDigits 2 1 (daysIn year month) cs
  some ((), cs)

def time : Reader Unit := fun cs => do
  let (_, cs) ← (fixedDigits 2 0 23).before (Reader.one ':') cs
  let (_, cs) ← (fixedDigits 2 0 59).before (Reader.one ':') cs
  let (_, cs) ← fixedDigits 2 0 60 cs
  some ((), (Reader.optional ((Reader.one '.').after Reader.digits) cs).2)

/-- The distance of a local time from the universal one. -/
def offset : Reader Unit := fun cs =>
  match cs with
  | 'Z' :: cs => some ((), cs)
  | 'z' :: cs => some ((), cs)
  | cs => do
    let (_, cs) ← Reader.satisfying (fun c => c = '+' || c = '-') cs
    let (_, cs) ← (fixedDigits 2 0 23).before (Reader.one ':') cs
    let (_, cs) ← fixedDigits 2 0 59 cs
    some ((), cs)

/-- A time after a date. -/
def timeOfDay : Reader Unit := fun cs => do
  let (_, cs) ← Reader.satisfying (fun c => c = 'T' || c = 't' || c = ' ') cs
  let (_, cs) ← time cs
  some ((), (Reader.optional offset cs).2)

/-- A date, a time or both. -/
def dateOrTime : Reader Toml := fun cs =>
  match date cs with
  | some (_, cs) => some (moment, (Reader.optional timeOfDay cs).2)
  | none => (time cs).map fun (_, cs) => (moment, cs)

/-! ## Values and documents -/

def truthValue : Reader Toml
  | 't' :: 'r' :: 'u' :: 'e' :: cs => some (flag true, cs)
  | 'f' :: 'a' :: 'l' :: 's' :: 'e' :: cs => some (flag false, cs)
  | _ => none

/-- A value that holds no other values. -/
def scalar : Reader Toml :=
  (quotedString.map string).orElse <| truthValue.orElse <| dateOrTime.orElse <|
    decimalFloat.orElse <| specialFloat.orElse <| (basedInteger 'x' 16).orElse <|
    (basedInteger 'o' 8).orElse <| (basedInteger 'b' 2).orElse decimalInteger

/-- The items of an array, up to its closing bracket. -/
def items (inner : Reader Toml) : Reader Toml := fun cs => do
  let item : Reader Toml := fun cs => (inner (skipLines cs)).map fun (v, cs) => (v, skipLines cs)
  let (values, cs) := match Reader.sepBy (Reader.one ',') item cs with
    | some (values, cs) => (values, (Reader.optional (Reader.one ',') cs).2)
    | none => ([], cs)
  let (_, cs) ← Reader.one ']' (skipLines cs)
  some (array values, cs)

/-- A key with its value. -/
def assignment (inner : Reader Toml) : Reader Assignment := fun cs => do
  let ((path, key), cs) ← keys.before (Reader.one '=') cs
  let (value, cs) ← inner (skipGap cs)
  some ({ path, key, value }, skipGap cs)

/-- The assignments of a table, up to its closing brace. -/
def members (inner : Reader Toml) : Reader Toml := fun cs => do
  let (body, cs) := (Reader.sepBy (Reader.one ',') (assignment inner) cs).getD ([], cs)
  let (_, cs) ← Reader.one '\x7d' (skipGap cs)
  (ofBraces body).map fun t => (t, cs)

/-- A value in which values are nested at most `depth` levels deep. -/
def valueWithin : Nat → Reader Toml
  | 0 => scalar
  | depth + 1 => fun cs =>
    match cs with
    | '[' :: cs => items (valueWithin depth) cs
    | '\x7b' :: cs => members (valueWithin depth) cs
    | cs => scalar cs

/-- Assignments, each on a line of its own. -/
def body (cs : List Char) : List Assignment × List Char :=
  Reader.many (fun cs => do
    let (a, cs) ← assignment (valueWithin maxDepth) (skipLines cs)
    (restOfLine? cs).map fun cs => (a, cs)) cs

/-- A header with the assignments under it. -/
def block : Reader Block := fun cs => do
  let cs ← Text.after? ['['] (skipLines cs)
  let (second, cs) := Reader.optional (Reader.one '[') cs
  let double := second.isSome
  let ((path, key), cs) ← keys cs
  let cs ← Text.after? (if double then [']', ']'] else [']']) cs
  let (lines, cs) := body (← restOfLine? cs)
  some ({ path, key, double, body := lines }, cs)

/-- The entries of a document. -/
def ofText? (text : String) : Option Entries :=
  let cs := text.toList
  let (lines, cs) := body ((Text.after? ['\uFEFF'] cs).getD cs)
  let (blocks, cs) := Reader.many block cs
  if (skipComment (skipLines cs)).isEmpty then ofBlocks lines blocks else none

end RestSql.Toml
