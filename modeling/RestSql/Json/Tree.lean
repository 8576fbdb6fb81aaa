import RestSql.Text.Cut
import RestSql.Text.Digits

/-!
What a JSON text says before its strings and numbers are given values: a tree that keeps repeated
keys, the digits of numbers and the escapes of strings as they are written.
-/

namespace RestSql.Json

/-- A part of a quoted string: a character, or the code of a `\u` escape. -/
inductive Piece
  | char (c : Char)
  | code (n : Nat)
  deriving DecidableEq, Repr

/-- A number as it is written. -/
structure Numeral where
  negative : Bool
  whole : List Char
  fraction : List Char
  /-- The exponent: whether it is negative, and its digits. -/
  exponent : Option (Bool × List Char)
  deriving DecidableEq, Repr

/-- A JSON text as it is written. -/
inductive Tree
  | null
  | bool (b : Bool)
  | number (n : Numeral)
  | string (s : List Piece)
  | array (items : List Tree)
  | object (members : List (List Piece × Tree))
  deriving Repr, Inhabited

/-- The digits before the point: no zero leads another digit. -/
def whole? : Reader (List Char)
  | '0' :: cs => if (cs.head?.map Char.isDigit).getD false then none else some (['0'], cs)
  | cs => Reader.digits cs

def fraction? : Reader (List Char)
  | '.' :: cs => Reader.digits cs
  | cs => some ([], cs)

def exponent? : Reader (Option (Bool × List Char))
  | c :: cs =>
    if c = 'e' || c = 'E' then
      match cs with
      | '-' :: r => (Reader.digits r).map fun (ds, r) => (some (true, ds), r)
      | '+' :: r => (Reader.digits r).map fun (ds, r) => (some (false, ds), r)
      | r => (Reader.digits r).map fun (ds, r) => (some (false, ds), r)
    else some (none, c :: cs)
  | [] => some (none, [])

def numeral? : Reader Numeral := fun cs => do
  let (negative, cs) := match cs with
    | '-' :: r => (true, r)
    | r => (false, r)
  let (whole, cs) ← whole? cs
  let (fraction, cs) ← fraction? cs
  let (exponent, cs) ← exponent? cs
  some ({ negative, whole, fraction, exponent }, cs)

/-- The character that an escape letter stands for. -/
def escaped? (c : Char) : Option Char :=
  if c = '\x22' || c = '\\' || c = '/' then some c
  else if c = 'b' then some '\x08'
  else if c = 'f' then some '\x0c'
  else if c = 'n' then some '\n'
  else if c = 'r' then some '\r'
  else if c = 't' then some '\t'
  else none

/-- The rest of a quoted string, after its opening quote. -/
def quoted? : Reader (List Piece)
  | [] => none
  | c :: cs =>
    if c = '\x22' then some ([], cs)
    else if c.toNat < 0x20 then none
    else if c = '\\' then
      match cs with
      | 'u' :: a :: b :: c :: d :: r => do
        let a ← Text.hexValue? a
        let b ← Text.hexValue? b
        let c ← Text.hexValue? c
        let d ← Text.hexValue? d
        let (ps, r) ← quoted? r
        some (.code (((a * 16 + b) * 16 + c) * 16 + d) :: ps, r)
      | e :: r => do
        let e ← escaped? e
        let (ps, r) ← quoted? r
        some (.char e :: ps, r)
      | [] => none
    else (quoted? cs).map fun (ps, r) => (.char c :: ps, r)

mutual

/-- A tree at the front of the text; the first argument bounds the number of parts. -/
def Tree.read? : Nat → Reader Tree
  | 0, _ => none
  | n + 1, cs =>
    match skipSpace cs with
    | '\x22' :: r => (quoted? r).map fun (s, r) => (.string s, r)
    | '[' :: r =>
      match skipSpace r with
      | ']' :: r => some (.array [], r)
      | r => (Tree.readItems? n r).map fun (ts, r) => (.array ts, r)
    | '\x7b' :: r =>
      match skipSpace r with
      | '\x7d' :: r => some (.object [], r)
      | r => (Tree.readMembers? n r).map fun (ms, r) => (.object ms, r)
    | 'n' :: 'u' :: 'l' :: 'l' :: r => some (.null, r)
    | 't' :: 'r' :: 'u' :: 'e' :: r => some (.bool true, r)
    | 'f' :: 'a' :: 'l' :: 's' :: 'e' :: r => some (.bool false, r)
    | r => (numeral? r).map fun (n, r) => (.number n, r)

/-- The items of an array up to its closing bracket. -/
def Tree.readItems? : Nat → Reader (List Tree)
  | 0, _ => none
  | n + 1, cs => do
    let (t, r) ← Tree.read? n cs
    match skipSpace r with
    | ']' :: r => some ([t], r)
    | ',' :: r => (Tree.readItems? n r).map fun (ts, r) => (t :: ts, r)
    | _ => none

/-- The members of an object up to its closing brace. -/
def Tree.readMembers? : Nat → Reader (List (List Piece × Tree))
  | 0, _ => none
  | n + 1, cs =>
    match skipSpace cs with
    | '\x22' :: r => do
      let (k, r) ← quoted? r
      match skipSpace r with
      | ':' :: r =>
        let (t, r) ← Tree.read? n r
        match skipSpace r with
        | '\x7d' :: r => some ([(k, t)], r)
        | ',' :: r => (Tree.readMembers? n r).map fun (ms, r) => ((k, t) :: ms, r)
        | _ => none
      | _ => none
    | _ => none

end

/-- The tree of a whole text. -/
def Tree.ofText? (text : String) : Option Tree :=
  let cs := text.toList
  match Tree.read? (2 * cs.length + 2) cs with
  | some (t, r) => if skipSpace r = [] then some t else none
  | none => none

end RestSql.Json
