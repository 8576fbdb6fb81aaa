import RestSql.Number.Binary64
import RestSql.Text.Cut
import RestSql.Text.Digits

/-!
Binary numbers from decimal texts: a sign, digits with a point somewhere, and an exponent. Also read
are the words for infinity and for the value that is no number.
-/

namespace RestSql.Binary64

/-- The exponent after the digits, zero if there is none. -/
def exponentOf? : List Char → Option Int
  | [] => some 0
  | c :: cs =>
    if c = 'e' || c = 'E' then
      let (negative, ds) := match cs with
        | '-' :: r => (true, r)
        | '+' :: r => (false, r)
        | r => (false, r)
      if ds.isEmpty || !ds.all Char.isDigit then none
      else some (if negative then -(Text.naturalOf ds : Int) else Text.naturalOf ds)
    else none

/-- The number that unsigned digits with an exponent denote. -/
def ofUnsigned? (negative : Bool) (cs : List Char) : Option Binary64 :=
  let whole := cs.takeWhile Char.isDigit
  let rest := cs.dropWhile Char.isDigit
  let (fraction, rest) := match rest with
    | '.' :: r => (r.takeWhile Char.isDigit, r.dropWhile Char.isDigit)
    | r => ([], r)
  if whole.isEmpty && fraction.isEmpty then none
  else (exponentOf? rest).map fun e =>
    ofDecimal negative (Text.naturalOf (whole ++ fraction)) (e - fraction.length)

/-- The number that a text denotes. -/
def ofText? (text : String) : Option Binary64 :=
  let (negative, cs) := match text.toList with
    | '-' :: r => (true, r)
    | '+' :: r => (false, r)
    | r => (false, r)
  let word := Text.lower (String.ofList cs)
  if word = "inf" || word = "infinity" then some ⟨negative, infinityPattern⟩
  else if word = "nan" then some { nan with negative }
  else ofUnsigned? negative cs

end RestSql.Binary64
