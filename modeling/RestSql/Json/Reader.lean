import RestSql.Json.Basic
import RestSql.Json.Tree
import RestSql.Number.Word

/-!
The values of JSON texts. A tree has a value if it is nested at most 127 levels deep, its numbers are
in range and the surrogates in its strings come in pairs; of equal keys the last one wins.
-/

namespace RestSql.Json

/-- The text of a quoted string; none if a surrogate has no partner. -/
def Piece.text? : List Piece → Option (List Char)
  | [] => some []
  | .char c :: ps => (text? ps).map (c :: ·)
  | .code n :: ps =>
    if 0xDC00 ≤ n ∧ n < 0xE000 then none
    else if 0xD800 ≤ n ∧ n < 0xDC00 then
      match ps with
      | .code m :: ps =>
        if 0xDC00 ≤ m ∧ m < 0xE000 then
          (text? ps).map (Char.ofNat (0x10000 + (n - 0xD800) * 0x400 + (m - 0xDC00)) :: ·)
        else none
      | _ => none
    else (text? ps).map (Char.ofNat n :: ·)

def Piece.string? (ps : List Piece) : Option String :=
  (text? ps).map String.ofList

def digitValue (c : Char) : Nat :=
  c.toNat - '0'.toNat

/-- Appends digits to a number as long as it stays within 64 bits: the number, and how many digits
were appended. -/
def appendDigits (n : Nat) : List Char → Nat × Nat
  | [] => (n, 0)
  | d :: ds =>
    let next := n * 10 + digitValue d
    if Word.isUnsigned next then
      let (m, k) := appendDigits next ds
      (m, k + 1)
    else (n, 0)

def powerOfTen (k : Nat) : Binary64 :=
  .ofRatio false (Nat.pow 10 k) 1

/-- `x / 10 ^ k`, the divisor taken in steps of at most `10 ^ 308`. -/
def divideByPower : Nat → Binary64 → Nat → Binary64
  | 0, x, _ => x
  | fuel + 1, x, k =>
    if k ≤ 308 then x.div (powerOfTen k)
    else if x.magnitude = 0 then x
    else divideByPower fuel (x.div (powerOfTen 308)) (k - 308)

/-- `significand · 10 ^ exp`, the significand rounded first; none if it is out of range. -/
def scaled? (negative : Bool) (significand : Nat) (exp : Int) : Option Binary64 :=
  let x := Binary64.ofRatio negative significand 1
  if 0 ≤ exp then
    if exp ≤ 308 then
      let y := x.mul (powerOfTen exp.toNat)
      if y.isFinite then some y else none
    else if significand = 0 then some x
    else none
  else some (divideByPower 4 x (-exp).toNat)

/-- The largest exponent that is read as a number. -/
def maxExponent : Nat := 0x7FFFFFFF

/-- The value of a number: an integer if it is written as one and fits into 64 bits, a binary number
otherwise. Digits beyond 64 bits only count as places. -/
def Numeral.value? (n : Numeral) : Option JsonNumber :=
  let (m, taken) := appendDigits 0 n.whole
  let beyond : Int := (n.whole.length - taken : Nat)
  if n.fraction.isEmpty && n.exponent.isNone && beyond == 0 then
    if !n.negative then some (.integer m)
    else if 0 < m && Word.isSigned (-(m : Int)) then some (.integer (-(m : Int)))
    else some (.float (.ofRatio true m 1))
  else
    let (m, places) := appendDigits m n.fraction
    let exp := beyond - (places : Int)
    match n.exponent with
    | none => (scaled? n.negative m exp).map .float
    | some (down, ds) =>
      let e := Text.naturalOf ds
      if maxExponent < e then
        if m ≠ 0 && !down then none else some (.float ⟨n.negative, 0⟩)
      else (scaled? n.negative m (if down then exp - e else exp + e)).map .float

/-- How many arrays and objects may enclose each other. -/
def maxDepth : Nat := 127

mutual

/-- The value of a tree, below which `depth` further levels may be nested. -/
def Tree.value? (depth : Nat) : Tree → Option Json
  | .null => some .null
  | .bool b => some (.bool b)
  | .number n => n.value?.map .number
  | .string s => (Piece.string? s).map .string
  | .array items =>
    if depth = 0 then none else (Tree.values? (depth - 1) items).map .array
  | .object members =>
    if depth = 0 then none else (Tree.entries? (depth - 1) members).map Json.ofFields

def Tree.values? (depth : Nat) : List Tree → Option (List Json)
  | [] => some []
  | t :: ts => do
    let v ← Tree.value? depth t
    let vs ← Tree.values? depth ts
    some (v :: vs)

def Tree.entries? (depth : Nat) : List (List Piece × Tree) → Option (List (String × Json))
  | [] => some []
  | (k, t) :: ms => do
    let k ← Piece.string? k
    let v ← Tree.value? depth t
    let es ← Tree.entries? depth ms
    some ((k, v) :: es)

end

/-- The value of a JSON text. -/
def ofText? (text : String) : Option Json :=
  (Tree.ofText? text).bind (Tree.value? maxDepth)

end RestSql.Json
