/-!
Punycode: labels of host names with characters beyond ASCII, written in ASCII. The characters beyond
ASCII are appended, in increasing order, as differences in a variable-length notation to the base 36.
-/

namespace RestSql.Punycode

/-- A digit to the base 36. -/
def digit (d : Nat) : Char :=
  if d < 26 then Char.ofNat ('a'.toNat + d) else Char.ofNat ('0'.toNat + (d - 26))

/-- The threshold of the digit at a position. -/
def threshold (k bias : Nat) : Nat :=
  if k ≤ bias then 1 else if bias + 26 ≤ k then 26 else k - bias

theorem threshold_pos (k bias : Nat) : 1 ≤ threshold k bias := by
  unfold threshold
  split
  · omega
  · split <;> omega

/-- Divides by 35 until at most 455 is left: what is left, and 36 for every division. -/
def damp (delta k : Nat) : Nat × Nat :=
  if 455 < delta then damp (delta / 35) (k + 36) else (delta, k)
termination_by delta
decreasing_by exact Nat.div_lt_self (by omega) (by omega)

/-- The bias after a difference. -/
def adapt (delta count : Nat) (first : Bool) : Nat :=
  let d := if first then delta / 700 else delta / 2
  let (d, k) := damp (d + d / count) 0
  k + 36 * d / (d + 38)

/-- The digits of a difference. -/
def digits (bias k q : Nat) : List Char :=
  let t := threshold k bias
  if q < t then [digit q]
  else digit (t + (q - t) % (36 - t)) :: digits bias (k + 36) ((q - t) / (36 - t))
termination_by q
decreasing_by
  have h := threshold_pos k bias
  exact Nat.lt_of_le_of_lt (Nat.div_le_self _ _) (by omega)

/-- What has been written, and the numbers that the next difference depends on. -/
structure State where
  out : List Char
  delta : Nat
  bias : Nat
  count : Nat

/-- A character of the label while those with code `m` are inserted. -/
def visit (basic m : Nat) (s : State) (c : Char) : State :=
  if c.toNat < m then { s with delta := s.delta + 1 }
  else if c.toNat == m then
    { out := s.out ++ digits s.bias 36 s.delta, delta := 0
      bias := adapt s.delta (s.count + 1) (s.count == basic), count := s.count + 1 }
  else s

/-- Inserts the characters with the given codes, from the code `n` on. -/
def insertCodes (label : List Char) (basic : Nat) : List Nat → Nat → State → State
  | [], _, s => s
  | m :: more, n, s =>
    let s := label.foldl (visit basic m) { s with delta := s.delta + (m - n) * (s.count + 1) }
    insertCodes label basic more (m + 1) { s with delta := s.delta + 1 }

/-- A code inserted into an increasing list, once. -/
def insertOnce (x : Nat) : List Nat → List Nat
  | [] => [x]
  | y :: ys => if x < y then x :: y :: ys else if x == y then y :: ys else y :: insertOnce x ys

/-- The Punycode of a label. -/
def encode (label : List Char) : List Char :=
  let basic := label.filter (·.toNat < 0x80)
  let codes := (label.filter (0x80 ≤ ·.toNat)).foldr (fun c => insertOnce c.toNat) []
  basic ++ (if basic.isEmpty then [] else ['-']) ++
    (insertCodes label basic.length codes 128
      { out := [], delta := 0, bias := 72, count := basic.length }).out

end RestSql.Punycode
