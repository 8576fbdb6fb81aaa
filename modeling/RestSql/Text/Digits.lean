import RestSql.Text.Reader

/-!
Digits: the numbers that they denote, and reading decimal ones off the front of a text.
-/

namespace RestSql

/-- The natural number that decimal digits denote. -/
def Text.naturalOf (ds : List Char) : Nat :=
  ds.foldl (fun n d => n * 10 + (d.toNat - '0'.toNat)) 0

/-- The value of a hexadecimal digit. -/
def Text.hexValue? (c : Char) : Option Nat :=
  if c.isDigit then some (c.toNat - '0'.toNat)
  else if 'a' ≤ c ∧ c ≤ 'f' then some (c.toNat - 'a'.toNat + 10)
  else if 'A' ≤ c ∧ c ≤ 'F' then some (c.toNat - 'A'.toNat + 10)
  else none

/-- The natural number that digits of a base up to 16 denote; none if one of them is too great. -/
def Text.naturalIn? (base : Nat) (ds : List Char) : Option Nat :=
  ds.foldlM (fun n d => ((hexValue? d).filter (· < base)).map (n * base + ·)) 0

/-- The digits at the front, of which there is at least one. -/
def Reader.digits : Reader (List Char) := fun cs =>
  match cs.takeWhile Char.isDigit with
  | [] => none
  | ds => some (ds, cs.dropWhile Char.isDigit)

/-- The natural number that a text of digits denotes. -/
def Text.natural? (s : String) : Option Nat :=
  let ds := s.toList
  if ds.isEmpty || !ds.all Char.isDigit then none else some (Text.naturalOf ds)

namespace Text

theorem isDigit_of_mem_toDigits {n : Nat} {c : Char} (h : c ∈ Nat.toDigits 10 n) : c.isDigit = true :=
  Nat.isDigit_of_mem_toDigits (by decide) (by decide) h

theorem all_toDigits (n : Nat) : (Nat.toDigits 10 n).all Char.isDigit = true :=
  List.all_eq_true.2 fun _ => isDigit_of_mem_toDigits

theorem naturalOf_eq (ds : List Char) : naturalOf ds = Nat.ofDigitChars 10 ds 0 := by
  simp only [naturalOf, Nat.ofDigitChars, Nat.mul_comm]

theorem naturalOf_toDigits (n : Nat) : naturalOf (Nat.toDigits 10 n) = n := by
  rw [naturalOf_eq, Nat.ofDigitChars_ten_toDigits]

end Text

end RestSql
