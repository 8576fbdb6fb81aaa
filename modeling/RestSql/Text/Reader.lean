/-!
Readers take a value off the front of a text or fail. `many` and `sepBy` repeat a reader as long as
it succeeds and takes something. Main statements: a repeated reader leaves a suffix of its text if the
reader does (`Leaves`).
-/

namespace RestSql

/-- Takes a value off the front of a text: the value and the rest, or nothing. -/
abbrev Reader (α : Type) := List Char → Option (α × List Char)

/-- A space, a tabulator, a line feed or a carriage return. -/
def isSpace (c : Char) : Bool :=
  c = ' ' || c = '\t' || c = '\n' || c = '\r'

/-- The text without the spaces at its start. -/
def skipSpace (cs : List Char) : List Char :=
  cs.dropWhile isSpace

namespace Reader

variable {α β : Type}

/-- The first character, if it satisfies `p`. -/
def satisfying (p : Char → Bool) : Reader Char
  | c :: cs => if p c then some (c, cs) else none
  | [] => none

/-- The character `c` at the front. -/
def one (c : Char) : Reader Char :=
  satisfying (· == c)

/-- The character `c` at the front, after spaces. -/
def symbol (c : Char) : Reader Char := fun cs =>
  one c (skipSpace cs)

/-- The first reader that succeeds decides. -/
def orElse (p q : Reader α) : Reader α := fun cs =>
  match p cs with
  | some r => some r
  | none => q cs

/-- The value changed by `f`. -/
def map (f : α → β) (p : Reader α) : Reader β := fun cs =>
  (p cs).map fun (a, rest) => (f a, rest)

/-- The value of `q`, which reads what `p` leaves. -/
def after (p : Reader α) (q : Reader β) : Reader β := fun cs =>
  match p cs with
  | some (_, rest) => q rest
  | none => none

/-- The value of `p`, after which `q` has to succeed. -/
def before (p : Reader α) (q : Reader β) : Reader α := fun cs =>
  match p cs with
  | some (a, rest) => (q rest).map fun (_, rest) => (a, rest)
  | none => none

/-- The value if there is one; the text stays as it is if not. -/
def optional (p : Reader α) (cs : List Char) : Option α × List Char :=
  match p cs with
  | some (a, rest) => (some a, rest)
  | none => (none, cs)

/-- Values as long as the reader succeeds and takes something. -/
def many (p : Reader α) (cs : List Char) : List α × List Char :=
  match p cs with
  | some (a, rest) =>
    if rest.length < cs.length then
      let (as, rest) := many p rest
      (a :: as, rest)
    else ([], cs)
  | none => ([], cs)
termination_by cs.length

/-- Values with separators between them, at least one. -/
def sepBy (sep : Reader β) (p : Reader α) : Reader (List α) := fun cs =>
  match p cs with
  | some (a, rest) =>
    let (as, rest) := many (after sep p) rest
    some (a :: as, rest)
  | none => none

/-- What the reader leaves is a suffix of what it got. -/
def Leaves (p : Reader α) : Prop :=
  ∀ cs a rest, p cs = some (a, rest) → rest <:+ cs

theorem many_suffix {p : Reader α} (h : Leaves p) (cs : List Char) : (many p cs).2 <:+ cs := by
  fun_induction many p cs with
  | case1 cs a rest hp hlt as rest' hm ih =>
    rw [hm] at ih
    exact ih.trans (h _ _ _ hp)
  | case2 => exact List.suffix_refl _
  | case3 => exact List.suffix_refl _

theorem skipSpace_suffix (cs : List Char) : skipSpace cs <:+ cs :=
  List.dropWhile_suffix _

end Reader
end RestSql
