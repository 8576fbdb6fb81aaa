/-!
LIKE patterns: a percent sign stands for any text and an underscore for any character, neither of them
with a line feed; every other character stands for itself. Main statement: the table that decides a
match answers for each suffix of the text what `accepts` says of it (`table_eq`).
-/

namespace RestSql

/-- A part of a pattern. -/
inductive LikePart
  | anyText
  | anyChar
  | char (c : Char)
  deriving DecidableEq, Repr

/-- A LIKE pattern. -/
structure LikePattern where
  parts : List LikePart
  deriving DecidableEq, Repr

namespace LikePart

/-- The character may stand where the part does. -/
def admits : LikePart → Char → Bool
  | char p, c => p == c
  | _, c => c != '\n'

end LikePart

namespace LikePattern

def ofText (pattern : String) : LikePattern :=
  ⟨pattern.toList.map fun c =>
    if c = '%' then .anyText else if c = '_' then .anyChar else .char c⟩

/-- The parts match the whole text. -/
def accepts : List LikePart → List Char → Bool
  | [], cs => cs.isEmpty
  | .anyText :: ps, [] => accepts ps []
  | .anyText :: ps, c :: cs =>
    accepts ps (c :: cs) || (LikePart.anyText.admits c && accepts (.anyText :: ps) cs)
  | _ :: _, [] => false
  | p :: ps, c :: cs => p.admits c && accepts ps cs
termination_by ps cs => (ps.length, cs.length)

/-- The answers of a part that takes one character, from those of the parts after it. -/
def takeOne (p : LikePart) : List Char → List Bool → List Bool
  | c :: cs, _ :: later => (p.admits c && later.headD false) :: takeOne p cs later
  | _, _ => [false]

/-- The answers of a part that takes any text, from those of the parts after it. -/
def takeAny (p : LikePart) : List Char → List Bool → List Bool
  | c :: cs, b :: later =>
    let rest := takeAny p cs later
    (b || (p.admits c && rest.headD false)) :: rest
  | _, later => later

/-- For every suffix of the text, the longest first, whether the parts match it. -/
def table (ps : List LikePart) (cs : List Char) : List Bool :=
  match ps with
  | [] => cs.map (fun _ => false) ++ [true]
  | .anyText :: ps => takeAny .anyText cs (table ps cs)
  | p :: ps => takeOne p cs (table ps cs)

def «matches» (p : LikePattern) (text : String) : Bool :=
  (table p.parts text.toList).headD false

/-- All suffixes of a text, the longest first. -/
def suffixes : List Char → List (List Char)
  | [] => [[]]
  | c :: cs => (c :: cs) :: suffixes cs

theorem headD_map_suffixes (f : List Char → Bool) (cs : List Char) :
    ((suffixes cs).map f).headD false = f cs := by
  cases cs <;> rfl

theorem takeOne_eq {p : LikePart} (hp : p ≠ .anyText) (ps : List LikePart) (cs : List Char) :
    takeOne p cs ((suffixes cs).map (accepts ps)) = (suffixes cs).map (accepts (p :: ps)) := by
  induction cs with
  | nil => cases p <;> simp_all [takeOne, suffixes, accepts]
  | cons c cs ih =>
    have h : accepts (p :: ps) (c :: cs) = (p.admits c && accepts ps cs) := by
      cases p <;> simp_all [accepts]
    simp only [suffixes, List.map_cons, takeOne, headD_map_suffixes, ih, h]

theorem takeAny_eq (ps : List LikePart) (cs : List Char) :
    takeAny .anyText cs ((suffixes cs).map (accepts ps)) =
      (suffixes cs).map (accepts (.anyText :: ps)) := by
  induction cs with
  | nil => simp [takeAny, suffixes, accepts]
  | cons c cs ih =>
    have h : accepts (.anyText :: ps) (c :: cs) =
        (accepts ps (c :: cs) || (LikePart.anyText.admits c && accepts (.anyText :: ps) cs)) := by
      rw [accepts]
    simp only [suffixes, List.map_cons, takeAny, ih, headD_map_suffixes, h]

theorem table_eq (ps : List LikePart) (cs : List Char) :
    table ps cs = (suffixes cs).map (accepts ps) := by
  induction ps with
  | nil =>
    unfold table
    induction cs with
    | nil => simp [suffixes, accepts]
    | cons c cs ih =>
      simp only [List.map_cons, List.cons_append, suffixes, accepts, List.isEmpty_cons, ih]
  | cons p ps ih =>
    cases p with
    | anyText => rw [table, ih, takeAny_eq]
    | anyChar => rw [table, ih, takeOne_eq] <;> simp
    | char c => rw [table, ih, takeOne_eq] <;> simp

/-- A match is what `accepts` says. -/
theorem matches_eq (p : LikePattern) (text : String) :
    p.matches text = accepts p.parts text.toList := by
  rw [«matches», table_eq, headD_map_suffixes]

end LikePattern
end RestSql
