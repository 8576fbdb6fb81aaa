import RestSql.Text.Blank
import RestSql.Text.Cut
import RestSql.Text.Utf8

/-!
Comments and statement ends. Outside quotes, `--` starts a comment up to the end of the line and `/*`
one up to the next `*/`; a comment that starts with `/*+` carries directives. `strip` removes the
comments, and `split` cuts a text at the semicolons that stand outside quotes and comments.
-/

namespace RestSql.Sql

/-- The directive names of a statement, in upper case. -/
structure Directives where
  names : List String
  deriving DecidableEq, Repr, Inhabited

namespace Directives

def empty : Directives := ⟨[]⟩

/-- The set with `name`, the case of which does not matter. -/
def insert (d : Directives) (name : String) : Directives :=
  if d.names.contains (Text.upper name) then d else ⟨d.names ++ [Text.upper name]⟩

def isSet (d : Directives) (name : String) : Bool :=
  d.names.contains (Text.upper name)

def isEmpty (d : Directives) : Bool :=
  d.names.isEmpty

end Directives

/-- The characters that open and close a quoted text: the single, the double and the back quote. -/
def isQuote (c : Char) : Bool :=
  c = '\x27' || c = '\x22' || c = '\x60'

/-- The text of a block comment after its opening, and what follows its end. -/
def commentBody? : List Char → Option (List Char × List Char)
  | '*' :: '/' :: rest => some ([], rest)
  | c :: rest => (commentBody? rest).map fun (body, rest) => (c :: body, rest)
  | [] => none

theorem commentBody?_length {cs body rest : List Char} (h : commentBody? cs = some (body, rest)) :
    rest.length < cs.length := by
  fun_induction commentBody? cs generalizing body rest with
  | case1 r =>
    simp only [Option.some.injEq, Prod.mk.injEq] at h
    rw [← h.2, List.length_cons, List.length_cons]
    omega
  | case2 c r _ ih =>
    obtain ⟨⟨b, r'⟩, hb, he⟩ := Option.map_eq_some_iff.1 h
    simp only [Prod.mk.injEq] at he
    have := ih hb
    simp [← he.2]; omega
  | case3 => simp at h

/-- The directive names in the body of a comment. -/
def directiveNames : List Char → List String
  | '+' :: flags =>
    ((Text.cut (fun c => Text.isBlank c || c == ',') flags).filter (· ≠ [])).map String.ofList
  | _ => []

/-- The text from a position on with each comment replaced by a blank, and the directive names in
it; or the position of a comment without end. Positions count bytes, and `quote` is the open quote. -/
def stripFrom (position : Nat) (quote : Option Char) (cs : List Char) :
    Except Nat (List Char × List String) :=
  match cs with
  | [] => .ok ([], [])
  | c :: rest =>
    let keep (quote : Option Char) : Except Nat (List Char × List String) :=
      (stripFrom (position + c.utf8Size) quote rest).map fun (out, names) => (c :: out, names)
    match quote with
    | some q => keep (if c = q then none else quote)
    | none =>
      if isQuote c then keep (some c)
      else if c = '-' ∧ rest.head? = some '-' then
        let tail := (c :: rest).dropWhile (· ≠ '\n')
        let line := (c :: rest).takeWhile (· ≠ '\n')
        (stripFrom (position + Text.byteLength line) none tail).map fun (out, names) =>
          (' ' :: out, names)
      else if c = '/' ∧ rest.head? = some '*' then
        match h : commentBody? rest.tail with
        | none => .error position
        | some (body, tail) =>
          (stripFrom (position + Text.byteLength body + 4) none tail).map fun (out, names) =>
            (' ' :: out, directiveNames body ++ names)
      else keep none
termination_by cs.length
decreasing_by
  · simp
  · rename_i _ hd
    simp only [List.length_cons, List.dropWhile_cons, hd.1]
    have : (rest.dropWhile (· ≠ '\n')).length ≤ rest.length :=
      (List.dropWhile_suffix _).length_le
    simpa using Nat.lt_succ_of_le this
  · have := commentBody?_length h
    have : rest.tail.length ≤ rest.length := by simp
    simp only [List.length_cons]; omega

/-- The text without comments and the directives in them, or the byte offset of a comment without
end. -/
def strip (text : String) : Except Nat (String × Directives) :=
  (stripFrom 0 none text.toList).map fun (out, names) =>
    (String.ofList out, names.foldl Directives.insert .empty)

/-- A block comment from its star on up to its end, or up to the end of the text, and what follows;
`star` says that the character before is a star. -/
def skipBlock (star : Bool) : List Char → List Char × List Char
  | [] => ([], [])
  | c :: rest =>
    if star ∧ c = '/' then ([c], rest)
    else
      let (body, tail) := skipBlock (c = '*') rest
      (c :: body, tail)

theorem skipBlock_length (star : Bool) (cs : List Char) :
    (skipBlock star cs).2.length ≤ cs.length := by
  induction cs generalizing star with
  | nil => simp [skipBlock]
  | cons c rest ih =>
    unfold skipBlock
    split
    · simp
    · have := ih (decide (c = '*')); simp; omega

/-- A line comment with the line feed that ends it, and what follows. -/
def skipLine : List Char → List Char × List Char
  | [] => ([], [])
  | c :: rest =>
    if c = '\n' then ([c], rest)
    else
      let (line, tail) := skipLine rest
      (c :: line, tail)

theorem skipLine_length (cs : List Char) : (skipLine cs).2.length ≤ cs.length := by
  induction cs with
  | nil => simp [skipLine]
  | cons c rest ih =>
    unfold skipLine
    split
    · simp
    · simp; omega

/-- `text` set before the first piece. -/
def prepend (text : List Char) : List (List Char) → List (List Char)
  | [] => [text]
  | piece :: pieces => (text ++ piece) :: pieces

/-- The pieces of a text between the semicolons outside quotes and comments, comments included. -/
def segments (quote : Option Char) (cs : List Char) : List (List Char) :=
  match cs with
  | [] => [[]]
  | c :: rest =>
    match quote with
    | some q => prepend [c] (segments (if c = q then none else quote) rest)
    | none =>
      if isQuote c then prepend [c] (segments (some c) rest)
      else if c = '-' ∧ rest.head? = some '-' then
        prepend (c :: (skipLine rest).1) (segments none (skipLine rest).2)
      else if c = '/' ∧ rest.head? = some '*' then
        prepend (c :: (skipBlock false rest).1) (segments none (skipBlock false rest).2)
      else if c = ';' then [] :: segments none rest
      else prepend [c] (segments none rest)
termination_by cs.length
decreasing_by
  all_goals simp only [List.length_cons]
  · omega
  · omega
  · have := skipLine_length rest; omega
  · have := skipBlock_length false rest; omega
  · omega
  · omega

/-- Nothing but blanks and comments. -/
def isBlankPiece (piece : List Char) : Bool :=
  match stripFrom 0 none piece with
  | .ok (out, _) => (Text.trim out).isEmpty
  | .error _ => (Text.trim piece).isEmpty

/-- The statements of a text: its pieces that are not blank, trimmed. -/
def split (text : String) : List String :=
  ((segments none text.toList).filter (!isBlankPiece ·)).map fun p => String.ofList (Text.trim p)

end RestSql.Sql
