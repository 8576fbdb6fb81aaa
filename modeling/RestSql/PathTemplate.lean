import RestSql.Error
import RestSql.Json.Writer

/-!
Paths with placeholders. A placeholder `{name}` takes a value with its slashes encoded, and `{+name}`
one as it is.
-/

namespace RestSql

/-- The text of a value in a URL. -/
def Json.urlText : Json → String
  | .string s => s
  | v => v.write

/-- A place for a value in a path. -/
structure Placeholder where
  name : String
  /-- The slashes of the value stay as they are. -/
  verbatim : Bool
  deriving DecidableEq, Repr

namespace Placeholder

/-- The placeholder that stands between braces. -/
def ofToken (token : List Char) : Placeholder :=
  match token with
  | '+' :: name => ⟨String.ofList name, true⟩
  | name => ⟨String.ofList name, false⟩

/-- The value as it stands in the path. -/
def fill (p : Placeholder) (v : Json) : List Char :=
  let cs := v.urlText.toList
  if p.verbatim then cs else Text.replace ['/'] ['%', '2', 'F'] cs

end Placeholder

namespace PathTemplate

/-- A path up to its first placeholder. -/
inductive Start
  /-- There is no placeholder. -/
  | plain
  | placeholder (before token after : List Char)
  /-- The placeholder has no end. -/
  | unterminated

/-- The first placeholder of a path. -/
def start (cs : List Char) : Start :=
  match Text.cutFirst (· == '\x7b') cs with
  | none => .plain
  | some (before, rest) =>
    match Text.cutFirst (· == '\x7d') rest with
    | none => .unterminated
    | some (token, after) => .placeholder before token after

/-- A path with the values of its placeholders, of which there are at most `fuel`. -/
def expandFrom (template : String) (values : Fields) :
    Nat → List Char → Except ValidationError (List Char)
  | 0, cs => .ok cs
  | fuel + 1, cs =>
    match start cs with
    | .plain => .ok cs
    | .unterminated => .error (.openPlaceholder template)
    | .placeholder before token after =>
      let p := Placeholder.ofToken token
      match Dict.find? values p.name with
      | none => .error (.missingPathParameter p.name template)
      | some v =>
        (expandFrom template values fuel after).map fun rest => before ++ p.fill v ++ rest

/-- A path with the values of its placeholders. -/
def expand (template : String) (values : Fields) : Except ValidationError String :=
  (expandFrom template values (template.toList.length + 1) template.toList).map String.ofList

end PathTemplate
end RestSql
