import RestSql.Json.Reader

/-!
Decoders of records from JSON texts. A record is written as an object, or as an array of its fields in
order; unknown fields are not looked at, and a known field may not be repeated. A decoder gets the
number of levels that may still be nested.
-/

namespace RestSql.Json

/-- Decodes a tree that is nested at most so many levels. -/
abbrev Decoder (α : Type) := Nat → Tree → Option α

namespace Decoder

variable {α β : Type}

def text : Decoder String
  | _, .string s => Piece.string? s
  | _, _ => none

def flag : Decoder Bool
  | _, .bool b => some b
  | _, _ => none

/-- Any JSON value. -/
def value : Decoder Json :=
  Tree.value?

/-- Nothing if the tree is null. -/
def optional (d : Decoder α) : Decoder (Option α)
  | _, .null => some none
  | depth, t => (d depth t).map some

def list (d : Decoder α) : Decoder (List α)
  | 0, _ => none
  | depth + 1, .array items => items.mapM (d depth)
  | _ + 1, _ => none

/-- A table; of equal keys the last one wins. -/
def dict (d : Decoder α) : Decoder (Dict α)
  | 0, _ => none
  | depth + 1, .object members => do
    let entries ← members.mapM fun (k, t) => do
      let key ← Piece.string? k
      let a ← d depth t
      return (key, a)
    return Dict.ofEntries entries
  | _ + 1, _ => none

end Decoder

/-- The trees of the known fields of a record, and the levels that may be nested below it. -/
structure Record where
  depth : Nat
  fields : List (String × Tree)

namespace Record

/-- The known fields among the members of an object, none of them twice. -/
def ofMembers? (names : List String) : List (List Piece × Tree) → Option (List (String × Tree))
  | [] => some []
  | (k, t) :: rest => do
    let key ← Piece.string? k
    let fields ← ofMembers? names rest
    if names.contains key then
      if fields.any (·.1 == key) then none else some ((key, t) :: fields)
    else some fields

/-- The record with the given fields that a tree is. -/
def ofTree? (names : List String) : Decoder Record
  | 0, _ => none
  | depth + 1, .object members => (ofMembers? names members).map fun fields => ⟨depth, fields⟩
  | depth + 1, .array items =>
    if names.length < items.length then none else some ⟨depth, names.zip items⟩
  | _ + 1, _ => none

/-- The value of a field, or the default if it is missing. -/
def field? {α : Type} (r : Record) (name : String) (d : Decoder α) (default : α) : Option α :=
  match r.fields.find? (·.1 == name) with
  | some (_, t) => d r.depth t
  | none => some default

/-- The value of a field that has to be there. -/
def required? {α : Type} (r : Record) (name : String) (d : Decoder α) : Option α :=
  match r.fields.find? (·.1 == name) with
  | some (_, t) => d r.depth t
  | none => none

/-- The text of a field, empty if it is missing. -/
def text? (r : Record) (name : String) : Option String :=
  r.field? name Decoder.text ""

end Record

/-- What a decoder makes of a whole text. -/
def decode? {α : Type} (d : Decoder α) (text : String) : Option α :=
  (Tree.ofText? text).bind (d maxDepth)

end RestSql.Json
