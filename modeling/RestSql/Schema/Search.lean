import RestSql.Schema.Basic
import RestSql.Text.Cut

/-!
Searching schemas: the field at a path, the array that holds the rows of a response, and the columns
of a resource. Each named schema is entered at most once in a search, and a search takes no more
steps than there are schemas.
-/

namespace RestSql.SchemaSet

/-- A field that was found. -/
structure Field where
  schema : Schema
  /-- The provider fills the field in. -/
  outputOnly : Bool

/-- A path below the items of an array: brackets at its front are optional. -/
def itemPath (path : String) : String :=
  ((Text.rest? "[]." path).orElse fun _ => Text.rest? "[]" path).getD path

/-- The path below the property `key`, if the path starts with the property. -/
def below? (key path : String) : Option String :=
  match Text.rest? key path with
  | none => none
  | some tail =>
    match Text.rest? "." tail with
    | some rest => some rest
    | none => if (Text.rest? "[]" tail).isSome then some tail else none

/-- Where to search for a path in an object: below the properties that it starts with, then with the
whole path below each property. -/
def branches (s : Schema) (path : String) : List (SchemaHandle × String) :=
  (s.properties.filterMap fun (key, h) => (below? key path).map fun rest => (h, rest)) ++
    s.properties.map fun (_, h) => (h, path)

/-- The first result of a search through several branches, and the schemas left open after it. -/
def firstOf (search : SchemaSet → Schema → String → Option Field × SchemaSet) :
    SchemaSet → List (SchemaHandle × String) → Option Field × SchemaSet
  | open_, [] => (none, open_)
  | open_, (h, path) :: more =>
    match open_.enter? h with
    | none => firstOf search open_ more
    | some (s, rest) =>
      match search rest s path with
      | (some f, rest) => (some f, rest)
      | (none, rest) => firstOf search rest more

/-- The field at `path` below a schema, in at most `fuel` nested steps. -/
def findWithin (set : SchemaSet) :
    Nat → SchemaSet → Schema → String → Option Field × SchemaSet
  | 0, open_, _, _ => (none, open_)
  | fuel + 1, open_, s, path =>
    if path = "" then (some ⟨s, s.outputOnly⟩, open_)
    else if s.isArray then
      match s.items.bind open_.enter? with
      | none => (none, open_)
      | some (items, rest) => findWithin set fuel rest items (itemPath path)
    else
      match Dict.find? s.properties path with
      | some h => ((set.resolve? h).map fun t => ⟨t, set.isOutputOnly h⟩, open_)
      | none => firstOf (findWithin set fuel) open_ (branches s path)

/-- The field at a dotted path. A path that does not match from the root is also searched for below
each property. -/
def find? (set : SchemaSet) (root : Schema) (path : String) : Option Field :=
  (findWithin set (set.size + root.size) (set.openFrom root) root path).1

/-- The key and the schema of the array that holds the rows of a response: the property `key` if it is
an array, else the first property that is one. -/
def rowArray? (set : SchemaSet) (root : Schema) (key : String) : Option (String × Schema) :=
  match (set.property? root key).filter Schema.isArray with
  | some s => some (key, s)
  | none => root.properties.findSome? fun (k, h) =>
    ((set.resolve? h).filter Schema.isArray).map fun s => (k, s)

/-- The columns of a schema in at most `fuel` nested steps. -/
def columnsWithin (set : SchemaSet) : Nat → SchemaSet → Schema → List String
  | 0, _, _ => []
  | fuel + 1, open_, s =>
    if s.isArray then
      match s.items.bind open_.enter? with
      | none => []
      | some (items, rest) => columnsWithin set fuel rest items
    else (s.properties.filter fun e => !set.isOutputOnly e.2).map Prod.fst

/-- The properties that the caller may set; those of the items of an array. -/
def columns (set : SchemaSet) (s : Schema) : List String :=
  columnsWithin set (set.size + s.size) set s

/-- A column as it is described. -/
structure ColumnInfo where
  name : String
  kind : String
  description : String
  deriving DecidableEq, Repr

/-- The description of a property. -/
def describeProperty (set : SchemaSet) (name : String) (h : SchemaHandle) : ColumnInfo :=
  match set.resolve? h with
  | some s => ⟨name, if s.kind = "" then "object" else s.kind, s.description⟩
  | none => ⟨name, "object", ""⟩

/-- The description of every property; of the items of an array. -/
def describe (set : SchemaSet) (s : Schema) : List ColumnInfo :=
  let target := if s.isArray then (set.items? s).getD s else s
  target.properties.map fun (name, h) => set.describeProperty name h

end RestSql.SchemaSet
