import RestSql.Dict

/-!
Schemas of request and response bodies. A schema names others through handles, which may form cycles,
so a walk carries the named schemas that it may still enter. Main statement: entering a handle takes
its name away from them (`find?_of_enter`).
-/

namespace RestSql

/-- A schema as a property or an item refers to it: by name, or written in place. -/
inductive Handle (σ : Type) where
  | named (name : String) (outputOnly : Bool)
  | inline (schema : σ)
  deriving Repr

/-- A schema. Its kind is one of `object`, `array`, `string`, `integer`, `number`, `boolean` and `any`,
or another text. -/
structure Schema where
  id : String
  kind : String
  format : String
  description : String
  properties : List (String × Handle Schema)
  items : Option (Handle Schema)
  /-- The schema of the values of a map. -/
  additional : Option (Handle Schema)
  outputOnly : Bool
  /-- The methods that need the field, by id. -/
  required : List String
  deriving Inhabited, Repr

/-- A handle to a schema. -/
abbrev SchemaHandle := Handle Schema

/-- Named schemas. -/
abbrev SchemaSet := Dict Schema

namespace Schema

def isArray (s : Schema) : Bool :=
  s.kind == "array"

/-- A schema with properties is an object whatever its kind. -/
def isObject (s : Schema) : Bool :=
  s.kind == "object" || !s.properties.isEmpty

def isText (s : Schema) : Bool :=
  s.kind == "string"

def isIntegral (s : Schema) : Bool :=
  s.kind == "integer"

def isFloat (s : Schema) : Bool :=
  s.kind == "number"

def isBoolean (s : Schema) : Bool :=
  s.kind == "boolean"

/-- The method with the given id needs the field. -/
def isRequired (s : Schema) (method : String) : Bool :=
  s.required.contains method

mutual

/-- Number of the schemas in place in a schema, itself included. -/
def size : Schema → Nat
  | ⟨_, _, _, _, properties, items, additional, _, _⟩ =>
    1 + sizeEach properties + sizeOf? items + sizeOf? additional

def sizeEach : List (String × Handle Schema) → Nat
  | [] => 0
  | (_, .named _ _) :: rest => sizeEach rest
  | (_, .inline s) :: rest => size s + sizeEach rest

def sizeOf? : Option (Handle Schema) → Nat
  | some (.inline s) => size s
  | _ => 0

end

theorem size_pos (s : Schema) : 0 < s.size := by
  cases s; simp only [size]; omega

end Schema

namespace SchemaSet

/-- Number of all schemas of the set, those in place included. -/
def size (set : SchemaSet) : Nat :=
  set.foldl (fun n e => n + e.2.size) 0

/-- The schema that a handle stands for. -/
def resolve? (set : SchemaSet) : SchemaHandle → Option Schema
  | .named name _ => Dict.find? set name
  | .inline s => some s

/-- A field that the provider fills in, as its handle or its schema says. -/
def isOutputOnly (set : SchemaSet) (h : SchemaHandle) : Bool :=
  match h with
  | .named name outputOnly =>
    outputOnly || ((Dict.find? set name).map Schema.outputOnly).getD false
  | .inline s => s.outputOnly

/-- The schema of a property. -/
def property? (set : SchemaSet) (s : Schema) (name : String) : Option Schema :=
  (Dict.find? s.properties name).bind set.resolve?

/-- The schema of the items of an array. -/
def items? (set : SchemaSet) (s : Schema) : Option Schema :=
  s.items.bind set.resolve?

/-- The schema behind a handle, and the named schemas that may still be entered after it. -/
def enter? (open_ : SchemaSet) : SchemaHandle → Option (Schema × SchemaSet)
  | .named name _ => (Dict.find? open_ name).map fun s => (s, Dict.drop open_ name)
  | .inline s => some (s, open_)

/-- The schemas that a walk from `root` may enter: all but the root itself. -/
def openFrom (set : SchemaSet) (root : Schema) : SchemaSet :=
  if root.id = "" then set else Dict.drop set root.id

theorem find?_of_enter {open_ rest : SchemaSet} {name : String} {outputOnly : Bool} {s : Schema}
    (h : open_.enter? (.named name outputOnly) = some (s, rest)) :
    Dict.find? open_ name = some s ∧ rest = Dict.drop open_ name := by
  obtain ⟨s', hs, he⟩ := Option.map_eq_some_iff.1 h
  simp only [Prod.mk.injEq] at he
  exact ⟨he.1 ▸ hs, he.2.symm⟩

end SchemaSet
end RestSql
