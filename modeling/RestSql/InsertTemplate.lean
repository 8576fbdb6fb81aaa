import RestSql.Error
import RestSql.Parameters

/-!
Templates of INSERT statements: a column for each parameter and each field of the request body, with a
slot for its value. A slot `\x7b\x7b .values.name \x7d\x7d` is filled in by the reader of the template.
-/

namespace RestSql

/-- The value of a column in a template. -/
inductive TemplateValue
  /-- A place for a value, in quotes if it is a text. -/
  | slot (path : String) (quoted : Bool)
  | array (item : TemplateValue)
  | object (fields : List (String × TemplateValue))
  deriving Repr

/-- A column with its value. -/
structure TemplateEntry where
  column : String
  value : TemplateValue
  deriving Repr

structure InsertTemplate where
  table : String
  entries : List TemplateEntry
  deriving Repr

namespace TemplateValue

/-- Objects that may be nested in the value of a column. -/
def maxObjects : Nat := 2

def slotText (path : String) : String :=
  "\x7b\x7b .values." ++ path ++ " \x7d\x7d"

mutual

/-- The value as it stands in a JSON text. -/
def jsonText : TemplateValue → String
  | slot path quoted => if quoted then "\"" ++ slotText path ++ "\"" else slotText path
  | array item => "[ " ++ jsonText item ++ " ]"
  | object fields => "\x7b " ++ String.intercalate ", " (fieldTexts fields) ++ " \x7d"

def fieldTexts : List (String × TemplateValue) → List String
  | [] => []
  | (key, v) :: rest => ("\"" ++ key ++ "\": " ++ jsonText v) :: fieldTexts rest

end

/-- The value as it stands in the statement. -/
def text : TemplateValue → String
  | slot path quoted => if quoted then "'" ++ slotText path ++ "'" else slotText path
  | v => "'" ++ v.jsonText ++ "'"

/-- The object with the given fields, if there are any. -/
def object? (fields : List (String × TemplateValue)) : Option TemplateValue :=
  if fields.isEmpty then none else some (object fields)

/-- The value behind a handle at `path`, in at most `fuel` nested steps; `level` objects are nested
with it. Fields that the provider fills in are left out, and so is a schema within itself. -/
def ofHandle (set : SchemaSet) :
    Nat → SchemaSet → Nat → String → SchemaHandle → Option TemplateValue
  | 0, _, _, _, _ => none
  | fuel + 1, open_, level, path, h =>
    match open_.enter? h with
    | none => none
    | some (s, rest) =>
      if s.isObject then
        if maxObjects < level then none
        else object? <| (s.properties.filter fun e => !set.isOutputOnly e.2).filterMap
          fun (key, h) =>
            (ofHandle set fuel rest (level + 1) (path ++ "." ++ key) h).map fun v => (key, v)
      else if s.isArray then
        match s.items with
        | none => none
        | some items => (ofHandle set fuel rest level (path ++ "[0]") items).map array
      else some (slot path s.isText)

end TemplateValue

namespace InsertTemplate

/-- The value of a field of the request body with the schema `root`. -/
def fieldValue (set : SchemaSet) (root s : Schema) (column : String) (h : SchemaHandle) :
    Option TemplateValue :=
  if s.isObject || s.isArray then
    TemplateValue.ofHandle set (set.size + root.size) (set.openFrom root) 1 column h
  else some (.slot column s.isText)

/-- The columns of the fields that the caller may set; if wanted only of those that the method needs. -/
def bodyEntries (set : SchemaSet) (m : Method) (requiredOnly : Bool) (root : Schema) :
    List TemplateEntry :=
  root.properties.filterMap fun (key, h) =>
    if set.isOutputOnly h then none
    else match set.resolve? h with
      | none => none
      | some s =>
        if requiredOnly && !s.isRequired m.id then none
        else (fieldValue set root s (bodyMark ++ key) h).map fun v => ⟨bodyMark ++ key, v⟩

/-- The columns of the request body. -/
def body (set : SchemaSet) (m : Method) (requiredOnly : Bool) :
    Option Schema → Except ValidationError (List TemplateEntry)
  | none => .ok []
  | some root =>
    if root.isObject then .ok (bodyEntries set m requiredOnly root) else .error .templateBody

/-- The column of a parameter. -/
def parameterEntry (p : Parameter) : TemplateEntry :=
  ⟨p.name, .slot p.name (p.kind == "string")⟩

/-- The parameters of a template without a column list: the required ones, or all of them. -/
def parameters (m : Method) (all : Bool) : List Parameter :=
  (Dict.values m.parameters).filter fun p => all || p.required

/-- The column is a field of the request body. -/
def isBodyColumn (column : String) : Bool :=
  (Text.rest? bodyMark column).isSome

/-- The parameters with the given names, in increasing order. -/
def namedParameters (m : Method) (names : List String) : Except ValidationError (List Parameter) := do
  let found ← names.mapM fun name =>
    match m.parameter? name with
    | some p => .ok p
    | none => .error (.templateColumn name)
  return found.mergeSort fun a b => a.name ≤ b.name

/-- The given columns of the request body. -/
def namedEntries (entries : List TemplateEntry) (columns : List String) :
    Except ValidationError (List TemplateEntry) :=
  columns.mapM fun column =>
    match entries.find? (·.column == column) with
    | some e => .ok e
    | none => .error (.templateColumn column)

/-- The template of a method. Without `columns` it has the required parameters, or all of them if it is
extended and not for required ones only, and the fields of the request body. -/
def make (table : String) (m : Method) (set : SchemaSet) (request : Option Schema)
    (columns : List String) (extended requiredOnly : Bool) :
    Except ValidationError InsertTemplate := do
  if columns.isEmpty then
    let entries ← body set m requiredOnly request
    return ⟨table, (parameters m (extended && !requiredOnly)).map parameterEntry ++ entries⟩
  else
    let parameters ← namedParameters m (columns.filter (!isBodyColumn ·))
    let entries ← body set m requiredOnly request
    let fields ← namedEntries entries (columns.filter isBodyColumn)
    return ⟨table, parameters.map parameterEntry ++ fields⟩

/-- Lines with a margin and with commas between them. -/
def block (lines : List String) : String :=
  String.intercalate ",\n" (lines.map ("  " ++ ·))

/-- The text of a template. -/
def text (t : InsertTemplate) : String :=
  "INSERT INTO " ++ t.table ++ "(\n" ++ block (t.entries.map (·.column)) ++ "\n)\nSELECT\n" ++
    block (t.entries.map (·.value.text)) ++ "\n;\n"

end InsertTemplate
end RestSql
