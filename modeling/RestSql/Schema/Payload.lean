import RestSql.Json.Basic
import RestSql.Schema.Basic

/-!
Checking request bodies against schemas: every key is known, every value has the kind of its field,
and every field that the method needs is there.
-/

namespace RestSql

/-- Why a body does not fit a schema. -/
inductive PayloadError
  | unknownKey (key : String)
  | missing (keys : List String)
  /-- An array where the field has no items. -/
  | notArray (key kind : String)
  /-- An array of texts where the items are of another kind. -/
  | notTexts (key kind : String)
  | wrongKind (key kind : String)
  deriving DecidableEq, Repr

def PayloadError.message : PayloadError → String
  | unknownKey key => "schema does not possess payload key '" ++ key ++ "'"
  | missing keys =>
    "required elements not included in supplied object; the following keys are missing: " ++
      String.intercalate ", " keys ++ "."
  | notArray key kind =>
    "key '" ++ key ++ "' expected to contain element of type '" ++ kind ++
      "' but instead it is type 'array'"
  | notTexts key kind =>
    "array at key '" ++ key ++ "' expected to contain elements of type '" ++ kind ++
      "' but instead they are type 'string'"
  | wrongKind key kind => "key '" ++ key ++ "' does not accept element of type '" ++ kind ++ "'"

namespace SchemaSet

/-- The schema of a key: that of the property, or that of the values of a map. -/
def keySchema? (set : SchemaSet) (s : Schema) (key : String) : Option Schema :=
  match set.property? s key with
  | some t => some t
  | none => s.additional.bind set.resolve?

/-- The properties of an object that the method needs. -/
def requiredKeys (set : SchemaSet) (s : Schema) (method : String) : List String :=
  (s.properties.filter fun e =>
    ((set.resolve? e.2).map fun t => t.isRequired method).getD false).map Prod.fst

/-- Fails with the required keys that are not among those given. -/
def checkKeys (set : SchemaSet) (s : Schema) (method : String) (given : List String) :
    Except PayloadError Unit :=
  match (set.requiredKeys s method).filter (!given.contains ·) with
  | [] => .ok ()
  | keys => .error (.missing keys)

/-- Fails unless the value may be of the kind. -/
def checkKind (key kind : String) (ok : Bool) : Except PayloadError Unit :=
  if ok then .ok () else .error (.wrongKind key kind)

mutual

/-- Checks the value of a key. Of an array only the first item is looked at. -/
def checkValue (set : SchemaSet) (method : String) (key : String) (sub : Schema) :
    Json → Except PayloadError Unit
  | .object fields => do
    checkFields set method sub fields
    set.checkKeys sub method (Dict.keys fields)
  | .array [] =>
    match set.items? sub with
    | none => .error (.notArray key sub.kind)
    | some _ => .ok ()
  | .array (first :: _) =>
    match set.items? sub with
    | none => .error (.notArray key sub.kind)
    | some items =>
      match first with
      | .object fields => do
        checkFields set method items fields
        set.checkKeys items method (Dict.keys fields)
      | .string _ => if items.isText then .ok () else .error (.notTexts key items.kind)
      | _ => .ok ()
  | .string _ => checkKind key "string" sub.isText
  | .bool _ => checkKind key "boolean" sub.isBoolean
  | .number (.float _) => checkKind key "number" sub.isFloat
  | .number (.integer _) => checkKind key "integer" (sub.isIntegral || sub.isFloat)
  | .null => .ok ()

/-- Checks the fields of an object in order. -/
def checkFields (set : SchemaSet) (method : String) (s : Schema) :
    List (String × Json) → Except PayloadError Unit
  | [] => .ok ()
  | (key, v) :: rest =>
    match set.keySchema? s key with
    | none => .error (.unknownKey key)
    | some sub => do
      checkValue set method key sub v
      checkFields set method s rest

end

/-- Checks a request body for the method with the given id. -/
def checkPayload (set : SchemaSet) (s : Schema) (method : String) (payload : Fields) :
    Except PayloadError Unit := do
  checkFields set method s payload
  set.checkKeys s method (Dict.keys payload)

end SchemaSet
end RestSql
