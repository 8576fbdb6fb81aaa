import RestSql.Dict
import RestSql.Number.Binary64

/-!
JSON values. Numbers are integers of the 64-bit ranges or binary floating point numbers, and the
fields of an object are a `Dict`.
-/

namespace RestSql

/-- A JSON number: an integer, or a finite binary number. -/
inductive JsonNumber
  | integer (n : Int)
  | float (x : Binary64)
  deriving DecidableEq, Repr

/-- A JSON value. -/
inductive Json
  | null
  | bool (b : Bool)
  | number (n : JsonNumber)
  | string (s : String)
  | array (items : List Json)
  | object (fields : List (String × Json))
  deriving Repr, Inhabited

/-- The fields of a JSON object. -/
abbrev Fields := Dict Json

/-- The binary number nearest to a JSON number. -/
def JsonNumber.toBinary : JsonNumber → Binary64
  | .integer n => .ofInt n
  | .float x => x

namespace Json

def ofInt (n : Int) : Json :=
  .number (.integer n)

def ofNat (n : Nat) : Json :=
  ofInt n

/-- The number, or null for one that is not finite. -/
def ofBinary (x : Binary64) : Json :=
  if x.isFinite then .number (.float x) else .null

/-- The object with the given fields, the last of equal keys winning. -/
def ofFields (entries : List (String × Json)) : Json :=
  .object (Dict.ofEntries entries)

def isNull : Json → Bool
  | null => true
  | _ => false

def text? : Json → Option String
  | string s => some s
  | _ => none

def items? : Json → Option (List Json)
  | array items => some items
  | _ => none

def fields? : Json → Option Fields
  | object fields => some fields
  | _ => none

/-- The value of a field, if the value is an object that has it. -/
def field? (v : Json) (key : String) : Option Json :=
  v.fields?.bind fun fields => Dict.find? fields key

/-- The text of a field, if the value is an object whose field is a text. -/
def textField? (v : Json) (key : String) : Option String :=
  (v.field? key).bind text?

end Json
end RestSql
