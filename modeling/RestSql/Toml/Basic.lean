import RestSql.Dict
import RestSql.Number.Binary64

/-!
TOML values. A document is a table that grows by assignments and by the blocks under headers, and no key
gets a second value. Main statement: an assignment only adds (`find?_assign`).
-/

namespace RestSql

/-- How a table came to be. -/
inductive TableOrigin
  /-- It is written between braces. -/
  | braces
  | header
  /-- It lies on the way to the table of a header. -/
  | implied
  /-- It lies on the way to the key of an assignment. -/
  | dotted
  deriving DecidableEq, Repr

/-- An assignment may go on from a table: if it came from keys with dots, or passes through it. -/
def TableOrigin.admits (origin : TableOrigin) (path : List String) : Bool :=
  origin == .dotted || (origin == .implied && !path.isEmpty)

/-- A TOML value. -/
inductive Toml
  | string (s : String)
  | integer (n : Int)
  | float (x : Binary64)
  | flag (b : Bool)
  /-- A date, a time or both. -/
  | moment
  | array (items : List Toml)
  | table (origin : TableOrigin) (entries : List (String × Toml))
  /-- The tables of headers with double brackets, the latest first. -/
  | tables (items : List (List (String × Toml)))
  deriving Repr, Inhabited

/-- A key with its value; the key comes with the keys before its dots. -/
structure Toml.Assignment where
  path : List String
  key : String
  value : Toml
  deriving Repr

/-- A header with the assignments under it. -/
structure Toml.Block where
  path : List String
  key : String
  /-- The brackets are double: the block is one more table of an array. -/
  double : Bool
  body : List Toml.Assignment
  deriving Repr

namespace Toml

/-- The entries of a table. -/
abbrev Entries := Dict Toml

/-- The entries with one more value. -/
def assign (value : Toml) (key : String) : List String → Entries → Option Entries
  | [], t => if Dict.has t key then none else some (Dict.put t key value)
  | k :: path, t =>
    match Dict.find? t k with
    | none => (assign value key path []).map fun u => Dict.put t k (table .dotted u)
    | some (table origin u) =>
      if origin.admits path then
        (assign value key path u).map fun u => Dict.put t k (table origin u)
      else none
    | some (tables (u :: us)) =>
      if path.isEmpty then none
      else (assign value key path u).map fun u => Dict.put t k (tables (u :: us))
    | some _ => none

/-- The entries with more values. -/
def assignAll (body : List Assignment) (t : Entries) : Option Entries :=
  body.foldlM (fun t a => assign a.value a.key a.path t) t

/-- The entries changed by `f` at the table that a path of headers leads to. -/
def within (f : Entries → Option Entries) : List String → Entries → Option Entries
  | [], t => f t
  | k :: path, t =>
    match Dict.find? t k with
    | none => (within f path []).map fun u => Dict.put t k (table .implied u)
    | some (table origin u) =>
      if origin = .braces then none
      else (within f path u).map fun u => Dict.put t k (table origin u)
    | some (tables (u :: us)) => (within f path u).map fun u => Dict.put t k (tables (u :: us))
    | some _ => none

/-- The entries with the table of a header. -/
def openTable (body : List Assignment) (key : String) (t : Entries) : Option Entries :=
  match Dict.find? t key with
  | none => (assignAll body []).map fun u => Dict.put t key (table .header u)
  | some (table .implied u) => (assignAll body u).map fun u => Dict.put t key (table .header u)
  | some _ => none

/-- The entries with one more table of an array. -/
def appendTable (body : List Assignment) (key : String) (t : Entries) : Option Entries :=
  match Dict.find? t key with
  | none => (assignAll body []).map fun u => Dict.put t key (tables [u])
  | some (tables us) => (assignAll body []).map fun u => Dict.put t key (tables (u :: us))
  | some _ => none

/-- The entries with a block. -/
def addBlock (t : Entries) (b : Block) : Option Entries :=
  within (if b.double then appendTable b.body b.key else openTable b.body b.key) b.path t

/-- The entries of a document: assignments, and blocks after them. -/
def ofBlocks (body : List Assignment) (blocks : List Block) : Option Entries := do
  blocks.foldlM addBlock (← assignAll body [])

/-- The table that assignments between braces make. -/
def ofBraces (body : List Assignment) : Option Toml :=
  (assignAll body []).map (table .braces)

/-- What a key has is kept. -/
theorem find?_assign {value : Toml} {key : String} {t t' : Entries}
    (h : assign value key [] t = some t') {k : String} {v : Toml} (hk : Dict.find? t k = some v) :
    Dict.find? t' k = some v := by
  unfold assign at h
  split at h
  · cases h
  · next hkey =>
    cases h
    have : key ≠ k := fun e => hkey (by simp [Dict.has, e, hk])
    simp [Dict.find?_put, this, hk]

end Toml
end RestSql
