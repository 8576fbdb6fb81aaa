import RestSql.Error

/-!
Files by their paths. Folders are there as far as they hold files. Main statements: what a write stores
is read back, and no other file changes (`read_write`).
-/

namespace RestSql

structure File where
  text : String
  /-- When it was written, in milliseconds. -/
  time : Nat
  deriving DecidableEq, Repr

/-- Files by their plain paths. -/
abbrev Files := Dict File

namespace Files

/-- The parts of a path without those that stay where they are. -/
def plainParts : List String → List String → List String
  | done, [] => done.reverse
  | done, p :: rest =>
    if p = "" ∨ p = "." then plainParts done rest
    else if p = ".." then plainParts (done.drop 1) rest
    else plainParts (p :: done) rest

/-- The path without parts that stay where they are; it starts with a slash if the path does. -/
def plain (path : String) : String :=
  let parts := plainParts [] (Text.cutAt '/' path)
  (if (Text.rest? "/" path).isSome then "/" else "") ++ String.intercalate "/" parts

/-- The path of a file in a folder. -/
def join (folder file : String) : String :=
  if folder = "" ∨ (Text.rest? "/" file).isSome then file else folder ++ "/" ++ file

/-- Some file lies below the path. -/
def isFolder (files : Files) (path : String) : Bool :=
  path == "" || files.any fun (k, _) => (Text.rest? (path ++ "/") k).isSome

/-- Some file lies above the path. -/
def isBelowFile (files : Files) (path : String) : Bool :=
  files.any fun (k, _) => (Text.rest? (k ++ "/") path).isSome

/-- Why there is no file at a path. -/
def fault (files : Files) (path : String) : FileError :=
  if path = "" then .absent
  else if isFolder files (plain path) then .isFolder
  else if isBelowFile files (plain path ++ "/") then .notFolder
  else .absent

/-- The path ends with a slash. -/
def namesFolder (path : String) : Bool :=
  path.toList.getLast? == some '/'

/-- The file at a path. -/
def read (files : Files) (path : String) : Except FileError File :=
  match Dict.find? files (plain path) with
  | some f => if namesFolder path then .error .notFolder else .ok f
  | none => .error (fault files path)

/-- There is a file or a folder at the path. -/
def has (files : Files) (path : String) : Bool :=
  match read files path with
  | .ok _ => true
  | .error e => e == .isFolder

/-- The files with one more at a path, its folders made if need be. -/
def write (files : Files) (path text : String) (time : Nat) : Except FileError Files :=
  if isFolder files (plain path) then .error .isFolder
  else if isBelowFile files (plain path) then .error .notFolder
  else .ok (Dict.put files (plain path) ⟨text, time⟩)

/-- The folder of a plain path. -/
def folderOf (path : String) : String :=
  String.intercalate "/" (Text.cutAt '/' path).dropLast

/-- The files with an empty one at a path, the folder of which is there. -/
def create (files : Files) (path : String) (time : Nat) : Except FileError Files :=
  if path = "" then .error .absent
  else if Dict.has files (plain path) then
    if namesFolder path then .error .notFolder else files.write path "" time
  else if namesFolder path then .error .isFolder
  else if isFolder files (folderOf (plain path)) then files.write path "" time
  else .error (if isBelowFile files (plain path) then .notFolder else .absent)

/-- The files with a text at the end of one of them. -/
def append (files : Files) (path text : String) : Files :=
  match Dict.find? files (plain path) with
  | some f => Dict.put files (plain path) { f with text := f.text ++ text }
  | none => files

theorem find?_write {files files' : Files} {path text : String} {time : Nat}
    (h : files.write path text time = .ok files') (k : String) :
    Dict.find? files' k = if plain path = k then some ⟨text, time⟩ else Dict.find? files k := by
  unfold write at h
  split at h
  · cases h
  · split at h
    · cases h
    · cases h
      exact Dict.find?_put ..

/-- What was written is read, and all other files are as before. -/
theorem read_write {files files' : Files} {path text : String} {time : Nat}
    (h : files.write path text time = .ok files') (hp : namesFolder path = false) :
    files'.read path = .ok ⟨text, time⟩ ∧
      ∀ k, plain path ≠ k → Dict.find? files' k = Dict.find? files k := by
  refine ⟨?_, fun k hk => ?_⟩
  · simp [read, find?_write h, hp]
  · simp [find?_write h, hk]

end Files
end RestSql
