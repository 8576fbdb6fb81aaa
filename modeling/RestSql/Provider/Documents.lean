import RestSql.Context
import RestSql.Provider.Basic
import RestSql.Service.Directory
import RestSql.Service.Document

/-!
The services of a provider, from documents that are fetched once, kept as files and read again while
they are fresh.
-/

namespace RestSql

namespace DocumentSource

/-- A file is younger than the lifetime; one that is dated in the future is not. -/
def isFresh (d : DocumentSource) (f : File) (now : Nat) : Bool :=
  decide (f.time ≤ now) && decide (now - f.time < d.lifetime)

/-- The copy of a document that may be used, if there is one; the error of one that is no file. -/
def copy? (d : DocumentSource) (files : Files) (now : Nat) (name : String) :
    Except FileError (Option String) :=
  match files.read (Files.join d.folder name) with
  | .ok f => .ok (if d.offline || d.isFresh f now then some f.text else none)
  | .error .isFolder => if d.offline || 0 < d.lifetime then .error .isFolder else .ok none
  | .error _ => .ok none

/-- The text of the document `name`, which is fetched from `url`. -/
def read (d : DocumentSource) (url name : String) : Run String := do
  let c ← get
  match ← Run.ofExcept .file (d.copy? c.files c.clock name) with
  | some text => return text
  | none =>
    if d.offline then throw (.discovery (.notCached name))
    let response ← Run.fetch (.read url)
    if Response.firstErrorStatus ≤ response.status then
      match response.value with
      | .error e => throw (.discovery (.downloadFailed url e))
      | .ok _ => pure ()
    modify fun c =>
      match c.files.write (Files.join d.folder name) response.body c.clock with
      | .ok files => { c with files }
      | .error _ => c
    return response.body

end DocumentSource

/-- The catalog of a directory and documents that are at hand. A document belongs to the entry with its
id, if there is one. -/
def Catalog.ofTexts (directory : String) (documents : List String) :
    Except DiscoveryError Catalog :=
  match ServiceEntry.directory? directory with
  | none => .error .badDirectory
  | some entries => do
    let services ← documents.mapM fun text =>
      match Document.ofText? text with
      | none => .error .badDocument
      | some d => .ok (d.toService (entries.find? (·.id == ServiceId.toSql d.id)))
    return .loaded entries (Dict.ofEntries (services.map fun s => (s.entry.id, s)))

namespace Provider

/-- The name of the document about all services. -/
def directoryFile : String := "discovery.json"

/-- The name of the document about a service. -/
def serviceFile (id : String) : String :=
  "services/" ++ id ++ ".json"

/-- All services of the provider. -/
def directory (p : Provider) : Run (List ServiceEntry) := do
  match p.catalog with
  | .loaded directory _ => return directory
  | .documents d =>
    let library := (← get).libraryOf p.name
    match library.directory with
    | some directory => return directory
    | none =>
      let text ← d.read d.directory directoryFile
      match ServiceEntry.directory? text with
      | none => throw (.discovery .badDirectory)
      | some directory =>
        modify (·.setLibrary p.name { library with directory := some directory })
        return directory

/-- The services that the provider offers. -/
def services (p : Provider) : Run (List ServiceEntry) := do
  return (← p.directory).filter p.offers

/-- The service of an entry of the directory. -/
def load (p : Provider) (e : ServiceEntry) : Run Service := do
  match p.catalog with
  | .loaded _ services =>
    match Dict.find? services e.id with
    | some s => return s
    | none => throw (.discovery (.notCached (serviceFile e.id)))
  | .documents d =>
    let library := (← get).libraryOf p.name
    match Dict.find? library.services e.id with
    | some s => return s
    | none =>
      let text ← d.read e.documentAddress (serviceFile e.id)
      match Document.ofText? text with
      | none => throw (.discovery .badDocument)
      | some document =>
        let s := document.toService (some e)
        modify (·.setLibrary p.name { library with services := Dict.put library.services e.id s })
        return s

/-- The service that `key` names. -/
def service (p : Provider) (key : String) : Run Service := do
  let e ← Run.ofExcept .resolution (p.select (← p.directory) key)
  p.load e

/-- A service with one of its resources. -/
def resource (p : Provider) (service resource : String) : Run (Service × Resource) := do
  let s ← p.service service
  match s.resource? resource with
  | some r => return (s, r)
  | none => throw (.resolution (.unknownResource resource service))

end Provider
end RestSql
