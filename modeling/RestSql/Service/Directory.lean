import RestSql.Json.Decoder
import RestSql.Service.Basic

/-!
The directory of the services of a provider.
-/

namespace RestSql.ServiceEntry

open Json (Decoder Record)

/-- An item of a directory. -/
def decoder : Decoder ServiceEntry := fun depth t => do
  let r ← Record.ofTree? ["id", "name", "title", "description", "version", "preferred",
    "discoveryRestUrl", "documentationLink"] depth t
  let id ← r.text? "id"
  let name ← r.text? "name"
  let title ← r.text? "title"
  let description ← r.text? "description"
  let version ← r.text? "version"
  let preferred ← r.field? "preferred" Decoder.flag false
  let documentAddress ← r.text? "discoveryRestUrl"
  let documentation ← r.text? "documentationLink"
  return { id := ServiceId.toSql id, name, title, description, version, preferred
           documentAddress, documentation }

/-- A whole directory. -/
def directoryDecoder : Decoder (List ServiceEntry) := fun depth t => do
  let r ← Record.ofTree? ["items"] depth t
  r.field? "items" (Decoder.list decoder) []

/-- The services that the text of a directory lists. -/
def directory? (text : String) : Option (List ServiceEntry) :=
  Json.decode? directoryDecoder text

end RestSql.ServiceEntry
