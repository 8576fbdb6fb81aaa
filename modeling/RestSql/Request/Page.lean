import RestSql.Error
import RestSql.Url.Reader

/-!
Requests for the pages of a list. A page is named by a token, which replaces one in the address.
-/

namespace RestSql.Request

/-- The query parameter that names a page. -/
def pageParameter : String := "pageToken"

/-- The request for the page with the given token. -/
def page (r : Request) (token : String) : Except ValidationError Request :=
  match Url.ofText r.url with
  | .error e => .error (.badUrl r.url e)
  | .ok u =>
    let kept := u.pairs.filter (·.1 ≠ pageParameter)
    .ok { r with url := ({ u with query := none }.withPairs (kept ++ [(pageParameter, token)])).text }

end RestSql.Request
