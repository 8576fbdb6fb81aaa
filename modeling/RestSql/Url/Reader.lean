import RestSql.Url.Basic

/-!
Reading URLs. Blanks and control characters at the ends and tabulators and line ends anywhere are
dropped; segments with one or two dots are resolved; whatever may not stand bare is percent-encoded.
-/

namespace RestSql.Url

/-- The text without blanks and controls at its ends, and without tabulators and line ends. -/
def clean (cs : List Char) : List Char :=
  let blank (c : Char) : Bool := c.toNat ≤ 0x20
  (((cs.dropWhile blank).reverse.dropWhile blank).reverse).filter fun c =>
    !(c = '\t' || c = '\n' || c = '\r')

/-- A character that a scheme continues with. -/
def isSchemeChar (c : Char) : Bool :=
  c.isAlphanum || c = '+' || c = '-' || c = '.'

/-- The scheme in lower case, and what follows its colon. -/
def scheme? (cs : List Char) : Option (String × List Char) :=
  match cs with
  | c :: rest =>
    if c.isAlpha then
      match rest.dropWhile isSchemeChar with
      | ':' :: tail =>
        some (String.ofList ((c :: rest.takeWhile isSchemeChar).map Char.toLower), tail)
      | _ => none
    else none
  | [] => none

/-- A character that ends the authority. -/
def endsAuthority (special : Bool) (c : Char) : Bool :=
  c = '/' || c = '?' || c = '#' || (special && c = '\\')

/-- The text cut at its last at-sign. -/
def cutUser? (cs : List Char) : Option (List Char × List Char) :=
  match Text.cutFirst (· == '@') cs.reverse with
  | some (after, before) => some (before.reverse, after.reverse)
  | none => none

/-- The user and the password before an at-sign. -/
def userInfo (cs : List Char) : String × String :=
  let enc (cs : List Char) : String := String.ofList (Percent.encode Percent.inUserInfo cs)
  match Text.cutFirst (· == ':') cs with
  | some (user, password) => (enc user, enc password)
  | none => (enc cs, "")

/-- The host text and what follows its colon; a colon between brackets does not count. -/
def cutPort (inside : Bool) : List Char → List Char × Option (List Char)
  | [] => ([], none)
  | c :: cs =>
    if c = ':' ∧ !inside then ([], some cs)
    else
      let (host, port) := cutPort (c = '[' || (inside && c ≠ ']')) cs
      (c :: host, port)

/-- The port that digits give, none if it need not be written. -/
def portOf (scheme : String) (ds : List Char) : Except UrlError (Option Nat) :=
  if !ds.all Char.isDigit then .error .badPort
  else
    let n := Text.naturalOf ds
    if 65535 < n then .error .badPort
    else .ok (if ds.isEmpty || some n = defaultPort? scheme then none else some n)

/-- The authority that a text is. -/
def authorityOf (scheme : String) (cs : List Char) : Except UrlError Authority := do
  let special := isSpecial scheme
  let (user?, cs) := match cutUser? cs with
    | some (user, rest) => (some user, rest)
    | none => (none, cs)
  if user? = some [] && cs.isEmpty then .error .emptyHost
  else
    let (user, password) := userInfo (user?.getD [])
    let (hostText, portText) := cutPort false cs
    let host ← if special then Host.ofText hostText else Host.ofPlainText hostText
    if hostText.isEmpty && portText.isSome then .error .emptyHost
    else if hostText.isEmpty && (user != "" || password != "") then .error .emptyHost
    else
      let port ← portOf scheme (portText.getD [])
      return { user, password, host, port }

/-- A segment that goes up one level. -/
def isDoubleDot (segment : String) : Bool :=
  ["..", "%2e%2e", "%2e.", ".%2e"].contains (Text.lower segment)

/-- A segment that stays on its level. -/
def isSingleDot (segment : String) : Bool :=
  [".", "%2e"].contains (Text.lower segment)

/-- A letter and a colon or a bar. -/
def isDriveLetter (segment : String) : Bool :=
  match segment.toList with
  | [c, d] => c.isAlpha && (d = ':' || d = '|')
  | _ => false

/-- The segments without their last one, unless it is a drive letter. -/
def goUp (done : List String) : List String :=
  match done.getLast? with
  | some s => if isDriveLetter s then done else done.dropLast
  | none => done

/-- The segments after those of one or two dots are resolved. -/
def resolveDots : List String → List String → List String
  | done, [] => done
  | done, [s] =>
    if isDoubleDot s then goUp done ++ [""]
    else if isSingleDot s then done ++ [""]
    else done ++ [s]
  | done, s :: more =>
    if isDoubleDot s then resolveDots (goUp done) more
    else if isSingleDot s then resolveDots done more
    else resolveDots (done ++ [s]) more

/-- The segments of a path, without the slash that it starts with. -/
def segmentsOf (special : Bool) (cs : List Char) : List String :=
  let pieces := Text.cut (fun c => c = '/' || (special && c = '\\')) cs
  resolveDots [] (pieces.map fun p => String.ofList (Percent.encode Percent.inPath p))

/-- The path after an authority. A special URL has at least one segment. -/
def pathOf (special : Bool) (cs : List Char) : UrlPath :=
  match cs with
  | [] => .segments (if special then [""] else [])
  | c :: rest =>
    if c = '/' || (special && c = '\\') then .segments (segmentsOf special rest)
    else .segments (segmentsOf special cs)

/-- The fragment after a number sign. -/
def fragmentOf (cs : List Char) : String :=
  String.ofList (Percent.encode Percent.inFragment cs)

/-- The URL with the query and the fragment that a text starting with `?` or `#` gives. -/
def withTail (special : Bool) (u : Url) (cs : List Char) : Url :=
  let encodeQuery (q : List Char) : String :=
    String.ofList (Percent.encode (if special then Percent.inSpecialQuery else Percent.inQuery) q)
  match cs with
  | '?' :: rest =>
    let query := encodeQuery (rest.takeWhile (· ≠ '#'))
    match rest.dropWhile (· ≠ '#') with
    | '#' :: f => { u with query := some query, fragment := some (fragmentOf f) }
    | _ => { u with query := some query }
  | '#' :: f => { u with fragment := some (fragmentOf f) }
  | _ => u

/-- A character that ends a path. -/
def endsPath (c : Char) : Bool :=
  c = '?' || c = '#'

/-- A URL with an authority: what follows the slashes before it. -/
def withAuthority (scheme : String) (cs : List Char) : Except UrlError Url := do
  let special := isSpecial scheme
  let authority ← authorityOf scheme (cs.takeWhile (!endsAuthority special ·))
  let rest := cs.dropWhile (!endsAuthority special ·)
  let u : Url :=
    { scheme, authority := some authority, path := pathOf special (rest.takeWhile (!endsPath ·))
      query := none, fragment := none }
  return withTail special u (rest.dropWhile (!endsPath ·))

/-- A URL without an authority: segments after a slash, or plain text. -/
def withoutAuthority (scheme : String) (cs : List Char) : Url :=
  let text := cs.takeWhile (!endsPath ·)
  let path := match text with
    | '/' :: rest => .segments (segmentsOf false rest)
    | _ => .plain (String.ofList (Percent.encode Percent.isControl text))
  withTail false { scheme, authority := none, path, query := none, fragment := none }
    (cs.dropWhile (!endsPath ·))

/-- The host of a file URL; that of the own machine is not written. -/
def fileHostOf (cs : List Char) : Except UrlError Host := do
  if cs.isEmpty then return .domain ""
  let host ← Host.ofText cs
  return if host = .domain "localhost" then .domain "" else host

/-- A file URL: a host after two slashes, and segments without empty ones at the front. -/
def ofFile (cs : List Char) : Except UrlError Url := do
  let slash (c : Char) : Bool := c = '/' || c = '\\'
  let (hostText, rest) := match cs with
    | a :: b :: rest =>
      if slash a && slash b then
        (rest.takeWhile (!endsAuthority true ·), rest.dropWhile (!endsAuthority true ·))
      else ([], cs)
    | cs => ([], cs)
  let host ← fileHostOf hostText
  let path := (rest.takeWhile (!endsPath ·)).dropWhile slash
  let segments := (segmentsOf true path).dropWhile (· == "")
  let u : Url :=
    { scheme := "file", authority := some { user := "", password := "", host, port := none }
      path := .segments (if segments.isEmpty then [""] else segments), query := none, fragment := none }
  return withTail true u (rest.dropWhile (!endsPath ·))

/-- The URL that a text is. -/
def ofText (text : String) : Except UrlError Url :=
  match scheme? (clean text.toList) with
  | none => .error .relative
  | some (scheme, rest) =>
    if scheme = "file" then ofFile rest
    else if isSpecial scheme then
      withAuthority scheme (rest.dropWhile fun c => c = '/' || c = '\\')
    else match Text.after? ['/', '/'] rest with
      | some rest => withAuthority scheme rest
      | none => .ok (withoutAuthority scheme rest)

end RestSql.Url
