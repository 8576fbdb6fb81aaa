import RestSql.Number.Decimal
import RestSql.Text.Digits
import RestSql.Url.Percent
import RestSql.Url.Punycode

/-!
Hosts of URLs: domain names in lower case, and internet addresses of four bytes or of eight groups of
16 bits. A domain that ends in a number has to be an address of four bytes.
-/

namespace RestSql

/-- Why a text is no URL. -/
inductive UrlError
  | emptyHost
  | badDomainName
  | badPort
  | badIpv4
  | badIpv6
  | badHostCharacter
  | relative
  deriving DecidableEq, Repr

def UrlError.message : UrlError → String
  | emptyHost => "empty host"
  | badDomainName => "invalid international domain name"
  | badPort => "invalid port number"
  | badIpv4 => "invalid IPv4 address"
  | badIpv6 => "invalid IPv6 address"
  | badHostCharacter => "invalid domain character"
  | relative => "relative URL without a base"

/-- The host of a URL. -/
inductive Host
  | domain (name : String)
  | ipv4 (address : Nat)
  | ipv6 (groups : List Nat)
  deriving DecidableEq, Repr

namespace Host

/-- A number of an address: decimal, octal after `0`, hexadecimal after `0x`; none if it is no number. -/
def number? (cs : List Char) : Option Nat :=
  match cs with
  | [] => none
  | '0' :: 'x' :: ds | '0' :: 'X' :: ds =>
    ds.foldl (fun n d => match n, Text.hexValue? d with
      | some n, some v => some (n * 16 + v)
      | _, _ => none) (some 0)
  | '0' :: d :: ds =>
    if (d :: ds).all fun c => '0' ≤ c && c ≤ '7' then
      some ((d :: ds).foldl (fun n c => n * 8 + (c.toNat - '0'.toNat)) 0)
    else none
  | ds => if ds.all Char.isDigit then some (Text.naturalOf ds) else none

/-- The parts of a domain, without an empty one at its end. -/
def labels (domain : List Char) : List (List Char) :=
  let parts := Text.cut (· == '.') domain
  if parts.getLast? = some [] then parts.dropLast else parts

/-- The last part of the domain is a number. -/
def endsInNumber (domain : List Char) : Bool :=
  match (labels domain).getLast? with
  | none => false
  | some [] => false
  | some part => part.all Char.isDigit || (number? part).isSome

/-- The address that a domain of numbers is. -/
def ipv4? (domain : List Char) : Option Nat := do
  let parts := labels domain
  if 4 < parts.length then none
  else
    let numbers ← parts.mapM number?
    let last ← numbers.getLast?
    let first := numbers.dropLast
    if first.any (255 < ·) || Nat.pow 256 (4 - first.length) ≤ last then none
    else some (first.zipIdx.foldl (fun n (b, i) => n + b * Nat.pow 256 (3 - i)) last)

/-- The value of one to four hexadecimal digits at the front. -/
def group : Reader Nat := fun cs =>
  let ds := (cs.take 4).takeWhile fun c => (Text.hexValue? c).isSome
  if ds.isEmpty then none
  else some (ds.foldl (fun n d => n * 16 + (Text.hexValue? d).getD 0) 0, cs.drop ds.length)

/-- A byte in decimal digits without a leading zero. -/
def byte? (cs : List Char) : Option Nat :=
  match cs with
  | [] => none
  | ['0'] => some 0
  | '0' :: _ => none
  | ds => if ds.all Char.isDigit && Text.naturalOf ds ≤ 255 then some (Text.naturalOf ds) else none

/-- Two groups written as four bytes with dots between them. -/
def byteGroups? (cs : List Char) : Option (List Nat) :=
  match (Text.cut (· == '.') cs).mapM byte? with
  | some [a, b, c, d] => some [a * 256 + b, c * 256 + d]
  | _ => none

/-- The groups of a text, and the place of the double colon; the first argument bounds the groups. -/
def groups? : Nat → List Char → Option (List Nat × Option Nat)
  | 0, cs => if cs = [] then some ([], none) else none
  | _ + 1, [] => some ([], none)
  | n + 1, ':' :: ':' :: rest =>
    match groups? n rest with
    | some (gs, none) => if rest.head? = some ':' then none else some (gs, some 0)
    | _ => none
  | n + 1, cs =>
    match group cs with
    | none => none
    | some (g, rest) =>
      match rest with
      | [] => some ([g], none)
      | '.' :: _ => (byteGroups? cs).map fun gs => (gs, none)
      | ':' :: ':' :: _ => (groups? n rest).map fun (gs, p) => (g :: gs, p.map (· + 1))
      | ':' :: more =>
        if more = [] then none
        else (groups? n more).map fun (gs, p) => (g :: gs, p.map (· + 1))
      | _ => none

/-- The eight groups of an address. -/
def ipv6? (cs : List Char) : Option (List Nat) :=
  match groups? 9 cs with
  | some (gs, none) => if gs.length = 8 then some gs else none
  | some (gs, some p) =>
    if gs.length < 8 then some (gs.take p ++ List.replicate (8 - gs.length) 0 ++ gs.drop p) else none
  | none => none

/-- A character that no domain name holds. -/
def isForbidden (c : Char) : Bool :=
  c.toNat ≤ 0x20 || c.toNat = 0x7F || c = '\x22' || c = '#' || c = '%' || c = '/' || c = ':' ||
    c = '<' || c = '>' || c = '?' || c = '@' || c = '[' || c = '\\' || c = ']' || c = '^' ||
    c = '\x60' || c = '\x7b' || c = '|' || c = '\x7d' || c = Text.replacement

/-- A label in ASCII. -/
def asciiLabel (label : List Char) : List Char :=
  if label.all (·.toNat < 0x80) then label.map Char.toLower
  else "xn--".toList ++ Punycode.encode (label.map Char.toLower)

/-- A domain name in ASCII. -/
def asciiDomain (domain : List Char) : List Char :=
  ((Text.cut (· == '.') domain).map asciiLabel).intersperse ['.'] |>.flatten

/-- The address between brackets. -/
def bracketed? (cs : List Char) : Except UrlError Host :=
  if cs.getLast? = some ']' then
    match ipv6? cs.dropLast with
    | some gs => .ok (.ipv6 gs)
    | none => .error .badIpv6
  else .error .badIpv6

/-- The host that a text is, in a URL of a special scheme. -/
def ofText (cs : List Char) : Except UrlError Host :=
  match cs with
  | [] => .error .emptyHost
  | '[' :: rest => bracketed? rest
  | cs =>
    let domain := Percent.decode cs
    if domain.any isForbidden then .error .badDomainName
    else
      let name := asciiDomain domain
      if name.isEmpty then .error .emptyHost
      else if endsInNumber name then
        match ipv4? name with
        | some address => .ok (.ipv4 address)
        | none => .error .badIpv4
      else .ok (.domain (String.ofList name))

/-- A character that a host of a scheme that is not special does not hold. -/
def isForbiddenPlain (c : Char) : Bool :=
  c = '\x00' || c = ' ' || c = '#' || c = '/' || c = ':' || c = '<' || c = '>' || c = '?' || c = '@' ||
    c = '[' || c = '\\' || c = ']' || c = '^' || c = '|'

/-- The host that a text is, in a URL of another scheme. -/
def ofPlainText (cs : List Char) : Except UrlError Host :=
  match cs with
  | '[' :: rest => bracketed? rest
  | cs =>
    if cs.any isForbiddenPlain then .error .badHostCharacter
    else .ok (.domain (String.ofList (Percent.encode Percent.isControl cs)))

/-- Where the first of the longest runs of at least two zeros starts, and its length. -/
def zeroRun (groups : List Nat) : Option (Nat × Nat) :=
  let runs := groups.zipIdx.map fun (_, i) => (i, ((groups.drop i).takeWhile (· == 0)).length)
  runs.foldl (fun best (i, n) =>
    match best with
    | some (_, m) => if m < n then some (i, n) else best
    | none => if 2 ≤ n then some (i, n) else none) none

def groupsText (groups : List Nat) : String :=
  String.intercalate ":" (groups.map fun g => String.ofList (Nat.toDigits 16 g))

/-- The text of a host. -/
def text : Host → String
  | domain name => name
  | ipv4 a => String.intercalate "."
    ([a / 0x1000000, a / 0x10000 % 256, a / 256 % 256, a % 256].map Text.ofNat)
  | ipv6 gs =>
    let body := match zeroRun gs with
      | some (i, n) => groupsText (gs.take i) ++ "::" ++ groupsText (gs.drop (i + n))
      | none => groupsText gs
    "[" ++ body ++ "]"

end Host
end RestSql
