import RestSql.Text.Base64
import RestSql.Text.Blank
import RestSql.Text.Cut

/-!
Private keys as texts: a block between two lines with a label, which holds the digits of nested items.
-/

namespace RestSql.PrivateKey

/-- The label and the digits of the first block of a text. -/
def block? (text : List Char) : Option (List Char × List Char) := do
  let (_, rest) ← Text.cutAround "-----BEGIN ".toList text
  let (label, rest) ← Text.cutAround "-----".toList rest
  let (digits, rest) ← Text.cutAround "-----END ".toList rest
  let (closing, _) ← Text.cutAround "-----".toList rest
  if label = closing ∧ label ≠ [] then return (label, digits.filter (!Text.isBlank ·)) else none

/-- The bytes of padded digits. -/
def bytes? (digits : List Char) : Option (List Nat) :=
  let body := (digits.reverse.dropWhile (· == '=')).reverse
  if digits.length % 4 = 0 ∧ digits.length ≤ body.length + 2 then Base64.standard.decode? body
  else none

/-- The tag and the length of an item, and the bytes after them. -/
def header? : List Nat → Option (Nat × Nat × List Nat)
  | tag :: n :: rest =>
    if n < 128 then some (tag, n, rest)
    else
      let count := n - 128
      if count = 0 ∨ rest.length < count then none
      else some (tag, (rest.take count).foldl (fun n b => n * 256 + b) 0, rest.drop count)
  | _ => none

/-- The tags and the bytes of the innermost items, in order; `fuel` bounds all items. -/
def leaves? : Nat → List Nat → Option (List (Nat × List Nat))
  | _, [] => some []
  | 0, _ => none
  | fuel + 1, bytes => do
    let (tag, length, rest) ← header? bytes
    if rest.length < length then none
    else
      let content := rest.take length
      let inner ← if tag / 32 % 2 = 1 then leaves? fuel content else some [(tag, content)]
      let more ← leaves? fuel (rest.drop length)
      return inner ++ more

def objectTag : Nat := 6
def bitTextTag : Nat := 3
def byteTextTag : Nat := 4

/-- The name of RSA keys, which can sign. -/
def rsaKey : List Nat := [42, 134, 72, 134, 247, 13, 1, 1, 1]

/-- The innermost items name a key that can sign, and hold it. -/
def holdsKey (leaves : List (Nat × List Nat)) : Bool :=
  leaves.contains (objectTag, rsaKey) &&
    leaves.any fun l => l.1 == bitTextTag || l.1 == byteTextTag

/-- The text holds a key that can sign, bare or with the name of its kind. -/
def isValid (text : String) : Bool :=
  let valid? : Option Bool := do
    let (label, digits) ← block? text.toList
    let bytes ← bytes? digits
    let leaves ← leaves? (bytes.length + 1) bytes
    return label = "RSA PRIVATE KEY".toList || (label = "PRIVATE KEY".toList && holdsKey leaves)
  valid?.getD false

end RestSql.PrivateKey
