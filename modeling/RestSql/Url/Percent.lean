import RestSql.Text.Cut
import RestSql.Text.Digits
import RestSql.Text.Utf8

/-!
Percent encoding: the bytes of certain characters are written as a percent sign and two hexadecimal
digits. Forms write a blank as a plus sign besides. Main statement: decoding gives back what was encoded
if the percent sign is among the characters encoded (`decodeBytes_encode`).
-/

namespace RestSql.Percent

/-- A character outside printable ASCII. -/
def isControl (c : Char) : Bool :=
  c.toNat < 0x20 || 0x7E < c.toNat

/-- Encoded in fragments. -/
def inFragment (c : Char) : Bool :=
  isControl c || c = ' ' || c = '\x22' || c = '<' || c = '>' || c = '\x60'

/-- Encoded in paths. -/
def inPath (c : Char) : Bool :=
  inFragment c || c = '#' || c = '?' || c = '\x7b' || c = '\x7d'

/-- Encoded in user names and passwords. -/
def inUserInfo (c : Char) : Bool :=
  inPath c || c = '/' || c = ':' || c = ';' || c = '=' || c = '@' || c = '[' || c = '\\' || c = ']' ||
    c = '^' || c = '|'

/-- Encoded in queries. -/
def inQuery (c : Char) : Bool :=
  isControl c || c = ' ' || c = '\x22' || c = '#' || c = '<' || c = '>'

/-- Encoded in queries of the special schemes. -/
def inSpecialQuery (c : Char) : Bool :=
  inQuery c || c = '\x27'

/-- Encoded in forms. -/
def inForm (c : Char) : Bool :=
  !(c.isAlphanum || c = '*' || c = '-' || c = '.' || c = '_')

/-- An upper-case hexadecimal digit. -/
def hexDigit (n : Nat) : Char :=
  if n < 10 then Char.ofNat ('0'.toNat + n) else Char.ofNat ('A'.toNat + (n - 10))

/-- A byte as a percent sign and two digits. -/
def encodeByte (b : Nat) : List Char :=
  ['%', hexDigit (b / 16), hexDigit (b % 16)]

/-- The text with the bytes of the characters in `set` encoded. -/
def encode (set : Char → Bool) (cs : List Char) : List Char :=
  cs.flatMap fun c => if set c then (Text.utf8 [c]).flatMap encodeByte else [c]

/-- The bytes of a text, percent signs with two digits decoded. -/
def decodeBytes : List Char → List Nat
  | [] => []
  | '%' :: h :: l :: rest =>
    match Text.hexValue? h, Text.hexValue? l with
    | some a, some b => (a * 16 + b) :: decodeBytes rest
    | _, _ => '%'.toNat :: decodeBytes (h :: l :: rest)
  | c :: rest => Text.utf8 [c] ++ decodeBytes rest

/-- The text that an encoded text stands for. -/
def decode (cs : List Char) : List Char :=
  Text.ofUtf8 (decodeBytes cs)

/-- A name or value as a form writes it. -/
def encodeForm (cs : List Char) : List Char :=
  cs.flatMap fun c => if c = ' ' then ['+'] else encode inForm [c]

/-- What a form's name or value stands for. -/
def decodeForm (cs : List Char) : List Char :=
  decode (cs.map fun c => if c = '+' then ' ' else c)

/-- A name and a value as a form writes them. -/
def formPair (name value : String) : List Char :=
  encodeForm name.toList ++ '=' :: encodeForm value.toList

/-- The pairs of a form. -/
def formPairs (form : List Char) : List (String × String) :=
  ((Text.cut (· == '&') form).filter (· ≠ [])).map fun piece =>
    match Text.cutFirst (· == '=') piece with
    | some (name, value) => (String.ofList (decodeForm name), String.ofList (decodeForm value))
    | none => (String.ofList (decodeForm piece), "")

theorem hexValue?_hexDigit {n : Nat} (h : n < 16) : Text.hexValue? (hexDigit n) = some n := by
  have all : ∀ m ∈ List.range 16, Text.hexValue? (hexDigit m) = some m := by decide
  exact all n (List.mem_range.2 h)

theorem decodeBytes_encodeByte {b : Nat} (h : b < 256) (rest : List Char) :
    decodeBytes (encodeByte b ++ rest) = b :: decodeBytes rest := by
  have hd : b / 16 < 16 := by omega
  have hm : b % 16 < 16 := by omega
  simp only [encodeByte, List.cons_append, List.nil_append, decodeBytes, hexValue?_hexDigit hd,
    hexValue?_hexDigit hm]
  congr 1
  omega

theorem decodeBytes_encodeBytes {bs : List Nat} (h : ∀ b ∈ bs, b < 256) (rest : List Char) :
    decodeBytes (bs.flatMap encodeByte ++ rest) = bs ++ decodeBytes rest := by
  induction bs with
  | nil => rfl
  | cons b bs ih =>
    have hb : b < 256 := h b List.mem_cons_self
    have hbs : ∀ x ∈ bs, x < 256 := fun x hx => h x (List.mem_cons_of_mem _ hx)
    rw [List.flatMap_cons, List.append_assoc, decodeBytes_encodeByte hb, ih hbs]
    rfl

theorem utf8_lt {cs : List Char} {b : Nat} (h : b ∈ Text.utf8 cs) : b < 256 := by
  simp only [Text.utf8, List.mem_flatMap, List.mem_map] at h
  obtain ⟨c, _, x, _, rfl⟩ := h
  exact UInt8.toNat_lt x

theorem decodeBytes_cons_of_ne {c : Char} (h : c ≠ '%') (rest : List Char) :
    decodeBytes (c :: rest) = Text.utf8 [c] ++ decodeBytes rest := by
  match rest with
  | [] => simp [decodeBytes]
  | [a] => simp [decodeBytes]
  | a :: b :: r => simp [decodeBytes, h]

theorem decodeBytes_encode {set : Char → Bool} (h : set '%' = true) (cs : List Char) :
    decodeBytes (encode set cs) = Text.utf8 cs := by
  induction cs with
  | nil => rfl
  | cons c cs ih =>
    rw [Text.utf8_cons, ← ih]
    show decodeBytes ((if set c then (Text.utf8 [c]).flatMap encodeByte else [c]) ++ encode set cs) = _
    split
    · exact decodeBytes_encodeBytes (fun b hb => utf8_lt hb) _
    · next hc =>
      have : c ≠ '%' := fun e => hc (e ▸ h)
      exact decodeBytes_cons_of_ne this _

end RestSql.Percent
