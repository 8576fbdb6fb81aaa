/-!
The UTF-8 form of a text and its lenient reading: every maximal ill-formed run of bytes reads as one
replacement character. Main statement: the UTF-8 form of a text reads as the text (`ofUtf8_utf8`).
-/

namespace RestSql.Text

/-- U+FFFD, which stands for bytes that are no UTF-8. -/
def replacement : Char := '\uFFFD'

/-- Number of bytes of the UTF-8 form. -/
def byteLength (cs : List Char) : Nat :=
  cs.foldl (fun n c => n + c.utf8Size) 0

/-- The bytes of the UTF-8 form. -/
def utf8 (cs : List Char) : List Nat :=
  cs.flatMap fun c => (String.utf8EncodeChar c).map UInt8.toNat

/-- The bounds of the byte that may follow the lead byte `b`, and how many bytes follow in all;
`none` if `b` leads no sequence. -/
def follow? (b : Nat) : Option (Nat × Nat × Nat) :=
  if 0xC2 ≤ b && b ≤ 0xDF then some (0x80, 0xBF, 1)
  else if b == 0xE0 then some (0xA0, 0xBF, 2)
  else if b == 0xED then some (0x80, 0x9F, 2)
  else if 0xE1 ≤ b && b ≤ 0xEF then some (0x80, 0xBF, 2)
  else if b == 0xF0 then some (0x90, 0xBF, 3)
  else if b == 0xF4 then some (0x80, 0x8F, 3)
  else if 0xF1 ≤ b && b ≤ 0xF3 then some (0x80, 0xBF, 3)
  else none

/-- The bits that the lead byte `b` of a sequence of `n + 1` bytes contributes. -/
def leadBits (b n : Nat) : Nat :=
  b % Nat.pow 2 (6 - n)

/-- Reads `n` bytes that continue a sequence, the first within `lo` and `hi`: how many bytes were
taken, and the code point if none was missing. -/
def continuation : Nat → Nat → Nat → Nat → List Nat → Nat × Option Nat
  | 0, _, _, acc, _ => (0, some acc)
  | _ + 1, _, _, _, [] => (0, none)
  | n + 1, lo, hi, acc, b :: bs =>
    if lo ≤ b && b ≤ hi then
      let (taken, code) := continuation n 0x80 0xBF (acc * 64 + b % 64) bs
      (taken + 1, code)
    else (0, none)

/-- The character that bytes starting with `b` begin with, and how many of the bytes after `b`
belong to it. -/
def firstChar (b : Nat) (bs : List Nat) : Char × Nat :=
  if b < 0x80 then (Char.ofNat b, 0)
  else match follow? b with
    | none => (replacement, 0)
    | some (lo, hi, n) =>
      match continuation n lo hi (leadBits b n) bs with
      | (taken, some code) => (Char.ofNat code, taken)
      | (taken, none) => (replacement, taken)

/-- The text whose UTF-8 form the bytes are, ill-formed runs replaced. -/
def ofUtf8 (bytes : List Nat) : List Char :=
  match bytes with
  | [] => []
  | b :: bs =>
    let (c, taken) := firstChar b bs
    c :: ofUtf8 (bs.drop taken)
termination_by bytes.length
decreasing_by
  rw [List.length_drop, List.length_cons]
  omega

/-! ## Reading what was written -/

theorem utf8_cons (c : Char) (cs : List Char) : utf8 (c :: cs) = utf8 [c] ++ utf8 cs := by
  simp [utf8]

/-- The bytes of the character with the code point `n`. -/
def codeBytes (n : Nat) : List Nat :=
  if n ≤ 0x7F then [n]
  else if n ≤ 0x7FF then [n / 64 + 0xC0, n % 64 + 0x80]
  else if n ≤ 0xFFFF then [n / 4096 + 0xE0, n / 64 % 64 + 0x80, n % 64 + 0x80]
  else [n / 262144 + 0xF0, n / 4096 % 64 + 0x80, n / 64 % 64 + 0x80, n % 64 + 0x80]

theorem utf8_singleton (c : Char) : utf8 [c] = codeBytes c.toNat := by
  have hvalid : c.toNat.isValidChar := c.valid
  have hval : c.val.toNat = c.toNat := rfl
  have hcode : utf8 [c] = (String.utf8EncodeChar c).map UInt8.toNat := by simp [utf8]
  rw [hcode, String.utf8EncodeChar, codeBytes, hval]
  generalize c.toNat = n at hvalid
  repeat' split
  all_goals
    simp only [List.map_cons, List.map_nil, UInt8.toNat_ofNat', List.cons.injEq, and_true]
    omega

theorem continuation_cons {lo hi b : Nat} (h : lo ≤ b ∧ b ≤ hi) (n acc : Nat) (bs : List Nat) :
    continuation (n + 1) lo hi acc (b :: bs) =
      ((continuation n 0x80 0xBF (acc * 64 + b % 64) bs).1 + 1,
        (continuation n 0x80 0xBF (acc * 64 + b % 64) bs).2) := by
  rw [continuation, if_pos (by simpa using h)]

theorem firstChar_of_follow {b lo hi n taken code : Nat} {bs : List Nat} (hb : 0x80 ≤ b)
    (hfollow : follow? b = some (lo, hi, n))
    (hcode : continuation n lo hi (leadBits b n) bs = (taken, some code)) :
    firstChar b bs = (Char.ofNat code, taken) := by
  rw [firstChar, if_neg (by omega), hfollow]
  dsimp only
  rw [hcode]

theorem follow?_two {n : Nat} (h : 0x7F < n) (h' : n ≤ 0x7FF) :
    follow? (n / 64 + 0xC0) = some (0x80, 0xBF, 1) := by
  have hlead : 0xC2 ≤ n / 64 + 0xC0 ∧ n / 64 + 0xC0 ≤ 0xDF := by omega
  rw [follow?, if_pos (by simpa using hlead)]

theorem follow?_three {n : Nat} (hvalid : n.isValidChar) (h : 0x7FF < n) (h' : n ≤ 0xFFFF) :
    ∃ lo hi, follow? (n / 4096 + 0xE0) = some (lo, hi, 2) ∧
      lo ≤ n / 64 % 64 + 0x80 ∧ n / 64 % 64 + 0x80 ≤ hi := by
  simp only [follow?, Bool.and_eq_true, decide_eq_true_eq, beq_iff_eq]
  split
  · omega
  split
  · exact ⟨_, _, rfl, by omega, by omega⟩
  split
  · exact ⟨_, _, rfl, by omega, by omega⟩
  split
  · exact ⟨_, _, rfl, by omega, by omega⟩
  · omega

theorem follow?_four {n : Nat} (hvalid : n.isValidChar) (h : 0xFFFF < n) :
    ∃ lo hi, follow? (n / 262144 + 0xF0) = some (lo, hi, 3) ∧
      lo ≤ n / 4096 % 64 + 0x80 ∧ n / 4096 % 64 + 0x80 ≤ hi := by
  simp only [follow?, Bool.and_eq_true, decide_eq_true_eq, beq_iff_eq]
  rw [if_neg (by omega), if_neg (by omega), if_neg (by omega), if_neg (by omega)]
  split
  · exact ⟨_, _, rfl, by omega, by omega⟩
  split
  · exact ⟨_, _, rfl, by omega, by omega⟩
  split
  · exact ⟨_, _, rfl, by omega, by omega⟩
  · omega

/-- The bytes of a character are read as that character, whatever follows them. -/
theorem firstChar_codeBytes {n : Nat} (hvalid : n.isValidChar) (rest : List Nat) :
    ∃ b bs, codeBytes n = b :: bs ∧ firstChar b (bs ++ rest) = (Char.ofNat n, bs.length) := by
  have htail (m : Nat) : 0x80 ≤ m % 64 + 0x80 ∧ m % 64 + 0x80 ≤ 0xBF := by omega
  unfold codeBytes
  split
  · refine ⟨_, _, rfl, ?_⟩
    rw [firstChar, if_pos (by omega)]
    rfl
  split
  · refine ⟨_, _, rfl, firstChar_of_follow (by omega) (follow?_two (by omega) (by omega)) ?_⟩
    rw [List.cons_append, continuation_cons (htail n), continuation, leadBits]
    simp only [List.length_cons, List.length_nil, Nat.pow_eq, Prod.mk.injEq, Option.some.injEq,
      true_and]
    omega
  split
  · obtain ⟨lo, hi, hfollow, hsecond⟩ := follow?_three hvalid (by omega) (by omega)
    refine ⟨_, _, rfl, firstChar_of_follow (by omega) hfollow ?_⟩
    rw [List.cons_append, List.cons_append, continuation_cons hsecond, continuation_cons (htail n),
      continuation, leadBits]
    simp only [List.length_cons, List.length_nil, Nat.pow_eq, Prod.mk.injEq, Option.some.injEq,
      true_and]
    omega
  · obtain ⟨lo, hi, hfollow, hsecond⟩ := follow?_four hvalid (by omega)
    refine ⟨_, _, rfl, firstChar_of_follow (by omega) hfollow ?_⟩
    rw [List.cons_append, List.cons_append, List.cons_append, continuation_cons hsecond,
      continuation_cons (htail (n / 64)), continuation_cons (htail n), continuation, leadBits]
    simp only [List.length_cons, List.length_nil, Nat.pow_eq, Prod.mk.injEq, Option.some.injEq,
      true_and]
    omega

theorem ofUtf8_utf8 (cs : List Char) : ofUtf8 (utf8 cs) = cs := by
  induction cs with
  | nil => rw [utf8, List.flatMap_nil, ofUtf8]
  | cons c cs ih =>
      obtain ⟨b, bs, hbytes, hfirst⟩ := firstChar_codeBytes c.valid (utf8 cs)
      have hcode : utf8 (c :: cs) = b :: (bs ++ utf8 cs) := by
        rw [utf8_cons, utf8_singleton, ← List.cons_append, ← hbytes]
        rfl
      rw [hcode, ofUtf8, hfirst]
      dsimp only
      rw [List.drop_left, ih]
      exact congrArg (· :: cs) (Char.ofNat_toNat c)

end RestSql.Text
