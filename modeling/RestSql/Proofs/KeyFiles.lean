import RestSql.Proofs.JsonReading
import RestSql.Token.KeyFile
import RestSql.Token.PrivateKey

/-!
# Key files that are written are read back

The bytes of a key, written as padded digits between the lines with its label, are read back
(`PrivateKey.isValid_text`), and so is a key file (`AccountKey.decode?_write`).
-/

namespace RestSql

/-! ## Digits -/

theorem Text.cutAround_append {part before : List Char} {c : Char} (hpart : part.head? = some c)
    (h : c ∉ before) (rest : List Char) :
    cutAround part (before ++ (part ++ rest)) = some (before, rest) := by
  cases part with
  | nil => cases hpart
  | cons d part =>
      cases hpart
      induction before with
      | nil =>
          rw [List.nil_append, List.cons_append, cutAround, ← List.cons_append, after?_append]
      | cons d before ih =>
          obtain ⟨hd, hbefore⟩ := not_or.1 (mt List.mem_cons.2 h)
          rw [List.cons_append, cutAround, after?, if_neg hd, ih hbefore]
          rfl

theorem Base64.mem_encode {b : Base64} (hlength : b.digits.length = 64) {bytes : List Nat}
    (h : ∀ n ∈ bytes, n < 256) : ∀ c ∈ b.encode bytes, c ∈ b.digits := by
  have hdigit {n : Nat} (hn : n < 64) : b.digit n ∈ b.digits := by
    rw [digit, List.getElem?_eq_getElem (hlength ▸ hn)]
    exact List.getElem_mem _
  fun_induction encode b bytes with
  | case1 x y z rest ih =>
      simp only [List.forall_mem_cons] at h ⊢
      obtain ⟨hx, hy, hz, hrest⟩ := h
      exact ⟨hdigit (by omega), hdigit (by omega), hdigit (by omega), hdigit (by omega), ih hrest⟩
  | case2 x y =>
      simp only [List.forall_mem_cons] at h ⊢
      obtain ⟨hx, hy, -⟩ := h
      exact ⟨hdigit (by omega), hdigit (by omega), hdigit (by omega), List.forall_mem_nil _⟩
  | case3 x =>
      simp only [List.forall_mem_cons] at h ⊢
      obtain ⟨hx, -⟩ := h
      exact ⟨hdigit (by omega), hdigit (by omega), List.forall_mem_nil _⟩
  | case4 => exact List.forall_mem_nil _

namespace PrivateKey

/-! ## Blocks -/

/-- The text of a block: the digits stand on a line between two lines with the label. -/
def blockText (label digits : List Char) : List Char :=
  "-----BEGIN ".toList ++ (label ++ ("-----".toList ++
    ('\n' :: (digits ++ ['\n']) ++ ("-----END ".toList ++ (label ++ ("-----".toList ++ ['\n']))))))

variable {label digits : List Char}

theorem block?_blockText (hlabel : '-' ∉ label) (hne : label ≠ []) (hdash : '-' ∉ digits)
    (hblank : ∀ c ∈ digits, Text.isBlank c = false) :
    block? (blockText label digits) = some (label, digits) := by
  have hline : '-' ∉ '\n' :: (digits ++ ['\n']) := by simp [hdash]
  have hbare : ('\n' :: (digits ++ ['\n'])).filter (!Text.isBlank ·) = digits := by
    have hkept : digits.filter (!Text.isBlank ·) = digits := by
      rw [List.filter_eq_self]
      intro c hc
      rw [hblank c hc]
      rfl
    rw [List.filter_cons_of_neg (by decide), List.filter_append, hkept]
    exact List.append_nil digits
  -- what is searched for starts with a dash, and no label and no digit is a dash
  have hhead : "-----BEGIN ".toList.head? = some '-' ∧ "-----".toList.head? = some '-' ∧
      "-----END ".toList.head? = some '-' := by
    decide +kernel
  obtain ⟨hbegin, hdashes, hend⟩ := hhead
  have hopening := Text.cutAround_append hbegin List.not_mem_nil
  have hfirst := Text.cutAround_append hdashes hlabel
  have hdigits := Text.cutAround_append hend hline
  unfold block? blockText
  rw [← List.nil_append ("-----BEGIN ".toList ++ _), hopening]
  show (Text.cutAround "-----".toList _).bind _ = _
  rw [hfirst]
  show (Text.cutAround "-----END ".toList _).bind _ = _
  rw [hdigits]
  show (Text.cutAround "-----".toList _).bind _ = _
  rw [hfirst]
  show (if label = label ∧ label ≠ [] then some (label, _) else none) = _
  rw [if_pos ⟨rfl, hne⟩, hbare]

/-- The digits of bytes, padded to a multiple of four. -/
def padded (bytes : List Nat) : List Char :=
  let digits := Base64.standard.encode bytes
  digits ++ List.replicate (3 - (digits.length + 3) % 4) '='

theorem length_encode_mod (b : Base64) (bytes : List Nat) : (b.encode bytes).length % 4 ≠ 1 := by
  fun_induction Base64.encode b bytes with
  | case1 x y z rest ih =>
      simp only [List.length_cons]
      omega
  | case2 x y => simp
  | case3 x => simp
  | case4 => simp

theorem of_mem_encode {bytes : List Nat} (h : ∀ n ∈ bytes, n < 256) {c : Char}
    (hc : c ∈ Base64.standard.encode bytes) : c ≠ '-' ∧ c ≠ '=' ∧ Text.isBlank c = false := by
  have hdigits : Base64.standard.digits.all
      (fun c => c != '-' && c != '=' && !Text.isBlank c) = true := by
    decide +kernel
  have hdigit := Base64.mem_encode (by decide +kernel) h c hc
  simpa [and_assoc] using List.all_eq_true.1 hdigits c hdigit

theorem mem_padded {bytes : List Nat} (h : ∀ n ∈ bytes, n < 256) :
    ∀ c ∈ padded bytes, c ≠ '-' ∧ Text.isBlank c = false := by
  intro c hc
  rcases List.mem_append.1 hc with hc | hc
  · obtain ⟨hdash, -, hblank⟩ := of_mem_encode h hc
    exact ⟨hdash, hblank⟩
  · rw [List.eq_of_mem_replicate hc]
    decide

theorem bytes?_padded {bytes : List Nat} (h : ∀ n ∈ bytes, n < 256) :
    bytes? (padded bytes) = some bytes := by
  have hmod := length_encode_mod .standard bytes
  -- the padding is cut off, and nothing else, for it is no digit
  have hbody : ((padded bytes).reverse.dropWhile (· == '=')).reverse = Base64.standard.encode bytes := by
    rw [padded, List.reverse_append, List.reverse_replicate,
      List.dropWhile_append_of_pos (fun c hc => by rw [List.eq_of_mem_replicate hc]; rfl)]
    cases hlast : (Base64.standard.encode bytes).reverse with
    | nil => exact (List.reverse_eq_nil_iff.1 hlast).symm
    | cons c cs =>
        have hc : c ∈ Base64.standard.encode bytes := List.mem_reverse.1 (hlast ▸ List.mem_cons_self)
        obtain ⟨-, hpad, -⟩ := of_mem_encode h hc
        rw [List.dropWhile_cons_of_neg (by simpa using hpad), ← hlast, List.reverse_reverse]
  have hlength : (padded bytes).length % 4 = 0 ∧
      (padded bytes).length ≤ (Base64.standard.encode bytes).length + 2 := by
    rw [padded, List.length_append, List.length_replicate]
    omega
  simp only [bytes?, hbody]
  rw [if_pos hlength, Base64.decode?_encode Base64.distinct_standard h]

/-- The label of keys that hold nothing but the numbers of a key. -/
def bareLabel : List Char := "RSA PRIVATE KEY".toList

def text (bytes : List Nat) : String :=
  String.ofList (blockText bareLabel (padded bytes))

/-- Bytes that are made of items are a key that can sign. -/
theorem isValid_text {bytes : List Nat} (h : ∀ n ∈ bytes, n < 256)
    (hitems : (leaves? (bytes.length + 1) bytes).isSome) : isValid (text bytes) = true := by
  have hdigits := mem_padded h
  have hblock : block? (blockText bareLabel (padded bytes)) = some (bareLabel, padded bytes) := by
    apply block?_blockText
    · decide +kernel
    · decide +kernel
    · exact fun hdash => (hdigits _ hdash).1 rfl
    · exact fun c hc => (hdigits c hc).2
  obtain ⟨leaves, hleaves⟩ := Option.isSome_iff_exists.1 hitems
  have hlabel : decide (bareLabel = "RSA PRIVATE KEY".toList) = true := rfl
  simp only [isValid, text, String.toList_ofList, hblock, bytes?_padded h, hleaves, hlabel,
    Option.bind_eq_bind, Option.bind_some]
  rfl

end PrivateKey

/-! ## Records of texts -/

namespace Json

def textFields (fields : List (String × String)) : List (String × Json) :=
  fields.map fun e => (e.1, .string e.2)

/-- The members that are read from them. -/
def textMembers (fields : List (String × String)) : List (List Piece × Tree) :=
  fields.map fun e => (e.1.toList.map Piece.ofChar, .string (e.2.toList.map Piece.ofChar))

variable (k v : String) (fields : List (String × String))

theorem joined_textFields_singleton (rest : List Char) :
    joined (writeFields (textFields [(k, v)])) ++ rest =
      (quote k).toList ++ ':' :: ((quote v).toList ++ rest) := by
  simp [textFields, joined, writeFields, write]

theorem joined_textFields_cons (l w : String) (rest : List Char) :
    joined (writeFields (textFields ((k, v) :: (l, w) :: fields))) ++ rest =
      (quote k).toList ++ ':' :: ((quote v).toList ++
        ',' :: (joined (writeFields (textFields ((l, w) :: fields))) ++ rest)) := by
  simp only [textFields, List.map_cons, writeFields, joined_cons_cons, write]
  simp

theorem length_le_joined : fields.length ≤ (joined (writeFields (textFields fields))).length := by
  induction fields with
  | nil => exact Nat.zero_le _
  | cons e fields ih =>
      obtain ⟨k, v⟩ := e
      cases fields with
      | nil =>
          have htext := congrArg List.length (joined_textFields_singleton k v [])
          simp only [List.length_append, List.length_cons, List.length_nil] at htext ⊢
          omega
      | cons e fields =>
          obtain ⟨l, w⟩ := e
          have htext := congrArg List.length (joined_textFields_cons k v fields l w [])
          simp only [List.length_append, List.length_cons] at htext ih ⊢
          omega

theorem readMembers?_texts {fuel : Nat} (hfuel : fields.length + 1 < fuel) (rest : List Char) :
    Tree.readMembers? fuel (joined (writeFields (textFields ((k, v) :: fields))) ++ '\x7d' :: rest) =
      some (textMembers ((k, v) :: fields), rest) := by
  induction fields generalizing k v fuel with
  | nil =>
      obtain ⟨fuel, rfl⟩ : ∃ n, fuel = n + 2 := ⟨fuel - 2, by omega⟩
      rw [joined_textFields_singleton]
      exact readMembers?_last k (read?_string v fuel _)
  | cons e fields ih =>
      obtain ⟨l, w⟩ := e
      simp only [List.length_cons] at hfuel
      obtain ⟨fuel, rfl⟩ : ∃ n, fuel = n + 2 := ⟨fuel - 2, by omega⟩
      rw [joined_textFields_cons, readMembers?_more k (read?_string v fuel _), ih l w (by omega)]
      rfl

theorem ofText?_texts : Tree.ofText? (write (.object (textFields ((k, v) :: fields)))) =
    some (.object (textMembers ((k, v) :: fields))) := by
  have hlength := length_le_joined ((k, v) :: fields)
  obtain ⟨cs, hcs⟩ := exists_joined_fields k (.string v) (textFields fields)
  have hmembers {fuel : Nat} (hfuel : fields.length + 1 < fuel) :=
    readMembers?_texts k v fields hfuel []
  have hread {fuel : Nat} (hfuel : fields.length + 1 < fuel) :
      Tree.read? (fuel + 1) (write (.object (textFields ((k, v) :: fields)))).toList =
        some (.object (textMembers ((k, v) :: fields)), []) := by
    have hmembers := hmembers hfuel
    rw [show joined (writeFields (textFields ((k, v) :: fields))) = _ from hcs] at hmembers
    rw [toList_write_object, show joined (writeFields (textFields ((k, v) :: fields))) = _ from hcs]
    rw [List.cons_append, read?_object rfl (by decide), ← List.cons_append, hmembers]
    rfl
  have hwritten : (write (.object (textFields ((k, v) :: fields)))).toList.length =
      (joined (writeFields (textFields ((k, v) :: fields)))).length + 2 := by
    rw [toList_write_object]
    simp
  simp only [List.length_cons] at hlength
  rw [Tree.ofText?, hread (by omega)]
  rfl

theorem Record.ofMembers?_texts {names : List String} (hnames : ∀ e ∈ fields, e.1 ∈ names)
    (hdistinct : (fields.map Prod.fst).Nodup) :
    ofMembers? names (textMembers fields) =
      some (fields.map fun e => (e.1, .string (e.2.toList.map Piece.ofChar))) := by
  induction fields with
  | nil => rfl
  | cons e fields ih =>
      obtain ⟨k, v⟩ := e
      obtain ⟨hknown, hnames⟩ := List.forall_mem_cons.1 hnames
      obtain ⟨hnew, hdistinct⟩ := List.nodup_cons.1 hdistinct
      have hmore := ih hnames hdistinct
      have habsent : (fields.map fun e => (e.1, Tree.string (e.2.toList.map Piece.ofChar))).any
          (·.1 == k) = false := by
        simp only [List.any_eq_false, List.forall_mem_map, beq_iff_eq]
        intro e he hk
        exact hnew (List.mem_map.2 ⟨e, he, hk⟩)
      simp only [textMembers, List.map_cons, ofMembers?] at hmore ⊢
      simp only [string?_map_ofChar, hmore, Option.bind_eq_bind, Option.bind_some, habsent,
        List.contains_iff_mem.2 hknown]
      rfl

end Json

namespace AccountKey

open Json (Record Decoder Piece)

def fields (k : AccountKey) : List (String × String) :=
  ("client_email", k.email) :: ("private_key", k.privateKey) ::
    k.tokenAddress.toList.map fun address => ("token_uri", address)

def text (k : AccountKey) : String :=
  (Json.object (Json.textFields k.fields)).write

/-- A key file that is written is read back. -/
theorem decode?_text (k : AccountKey) : Json.decode? decoder k.text = some k := by
  obtain ⟨email, privateKey, tokenAddress⟩ := k
  have hrecord (fields : List (String × String))
      (hnames : ∀ e ∈ fields, e.1 ∈ ["client_email", "private_key", "token_uri"])
      (hdistinct : (fields.map Prod.fst).Nodup) :
      Record.ofTree? ["client_email", "private_key", "token_uri"] Json.maxDepth
        (.object (Json.textMembers fields)) =
          some ⟨126, fields.map fun e => (e.1, .string (e.2.toList.map Piece.ofChar))⟩ :=
    congrArg (Option.map (Record.mk 126)) (Record.ofMembers?_texts fields hnames hdistinct)
  rw [Json.decode?, text, fields, Json.ofText?_texts, Option.bind_some, decoder]
  cases tokenAddress with
  | none =>
      rw [hrecord _ (by simp) (by simp)]
      simp [Record.required?, Record.field?, Decoder.text, Json.string?_map_ofChar]
  | some address =>
      rw [hrecord _ (by simp) (by simp)]
      simp [Record.required?, Record.field?, Decoder.text, Decoder.optional, Json.string?_map_ofChar]

end AccountKey
end RestSql
