import RestSql.InsertTemplate
import RestSql.Proofs.BareNames
import RestSql.Proofs.StringLiterals

/-!
# Templates that are filled in

A template becomes a statement when each slot is replaced by a literal. The text is read as an INSERT of
the columns of the template into its table, with one literal for each column, if the parts of the name of
the table and the columns need no quotes (`InsertTemplate.ofText_filled`).
-/

namespace RestSql

/-! ## Values with something in their slots -/

/-- The texts that may stand in the slot of a path, in quotes or not. -/
abbrev Filling := String → Bool → String → Prop

namespace TemplateValue

mutual

/-- The text is the value in a JSON text, with something in each slot. -/
def JsonFilled (f : Filling) : TemplateValue → String → Prop
  | slot path true, s => ∃ t, f path true t ∧ s = "\"" ++ t ++ "\""
  | slot path false, s => f path false s
  | array item, s => ∃ t, JsonFilled f item t ∧ s = "[ " ++ t ++ " ]"
  | object fields, s => ∃ texts, FieldsFilled f fields texts ∧
      s = "\x7b " ++ String.intercalate ", " texts ++ " \x7d"

def FieldsFilled (f : Filling) : List (String × TemplateValue) → List String → Prop
  | [], texts => texts = []
  | (key, v) :: rest, texts => ∃ t others, JsonFilled f v t ∧ FieldsFilled f rest others ∧
      texts = ("\"" ++ key ++ "\": " ++ t) :: others

end

/-- The text is the value in a statement, with something in each slot. -/
def Filled (f : Filling) : TemplateValue → String → Prop
  | slot path true, s => ∃ t, f path true t ∧ s = "'" ++ t ++ "'"
  | slot path false, s => f path false s
  | v, s => ∃ t, JsonFilled f v t ∧ s = "'" ++ t ++ "'"

/-- What stands in the slots of a template. -/
def placeholders : Filling :=
  fun path _ s => s = slotText path

mutual

theorem jsonFilled_placeholders_iff (v : TemplateValue) {s : String} :
    JsonFilled placeholders v s ↔ s = v.jsonText := by
  cases v with
  | slot path quoted => cases quoted <;> simp [JsonFilled, placeholders, jsonText]
  | array item => simp [JsonFilled, jsonText, jsonFilled_placeholders_iff item]
  | object fields => simp [JsonFilled, jsonText, fieldsFilled_placeholders_iff fields]

theorem fieldsFilled_placeholders_iff (fields : List (String × TemplateValue)) {texts : List String} :
    FieldsFilled placeholders fields texts ↔ texts = fieldTexts fields := by
  match fields with
  | [] => rw [FieldsFilled, fieldTexts]
  | (key, v) :: rest =>
      simp [FieldsFilled, fieldTexts, jsonFilled_placeholders_iff v,
        fieldsFilled_placeholders_iff rest]

end

/-- The text of a value in a template is the value with the placeholders in its slots. -/
theorem filled_placeholders_iff (v : TemplateValue) {s : String} :
    Filled placeholders v s ↔ s = v.text := by
  cases v with
  | slot path quoted => cases quoted <;> simp [Filled, placeholders, text]
  | array item => simp [Filled, text, jsonFilled_placeholders_iff]
  | object fields => simp [Filled, text, jsonFilled_placeholders_iff]

/-- A text without single quotes where the slot has quotes, and an integer of 64 bits where not. -/
def literals : Filling :=
  fun _ quoted s => if quoted then '\x27' ∉ s.toList else ∃ n, Word.isSigned n ∧ s = Text.ofInt n

mutual

/-- The names of the fields in a value. -/
def keys : TemplateValue → List String
  | slot _ _ => []
  | array item => keys item
  | object fields => fieldKeys fields

def fieldKeys : List (String × TemplateValue) → List String
  | [] => []
  | (key, v) :: rest => key :: (keys v ++ fieldKeys rest)

end

theorem mem_intercalate {c : Char} {sep : String} {texts : List String}
    (h : c ∈ (String.intercalate sep texts).toList) :
    c ∈ sep.toList ∨ ∃ t ∈ texts, c ∈ t.toList := by
  rw [String.toList_intercalate] at h
  obtain ⟨piece, hpiece, hc⟩ := List.mem_flatten.1 h
  rcases Text.eq_or_mem_of_mem_intersperse hpiece with rfl | hpiece
  · exact .inl hc
  · obtain ⟨t, ht, rfl⟩ := List.mem_map.1 hpiece
    exact .inr ⟨t, ht, hc⟩

theorem not_mem_of_literals {path s : String} {quoted : Bool} (h : literals path quoted s) :
    '\x27' ∉ s.toList := by
  cases quoted with
  | true => exact h
  | false =>
      obtain ⟨n, -, rfl⟩ := h
      intro hmem
      rcases Sql.numeric_of_mem_ofInt hmem with h | h <;> revert h <;> decide

mutual

/-- The only single quotes in a value would be those in the names of its fields. -/
theorem not_mem_of_jsonFilled (v : TemplateValue) {s : String} (h : JsonFilled literals v s)
    (hkeys : ∀ key ∈ v.keys, '\x27' ∉ key.toList) : '\x27' ∉ s.toList := by
  cases v with
  | slot path quoted =>
      cases quoted with
      | true =>
          obtain ⟨t, ht, rfl⟩ := h
          simpa using not_mem_of_literals ht
      | false => exact not_mem_of_literals h
  | array item =>
      obtain ⟨t, ht, rfl⟩ := h
      simpa using not_mem_of_jsonFilled item ht hkeys
  | object fields =>
      obtain ⟨texts, htexts, rfl⟩ := h
      have hfields := not_mem_of_fieldsFilled fields htexts hkeys
      have hjoined : '\x27' ∉ (String.intercalate ", " texts).toList := by
        intro hmem
        rcases mem_intercalate hmem with hmem | ⟨t, ht, hmem⟩
        · revert hmem
          decide
        · exact hfields t ht hmem
      simpa using hjoined

theorem not_mem_of_fieldsFilled (fields : List (String × TemplateValue)) {texts : List String}
    (h : FieldsFilled literals fields texts)
    (hkeys : ∀ key ∈ fieldKeys fields, '\x27' ∉ key.toList) : ∀ t ∈ texts, '\x27' ∉ t.toList := by
  match fields with
  | [] =>
      cases h
      exact nofun
  | (key, v) :: rest =>
      obtain ⟨t, others, ht, hothers, rfl⟩ := h
      simp only [fieldKeys, List.forall_mem_cons, List.forall_mem_append] at hkeys
      obtain ⟨hkey, hv, hrest⟩ := hkeys
      refine List.forall_mem_cons.2 ⟨?_, not_mem_of_fieldsFilled rest hothers hrest⟩
      simpa using ⟨hkey, not_mem_of_jsonFilled v ht hv⟩

end

end TemplateValue

/-! ## Values that are read as literals -/

namespace Sql

/-- On a line of its own the text is read as the literal, up to a comma or the end, and neither comments
nor blanks are taken off it. -/
structure IsWritten (s : String) (l : Literal) : Prop where
  read : ∀ rest, Stops rest →
    Expr.read ("\n  ".toList ++ s.toList ++ rest) = some (.literal l, rest)
  kept : IsKept s.toList
  ends : ∃ c, [c] <:+ s.toList ∧ Text.isBlank c = false

theorem doubled_eq_self {q : Char} {cs : List Char} (h : q ∉ cs) : doubled q cs = cs := by
  induction cs with
  | nil => rfl
  | cons c cs ih =>
      rw [List.mem_cons, not_or] at h
      rw [doubled_cons_of_ne (Ne.symm h.1), ih h.2]

theorem isWritten_quoted {s : String} (h : '\x27' ∉ s.toList) :
    IsWritten ("'" ++ s ++ "'") (.string s) := by
  have htext : ("'" ++ s ++ "'").toList = quotedText '\x27' s.toList := by
    simp [quotedText, doubled_eq_self h]
  refine ⟨fun rest hrest => ?_, ?_, '\x27', ⟨'\x27' :: s.toList, by simp⟩, by decide⟩
  · rw [htext]
    exact read_quotedText (.inl rfl) (by decide) s hrest
  · rw [htext]
    exact isKept_quotedText rfl s.toList

theorem isKept_ofInt (n : Int) : IsKept (Text.ofInt n).toList := by
  have hdigits : ∀ c ∈ Nat.toDigits 10 n.natAbs, c.isDigit = true :=
    fun _ => Text.isDigit_of_mem_toDigits
  have hkept : IsKept (Nat.toDigits 10 n.natAbs) := by
    refine isKept_of_forall fun c hc => ?_
    have hne {d : Char} (hd : d.isDigit = false) : c ≠ d := by
      rintro rfl
      cases (hdigits c hc).symm.trans hd
    simp [IsPlain, isQuote, hne (d := '\x27') rfl, hne (d := '\x22') rfl, hne (d := '\x60') rfl,
      hne (d := '-') rfl, hne (d := '/') rfl, hne (d := ';') rfl]
  by_cases hn : n < 0
  · obtain ⟨d, ds, hds, hd, -⟩ := Json.exists_toDigits n.natAbs
    rw [Text.toList_ofInt_of_neg hn]
    refine hkept.cons (by decide) fun rest => ?_
    rw [hds]
    rintro (⟨-, hhead⟩ | ⟨hslash, -⟩)
    · cases hhead
      cases hd
    · cases hslash
  · rw [Text.toList_ofInt_of_nonneg hn]
    exact hkept

theorem isWritten_ofInt {n : Int} (h : Word.isSigned n = true) :
    IsWritten (Text.ofInt n) (.integer n) := by
  obtain ⟨c, cs, htext, hc⟩ := Json.exists_ofInt n
  refine ⟨fun rest hrest => ?_, isKept_ofInt n, ?_⟩
  · have hliteral := literal_ofInt h hrest.closes.follows
    have hskip : skipSpace ("\n  ".toList ++ (Text.ofInt n).toList ++ rest) =
        c :: (cs ++ rest) := by
      rw [List.append_assoc, skipSpace_append (by decide), htext, List.cons_append,
        Json.skipSpace_of_not_isSpace (Json.isSpace_of_numeric hc)]
    rw [htext, List.cons_append] at hliteral
    refine Expr.read_of_literal hskip (Json.ne_of_numeric hc (by decide)) ?_ hliteral hrest
    rw [toUpper_of_numeric hc]
    exact Json.ne_of_numeric hc (by decide)
  · have hne : (Text.ofInt n).toList ≠ [] := by
      rw [htext]
      exact List.cons_ne_nil c cs
    refine ⟨_, ⟨_, List.dropLast_concat_getLast hne⟩, ?_⟩
    exact isBlank_of_numeric (numeric_of_mem_ofInt (List.getLast_mem hne))

/-! ## The statement -/

namespace Insert

/-- An INSERT statement as templates write it, up to its last value. -/
def written (parts columns values : List String) : List Char :=
  "INSERT INTO ".toList ++ (List.intercalate ['.'] (parts.map String.toList) ++ '(' ::
    (lines columns ++ '\n' :: ')' :: ("\nSELECT".toList ++ lines values)))

variable {parts columns : List String} {values : List (String × Literal)}

theorem atWordEnd_lines (texts : List String) : atWordEnd (lines texts) = true := by
  cases texts with
  | nil => rfl
  | cons s texts => cases texts <;> rfl

theorem readRows_written (hne : values ≠ []) (h : ∀ v ∈ values, IsWritten v.1 v.2) :
    readRows ("\nSELECT".toList ++ lines (values.map Prod.fst)) =
      some ([values.map fun v => .literal v.2], []) := by
  have hvalues : Reader.sepBy comma Expr.read (lines (values.map Prod.fst)) =
      some (values.map fun v => .literal v.2, []) := by
    have hread : Reader.sepBy comma Expr.read (List.intercalate [',']
        (values.map fun v => "\n  ".toList ++ v.1.toList) ++ []) =
          some (values.map fun v => .literal v.2, []) :=
      Reader.sepBy_intercalate Stops (fun _ => ⟨(), rfl⟩) stops_comma hne (fun v hv => (h v hv).read)
        stops_nil rfl
    rw [List.append_nil] at hread
    rw [lines, List.map_map]
    exact hread
  have hselect : keyword "SELECT" ("\nSELECT".toList ++ lines (values.map Prod.fst)) =
      some ((), lines (values.map Prod.fst)) :=
    keyword_append "SELECT" (by decide) (by decide) (atWordEnd_lines _)
  have hno : keyword "VALUES" ("\nSELECT".toList ++ lines (values.map Prod.fst)) = none :=
    keyword_eq_none "VALUES" (c := 'S') rfl (by decide) (by decide)
      ("ELECT".toList ++ lines (values.map Prod.fst))
  simp only [readRows, Reader.orElse, Reader.after, hno, Reader.map, hselect, hvalues,
    Option.map_some]

/-- The statement is read with its table, its columns and its values, unless the name of the table has too
many parts. -/
theorem read_written (hparts : parts ≠ []) (hbare : ∀ s ∈ parts, isBareName s = true)
    (hcolumns : columns ≠ []) (hnames : ∀ s ∈ columns, isBareName s = true) (hvalues : values ≠ [])
    (hwritten : ∀ v ∈ values, IsWritten v.1 v.2) :
    Insert.read (written parts columns (values.map Prod.fst)) =
      if parts.length ≤ Name.maxParts then
        some ({ directives := .empty, table := ⟨parts⟩, columns
                rows := [values.map fun v => .literal v.2] }, [])
      else none := by
  let afterTable : List Char :=
    '(' :: (lines columns ++ '\n' :: ')' :: ("\nSELECT".toList ++ lines (values.map Prod.fst)))
  let afterInto : List Char := List.intercalate ['.'] (parts.map String.toList) ++ afterTable
  have hinsert : keyword "INSERT" (written parts columns (values.map Prod.fst)) =
      some ((), " INTO ".toList ++ afterInto) :=
    keyword_append "INSERT" (by decide) (by decide) rfl
  have hinto : keyword "INTO" (" INTO ".toList ++ afterInto) = some ((), " ".toList ++ afterInto) :=
    keyword_append "INTO" (by decide) (by decide) rfl
  have htable : Name.read (" ".toList ++ afterInto) =
      if parts.length ≤ Name.maxParts then some (⟨parts⟩, afterTable) else none := by
    rw [Name.read_space (by decide)]
    exact Name.read_bare hparts hbare rfl rfl
  have hlist : Reader.optional nameList afterTable =
      (some columns, "\nSELECT".toList ++ lines (values.map Prod.fst)) := by
    rw [Reader.optional, nameList_lines hcolumns hnames]
  simp only [Insert.read, Option.bind_eq_bind, hinsert, hinto, htable, Option.bind_some]
  by_cases hlength : parts.length ≤ Name.maxParts
  · simp only [if_pos hlength, Option.bind_some, hlist, readRows_written hvalues hwritten,
      Option.getD_some]
  · simp only [if_neg hlength, Option.bind_none]

theorem isPlain_of_isNameChar {c : Char} (h : isNameChar c = true) : IsPlain c := by
  have hne {d : Char} (hd : isNameChar d = false) : c ≠ d := by
    rintro rfl
    cases h.symm.trans hd
  simp [IsPlain, isQuote, hne (d := '\x27') rfl, hne (d := '\x22') rfl, hne (d := '\x60') rfl,
    hne (d := '-') rfl, hne (d := '/') rfl, hne (d := ';') rfl]

theorem isKept_of_isBareName {s : String} (h : isBareName s = true) : IsKept s.toList :=
  isKept_of_forall fun _ hc => isPlain_of_isNameChar (isNameChar_of_mem h hc)

theorem isKept_intercalate {c : Char} (hc : IsPlain c) {pieces : List (List Char)}
    (h : ∀ piece ∈ pieces, IsKept piece) : IsKept (List.intercalate [c] pieces) := by
  have hsep : IsKept [c] := isKept_of_forall (by simpa using hc)
  induction pieces with
  | nil => exact isKept_nil
  | cons a pieces ih =>
      obtain ⟨ha, h⟩ := List.forall_mem_cons.1 h
      cases pieces with
      | nil => rwa [List.intercalate_singleton]
      | cons b pieces =>
          rw [List.intercalate_cons_cons]
          exact (ha.append hsep).append (ih h)

theorem isKept_lines {texts : List String} (h : ∀ s ∈ texts, IsKept s.toList) :
    IsKept (lines texts) := by
  refine isKept_intercalate (by simp [IsPlain, isQuote]) fun piece hpiece => ?_
  obtain ⟨s, hs, rfl⟩ := List.mem_map.1 hpiece
  exact (isKept_of_forall (by simp [IsPlain, isQuote])).append (h s hs)

theorem isKept_written (hbare : ∀ s ∈ parts, isBareName s = true)
    (hnames : ∀ s ∈ columns, isBareName s = true) (hwritten : ∀ v ∈ values, IsWritten v.1 v.2) :
    IsKept (written parts columns (values.map Prod.fst)) := by
  have htable : IsKept (List.intercalate ['.'] (parts.map String.toList)) := by
    refine isKept_intercalate (by simp [IsPlain, isQuote]) fun piece hpiece => ?_
    obtain ⟨s, hs, rfl⟩ := List.mem_map.1 hpiece
    exact isKept_of_isBareName (hbare s hs)
  have hcolumns : IsKept (lines columns) :=
    isKept_lines fun s hs => isKept_of_isBareName (hnames s hs)
  have hvalues : IsKept (lines (values.map Prod.fst)) := by
    refine isKept_lines fun s hs => ?_
    obtain ⟨v, hv, rfl⟩ := List.mem_map.1 hs
    exact (hwritten v hv).kept
  have hwords : written parts columns (values.map Prod.fst) =
      "INSERT INTO ".toList ++ (List.intercalate ['.'] (parts.map String.toList) ++
        ("(".toList ++ (lines columns ++
          ("\n)\nSELECT".toList ++ lines (values.map Prod.fst))))) := rfl
  have hinto : IsKept "INSERT INTO ".toList := isKept_of_forall (by simp [IsPlain, isQuote])
  have hopen : IsKept "(".toList := isKept_of_forall (by simp [IsPlain, isQuote])
  have hselect : IsKept "\n)\nSELECT".toList := isKept_of_forall (by simp [IsPlain, isQuote])
  rw [hwords]
  exact hinto.append (htable.append (hopen.append (hcolumns.append (hselect.append hvalues))))

/-- The statement does not end in a blank. -/
theorem written_ends (parts columns : List String) (hvalues : values ≠ [])
    (hwritten : ∀ v ∈ values, IsWritten v.1 v.2) :
    ∃ c, [c] <:+ written parts columns (values.map Prod.fst) ∧ Text.isBlank c = false := by
  obtain ⟨front, v, rfl⟩ : ∃ front v, values = front ++ [v] :=
    ⟨_, _, (List.dropLast_concat_getLast hvalues).symm⟩
  obtain ⟨c, hv, hc⟩ := (hwritten v (List.mem_append_right _ (List.mem_singleton_self v))).ends
  have hlines : v.1.toList <:+ lines ((front ++ [v]).map Prod.fst) := by
    rw [lines, List.map_map, List.map_append, List.map_singleton,
      Text.intercalate_append _ _ (List.cons_ne_nil _ _), List.intercalate_singleton]
    exact (List.suffix_append _ _).trans (List.suffix_append _ _)
  have hselect : lines ((front ++ [v]).map Prod.fst) <:+
      '\n' :: ')' :: ("\nSELECT".toList ++ lines ((front ++ [v]).map Prod.fst)) :=
    ((List.suffix_append _ _).trans (List.suffix_cons _ _)).trans (List.suffix_cons _ _)
  have hall : '\n' :: ')' :: ("\nSELECT".toList ++ lines ((front ++ [v]).map Prod.fst)) <:+
      written parts columns ((front ++ [v]).map Prod.fst) :=
    ((List.suffix_append _ _).trans (List.suffix_cons _ _)).trans
      ((List.suffix_append _ _).trans (List.suffix_append _ _))
  exact ⟨c, ((hv.trans hlines).trans hselect).trans hall, hc⟩

end Insert

/-- The end of a statement as templates write it is dropped. -/
theorem trimEnd_dropEnd {cs before : List Char} {a c : Char} (hstart : cs.head? = some a)
    (ha : Text.isBlank a = false) (hend : cs = before ++ [c]) (hc : Text.isBlank c = false) :
    Text.trimEnd (Statement.dropEnd (Text.trim (cs ++ "\n;\n".toList))) = cs := by
  obtain ⟨tail, htail⟩ := List.head?_eq_some_iff.1 hstart
  have htrim : Text.trim (cs ++ "\n;\n".toList) = (cs ++ ['\n']) ++ [';'] := by
    have hsemicolon : Text.trimEnd [';', '\n'] = [';'] := by decide
    have hsplit : cs ++ "\n;\n".toList = (cs ++ ['\n']) ++ [';', '\n'] := by simp
    rw [Text.trim_eq, hsplit, Text.trimEnd_append_of_ne_nil (by simp [hsemicolon]), hsemicolon,
      Text.trimStart, htail]
    exact List.dropWhile_cons_of_neg (by simp [ha])
  have hdrop : Statement.dropEnd ((cs ++ ['\n']) ++ [';']) = cs ++ ['\n'] := by
    rw [Statement.dropEnd, List.getLast?_concat, if_pos rfl, List.dropLast_concat]
  have hlast : Text.trimEnd [c, '\n'] = [c] := by
    rw [Text.trimEnd_cons_of_not_blank hc]
    rfl
  rw [htrim, hdrop, hend, List.append_assoc]
  exact (Text.trimEnd_append_of_ne_nil (b := [c, '\n']) (by simp [hlast]) before).trans (by rw [hlast])

/-- What starts with INSERT is an INSERT statement or none. -/
theorem Statement.read_insert {rest : List Char} (hrest : atWordEnd rest = true) :
    Statement.read ("INSERT".toList ++ rest) =
      Reader.map .insert Insert.read ("INSERT".toList ++ rest) := by
  have hkeyword (word : String) {w : Char} (hw : word.toList.head? = some w) (h : 'I' ≠ w) :
      keyword word ("INSERT".toList ++ rest) = none :=
    keyword_eq_none word (c := 'I') hw (by decide) h ("NSERT".toList ++ rest)
  have hleader : bareName (skipSpace ("INSERT".toList ++ rest)) = some ("INSERT", rest) :=
    bareName_append (s := "INSERT") (by decide) hrest
  generalize "INSERT".toList ++ rest = cs at *
  have hselect := hkeyword "SELECT" rfl (by decide)
  have hdelete := hkeyword "DELETE" rfl (by decide)
  have hexec := hkeyword "EXEC" rfl (by decide)
  have hshow := hkeyword "SHOW" rfl (by decide)
  have hdescribe := hkeyword "DESCRIBE" rfl (by decide)
  have hdesc := hkeyword "DESC" rfl (by decide)
  have hauth := hkeyword "AUTH" rfl (by decide)
  have huse := hkeyword "USE" rfl (by decide)
  have hsleep := hkeyword "SLEEP" rfl (by decide)
  have hunsupported : readUnsupported cs = none := by
    have hupper : Text.upper "INSERT" = "INSERT" := by
      rw [Text.upper, ← String.toList_inj, String.toList_map]
      rfl
    simp only [readUnsupported, hleader, Option.bind_eq_bind, Option.bind_some, hupper]
    rfl
  simp only [Statement.read, Reader.orElse, Reader.map, readSelect, Select.read, Delete.read, Exec.read,
    Show.read, Describe.read, oneOf, readAuth, Reader.after, hselect, hdelete, hexec, hshow, hdescribe,
    hdesc, hauth, huse, hsleep, hunsupported, Option.bind_eq_bind, Option.bind_none, Option.map_none]
  cases Insert.read cs <;> rfl

/-- The text that templates write is read as the statement, unless the name of the table has too many
parts. -/
theorem ofText_written {parts columns : List String} {values : List (String × Literal)}
    (hparts : parts ≠ []) (hbare : ∀ s ∈ parts, isBareName s = true) (hcolumns : columns ≠ [])
    (hnames : ∀ s ∈ columns, isBareName s = true) (hvalues : values ≠ [])
    (hwritten : ∀ v ∈ values, IsWritten v.1 v.2) {text : String}
    (htext : text.toList = Insert.written parts columns (values.map Prod.fst) ++ "\n;\n".toList) :
    Statement.ofText text = if parts.length ≤ Name.maxParts then
        .ok (.insert { directives := .empty, table := ⟨parts⟩, columns
                       rows := [values.map fun v => .literal v.2] })
      else .error (.noStatement 0
        (String.ofList (Insert.written parts columns (values.map Prod.fst)))) := by
  have hread := Insert.read_written hparts hbare hcolumns hnames hvalues hwritten
  have hkept := Insert.isKept_written hbare hnames hwritten
  obtain ⟨c, ⟨before, hend⟩, hc⟩ := Insert.written_ends parts columns hvalues hwritten
  obtain ⟨tail, hstart, htail⟩ : ∃ tail, Insert.written parts columns (values.map Prod.fst) =
      "INSERT".toList ++ tail ∧ atWordEnd tail = true := ⟨_, rfl, rfl⟩
  have hend := trimEnd_dropEnd (a := 'I') (by rw [hstart]; rfl) (by decide) hend.symm hc
  have hstatement := Statement.read_insert htail
  rw [← hstart, Reader.map, hread] at hstatement
  generalize Insert.written parts columns (values.map Prod.fst) = cs at *
  have hstrip : strip text = .ok (text, .empty) := by
    have hkept : IsKept (cs ++ "\n;\n".toList) := by
      have hnewline : IsKept "\n".toList := isKept_of_forall (by simp [IsPlain, isQuote])
      refine hkept.append ((IsKept.cons (IsKept.cons hnewline rfl ?_) rfl ?_))
      · rintro rest (⟨hline, -⟩ | ⟨hblock, -⟩) <;> contradiction
      · rintro rest (⟨hline, -⟩ | ⟨hblock, -⟩) <;> contradiction
    rw [strip, htext, hkept.stripFrom_eq, ← htext]
    simp [Except.map]
  rw [ofText_of_strip hstrip, htext, hend, Statement.ofBareText, if_neg (by simp [hstart]), hstatement]
  by_cases hlength : parts.length ≤ Name.maxParts
  · rw [if_pos hlength, if_pos hlength]
    rfl
  · rw [if_neg hlength, if_neg hlength]
    rfl

end Sql

/-! ## The text of a template -/

open Sql (IsWritten Literal isBareName isWritten_ofInt isWritten_quoted)
open TemplateValue (literals placeholders)

theorem TemplateValue.exists_isWritten {v : TemplateValue} {s : String} (h : v.Filled literals s)
    (hkeys : ∀ key ∈ v.keys, '\x27' ∉ key.toList) : ∃ l, IsWritten s l := by
  cases v with
  | slot path quoted =>
      cases quoted with
      | true =>
          obtain ⟨t, ht, rfl⟩ := h
          exact ⟨_, isWritten_quoted (not_mem_of_literals ht)⟩
      | false =>
          obtain ⟨n, hn, rfl⟩ := h
          exact ⟨_, isWritten_ofInt hn⟩
  | array item =>
      obtain ⟨t, ht, rfl⟩ := h
      exact ⟨_, isWritten_quoted (not_mem_of_jsonFilled _ ht hkeys)⟩
  | object fields =>
      obtain ⟨t, ht, rfl⟩ := h
      exact ⟨_, isWritten_quoted (not_mem_of_jsonFilled _ ht hkeys)⟩

namespace InsertTemplate

/-- The text of a template with the given texts for the values. -/
def textWith (t : InsertTemplate) (values : List String) : String :=
  "INSERT INTO " ++ t.table ++ "(\n" ++ block (t.entries.map (·.column)) ++ "\n)\nSELECT\n" ++
    block values ++ "\n;\n"

/-- The text is the template with something in each slot. -/
def Filled (f : Filling) (t : InsertTemplate) (text : String) : Prop :=
  ∃ values, List.Forall₂ (fun e s => e.value.Filled f s) t.entries values ∧ text = t.textWith values

theorem forall₂_placeholders_iff {entries : List TemplateEntry} {values : List String} :
    List.Forall₂ (fun e s => e.value.Filled placeholders s) entries values ↔
      values = entries.map (·.value.text) := by
  induction entries generalizing values with
  | nil => exact List.forall₂_nil_left_iff
  | cons e entries ih =>
      simp only [List.forall₂_cons_left_iff, ih, List.map_cons, exists_and_left, exists_eq_left]
      simp only [TemplateValue.filled_placeholders_iff, exists_eq_left]

/-- The text of a template is the template with the placeholders in its slots. -/
theorem filled_placeholders_iff (t : InsertTemplate) {text : String} :
    t.Filled placeholders text ↔ text = t.text := by
  unfold Filled
  simp only [forall₂_placeholders_iff, exists_eq_left]
  rfl

theorem exists_isWritten {entries : List TemplateEntry} {texts : List String}
    (h : List.Forall₂ (fun e s => e.value.Filled literals s) entries texts)
    (hkeys : ∀ e ∈ entries, ∀ key ∈ e.value.keys, '\x27' ∉ key.toList) :
    ∃ values : List (String × Literal), values.map Prod.fst = texts ∧
      ∀ v ∈ values, IsWritten v.1 v.2 := by
  induction h with
  | nil => exact ⟨[], rfl, nofun⟩
  | cons he _ ih =>
      obtain ⟨hkey, hkeys⟩ := List.forall_mem_cons.1 hkeys
      obtain ⟨l, hl⟩ := TemplateValue.exists_isWritten he hkey
      obtain ⟨values, rfl, hvalues⟩ := ih hkeys
      exact ⟨(_, l) :: values, rfl, List.forall_mem_cons.2 ⟨hl, hvalues⟩⟩

/-- There are columns, and neither they nor the names of fields need quotes. -/
structure HasPlainNames (t : InsertTemplate) : Prop where
  entries_ne : t.entries ≠ []
  columns : ∀ e ∈ t.entries, isBareName e.column = true
  keys : ∀ e ∈ t.entries, ∀ key ∈ e.value.keys, '\x27' ∉ key.toList

theorem toList_block {texts : List String} (hne : texts ≠ []) :
    '\n' :: (block texts).toList = Sql.lines texts := by
  rw [block, String.toList_intercalate, List.map_map, Sql.lines]
  induction texts with
  | nil => exact absurd rfl hne
  | cons s texts ih =>
      cases texts with
      | nil =>
          rw [List.map_singleton, List.map_singleton, List.intercalate_singleton,
            List.intercalate_singleton, Function.comp_apply, String.toList_append]
          rfl
      | cons s' texts =>
          have hline (line rest : List Char) : '\n' :: ("  ".toList ++ line ++ (",\n".toList ++ rest)) =
              "\n  ".toList ++ line ++ ([','] ++ '\n' :: rest) := rfl
          have ih := ih (List.cons_ne_nil s' texts)
          rw [List.map_cons, List.map_cons] at ih
          rw [List.map_cons, List.map_cons, List.map_cons, List.map_cons, List.intercalate_cons_cons,
            List.intercalate_cons_cons, ← ih, Function.comp_apply, String.toList_append,
            List.append_assoc _ ",\n".toList, List.append_assoc _ [','], hline]

theorem toList_textWith {t : InsertTemplate} {parts values : List String}
    (htable : t.table = String.intercalate "." parts) (hentries : t.entries ≠ [])
    (hvalues : values ≠ []) :
    (t.textWith values).toList =
      Sql.Insert.written parts (t.entries.map (·.column)) values ++ "\n;\n".toList := by
  have hcolumns : t.entries.map (·.column) ≠ [] := mt List.map_eq_nil_iff.1 hentries
  have htable : t.table.toList = List.intercalate ['.'] (parts.map String.toList) := by
    rw [htable, String.toList_intercalate]
    rfl
  have hlist (columns values rest : List Char) :
      "(\n".toList ++ (columns ++ ("\n)\nSELECT\n".toList ++ (values ++ rest))) =
        '(' :: ('\n' :: columns ++ '\n' :: ')' :: ("\nSELECT".toList ++ '\n' :: values)) ++ rest := by
    show '(' :: '\n' :: (columns ++ ("\n)\nSELECT\n".toList ++ (values ++ rest))) =
      '(' :: '\n' :: ((columns ++ ("\n)\nSELECT\n".toList ++ values)) ++ rest)
    rw [List.append_assoc, List.append_assoc]
  -- with the fixed words as variables, so that they are not evaluated
  have hpieces (a b c d e f g : String) : (a ++ b ++ c ++ d ++ e ++ f ++ g).toList = a.toList ++
      (b.toList ++ (c.toList ++ (d.toList ++ (e.toList ++ (f.toList ++ g.toList))))) := by
    simp only [String.toList_append, List.append_assoc]
  have htext : (t.textWith values).toList = "INSERT INTO ".toList ++ (t.table.toList ++
      ("(\n".toList ++ ((block (t.entries.map (·.column))).toList ++ ("\n)\nSELECT\n".toList ++
        ((block values).toList ++ "\n;\n".toList))))) :=
    hpieces _ _ _ _ _ _ _
  have hwritten : Sql.Insert.written parts (t.entries.map (·.column)) values =
      "INSERT INTO ".toList ++ (List.intercalate ['.'] (parts.map String.toList) ++ '(' ::
        ('\n' :: (block (t.entries.map (·.column))).toList ++ '\n' :: ')' ::
          ("\nSELECT".toList ++ '\n' :: (block values).toList))) := by
    rw [toList_block hcolumns, toList_block hvalues]
    rfl
  rw [htext, htable, hlist, hwritten, List.append_assoc, List.append_assoc]

/-- A template that is filled with literals is read as an INSERT of its columns into its table, with a
literal for each column, unless the name of the table has too many parts. -/
theorem ofText_filled {t : InsertTemplate} (h : t.HasPlainNames) {parts : List String}
    (htable : t.table = String.intercalate "." parts) (hparts : parts ≠ [])
    (hbare : ∀ s ∈ parts, isBareName s = true) {text : String} (htext : t.Filled literals text) :
    ∃ (values : List Literal) (e : Sql.ParseError), values.length = t.entries.length ∧
      Sql.Statement.ofText text = if parts.length ≤ Sql.Name.maxParts then
          .ok (.insert { directives := .empty, table := ⟨parts⟩, columns := t.entries.map (·.column)
                         rows := [values.map .literal] })
        else .error e := by
  obtain ⟨texts, hfilled, rfl⟩ := htext
  obtain ⟨values, rfl, hwritten⟩ := exists_isWritten hfilled h.keys
  have hlengths := hfilled.length_eq
  rw [List.length_map] at hlengths
  have hvalues : values ≠ [] := by
    rintro rfl
    exact h.entries_ne (List.eq_nil_of_length_eq_zero hlengths)
  have hcolumns : t.entries.map (·.column) ≠ [] := mt List.map_eq_nil_iff.1 h.entries_ne
  have hread := Sql.ofText_written hparts hbare hcolumns (List.forall_mem_map.2 h.columns)
    hvalues hwritten (toList_textWith htable h.entries_ne (mt List.map_eq_nil_iff.1 hvalues))
  have hrow : (values.map Prod.snd).map Sql.Expr.literal = values.map fun v => .literal v.2 :=
    List.map_map
  rw [← hrow] at hread
  exact ⟨values.map Prod.snd, _, by rw [List.length_map, hlengths], hread⟩

end InsertTemplate
end RestSql
