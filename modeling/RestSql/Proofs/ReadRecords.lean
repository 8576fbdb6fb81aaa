import RestSql.Proofs.StringLiterals
import RestSql.ResultSet.Render
import RestSql.Text.Reader

/-!
# Records are read back

A reader of records: a record ends with a line feed, maybe after a carriage return, or with the text; its
fields have a delimiter between them, and a field between double quotes holds anything, its quotes written
twice. It reads back what is written but for two things. A carriage return at the end of a line is taken for
a part of the line end, unless it stands between quotes, and a last line without any text is no record
(`ResultSet.read_written_records`).
-/

namespace RestSql

namespace Records

/-! ## Reading records -/

/-- A line feed, maybe after a carriage return. -/
def lineEnd : Reader Unit
  | '\n' :: cs => some ((), cs)
  | '\r' :: '\n' :: cs => some ((), cs)
  | _ => none

/-- No character at the front that belongs to a field without quotes. -/
def atFieldEnd (delimiter : Char) (cs : List Char) : Bool :=
  cs.isEmpty || cs.head? == some delimiter || cs.head? == some '\x22' || (lineEnd cs).isSome

/-- The characters of a field without quotes. -/
def bareField (delimiter : Char) : List Char → List Char × List Char
  | [] => ([], [])
  | c :: cs =>
    if atFieldEnd delimiter (c :: cs) then ([], c :: cs)
    else
      let (field, rest) := bareField delimiter cs
      (c :: field, rest)

/-- A field, with quotes or without them. -/
def field (delimiter : Char) : Reader String
  | '\x22' :: cs => (Sql.quotedRest '\x22' cs).map fun (s, rest) => (String.ofList s, rest)
  | cs =>
    let (s, rest) := bareField delimiter cs
    some (String.ofList s, rest)

/-- The fields of a record. -/
def fields (delimiter : Char) : Reader (List String) :=
  Reader.sepBy (Reader.one delimiter) (field delimiter)

/-- The end of the text. -/
def textEnd : Reader Unit
  | [] => some ((), [])
  | _ => none

/-- A record with its end. -/
def record (delimiter : Char) : Reader (List String) :=
  (fields delimiter).before (lineEnd.orElse textEnd)

/-- The records of a text. -/
def read (delimiter : Char) (text : String) : Option (List (List String)) :=
  match Reader.many (record delimiter) text.toList with
  | (records, []) => some records
  | _ => none

/-- A delimiter that is neither a quote nor a part of a line end. -/
def IsDelimiter (d : Char) : Prop :=
  d ≠ '\x22' ∧ d ≠ '\r' ∧ d ≠ '\n'

instance (d : Char) : Decidable (IsDelimiter d) :=
  inferInstanceAs (Decidable (_ ∧ _))

variable {d : Char}

/-! ## Fields -/

/-- The field is written without quotes. -/
def IsBare (d : Char) (s : String) : Prop :=
  ∀ c ∈ s.toList, c ≠ d ∧ c ≠ '\x22' ∧ c ≠ '\n'

/-- The carriage return at the end of the field stays apart from what follows. -/
def KeptBefore (d : Char) (rest : List Char) (s : String) : Prop :=
  rest.head? = some '\n' → IsBare d s → s.toList.getLast? ≠ some '\r'

theorem toList_csvField_of_bare {s : String} (h : IsBare d s) :
    (ResultSet.csvField d s).toList = s.toList := by
  have hnot {c : Char} (hc : c = d ∨ c = '\x22' ∨ c = '\n') : c ∉ s.toList := by
    intro hmem
    obtain ⟨hd, hquote, hline⟩ := h c hmem
    rcases hc with hc | hc | hc <;> contradiction
  simp [ResultSet.csvField, hnot]

theorem toList_csvField_of_not_bare {s : String} (h : ¬IsBare d s) :
    (ResultSet.csvField d s).toList = Sql.quotedText '\x22' s.toList := by
  have hsome : d ∈ s.toList ∨ '\x22' ∈ s.toList ∨ '\n' ∈ s.toList := by
    by_contra hnone
    simp only [not_or] at hnone
    refine h fun c hc => ⟨?_, ?_, ?_⟩ <;> rintro rfl
    exacts [hnone.1 hc, hnone.2.1 hc, hnone.2.2 hc]
  have hquoted : (s.toList.contains d || s.toList.contains '\x22' || s.toList.contains '\n') = true := by
    simpa [or_assoc] using hsome
  simp only [ResultSet.csvField]
  rw [if_pos hquoted]
  simp [Sql.quotedText, Sql.doubled]

theorem atFieldEnd_cons_iff {c : Char} {cs : List Char} :
    atFieldEnd d (c :: cs) = true ↔
      c = d ∨ c = '\x22' ∨ c = '\n' ∨ (c = '\r' ∧ cs.head? = some '\n') := by
  have hline : (lineEnd (c :: cs)).isSome = true ↔ c = '\n' ∨ (c = '\r' ∧ cs.head? = some '\n') := by
    unfold lineEnd
    split <;> simp_all [List.head?_eq_some_iff]
  simp [atFieldEnd, hline, or_assoc]

theorem bareField_append {cs rest : List Char} (hbare : ∀ c ∈ cs, c ≠ d ∧ c ≠ '\x22' ∧ c ≠ '\n')
    (hrest : atFieldEnd d rest = true) (hkept : rest.head? = some '\n' → cs.getLast? ≠ some '\r') :
    bareField d (cs ++ rest) = (cs, rest) := by
  induction cs with
  | nil =>
      cases rest with
      | nil => rfl
      | cons c rest => rw [List.nil_append, bareField, if_pos hrest]
  | cons c cs ih =>
      obtain ⟨⟨hd, hquote, hline⟩, hcs⟩ := List.forall_mem_cons.1 hbare
      have hinside : ¬atFieldEnd d (c :: (cs ++ rest)) = true := by
        rw [atFieldEnd_cons_iff]
        rintro (h | h | h | ⟨rfl, hnext⟩)
        · exact hd h
        · exact hquote h
        · exact hline h
        · cases cs with
          | nil => exact hkept hnext rfl
          | cons c cs => exact (hcs c List.mem_cons_self).2.2 (Option.some.inj hnext)
      have hmore : bareField d (cs ++ rest) = (cs, rest) := by
        refine ih hcs fun hnext hlast => hkept hnext ?_
        rw [List.getLast?_cons, hlast]
        rfl
      rw [List.cons_append, bareField, if_neg hinside, hmore]

/-- A field is read back before what ends it. -/
theorem field_csvField {s : String} {rest : List Char} (hrest : atFieldEnd d rest = true)
    (hquote : rest.head? ≠ some '\x22') (hkept : KeptBefore d rest s) :
    field d ((ResultSet.csvField d s).toList ++ rest) = some (s, rest) := by
  by_cases hbare : IsBare d s
  · have hread := bareField_append hbare hrest fun hnext => hkept hnext hbare
    rw [toList_csvField_of_bare hbare]
    unfold field
    split
    · next cs hcs =>
      cases hs : s.toList with
      | nil =>
          rw [hs, List.nil_append] at hcs
          exact absurd (congrArg List.head? hcs) hquote
      | cons c _ =>
          rw [hs, List.cons_append] at hcs
          have hc := (hbare c (hs ▸ List.mem_cons_self)).2.1
          exact absurd (List.cons.inj hcs).1 hc
    · rw [hread]
      simp
  · rw [toList_csvField_of_not_bare hbare, Sql.quotedText, List.cons_append, List.append_assoc,
      List.singleton_append, field, Sql.quotedRest_doubled hquote]
    simp

/-! ## Records -/

instance (d : Char) (s : String) : Decidable (IsBare d s) :=
  List.decidableBAll _ s.toList

/-- The text of a record. -/
def line (d : Char) (fs : List String) : List Char :=
  List.intercalate [d] (fs.map fun s => (ResultSet.csvField d s).toList)

theorem line_cons (d : Char) (s : String) (fs : List String) :
    line d (s :: fs) = (ResultSet.csvField d s).toList ++
      fs.flatMap fun s => d :: (ResultSet.csvField d s).toList := by
  rw [line, List.map_cons, Text.intercalate_cons, List.flatMap_map]
  rfl

theorem line_cons_cons (d : Char) (s t : String) (fs : List String) :
    line d (s :: t :: fs) = (ResultSet.csvField d s).toList ++ d :: line d (t :: fs) := by
  rw [line_cons, line_cons, List.flatMap_cons]
  rfl

/-- The fields of a record after its first one. -/
def more (d : Char) (fs : List String) : List Char :=
  fs.flatMap fun s => d :: (ResultSet.csvField d s).toList

/-- The record ends before the text. -/
def EndsRecord (rest : List Char) : Prop :=
  rest = [] ∨ ∃ cs, lineEnd rest = some ((), cs)

theorem EndsRecord.head_cases {rest : List Char} (h : EndsRecord rest) :
    rest = [] ∨ rest.head? = some '\n' ∨ rest.head? = some '\r' := by
  refine h.imp_right ?_
  rintro ⟨cs, h⟩
  unfold lineEnd at h
  split at h
  · exact .inl rfl
  · exact .inr rfl
  · cases h

theorem EndsRecord.head_ne {rest : List Char} (h : EndsRecord rest) {c : Char} (hc : c ≠ '\r')
    (hn : c ≠ '\n') : rest.head? ≠ some c := by
  intro hhead
  rcases h.head_cases with rfl | h | h
  · cases hhead
  · exact hn (Option.some.inj (hhead.symm.trans h))
  · exact hc (Option.some.inj (hhead.symm.trans h))

theorem EndsRecord.atFieldEnd {rest : List Char} (h : EndsRecord rest) (d : Char) :
    atFieldEnd d rest = true := by
  rcases h with rfl | ⟨cs, h⟩
  · rfl
  · simp [Records.atFieldEnd, h]

section

variable {rest : List Char} {s : String} {fs : List String}

/-- A field of a record is read back; only of the last one the end of the line may take something. -/
theorem field_of_record (hd : IsDelimiter d) (hrest : EndsRecord rest)
    (hkept : ∀ t ∈ (s :: fs).getLast?, KeptBefore d rest t) :
    field d ((ResultSet.csvField d s).toList ++ (more d fs ++ rest)) = some (s, more d fs ++ rest) := by
  cases fs with
  | nil => exact field_csvField (hrest.atFieldEnd d) (hrest.head_ne (by decide) (by decide)) (hkept s rfl)
  | cons t fs =>
      have hnext : (more d (t :: fs) ++ rest).head? = some d := rfl
      refine field_csvField (atFieldEnd_cons_iff.2 (.inl rfl)) ?_ ?_
      · rw [hnext]
        exact fun h => hd.1 (Option.some.inj h)
      · rw [KeptBefore, hnext]
        exact fun h => absurd (Option.some.inj h) hd.2.2

theorem kept_tail (hkept : ∀ t ∈ (s :: fs).getLast?, KeptBefore d rest t) :
    ∀ t ∈ fs.getLast?, KeptBefore d rest t := by
  intro t ht
  apply hkept t
  rw [List.getLast?_cons, ht]
  rfl

theorem many_fields (hd : IsDelimiter d) (hrest : EndsRecord rest)
    (hkept : ∀ t ∈ fs.getLast?, KeptBefore d rest t) :
    Reader.many (Reader.after (Reader.one d) (field d)) (more d fs ++ rest) = (fs, rest) := by
  induction fs with
  | nil =>
      have hstop : Reader.one d rest = none := by
        cases hr : rest with
        | nil => rfl
        | cons c cs =>
            have hc : c ≠ d := fun h => hrest.head_ne hd.2.1 hd.2.2 (by rw [hr, h]; rfl)
            simp [Reader.one, Reader.satisfying, hc]
      rw [more, List.flatMap_nil, List.nil_append, Reader.many]
      simp [Reader.after, hstop]
  | cons s fs ih =>
      have hread : Reader.after (Reader.one d) (field d)
          (d :: ((ResultSet.csvField d s).toList ++ (more d fs ++ rest))) =
            some (s, more d fs ++ rest) := by
        simp [Reader.after, Reader.one, Reader.satisfying, field_of_record hd hrest hkept]
      rw [more, List.flatMap_cons, List.cons_append, List.cons_append, List.append_assoc, ← more,
        Reader.many, hread]
      dsimp only
      rw [if_pos (by simp only [List.length_cons, List.length_append]; omega), ih (kept_tail hkept)]

/-- The fields of a record are read back, unless the end of the line takes something of the last one. -/
theorem fields_line (hd : IsDelimiter d) (hrest : EndsRecord rest) (hne : fs ≠ [])
    (hkept : ∀ t ∈ fs.getLast?, KeptBefore d rest t) :
    fields d (line d fs ++ rest) = some (fs, rest) := by
  obtain ⟨s, fs, rfl⟩ := List.exists_cons_of_ne_nil hne
  rw [line_cons, ← more, List.append_assoc, fields, Reader.sepBy, field_of_record hd hrest hkept]
  dsimp only
  rw [many_fields hd hrest (kept_tail hkept)]

/-- At the end of the text a record is read back. -/
theorem record_line (hd : IsDelimiter d) (hne : fs ≠ []) : record d (line d fs) = some (fs, []) := by
  have hfields : fields d (line d fs ++ []) = some (fs, []) :=
    fields_line hd (.inl rfl) hne fun _ _ hnext => nomatch hnext
  rw [List.append_nil] at hfields
  rw [record, Reader.before, hfields]
  rfl

end

/-! ## Lines -/

/-- The line end takes the last character of the field. -/
def LosesEnd (d : Char) (s : String) : Prop :=
  IsBare d s ∧ s.toList.getLast? = some '\r'

instance (d : Char) (s : String) : Decidable (LosesEnd d s) :=
  inferInstanceAs (Decidable (_ ∧ _))

/-- The fields of a record as they are read where a line feed follows them. -/
def readFields (d : Char) : List String → List String
  | [] => []
  | [s] => [if LosesEnd d s then String.ofList s.toList.dropLast else s]
  | s :: t :: fs => s :: readFields d (t :: fs)

theorem readFields_ne_nil {fs : List String} (hne : fs ≠ []) : readFields d fs ≠ [] := by
  cases fs with
  | nil => exact absurd rfl hne
  | cons s fs => cases fs <;> exact List.cons_ne_nil _ _

theorem readFields_eq_self_iff {fs : List String} :
    readFields d fs = fs ↔ ∀ s ∈ fs.getLast?, ¬LosesEnd d s := by
  fun_induction readFields d fs with
  | case1 => simp
  | case2 s =>
      have hshorter : LosesEnd d s → String.ofList s.toList.dropLast ≠ s := by
        intro h heq
        have hlength := congrArg (fun s => s.toList.length) heq
        have hne : s.toList ≠ [] := fun hs => by rw [LosesEnd, hs] at h; cases h.2
        have hpos := List.length_pos_iff.2 hne
        simp only [String.toList_ofList, List.length_dropLast] at hlength
        omega
      by_cases h : LosesEnd d s
      · simpa [h] using hshorter h
      · simp [h]
  | case3 s t fs ih => rw [List.cons.injEq, ih]; simp

/-- A line with its line feed is the line of the fields that are read, with the line end that is read. -/
theorem line_append_lineFeed (d : Char) {fs : List String} (hne : fs ≠ []) (cs : List Char) :
    ∃ rest, line d fs ++ '\n' :: cs = line d (readFields d fs) ++ rest ∧
      lineEnd rest = some ((), cs) ∧ ∀ t ∈ (readFields d fs).getLast?, KeptBefore d rest t := by
  fun_induction readFields d fs with
  | case1 => exact absurd rfl hne
  | case2 s =>
      by_cases h : LosesEnd d s
      · obtain ⟨hbare, hlast⟩ := h
        obtain ⟨front, hfront⟩ := List.getLast?_eq_some_iff.1 hlast
        have hread : IsBare d (String.ofList front) := by
          intro c hc
          rw [String.toList_ofList] at hc
          exact hbare c (hfront ▸ List.mem_append_left _ hc)
        refine ⟨'\r' :: '\n' :: cs, ?_, rfl, fun _ _ hnext => nomatch hnext⟩
        simp only [line_cons, List.flatMap_nil, List.append_nil]
        rw [if_pos ⟨hbare, hlast⟩, toList_csvField_of_bare hbare, hfront, List.dropLast_concat,
          toList_csvField_of_bare hread, String.toList_ofList, List.append_assoc,
          List.singleton_append]
      · refine ⟨'\n' :: cs, ?_, rfl, ?_⟩
        · rw [if_neg h]
        · rw [if_neg h]
          rintro t ⟨⟩ - hbare hlast
          exact h ⟨hbare, hlast⟩
  | case3 s t fs ih =>
      obtain ⟨rest, hline, hend, hkept⟩ := ih (List.cons_ne_nil t fs)
      obtain ⟨u, us, hu⟩ := List.exists_cons_of_ne_nil (readFields_ne_nil (d := d) (List.cons_ne_nil t fs))
      refine ⟨rest, ?_, hend, ?_⟩
      · rw [line_cons_cons, List.append_assoc, List.cons_append, hline, hu, line_cons_cons,
          List.append_assoc, List.cons_append]
      · rw [hu] at hkept ⊢
        rw [List.getLast?_cons_cons]
        exact hkept

/-- A record is read with its line feed, and the line end takes what it can. -/
theorem record_line_append (hd : IsDelimiter d) {fs : List String} (hne : fs ≠ []) (cs : List Char) :
    record d (line d fs ++ '\n' :: cs) = some (readFields d fs, cs) := by
  obtain ⟨rest, hline, hend, hkept⟩ := line_append_lineFeed d hne cs
  have hfields := fields_line hd (.inr ⟨cs, hend⟩) (readFields_ne_nil hne) hkept
  rw [hline, record, Reader.before, hfields]
  simp [Reader.orElse, hend]

theorem line_eq_nil_iff {fs : List String} (hne : fs ≠ []) : line d fs = [] ↔ fs = [""] := by
  match fs with
  | [s] =>
      rw [line_cons, List.flatMap_nil, List.append_nil]
      by_cases hbare : IsBare d s
      · simp [toList_csvField_of_bare hbare]
      · have hs : s ≠ "" := by
          rintro rfl
          exact hbare fun c hc => nomatch hc
        simp [toList_csvField_of_not_bare hbare, Sql.quotedText, hs]
  | s :: t :: fs => simp [line_cons_cons]

/-! ## Texts of records -/

/-- The records as they are read. -/
def readRecords (d : Char) : List (List String) → List (List String)
  | [] => []
  | [fs] => if fs = [""] then [] else [fs]
  | fs :: gs :: more => readFields d fs :: readRecords d (gs :: more)

theorem many_lines (hd : IsDelimiter d) {records : List (List String)} (hne : ∀ fs ∈ records, fs ≠ []) :
    Reader.many (record d) (List.intercalate ['\n'] (records.map (line d))) =
      (readRecords d records, []) := by
  -- nothing is read at the end of the text
  have hend : Reader.many (record d) [] = ([], []) := by
    have hnothing := record_line hd (List.cons_ne_nil "" [])
    rw [(line_eq_nil_iff (List.cons_ne_nil "" [])).2 rfl] at hnothing
    rw [Reader.many, hnothing]
    rfl
  fun_induction readRecords d records with
  | case1 => exact hend
  | case2 => exact hend
  | case3 fs hfs =>
      have hline := mt (line_eq_nil_iff (d := d) (hne fs List.mem_cons_self)).1 hfs
      rw [List.map_singleton, List.intercalate_singleton, Reader.many,
        record_line hd (hne fs List.mem_cons_self)]
      dsimp only
      rw [if_pos (show ([] : List Char).length < _ from List.length_pos_iff.2 hline), hend]
  | case4 fs gs more ih =>
      obtain ⟨hfs, hne⟩ := List.forall_mem_cons.1 hne
      have hjoined : List.intercalate ['\n'] ((fs :: gs :: more).map (line d)) =
          line d fs ++ '\n' :: List.intercalate ['\n'] ((gs :: more).map (line d)) := by
        simp [List.intercalate_cons_cons]
      rw [hjoined, Reader.many, record_line_append hd hfs]
      dsimp only
      rw [if_pos (by simp only [List.length_cons, List.length_append]; omega), ih hne]

theorem readRecords_eq_self_iff {records : List (List String)} :
    readRecords d records = records ↔
      (∀ fs ∈ records.dropLast, ∀ s ∈ fs.getLast?, ¬LosesEnd d s) ∧ records.getLast? ≠ some [""] := by
  fun_induction readRecords d records with
  | case1 => simp
  | case2 => simp
  | case3 fs hfs => simp [hfs]
  | case4 fs gs more ih =>
      rw [List.cons.injEq, readFields_eq_self_iff, ih, List.dropLast_cons_cons, List.forall_mem_cons,
        List.getLast?_cons_cons, and_assoc]

end Records

namespace ResultSet

open Records

/-- The header and the texts of the rows. -/
def records (r : ResultSet) : List (List String) :=
  r.columns :: r.rows.map r.recordOf

/-- How records are written, with headers. -/
def recordOptions (d : Char) : RenderOptions :=
  { format := .csv, delimiter := d, hideHeaders := false }

theorem recordLines_eq (r : ResultSet) (write : List String → String) :
    r.recordLines false write = String.intercalate "\n" (r.records.map write) := by
  simp [recordLines, records, Function.comp_def]

theorem toList_render_records (r : ResultSet) (d : Char) :
    (r.render (recordOptions d)).toList = List.intercalate ['\n'] (r.records.map (line d)) := by
  have hline (fs : List String) :
      (String.intercalate d.toString (fs.map (csvField d))).toList = line d fs := by
    rw [String.toList_intercalate, List.map_map, Char.toString, String.toList_singleton]
    rfl
  show (r.recordLines false _).toList = _
  rw [recordLines_eq, String.toList_intercalate, List.map_map]
  exact congrArg _ (List.map_congr_left fun fs _ => hline fs)

theorem ne_nil_of_mem_records {r : ResultSet} (h : r.columns ≠ []) : ∀ fs ∈ r.records, fs ≠ [] := by
  refine List.forall_mem_cons.2 ⟨h, List.forall_mem_map.2 fun row _ => ?_⟩
  exact mt List.map_eq_nil_iff.1 h

/-- What is read of the records that are written. -/
theorem read_render {r : ResultSet} {d : Char} (hcolumns : r.columns ≠ []) (hd : IsDelimiter d) :
    read d (r.render (recordOptions d)) = some (readRecords d r.records) := by
  rw [Records.read, toList_render_records, many_lines hd (ne_nil_of_mem_records hcolumns)]

/-- Of a result with columns, with any texts in its cells, the records that are written can be read. The
header and the texts of all rows come back exactly if no line but the last ends with a field without quotes
that ends with a carriage return, and the last line is not empty. -/
theorem read_written_records {r : ResultSet} {d : Char} (hcolumns : r.columns ≠ [])
    (hd : IsDelimiter d) :
    read d (r.render (recordOptions d)) = some (readRecords d r.records) ∧
    (read d (r.render (recordOptions d)) = some (r.columns :: r.rows.map r.recordOf) ↔
      (∀ fs ∈ r.records.dropLast, ∀ s ∈ fs.getLast?, ¬LosesEnd d s) ∧
        r.records.getLast? ≠ some [""]) := by
  have hread := read_render hcolumns hd
  refine ⟨hread, ?_⟩
  rw [hread, Option.some.injEq]
  exact readRecords_eq_self_iff

/-- A line end in quotes is a part of the field, and so is a doubled quote. -/
example : read ',' "a,\"b\"\"\r\nc\"\r\nd" = some [["a", "b\"\r\nc"], ["d"]] := by
  decide +kernel

/-- Texts with delimiters, quotes and line ends in them, and empty ones. -/
def notes : ResultSet :=
  { columns := ["a;b", "note"]
    rows := [[("a;b", .string "\r\n"), ("note", .string "say \"x\"\n\r")],
      [("a;b", .string "\"")], [("a;b", .string ";\r"), ("note", .string "\r;\r")]] }

theorem read_written_records_notes :
    notes.columns ≠ [] ∧ IsDelimiter ';' ∧
      read ';' (notes.render (recordOptions ';')) = some
        [["a;b", "note"], ["\r\n", "say \"x\"\n\r"], ["\"", ""], [";\r", "\r;\r"]] := by
  have hcolumns : notes.columns ≠ [] := by decide
  have hd : IsDelimiter ';' := by decide
  refine ⟨hcolumns, hd, ?_⟩
  refine (read_written_records hcolumns hd).2.2 ⟨?_, ?_⟩
  · decide
  · decide

/-- A carriage return at the end of a cell is not read back. -/
theorem not_reads_carriageReturn :
    let r : ResultSet :=
      { columns := ["a"], rows := [[("a", .string "x\r")], [("a", .string "y")]] }
    r.columns ≠ [] ∧ IsDelimiter ',' ∧ r.columns :: r.rows.map r.recordOf = [["a"], ["x\r"], ["y"]] ∧
      read ',' (r.render (recordOptions ',')) = some [["a"], ["x"], ["y"]] := by
  intro r
  have hcolumns : r.columns ≠ [] := by decide
  have hd : IsDelimiter ',' := by decide
  refine ⟨hcolumns, hd, by decide, ?_⟩
  rw [read_render hcolumns hd]
  decide

end ResultSet
end RestSql
