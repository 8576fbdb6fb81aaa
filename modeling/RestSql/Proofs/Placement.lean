import Mathlib.Logic.ExistsUnique
import RestSql.Proofs.SentValues

/-!
# Where values are placed

The values of a statement are split into buckets. Each bucket is the part of the statement that belongs
there, in the same order (`Parameters.columns_split`): every column is in one bucket, and no value changes
but for the texts of JSON objects and arrays in the body. The columns of an accepted INSERT all belong into
its request, because the check of a column and the split agree on what is sent.
-/

namespace RestSql

/-! ## Texts of objects and arrays -/

namespace Json

/-- The value that the text of a JSON object or array stands for, and any other value itself. -/
def embedded (v : Json) : Json :=
  match v.text?.bind ofText? with
  | some (.object fields) => .object fields
  | some (.array items) => .array items
  | _ => v

/-- The text is that of an object or an array. -/
def Embeds (text : String) (v : Json) : Prop :=
  ofText? text = some v ∧ (v.fields?.isSome ∨ v.items?.isSome)

theorem Embeds.embedded {text : String} {v : Json} (h : Embeds text v) : (string text).embedded = v := by
  rw [Json.embedded, text?, Option.bind_some, h.1]
  cases v with
  | object _ | array _ => rfl
  | _ => simp [Embeds, fields?, items?] at h

theorem embedded_string {text : String} (h : ∀ v, ¬Embeds text v) :
    (string text).embedded = .string text := by
  rw [embedded, text?, Option.bind_some]
  split
  · next hread => exact absurd ⟨hread, .inl rfl⟩ (h _)
  · next hread => exact absurd ⟨hread, .inr rfl⟩ (h _)
  · rfl

def Tree.opening? : Tree → Option Char
  | .array _ => some '['
  | .object _ => some '\x7b'
  | _ => none

theorem Tree.skipSpace_of_read? {fuel : Nat} {cs rest : List Char} {t : Tree} {c : Char}
    (h : read? fuel cs = some (t, rest)) (hc : t.opening? = some c) :
    ∃ more, skipSpace cs = c :: more := by
  cases fuel with
  | zero => cases h
  | succ fuel =>
      unfold read? at h
      split at h
      case h_2 more hspace | h_3 more hspace =>
        refine ⟨more, hspace.trans (congrArg (· :: more) ?_)⟩
        split at h
        · cases h
          exact Option.some.inj hc
        · obtain ⟨_, -, heq⟩ := Option.map_eq_some_iff.1 h
          cases heq
          exact Option.some.inj hc
      -- no other tree has an opening character
      case h_1 | h_7 =>
        obtain ⟨_, -, heq⟩ := Option.map_eq_some_iff.1 h
        cases heq
        cases hc
      case h_4 | h_5 | h_6 =>
        cases h
        cases hc

theorem Embeds.skipSpace {text : String} {v : Json} (h : Embeds text v) :
    ∃ c more, (c = '\x7b' ∨ c = '[') ∧ skipSpace text.toList = c :: more := by
  obtain ⟨h, hv⟩ := h
  obtain ⟨t, ht, hvalue⟩ := Option.bind_eq_some_iff.1 h
  obtain ⟨rest, hread⟩ : ∃ rest, Tree.read? (2 * text.toList.length + 2) text.toList =
      some (t, rest) := by
    unfold Tree.ofText? at ht
    dsimp only at ht
    split at ht
    · next t' rest hread =>
      obtain ⟨-, heq⟩ := Option.ite_none_right_eq_some.1 ht
      cases heq
      exact ⟨rest, hread⟩
    · cases ht
  cases t with
  | array items => exact ⟨'[', _, .inr rfl, (Tree.skipSpace_of_read? hread rfl).choose_spec⟩
  | object members => exact ⟨'\x7b', _, .inl rfl, (Tree.skipSpace_of_read? hread rfl).choose_spec⟩
  | number n =>
      obtain ⟨_, -, rfl⟩ := Option.map_eq_some_iff.1 hvalue
      simp [fields?, items?] at hv
  | string s =>
      obtain ⟨_, -, rfl⟩ := Option.map_eq_some_iff.1 hvalue
      simp [fields?, items?] at hv
  | null | bool =>
      cases hvalue
      simp [fields?, items?] at hv

end Json

theorem Text.isBlank_of_isSpace {c : Char} (h : isSpace c = true) : isBlank c = true := by
  simp only [isSpace, Bool.or_eq_true, decide_eq_true_eq] at h
  rcases h with ((h | h) | h) | h <;> subst h <;> decide

theorem Text.trimStart_of_skipSpace {c : Char} (hc : isBlank c = false) {cs more : List Char}
    (h : skipSpace cs = c :: more) : trimStart cs = c :: more := by
  induction cs with
  | nil => cases h
  | cons d cs ih =>
      by_cases hd : isSpace d
      · rw [skipSpace, List.dropWhile_cons_of_pos hd] at h
        rw [trimStart, List.dropWhile_cons_of_pos (isBlank_of_isSpace hd)]
        exact ih h
      · rw [skipSpace, List.dropWhile_cons_of_neg hd] at h
        cases h
        exact List.dropWhile_cons_of_neg (by simp [hc])

theorem Text.append_lt_append_left {start a b : String} : start ++ a < start ++ b ↔ a < b := by
  have hlist (cs : List Char) : cs ++ a.toList < cs ++ b.toList ↔ a.toList < b.toList := by
    induction cs with
    | nil => exact Iff.rfl
    | cons c cs ih => rw [List.cons_append, List.cons_append, List.cons_lt_cons_self, ih]
  refine Iff.trans ?_ (hlist start.toList)
  rw [← String.toList_append, ← String.toList_append]
  exact Iff.rfl

namespace Parameters

/-- The look at the first character only saves reading a text that is neither an object nor an array. -/
theorem bodyValue_eq_embedded (v : Json) : bodyValue v = v.embedded := by
  cases v with
  | string s =>
      rw [Json.embedded, Json.text?, Option.bind_some]
      cases hs : Json.ofText? s with
      | none =>
          simp only [bodyValue, hs]
          repeat' split
          all_goals rfl
      | some w =>
          cases w with
          | object _ | array _ =>
              have hembeds : Json.Embeds s _ := ⟨hs, by simp [Json.fields?, Json.items?]⟩
              obtain ⟨c, more, hc, hspace⟩ := hembeds.skipSpace
              have hblank : Text.isBlank c = false := by rcases hc with rfl | rfl <;> decide
              simp [bodyValue, hs, Text.trimStart_of_skipSpace hblank hspace, hc]
          | _ =>
              simp only [bodyValue, hs]
              repeat' split
              all_goals rfl
  | _ => rfl

example : (bodyValue (.string " [1, 2]")).items?.isSome ∧
    (bodyValue (.string "\x7bbad")).text? = some "\x7bbad" := by
  decide +kernel

/-! ## Buckets -/

inductive Bucket
  | path
  | query
  | body
  | response
  | unassigned
  deriving DecidableEq, Repr

def bucket (p : Parameters) : Bucket → Fields
  | .path => p.path
  | .query => p.query
  | .body => p.body
  | .response => p.response
  | .unassigned => p.unassigned

/-- The column that a key of a bucket stands for. The fields of the body have lost their mark. -/
def Bucket.column : Bucket → String → String
  | .body, field => bodyMark ++ field
  | _, key => key

/-- The form in which a value is kept in a bucket. -/
def Bucket.form : Bucket → Json → Json
  | .body, v => v.embedded
  | _, v => v

/-- The values in a bucket under the columns of the statement. -/
def columns (p : Parameters) (b : Bucket) : Fields :=
  (p.bucket b).map fun e => (b.column e.1, e.2)

/-- The column belongs into the bucket: parameters of the method into that of their place, other columns
with the mark into the body if there may be one, and others into the response if that has such a field. -/
def Belongs (m : Method) (schemas : SchemaSet) (request response : Option Schema) (column : String)
    (b : Bucket) : Prop :=
  let isField := request.isSome ∧ ∃ field, column = bodyMark ++ field
  let isFound := ∃ s ∈ response, (schemas.find? s column).isSome
  match b with
  | .path => ∃ p, m.parameter? column = some p ∧ p.place = .path
  | .query => ∃ p, m.parameter? column = some p ∧ p.place = .query
  | .body => m.parameter? column = none ∧ isField
  | .response => m.parameter? column = none ∧ ¬isField ∧ isFound
  | .unassigned => m.parameter? column = none ∧ ¬isField ∧ ¬isFound

namespace Place

def bucket : Place → Bucket
  | .path => .path
  | .query => .query
  | .body _ => .body
  | .response => .response
  | .unassigned => .unassigned

/-- The key of a column at a place. -/
def key (place : Place) (column : String) : String :=
  match place with
  | .body field => field
  | _ => column

theorem form_eq (place : Place) (v : Json) : place.form v = place.bucket.form v := by
  cases place with
  | body field => exact bodyValue_eq_embedded v
  | _ => rfl

end Place

theorem bucket_add (p : Parameters) (place : Place) (column : String) (v : Json) (b : Bucket) :
    (p.add place column v).bucket b =
      if place.bucket = b then Dict.put (p.bucket b) (place.key column) (place.form v)
      else p.bucket b := by
  cases place <;> cases b <;> rfl

section

variable (m : Method) (schemas : SchemaSet) (request response : Option Schema)

theorem column_placeOf (column : String) :
    let place := placeOf m schemas request response column
    place.bucket.column (place.key column) = column := by
  intro place
  cases hp : place with
  | body field => exact (eq_of_placeOf_body m schemas request response hp).symm
  | _ => rfl

theorem bucket_placeOf_iff {column : String} {b : Bucket} :
    (placeOf m schemas request response column).bucket = b ↔
      Belongs m schemas request response column b := by
  have hfield : (request.bind fun _ => Text.rest? bodyMark column).isSome ↔
      request.isSome ∧ ∃ field, column = bodyMark ++ field := by
    cases request with
    | none => simp
    | some s =>
        simp only [Option.bind_some, Option.isSome_some, true_and, Option.isSome_iff_exists]
        constructor
        · rintro ⟨field, h⟩
          exact ⟨field, Text.eq_append_of_rest? h⟩
        · rintro ⟨field, rfl⟩
          exact ⟨field, Text.rest?_append _ _⟩
  have hfound : (response.bind fun s => schemas.find? s column).isSome = true ↔
      ∃ s ∈ response, (schemas.find? s column).isSome := by
    cases response <;> simp
  simp only [Belongs, ← hfield, ← hfound]
  unfold placeOf
  cases m.parameter? column with
  | some p => cases hp : p.place <;> cases b <;> simp [Place.bucket, hp]
  | none =>
      cases request.bind fun _ => Text.rest? bodyMark column with
      | some field => cases b <;> simp [Place.bucket]
      | none =>
          by_cases hr : (response.bind fun s => schemas.find? s column).isSome = true <;>
            cases b <;> simp [Place.bucket, hr]

def bucketOf (column : String) : Bucket :=
  (placeOf m schemas request response column).bucket

/-- The part of the values that belongs into a bucket, under the keys and in the form of the bucket. -/
def placed (raw : Fields) (b : Bucket) : Fields :=
  (raw.filter fun e => bucketOf m schemas request response e.1 = b).map fun e =>
    ((placeOf m schemas request response e.1).key e.1, b.form e.2)

theorem bucket_foldl (raw : Fields) (b : Bucket) (p : Parameters) :
    (raw.foldl (fun p e => p.add (placeOf m schemas request response e.1) e.1 e.2) p).bucket b =
      (placed m schemas request response raw b).foldl (fun d e => Dict.put d e.1 e.2) (p.bucket b) := by
  induction raw generalizing p with
  | nil => rfl
  | cons e rest ih =>
      rw [List.foldl_cons, ih, bucket_add, Place.form_eq, ← bucketOf, placed, placed]
      by_cases hb : bucketOf m schemas request response e.1 = b
      · rw [if_pos hb, List.filter_cons_of_pos (by simpa using hb), List.map_cons, List.foldl_cons, hb]
      · rw [if_neg hb, List.filter_cons_of_neg (by simpa using hb)]

theorem sorted_placed {raw : Fields} (hs : Dict.Sorted raw) (b : Bucket) :
    Dict.Sorted (placed m schemas request response raw b) := by
  have hcolumn {key key' : String} (h : b.column key < b.column key') : key < key' := by
    cases b with
    -- all fields of the body lose the same mark, which keeps their order
    | body => exact Text.append_lt_append_left.1 h
    | _ => exact h
  refine List.pairwise_map.2 ((hs.filter _).imp_of_mem fun {e e'} he he' hlt => hcolumn ?_)
  have hkey {e : String × Json} (he : e ∈ raw.filter fun e =>
      bucketOf m schemas request response e.1 = b) :
      b.column ((placeOf m schemas request response e.1).key e.1) = e.1 := by
    rw [← of_decide_eq_true (List.mem_filter.1 he).2]
    exact column_placeOf m schemas request response e.1
  rwa [hkey he, hkey he']

theorem bucket_split {raw : Fields} (hs : Dict.Sorted raw) (b : Bucket) :
    (split raw m schemas request response).bucket b = placed m schemas request response raw b := by
  have hempty : empty.bucket b = [] := by cases b <;> rfl
  -- what is put into a bucket comes in order, so putting only appends
  rw [← (sorted_placed m schemas request response hs b).ofEntries_eq, Dict.ofEntries, ← hempty]
  exact bucket_foldl m schemas request response raw b empty

/-- The columns in a bucket are those of the statement that belong there. -/
theorem columns_split {raw : Fields} (hs : Dict.Sorted raw) (b : Bucket) :
    (split raw m schemas request response).columns b =
      (raw.filter fun e => bucketOf m schemas request response e.1 = b).map fun e =>
        (e.1, b.form e.2) := by
  rw [columns, bucket_split m schemas request response hs, placed, List.map_map]
  refine List.map_congr_left fun e he => ?_
  rw [Function.comp_apply, ← of_decide_eq_true (List.mem_filter.1 he).2]
  exact congrArg (·, _) (column_placeOf m schemas request response e.1)

theorem mem_columns_split {raw : Fields} (hs : Dict.Sorted raw) {b : Bucket} {column : String}
    {v : Json} :
    (column, v) ∈ (split raw m schemas request response).columns b ↔
      Belongs m schemas request response column b ∧ ∃ w, (column, w) ∈ raw ∧ v = b.form w := by
  rw [columns_split m schemas request response hs, ← bucket_placeOf_iff]
  simp only [List.mem_map, List.mem_filter, Prod.exists, Prod.mk.injEq, decide_eq_true_eq]
  constructor
  · rintro ⟨_, w, ⟨hmem, hb⟩, rfl, rfl⟩
    exact ⟨hb, w, hmem, rfl⟩
  · rintro ⟨hb, w, hmem, rfl⟩
    exact ⟨_, w, ⟨hmem, hb⟩, rfl, rfl⟩

theorem mem_keys_columns_split {raw : Fields} (hs : Dict.Sorted raw) {b : Bucket} {column : String} :
    column ∈ Dict.keys ((split raw m schemas request response).columns b) ↔
      column ∈ Dict.keys raw ∧ bucketOf m schemas request response column = b := by
  rw [columns_split m schemas request response hs]
  simp only [Dict.keys, List.mem_map, List.mem_filter, decide_eq_true_eq]
  constructor
  · rintro ⟨_, ⟨e, ⟨he, hb⟩, rfl⟩, rfl⟩
    exact ⟨⟨e, he, rfl⟩, hb⟩
  · rintro ⟨⟨e, he, rfl⟩, hb⟩
    exact ⟨_, ⟨e, ⟨he, hb⟩, rfl⟩, rfl⟩

theorem length_eq_sum_filter {α : Type} (f : α → Bucket) (l : List α) :
    let count (b : Bucket) := (l.filter fun a => f a = b).length
    count .path + count .query + count .body + count .response + count .unassigned = l.length := by
  intro count
  induction l with
  | nil => rfl
  | cons a l ih =>
      simp only [count, List.filter_cons] at ih ⊢
      cases f a <;> simp <;> omega

theorem size_split {raw : Fields} (hs : Dict.Sorted raw) :
    (split raw m schemas request response).size = raw.length := by
  have hlength (b : Bucket) : ((split raw m schemas request response).bucket b).length =
      (raw.filter fun e => bucketOf m schemas request response e.1 = b).length := by
    rw [bucket_split m schemas request response hs, placed, List.length_map]
  have hsum := length_eq_sum_filter (fun e => bucketOf m schemas request response e.1) raw
  simp only [← hlength] at hsum
  exact hsum

end

end Parameters

/-! ## Accepted INSERT statements -/

namespace Call

open Parameters

theorem Takes.bucket {c : Call} {column : String} (h : c.Takes column) :
    (c.placeOf column).bucket ∈ [Bucket.path, Bucket.query, Bucket.body] := by
  cases hp : c.method.parameter? column with
  | some p =>
      rw [placeOf_parameter hp]
      cases p.place <;> simp [Place.bucket]
  | none =>
      rcases h with h | ⟨hs, field, rfl⟩
      · rw [hp] at h
        cases h
      · rw [placeOf_field hp hs]
        simp [Place.bucket]

end Call

namespace Analysis

open Parameters

variable {ps : Providers} {current : String} {pageSize : Nat} {s : Sql.Insert} {c : Context}
  {t : Target}

theorem takes_of_checkRequestColumn {call : Call} {column : String}
    (h : checkRequestColumn call column = .ok ()) : call.Takes column := by
  unfold checkRequestColumn at h
  dsimp only at h
  split at h
  · next hsome =>
    refine (Bool.or_eq_true _ _ ▸ hsome).imp_right fun hfield => ?_
    obtain ⟨_, hfield⟩ := Option.isSome_iff_exists.1 hfield
    simp only [Option.bind_eq_bind, Option.bind_eq_some_iff] at hfield
    obtain ⟨field, hfield, schema, hschema, -⟩ := hfield
    exact ⟨Option.isSome_of_eq_some hschema, field, Text.eq_append_of_rest? hfield⟩
  · cases h

theorem takes_of_sentValues {call : Call} {place : String} {entries : List (String × Sql.Expr)}
    {values : List (String × Json)} (h : sentValues call place entries = .ok values) :
    values.map Prod.fst = entries.map Prod.fst ∧ ∀ e ∈ entries, call.Takes e.1 := by
  induction entries generalizing values with
  | nil =>
      cases h
      exact ⟨rfl, List.forall_mem_nil _⟩
  | cons entry rest ih =>
      obtain ⟨column, e⟩ := entry
      simp only [sentValues, bind_eq_ok, pure_eq_ok] at h
      obtain ⟨⟨⟩, hcolumn, v, -, others, hothers, rfl⟩ := h
      obtain ⟨hkeys, htakes⟩ := ih hothers
      refine ⟨congrArg _ hkeys, List.forall_mem_cons.2 ⟨takes_of_checkRequestColumn hcolumn, htakes⟩⟩

/-- An INSERT is accepted exactly if its table has the method and each of its checks passes. -/
theorem accepted_insert_iff :
    Accepted ps current pageSize (.insert s) c t ↔
      ∃ c' row values, tableCall ps current s.table "insert" c = (.ok t.call, c') ∧
        s.rows = [row] ∧ s.columns.length = row.length ∧
        sentValues t.call "INSERT" (s.columns.zip row) = .ok values ∧
        checkRequired t.call.method (Dict.keys (Dict.ofEntries values)) = .ok () ∧
        PreparedRequest.make t.call.service t.call.method (Dict.ofEntries values) none =
          .ok t.prepared ∧
        checkBody t.call t.prepared = .ok () ∧ t.itemsKey = t.call.rowArray?.map Prod.fst := by
  constructor
  · rintro ⟨a, ha, ht⟩
    obtain ⟨call, c', hcall, h⟩ := Run.bind_ok ha
    obtain ⟨row, values, prepared, hrow, hlength, hv, hrequired, hp, hb, rfl⟩ :=
      ofInsert_eq_ok.1 (Run.ofExcept_ok h)
    cases ht
    exact ⟨c', row, values, hcall, hrow, hlength, hv, hrequired, hp, hb, rfl⟩
  · rintro ⟨c', row, values, hcall, hrow, hlength, hv, hrequired, hp, hb, hitems⟩
    have hinsert : ofInsert t.call s = .ok (.mutation .insert t s.directives) := by
      refine ofInsert_eq_ok.2 ⟨row, values, t.prepared, hrow, hlength, hv, hrequired, hp, hb, ?_⟩
      rw [mutation?, ← hitems]
    refine ⟨.mutation .insert t s.directives, ?_, rfl⟩
    rw [analyze, Run.bind_apply, hcall]
    dsimp only
    rw [hinsert]
    rfl

/-- An accepted INSERT keeps each of its columns in the bucket of its place, and its method takes them
all. -/
theorem Accepted.mem_keys_columns_iff (h : Accepted ps current pageSize (.insert s) c t) :
    (∀ b column, column ∈ Dict.keys (t.prepared.parameters.columns b) ↔
      column ∈ s.columns ∧ (t.call.placeOf column).bucket = b) ∧
    ∀ column ∈ s.columns, t.call.Takes column := by
  obtain ⟨_, row, values, -, -, hlength, hv, -, hp, -⟩ := accepted_insert_iff.1 h
  obtain ⟨hkeys, htakes⟩ := takes_of_sentValues hv
  have hcolumns : s.columns = (s.columns.zip row).map Prod.fst :=
    (List.map_fst_zip (Nat.le_of_eq hlength)).symm
  constructor
  · intro b column
    rw [(PreparedRequest.make_ok hp).1, mem_keys_columns_split _ _ _ _ (Dict.sorted_ofEntries values),
      Dict.mem_keys_ofEntries, hkeys, ← hcolumns]
    exact Iff.rfl
  · rw [hcolumns]
    exact List.forall_mem_map.2 htakes

/-- The split of values into buckets keeps every value in exactly one of them, in the form of the bucket,
and adds none. All columns of an accepted INSERT are kept in those buckets that are sent. -/
theorem split_partition :
    (∀ (raw : Fields) (m : Method) (schemas : SchemaSet) (request response : Option Schema),
      Dict.Sorted raw →
      let p := split raw m schemas request response
      (∀ column ∈ Dict.keys raw, ∃! b, column ∈ Dict.keys (p.columns b)) ∧
      (∀ b column v, (column, v) ∈ p.columns b ↔
        Belongs m schemas request response column b ∧ ∃ w, (column, w) ∈ raw ∧ v = b.form w) ∧
      p.size = raw.length) ∧
    ∀ (ps : Providers) (current : String) (pageSize : Nat) (s : Sql.Insert) (c : Context) (t : Target),
      Accepted ps current pageSize (.insert s) c t →
      let p := t.prepared.parameters
      p.response = [] ∧ p.unassigned = [] ∧
        ∀ column ∈ s.columns, ∃ b ∈ [Bucket.path, .query, .body], column ∈ Dict.keys (p.columns b) := by
  constructor
  · intro raw m schemas request response hs p
    refine ⟨fun column hcolumn => ?_, fun b column v => mem_columns_split m schemas request response hs,
      size_split m schemas request response hs⟩
    refine ⟨bucketOf m schemas request response column, ?_, fun b hb => ?_⟩
    · exact (mem_keys_columns_split m schemas request response hs).2 ⟨hcolumn, rfl⟩
    · exact ((mem_keys_columns_split m schemas request response hs).1 hb).2.symm
  · intro ps current pageSize s c t h p
    obtain ⟨hmem, htakes⟩ := h.mem_keys_columns_iff
    have hnone (b : Bucket) (hb : b ∉ [Bucket.path, .query, .body]) : p.bucket b = [] := by
      refine List.eq_nil_iff_forall_not_mem.2 fun e he => hb ?_
      obtain ⟨hcolumn, hplace⟩ := (hmem b _).1 (List.mem_map_of_mem (List.mem_map_of_mem he))
      have hsent := (htakes _ hcolumn).bucket
      rwa [hplace] at hsent
    refine ⟨hnone .response (by decide), hnone .unassigned (by decide), fun column hcolumn => ?_⟩
    exact ⟨_, (htakes column hcolumn).bucket, (hmem _ column).2 ⟨hcolumn, rfl⟩⟩

end Analysis

namespace Sample

/-- Values for each bucket of the method that lists networks, if it had a body. -/
def listed : Fields :=
  [("data__name", .string "[1]"), ("items", .string "[1]"), ("maxResults", .ofInt 5),
    ("other", .null), ("project", .string "p")]

def listMethod : Method :=
  (method "list" "projects/{project}/networks" "GET"
    [parameter "maxResults" .query false, parameter "project" .path true] none
    (some "NetworkList")).2

/-- Inserts a network, whose name is given as often as there are names. -/
def named (names : List String) : Sql.Insert :=
  { directives := ⟨[]⟩, table, columns := "project" :: names.map fun _ => "data__name"
    rows := [("p" :: names).map fun text => .literal (.string text)] }

theorem accepted_named :
    ∃ t, Analysis.Accepted providers "google" 0 (.insert (named ["n"])) context t := by
  have h : (Analysis.accepted? providers "google" 0 (.insert (named ["n"])) context).isSome = true := by
    decide +kernel
  obtain ⟨t, ht⟩ := Option.isSome_iff_exists.1 h
  exact ⟨t, Analysis.accepted_of_eq_some ht⟩

end Sample

namespace Analysis

open Sample Parameters

theorem split_partition_listed :
    Dict.Sorted listed ∧
      (split listed listMethod schemas (Dict.find? schemas "Network")
        (Dict.find? schemas "NetworkList")).size = 5 ∧
      ∃ t, Accepted providers "google" 0 (.insert (named ["n"])) context t ∧
        t.prepared.parameters.unassigned = [] := by
  have hs : Dict.Sorted listed := by
    unfold Dict.Sorted
    decide +kernel
  obtain ⟨hsplit, hinsert⟩ := split_partition
  obtain ⟨t, h⟩ := accepted_named
  refine ⟨hs, (hsplit listed listMethod schemas _ _ hs).2.2, t, h, ?_⟩
  exact (hinsert providers "google" 0 (named ["n"]) context t h).2.1

end Analysis
end RestSql
