import Mathlib.Data.List.Forall2
import Mathlib.Data.List.Nodup
import RestSql.Proofs.Pages
import RestSql.Proofs.Planning
import RestSql.Proofs.ReadableColumns
import RestSql.Proofs.SentValues

/-!
# The columns of a result

A result has one column for each item of the select list, in their order. Its rows are keyed by the headers,
and of several items with one header the last one writes to the row. So a column shows its own item unless a
later item has the same header and another value on the row (`columns_show_last_items`).
-/

namespace RestSql

namespace Sql.SelectItem

/-- The header of the item at a position of the select list. -/
def header (index : Nat) : SelectItem → String
  | .expr (.column _ name) label => label.getD name
  | .expr _ label => label.getD ("val_" ++ Text.ofNat index)
  | .star => "*"

/-- The value of the item on a row: the field that it names, or null, or the literal. -/
def valueOn (row : Row) : SelectItem → Json
  | .expr (.column _ name) _ => (row.cell? name).getD .null
  | .expr (.literal l) _ => l.toJson
  | _ => .null

end Sql.SelectItem

namespace Sql.Select

/-- The headers of the items. -/
def headers (s : Select) : List String :=
  s.items.zipIdx.map fun (item, index) => item.header index

/-- The headers and values of the items on a row. -/
def cells (s : Select) (row : Row) : List (String × Json) :=
  s.items.zipIdx.map fun (item, index) => (item.header index, item.valueOn row)

/-- The result with the given rows. -/
def resultOn (s : Select) (rows : List Row) : ResultSet :=
  { columns := s.headers, rows := rows.map fun row => Dict.ofEntries (s.cells row) }

theorem headers_eq (s : Select) (row : Row) : s.headers = (s.cells row).map Prod.fst := by
  rw [headers, cells, List.map_map]
  rfl

end Sql.Select

namespace Analysis

open Sql (SelectItem Select)

variable {items : List (SelectItem × Nat)} {c : Call} {schema : RowSchema}

theorem valueColumns_ok {columns : List (String × Json)} (h : valueColumns items = .ok columns)
    (row : Row) : columns = items.map fun (item, index) => (item.header index, item.valueOn row) := by
  fun_induction valueColumns items generalizing columns with
  | case1 =>
      cases h
      rfl
  | case2 => cases h
  | case3 e label index rest ih =>
      obtain ⟨v, hv, h⟩ := bind_eq_ok.1 h
      obtain ⟨others, hothers, h⟩ := bind_eq_ok.1 h
      cases h
      cases e with
      | literal l =>
          cases hv
          rw [ih hothers]
          rfl
      | _ => cases hv

theorem outputColumns_ok {columns : List OutputColumn} (h : outputColumns c schema items = .ok columns)
    (hstar : ∀ e ∈ items, e.1 ≠ .star) (row : Row) :
    columns.map (fun o => (o.header, Projection.valueOf row o)) =
      items.map fun (item, index) => (item.header index, item.valueOn row) := by
  fun_induction outputColumns c schema items generalizing columns with
  | case1 =>
      cases h
      rfl
  | case2 index rest ih => exact absurd rfl (hstar _ List.mem_cons_self)
  | case3 qualifier name label index rest ih =>
      obtain ⟨⟨⟩, -, h⟩ := bind_eq_ok.1 h
      obtain ⟨others, hothers, h⟩ := bind_eq_ok.1 h
      cases h
      rw [List.map_cons, List.map_cons, ih hothers fun e he => hstar e (List.mem_cons_of_mem _ he)]
      rfl
  | case4 l label index rest ih =>
      obtain ⟨others, hothers, h⟩ := bind_eq_ok.1 h
      cases h
      rw [List.map_cons, List.map_cons, ih hothers fun e he => hstar e (List.mem_cons_of_mem _ he)]
      rfl
  | case5 => cases h

theorem ofValues_ok {s : Select} {a : Analysis} (h : ofValues s = .ok a) :
    a = .literals (s.resultOn [[]]) := by
  obtain ⟨columns, hcolumns, h⟩ := bind_eq_ok.1 h
  cases h
  rw [valueColumns_ok hcolumns [], Select.resultOn, s.headers_eq []]
  rfl

theorem projection_ok {s : Select} {p : Projection} (hstar : .star ∉ s.items)
    (h : projection c schema s.items = .ok p) (rows : List Row) : p.apply rows = s.resultOn rows := by
  obtain ⟨columns, hcolumns, h⟩ := bind_eq_ok.1 h
  have hnone : s.items.any isStar = false := by
    refine List.any_eq_false.2 fun item hitem => ?_
    cases item with
    | star => exact absurd hitem hstar
    | expr e label => exact Bool.false_ne_true
  rw [hnone] at h
  obtain rfl : columns = p := Except.ok.inj h
  have hcells (row : Row) : columns.map (fun o => (o.header, Projection.valueOf row o)) = s.cells row := by
    refine outputColumns_ok hcolumns (fun e he heq => ?_) row
    exact hstar (heq ▸ (List.mem_zipIdx he).2.2 ▸ List.getElem_mem _)
  rw [Projection.apply, Select.resultOn, s.headers_eq [], ← hcells, List.map_map]
  simp only [← hcells]
  rfl

/-- A query that selects items, and not all columns, is for literals, or for rows with the items, or it joins
tables. -/
theorem analyzeSelect_ok {ps : Providers} {current : String} {pageSize : Nat} {s : Select} {a : Analysis}
    {context : Context} (hstar : .star ∉ s.items)
    (h : (analyzeSelect ps current pageSize s context).1 = .ok a) :
    a = .literals (s.resultOn [[]]) ∨
      (s.source ≠ none ∧ ∃ t shape, a = .select t shape ∧
        ∀ rows, shape.projection.apply rows = s.resultOn rows) ∨
      ∃ tables, a = .join tables := by
  cases hsource : s.source with
  | none =>
      rw [analyzeSelect, hsource] at h
      exact .inl (ofValues_ok (Run.ofExcept_ok h))
  | some source =>
      rw [analyzeSelect, hsource] at h
      cases source with
      | table name label =>
          obtain ⟨call, context', -, h⟩ := Run.bind_ok h
          have hselect := Run.ofExcept_ok h
          obtain ⟨t, shape, schema, values, rfl, -, -, -, hprojection, -⟩ := ofSelect_ok hselect
          exact .inr (.inl ⟨by simp, t, shape, rfl, projection_ok hstar hprojection⟩)
      | join left right kind on =>
          cases h
          exact .inr (.inr ⟨_, rfl⟩)

end Analysis

namespace Analysis

theorem find?_of_lastFor {entries : List (String × Json)} {key : String} {v : Json}
    (h : LastFor entries key v) : Dict.find? (Dict.ofEntries entries) key = some v := by
  obtain ⟨before, after, rfl, hafter⟩ := h
  exact Dict.find?_ofEntries_last hafter

/-- All entries are found, just if those of one key have one value. -/
theorem find?_ofEntries_iff {entries : List (String × Json)} :
    (∀ e ∈ entries, Dict.find? (Dict.ofEntries entries) e.1 = some e.2) ↔
      ∀ e ∈ entries, ∀ e' ∈ entries, e.1 = e'.1 → e.2 = e'.2 := by
  constructor
  · intro h e he e' he' heq
    have hfound := h e he
    rw [heq, h e' he'] at hfound
    exact (Option.some.inj hfound).symm
  · intro h e he
    obtain ⟨v, hv⟩ := exists_lastFor he
    rw [find?_of_lastFor hv, h e he (e.1, v) hv.mem rfl]

end Analysis

namespace Instruction

/-- The rows that the rows of the result are made of, one by one. Literals stand on a row without fields. -/
inductive Draws (settings : CallSettings) (c : Context) : Instruction → List Row → Prop
  | literals (r : ResultSet) : Draws settings c (.literals r) [[]]
  | fetched {call : RestCall} {shape : Shape} {rows : List Row} (huse : call.use = .rows shape)
    (h : (call.fetchRows settings c).1 = .ok rows) :
    Draws settings c (.rest call) (shape.first (shape.inOrder (Shape.filterRows shape.filter rows)))

end Instruction

namespace Session

open Analysis (LastFor find?_of_lastFor find?_ofEntries_iff)

variable {s : Session} {text : String} {select : Sql.Select}

/-- What a query that selects items was planned to do. -/
theorem Made.of_select {ps : Providers} {pageSize : Nat} {current : String} {i : Instruction}
    (h : Made ps pageSize current text i) (htext : Sql.Statement.ofText text = .ok (.select select))
    (hstar : .star ∉ select.items) :
    i = .literals (select.resultOn [[]]) ∨
      (select.source ≠ none ∧ ∃ call shape, i = .rest call ∧ call.use = .rows shape ∧
        ∀ rows, shape.projection.apply rows = select.resultOn rows) ∨
      ∃ tables, i = .join tables := by
  obtain ⟨transaction, plan, c, -, hb, rfl⟩ := h
  obtain ⟨statement, a, i, hparsed, -, ha, hi, rfl⟩ := build_eq_ok.1 (Prod.ext hb rfl)
  cases htext.symm.trans hparsed
  rcases Analysis.analyzeSelect_ok hstar (congrArg Prod.fst ha) with
    rfl | ⟨hsource, t, shape, rfl, happly⟩ | ⟨tables, rfl⟩
  · exact .inl (Except.ok.inj hi).symm
  · exact .inr (.inl ⟨hsource, _, shape, (Except.ok.inj hi).symm, rfl, happly⟩)
  · exact .inr (.inr ⟨tables, (Except.ok.inj hi).symm⟩)

/-- The result of a query that selects items is made of rows that its plan draws. -/
theorem result_of_select (hs : s.PlansMade) (htext : Sql.Statement.ofText text = .ok (.select select))
    (hstar : .star ∉ select.items) (hdry : select.source = none ∨ s.settings.dryRun = false)
    {result : ResultSet} (hresult : (executeStatement text s).1.result = some result) :
    ∃ p rows, (plan text s).1 = .ok p ∧ p.instruction.Draws s.settings (plan text s).2.context rows ∧
      result = select.resultOn rows := by
  obtain ⟨r, planned, plans, hplan, -, -, hmade⟩ := hs.plan text
  cases r with
  | error e =>
      rw [executeStatement_of_error hplan] at hresult
      cases hresult
  | ok p =>
      rcases hx : p.instruction.execute s.settings planned with ⟨r, after⟩
      rw [executeStatement_of_ok hplan (perform_of_execute hx)] at hresult
      replace hresult : (outputOf r).result = some result := hresult
      rw [hplan]
      rcases Made.of_select hmade htext hstar with
        hp | ⟨hsource, call, shape, hp, huse, happly⟩ | ⟨tables, hp⟩
      · rw [hp] at hx
        cases hx
        cases hresult
        exact ⟨p, _, rfl, hp ▸ .literals _, rfl⟩
      · have hdry : s.settings.dryRun = false := hdry.resolve_left hsource
        rcases hfetch : call.fetchRows s.settings planned with ⟨fetched, after'⟩
        have hquery := execute_query (s := { s with context := planned }) hp huse hdry hfetch
        cases hx.symm.trans hquery
        cases fetched with
        | error e => cases hresult
        | ok rows =>
          cases hresult
          have hdraws := Instruction.Draws.fetched huse (congrArg Prod.fst hfetch)
          refine ⟨p, _, rfl, hp ▸ hdraws, ?_⟩
          rw [Shape.apply_eq, happly]
      · rw [hp] at hx
        cases hx
        cases hresult

/-- A result of a query that selects items has one column for each of them. The value of a row in a column
is that of the last item with the header of the column, on the row that was fetched for it. So every column
shows its own item, just if items with one header have one value on that row; and so it is if no header is
repeated. -/
theorem columns_show_last_items (hs : s.PlansMade)
    (htext : Sql.Statement.ofText text = .ok (.select select)) (hstar : .star ∉ select.items)
    (hdry : select.source = none ∨ s.settings.dryRun = false) {result : ResultSet}
    (hresult : (executeStatement text s).1.result = some result) :
    result.columns = select.headers ∧
      ∃ p rows, (plan text s).1 = .ok p ∧ p.instruction.Draws s.settings (plan text s).2.context rows ∧
        List.Forall₂ (fun row shown =>
          (∀ header v, LastFor (select.cells row) header v → Dict.find? shown header = some v) ∧
          ((∀ e ∈ select.cells row, Dict.find? shown e.1 = some e.2) ↔
            ∀ e ∈ select.cells row, ∀ e' ∈ select.cells row, e.1 = e'.1 → e.2 = e'.2) ∧
          (select.headers.Nodup → ∀ e ∈ select.cells row, Dict.find? shown e.1 = some e.2))
          rows result.rows := by
  obtain ⟨p, rows, hplan, hdraws, rfl⟩ := result_of_select hs htext hstar hdry hresult
  refine ⟨rfl, p, rows, hplan, hdraws, ?_⟩
  rw [Sql.Select.resultOn, List.forall₂_map_right_iff]
  refine List.forall₂_same.2 fun row _ => ?_
  refine ⟨fun header v => find?_of_lastFor, find?_ofEntries_iff, fun hnodup => find?_ofEntries_iff.2 ?_⟩
  intro e he e' he' heq
  rw [select.headers_eq row] at hnodup
  exact congrArg Prod.snd (List.inj_on_of_nodup_map hnodup he he' heq)

/-- The query that a text is. -/
def selectOf? (text : String) : Option Sql.Select :=
  match Sql.Statement.ofText text with
  | .ok (.select select) => some select
  | _ => none

theorem ofText_of_selectOf? (h : selectOf? text = some select) :
    Sql.Statement.ofText text = .ok (.select select) := by
  unfold selectOf? at h
  split at h
  · next hparsed =>
    cases h
    exact hparsed
  · cases h

/-- Answers with a network without a size. -/
def oneNetwork : Network :=
  ⟨fun _ _ => .ok ⟨200, "\x7b\"items\": [\x7b\"name\": \"a\"\x7d]\x7d"⟩⟩

def networksSession : Session :=
  .start (.initial "") Sample.providers (.initial oneNetwork "google")

def namesText : String :=
  "SELECT name AS id, mtu, 1 FROM google.compute.networks WHERE project = \x27p\x27"

theorem columns_show_last_items_networks :
    ∃ select result p rows, Sql.Statement.ofText namesText = .ok (.select select) ∧
      (executeStatement namesText networksSession).1.result = some result ∧
      select.headers = ["id", "mtu", "val_2"] ∧ result.columns = select.headers ∧
      (plan namesText networksSession).1 = .ok p ∧
      p.instruction.Draws networksSession.settings (plan namesText networksSession).2.context rows ∧
      List.Forall₂ (fun row shown => ∀ e ∈ select.cells row, Dict.find? shown e.1 = some e.2)
        rows result.rows := by
  have hruns : ((selectOf? namesText).any fun select =>
      select.headers == ["id", "mtu", "val_2"] && !select.items.any Analysis.isStar) = true ∧
      (executeStatement namesText networksSession).1.result.isSome = true := by
    decide +kernel
  obtain ⟨hselect, hresult⟩ := hruns
  obtain ⟨select, hselect, hitems⟩ := (Option.any_eq_true _ _).1 hselect
  obtain ⟨result, hresult⟩ := Option.isSome_iff_exists.1 hresult
  simp only [Bool.and_eq_true, beq_iff_eq, Bool.not_eq_true', List.any_eq_false] at hitems
  obtain ⟨hheaders, hstar⟩ := hitems
  have htext := ofText_of_selectOf? hselect
  obtain ⟨hcolumns, p, rows, hplan, hdraws, hrows⟩ := columns_show_last_items
    (PlansMade.of_no_plans rfl) htext (fun hmem => hstar .star hmem rfl) (.inr rfl) hresult
  refine ⟨select, result, p, rows, htext, hresult, hheaders, hcolumns, hplan, hdraws, ?_⟩
  exact hrows.imp fun row shown h => h.2.2 (by rw [hheaders]; decide)

/-- The header of a literal without a name is the name of another one. Both columns show the last of them. -/
theorem not_columns_show_items :
    let text := "SELECT 1 AS val_1, 2"
    ∃ select result, Sql.Statement.ofText text = .ok (.select select) ∧
      (executeStatement text (Sample.sessionOn .unreachable)).1.result = some result ∧
      select.headers = ["val_1", "val_1"] ∧ (select.cells []).map (·.2.cellText) = ["1", "2"] ∧
      result.columns.map result.columnTexts = [["2"], ["2"]] := by
  intro text
  have hruns : ((selectOf? text).any fun select =>
      select.headers == ["val_1", "val_1"] && (select.cells []).map (·.2.cellText) == ["1", "2"]) = true ∧
      ((executeStatement text (Sample.sessionOn .unreachable)).1.result.any fun result =>
        result.columns.map result.columnTexts == [["2"], ["2"]]) = true := by
    decide +kernel
  obtain ⟨hselect, hresult⟩ := hruns
  obtain ⟨select, hselect, hcells⟩ := (Option.any_eq_true _ _).1 hselect
  obtain ⟨result, hresult, htexts⟩ := (Option.any_eq_true _ _).1 hresult
  simp only [Bool.and_eq_true, beq_iff_eq] at hcells htexts
  exact ⟨select, result, ofText_of_selectOf? hselect, hresult, hcells.1, hcells.2, htexts⟩

end Session
end RestSql
