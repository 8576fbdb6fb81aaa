import Mathlib.Data.List.DropRight
import RestSql.Proofs.Bodies
import RestSql.Proofs.DryRuns

/-!
# How much is read of a name

A name is written with one part to four parts (`Sql.Name.IsWritten`), and a statement reads as many of them
from the end as it has use for: two for a service, three for a resource and four for a method. The current
provider stands before a name in which no provider is written. So a name with more parts is bound like its
end (`Analysis.name_read_from_end`): what stands before is not compared with anything. Neither are the
qualifiers of the columns of a query (`Analysis.analyze_unqualified`).
-/

namespace RestSql

open Reader (Yields)

/-! ## Names as they are written -/

namespace Sql

/-- A name of one part to four parts, none of which is empty. -/
structure Name.IsWritten (n : Name) : Prop where
  ne_nil : n.parts ≠ []
  length_le : n.parts.length ≤ Name.maxParts
  part_ne : ∀ part ∈ n.parts, part ≠ ""

theorem yields_anyName : Yields (· ≠ "") anyName := by
  have hquoted : Yields (· ≠ "") quotedName := by
    intro cs name rest h
    unfold quotedName at h
    split at h
    · split at h
      · split at h
        · cases h
        · next read hne _ =>
          cases h
          intro hempty
          exact hne (String.ofList_eq_empty_iff.1 hempty)
        · cases h
      · cases h
    · cases h
  have hbare : Yields (· ≠ "") bareName := by
    rintro cs name rest h rfl
    exact absurd (eq_append_of_bareName h).2.1 (by decide)
  exact fun cs => hquoted.orElse hbare (skipSpace cs)

theorem yields_nameRead : Yields Name.IsWritten Name.read := by
  intro cs n rest h
  unfold Name.read at h
  split at h
  · next parts rest' hparts =>
    split at h
    · next hlength =>
      cases h
      refine ⟨?_, hlength, yields_anyName.sepBy _ _ _ _ hparts⟩
      rintro rfl
      unfold Reader.sepBy at hparts
      split at hparts <;> cases hparts
    · cases h
  · cases h

/-- The only table of a query, with its label. -/
def Select.table? (s : Select) : Option (Name × Option String) :=
  match s.source with
  | some (.table name label) => some (name, label)
  | _ => none

theorem Select.source_of_table? {s : Select} {name : Name} {label : Option String}
    (h : s.table? = some (name, label)) : s.source = some (.table name label) := by
  unfold Select.table? at h
  split at h
  · next hsource =>
    cases h
    exact hsource
  · cases h

def Statement.query? : Statement → Option Select
  | .select s => some s
  | _ => none

theorem Statement.eq_of_query? {s : Statement} {q : Select} (h : s.query? = some q) : s = .select q := by
  cases s <;> cases h
  rfl

/-- The names of tables and methods in a statement. -/
def Statement.names : Statement → List Name
  | .select s => s.source.toList.flatMap Source.names
  | .insert s => [s.table]
  | .delete s => [s.table]
  | .exec s => [s.method]
  | .show s => s.target.toList
  | .describe d => [d.table]
  | _ => []

/-- All names of the statement are written. -/
def Statement.HasWrittenNames (s : Statement) : Prop :=
  ∀ n ∈ s.names, n.IsWritten

theorem yields_readTable : Yields (fun s : Source => ∀ n ∈ s.names, n.IsWritten) Source.readTable := by
  intro cs s rest h
  simp only [Source.readTable, Option.bind_eq_bind, Option.bind_eq_some_iff] at h
  obtain ⟨⟨name, cs'⟩, hname, heq⟩ := h
  cases heq
  exact List.forall_mem_singleton.2 (yields_nameRead _ _ _ hname)

theorem Source.names_foldl (joins : List Source.Joined) (first : Source) :
    (joins.foldl (fun left j => .join left j.right j.kind j.on) first).names =
      first.names ++ joins.flatMap (·.right.names) := by
  induction joins generalizing first with
  | nil => exact (List.append_nil _).symm
  | cons j joins ih => rw [List.foldl_cons, ih, Source.names, List.append_assoc, List.flatMap_cons]

theorem yields_source : Yields (fun s : Source => ∀ n ∈ s.names, n.IsWritten) Source.read := by
  have hjoin : Yields (fun j : Source.Joined => ∀ n ∈ j.right.names, n.IsWritten) Source.readJoin := by
    intro cs j rest h
    simp only [Source.readJoin, Option.bind_eq_bind, Option.bind_eq_some_iff] at h
    obtain ⟨_, -, ⟨right, cs'⟩, hright, heq⟩ := h
    cases heq
    exact yields_readTable _ _ _ hright
  have hcomma : Yields (fun j : Source.Joined => ∀ n ∈ j.right.names, n.IsWritten) Source.readComma :=
    yields_readTable.after.map fun _ h => h
  intro cs s rest h
  simp only [Source.read, Option.bind_eq_bind, Option.bind_eq_some_iff] at h
  obtain ⟨⟨first, cs'⟩, hfirst, heq⟩ := h
  cases heq
  have hjoins := (hjoin.orElse hcomma).many cs'
  intro n hn
  rw [Source.names_foldl, List.mem_append] at hn
  rcases hn with hn | hn
  · exact yields_readTable _ _ _ hfirst n hn
  · obtain ⟨j, hj, hn⟩ := List.mem_flatMap.1 hn
    exact hjoins j hj n hn

namespace Statement

theorem hasWrittenNames_select : Yields HasWrittenNames readSelect := by
  intro cs s rest h
  simp only [readSelect, Select.read, Option.bind_eq_bind, Option.bind_eq_some_iff] at h
  obtain ⟨_, ⟨_, -, ⟨_, cs'⟩, -, heq⟩, h⟩ := h
  cases heq
  split at h
  · cases h
    exact List.forall_mem_nil _
  · cases h
    have hsource : ∀ source ∈ (clause "FROM" Source.read cs').1, ∀ n ∈ source.names, n.IsWritten :=
      yields_source.after.optional cs'
    intro n hn
    obtain ⟨source, hmem, hn⟩ := List.mem_flatMap.1 hn
    exact hsource source (Option.mem_toList.1 hmem) n hn

theorem hasWrittenNames_show : Yields HasWrittenNames (Reader.map «show» Show.read) := by
  refine Yields.map (P := fun s : Show => ∀ n ∈ s.target, n.IsWritten) ?_ ?_
  · intro cs s rest h
    simp only [Show.read, Option.bind_eq_bind, Option.bind_eq_some_iff] at h
    obtain ⟨_, -, ⟨kind, cs'⟩, -, ⟨⟨target, columns⟩, rest'⟩, htarget, heq⟩ := h
    cases heq
    unfold Show.readTarget at htarget
    split at htarget
    · simp only [Option.bind_eq_bind, Option.bind_eq_some_iff] at htarget
      obtain ⟨_, -, ⟨table, cs''⟩, htable, heq⟩ := htarget
      cases heq
      intro n hn
      cases hn
      exact yields_nameRead _ _ _ htable
    · cases htarget
      exact yields_nameRead.after.optional _
  · exact fun s hs n hn => hs n (Option.mem_toList.1 hn)

theorem hasWrittenNames_read : Yields HasWrittenNames read := by
  have hone {α : Type} {f : α → Statement} {p : Reader α} {name : α → Name}
      (hp : Yields (fun a => (name a).IsWritten) p) (hf : ∀ a, (f a).names = [name a]) :
      Yields HasWrittenNames (p.map f) :=
    hp.map fun a ha => by rw [HasWrittenNames, hf]; exact List.forall_mem_singleton.2 ha
  have hnone {α : Type} (f : α → Statement) (hf : ∀ a, (f a).names = []) (p : Reader α) :
      Yields HasWrittenNames (p.map f) := by
    refine Yields.map (P := fun _ => True) (fun _ _ _ _ => trivial) fun a _ => ?_
    rw [HasWrittenNames, hf]
    exact List.forall_mem_nil _
  have hinsert : Yields (fun s : Insert => s.table.IsWritten) Insert.read := by
    intro cs s rest h
    simp only [Insert.read, Option.bind_eq_bind, Option.bind_eq_some_iff] at h
    obtain ⟨_, -, _, -, _, hname, _, -, heq⟩ := h
    cases heq
    exact yields_nameRead _ _ _ hname
  have hdelete : Yields (fun s : Delete => s.table.IsWritten) Delete.read := by
    intro cs s rest h
    simp only [Delete.read, Option.bind_eq_bind, Option.bind_eq_some_iff] at h
    obtain ⟨_, -, _, -, _, hname, heq⟩ := h
    cases heq
    exact yields_nameRead _ _ _ hname
  have hexec : Yields (fun s : Exec => s.method.IsWritten) Exec.read := by
    intro cs s rest h
    simp only [Exec.read, Option.bind_eq_bind, Option.bind_eq_some_iff] at h
    obtain ⟨_, -, _, hname, heq⟩ := h
    cases heq
    exact yields_nameRead _ _ _ hname
  have hdescribe : Yields (fun d : Describe => d.table.IsWritten) Describe.read := by
    intro cs s rest h
    simp only [Describe.read, Option.bind_eq_bind, Option.bind_eq_some_iff] at h
    obtain ⟨_, -, _, hname, heq⟩ := h
    cases heq
    exact yields_nameRead _ _ _ hname
  refine hasWrittenNames_select.orElse ((hone hinsert fun _ => rfl).orElse ?_)
  refine (hone hdelete fun _ => rfl).orElse ((hone hexec fun _ => rfl).orElse ?_)
  refine hasWrittenNames_show.orElse ((hone hdescribe fun _ => rfl).orElse ?_)
  refine (yields_readAuth (fun _ => List.forall_mem_nil _) fun _ => List.forall_mem_nil _).orElse ?_
  refine (hnone use (fun _ => rfl) _).orElse ((hnone sleep (fun _ => rfl) _).orElse ?_)
  exact yields_readUnsupported fun _ => List.forall_mem_nil _

theorem hasWrittenNames_of_ofText {text : String} {s : Statement} (h : ofText text = .ok s) :
    s.HasWrittenNames :=
  of_ofText hasWrittenNames_read (fun d s hs => by cases s <;> exact hs) h

end Statement
end Sql

/-! ## The last parts -/

/-- The parts of a name with the current provider before them, if there is one. -/
def Sql.Name.withProvider (n : Sql.Name) (current : String) : List String :=
  (if current = "" then [] else [current]) ++ n.parts

namespace CallName

/-- The parts that are not empty. -/
def parts (n : CallName) : List String :=
  [n.provider, n.service, n.resource, n.method].filter (· ≠ "")

/-- The name of a service, `[provider.]service`. -/
def ofService (n : Sql.Name) (current : String) : CallName :=
  { provider := orElse n.second current, service := n.last, resource := "", method := "" }

/-- A name is read from its end: two parts for a service, three for a resource and four for a method. -/
theorem parts_eq_rtake {n : Sql.Name} (hn : n.IsWritten) (current : String) :
    (ofService n current).parts = (n.withProvider current).rtake 2 ∧
      (ofResource n current).parts = (n.withProvider current).rtake 3 ∧
      (ofMethod n current).parts = (n.withProvider current).rtake 4 := by
  obtain ⟨hne, hlength, hparts⟩ := hn
  obtain ⟨ps⟩ := n
  by_cases hcurrent : current = ""
  -- one case for each number of parts that a name can have
  all_goals
    match ps with
    | [] => exact absurd rfl hne
    | [_] | [_, _] | [_, _, _] | [_, _, _, _] =>
        simp only [List.mem_cons, List.not_mem_nil, or_false, forall_eq_or_imp, forall_eq] at hparts
        simp [ofService, ofResource, ofMethod, parts, Sql.Name.withProvider, Sql.Name.fourth,
          Sql.Name.third, Sql.Name.second, Sql.Name.last, Sql.Name.fromRight, orElse, List.rtake,
          hcurrent, hparts]
    | _ :: _ :: _ :: _ :: _ :: rest =>
        simp only [List.length_cons, Sql.Name.maxParts] at hlength
        omega

example : (ofResource ⟨["other", "google", "compute", "networks"]⟩ "aws").parts =
    ["google", "compute", "networks"] := by
  decide +kernel

/-- The last parts are the name as it is written, or with the current provider before it, exactly if the
name has no more parts than are read. -/
theorem rtake_withProvider_iff (n : Sql.Name) (current : String) (k : Nat) :
    ((n.withProvider current).rtake k = n.parts ∨
      (n.withProvider current).rtake k = current :: n.parts) ↔ n.parts.length ≤ k := by
  have hle : ((n.withProvider current).rtake k).length ≤ k := by
    rw [List.rtake, List.length_drop]
    omega
  constructor
  · rintro (h | h) <;> rw [h] at hle
    · exact hle
    · exact Nat.le_of_succ_le hle
  · intro hlength
    rw [List.rtake, Sql.Name.withProvider]
    by_cases hcurrent : current = ""
    · left
      rw [if_pos hcurrent, List.nil_append, Nat.sub_eq_zero_of_le hlength, List.drop_zero]
    · rw [if_neg hcurrent, List.singleton_append, List.length_cons]
      rcases Nat.lt_or_eq_of_le hlength with hlt | heq
      · right
        rw [Nat.sub_eq_zero_of_le hlt, List.drop_zero]
      · left
        rw [heq, Nat.add_sub_cancel_left, List.drop_succ_cons, List.drop_zero]

end CallName

/-! ## What a statement is bound to -/

namespace Analysis

/-- The name of a table, a method or a service that a statement is bound with. -/
def boundName? : Sql.Statement → Option Sql.Name
  | .select s => s.table?.map Prod.fst
  | .insert s => some s.table
  | .delete s => some s.table
  | .exec s => some s.method
  | .describe d => some d.table
  | .show s => if s.kind = "RESOURCES" ∨ s.kind = "METHODS" ∨ s.kind = "INSERT" then s.target else none
  | _ => none

/-- How many parts of its name a statement reads. -/
def partsRead : Sql.Statement → Nat
  | .exec _ => 4
  | .show s => if s.kind = "RESOURCES" then 2 else 3
  | _ => 3

/-- What the name means in the statement. -/
def callName (current : String) (n : Sql.Name) : Sql.Statement → CallName
  | .exec _ => .ofMethod n current
  | .show s => if s.kind = "RESOURCES" then .ofService n current else .ofResource n current
  | _ => .ofResource n current

variable {ps : Providers} {current : String} {pageSize : Nat} {c : Context} {a : Analysis}

theorem parts_callName {n : Sql.Name} (hn : n.IsWritten) (s : Sql.Statement) :
    (callName current n s).parts = (n.withProvider current).rtake (partsRead s) := by
  obtain ⟨hservice, hresource, hmethod⟩ := CallName.parts_eq_rtake hn current
  cases s with
  | exec s => exact hmethod
  | «show» s =>
      rw [callName, partsRead]
      split
      · exact hservice
      · exact hresource
  | _ => exact hresource

/-- The meaning of a statement comes from what is found under the parts of a name. -/
inductive Binds (ps : Providers) (c : Context) (name : CallName) : Sql.Statement → Analysis → Prop
  | call {s : Sql.Statement} {a : Analysis} {t : Target} {action : String} {c' : Context}
      (ht : a.target? = some t) (hcall : Call.resolve ps name action c = (.ok t.call, c')) :
      Binds ps c name s a
  | template {s : Sql.Show} {a : Analysis} {call : Call} {c' : Context}
      (hcall : Call.resolve ps name "insert" c = (.ok call, c')) (ha : ofShowInsert call s = .ok a) :
      Binds ps c name (.show s) a
  | description {d : Sql.Describe} {a : Analysis} {p : Provider} {service : Service}
      {resource : Resource} {c' : Context} (hp : ps.named name.provider = .ok p)
      (hr : p.resource name.service name.resource c = (.ok (service, resource), c'))
      (ha : ofDescribe p service resource d = .ok a) : Binds ps c name (.describe d) a
  | resources {s : Sql.Show} {p : Provider} {filter : Option Filter}
      (hp : ps.named name.provider = .ok p) :
      Binds ps c name (.show s) (.query (.resources p name.service s.extended) filter)
  | methods {s : Sql.Show} {p : Provider} {filter : Option Filter}
      (hp : ps.named name.provider = .ok p) :
      Binds ps c name (.show s) (.query (.methods p name.service name.resource s.extended) filter)

theorem listing_resources {s : Sql.Show} {n : Sql.Name} {l : Listing} (hkind : s.kind = "RESOURCES")
    (hn : s.target = some n) (h : listing ps current s = .ok l) :
    ∃ p, providerNamed ps current n.second = .ok p ∧ l.query = .resources p n.last s.extended := by
  rw [listing, hkind, hn] at h
  obtain ⟨-, h⟩ := guard_eq_ok.1 h
  obtain ⟨p, hp, h⟩ := bind_eq_ok.1 h
  cases h
  exact ⟨p, mapError_eq_ok.1 hp, rfl⟩

theorem listing_methods {s : Sql.Show} {n : Sql.Name} {l : Listing} (hkind : s.kind = "METHODS")
    (hn : s.target = some n) (h : listing ps current s = .ok l) :
    ∃ p, providerNamed ps current n.third = .ok p ∧ l.query = .methods p n.second n.last s.extended := by
  rw [listing, hkind, hn] at h
  obtain ⟨-, h⟩ := guard_eq_ok.1 h
  obtain ⟨p, hp, h⟩ := bind_eq_ok.1 h
  cases h
  exact ⟨p, mapError_eq_ok.1 hp, rfl⟩

theorem ofShow_ok {s : Sql.Show} (h : ofShow ps current s = .ok a) :
    ∃ l filter, listing ps current s = .ok l ∧ a = .query l.query filter := by
  obtain ⟨l, hl, h⟩ := bind_eq_ok.1 h
  obtain ⟨filter, -, h⟩ := bind_eq_ok.1 h
  cases h
  exact ⟨l, filter, hl, rfl⟩

theorem source_of_boundName? {s : Sql.Select} {n : Sql.Name} (hn : boundName? (.select s) = some n) :
    ∃ label, s.source = some (.table n label) := by
  obtain ⟨⟨_, label⟩, htable, rfl⟩ := Option.map_eq_some_iff.1 hn
  exact ⟨label, Sql.Select.source_of_table? htable⟩

theorem binds_of_show {s : Sql.Show} {n : Sql.Name} (hn : boundName? (.show s) = some n)
    (h : (analyze ps current pageSize (.show s) c).1 = .ok a) :
    Binds ps c (callName current n (.show s)) (.show s) a := by
  simp only [boundName?] at hn
  split at hn
  · next hkind =>
    rw [analyze, analyzeShow] at h
    rcases hkind with hkind | hkind | hkind
    · rw [if_neg (by rw [hkind]; decide)] at h
      obtain ⟨l, filter, hl, rfl⟩ := ofShow_ok (Run.ofExcept_ok h)
      obtain ⟨p, hp, hquery⟩ := listing_resources hkind hn hl
      rw [callName, if_pos hkind, hquery]
      exact .resources hp
    · rw [if_neg (by rw [hkind]; decide)] at h
      obtain ⟨l, filter, hl, rfl⟩ := ofShow_ok (Run.ofExcept_ok h)
      obtain ⟨p, hp, hquery⟩ := listing_methods hkind hn hl
      rw [callName, if_neg (by rw [hkind]; decide), hquery]
      exact .methods hp
    · rw [if_pos hkind, hn] at h
      obtain ⟨call, _, hcall, h⟩ := Run.bind_ok h
      rw [callName, if_neg (by rw [hkind]; decide)]
      exact .template hcall (Run.ofExcept_ok h)
  · cases hn

theorem binds_of_analyze {s : Sql.Statement} {n : Sql.Name} (hn : boundName? s = some n)
    (h : (analyze ps current pageSize s c).1 = .ok a) : Binds ps c (callName current n s) s a := by
  cases s with
  | select s =>
      obtain ⟨label, hsource⟩ := source_of_boundName? hn
      simp only [analyze, analyzeSelect, hsource] at h
      obtain ⟨call, _, hcall, h⟩ := Run.bind_ok h
      obtain ⟨t, _, _, _, rfl, rfl, -⟩ := ofSelect_ok (Run.ofExcept_ok h)
      exact .call rfl hcall
  | insert s =>
      obtain rfl := Option.some.inj hn
      obtain ⟨call, _, hcall, h⟩ := Run.bind_ok h
      obtain ⟨_, _, _, -, rfl, -⟩ := ofInsert_ok (Run.ofExcept_ok h)
      exact .call rfl hcall
  | delete s =>
      obtain rfl := Option.some.inj hn
      obtain ⟨call, _, hcall, h⟩ := Run.bind_ok h
      obtain ⟨_, _, rfl, -⟩ := ofDelete_ok (Run.ofExcept_ok h)
      exact .call rfl hcall
  | exec s =>
      obtain rfl := Option.some.inj hn
      simp only [analyze, analyzeExec] at h
      split at h
      · cases h
      · obtain ⟨call, _, hcall, h⟩ := Run.bind_ok h
        obtain ⟨_, _, _, rfl, -⟩ := ofExec_ok (Run.ofExcept_ok h)
        exact .call rfl hcall
  | «show» s => exact binds_of_show hn h
  | describe d =>
      obtain rfl := Option.some.inj hn
      obtain ⟨p, _, hp, hrest⟩ := Run.bind_ok h
      have hnamed := Run.ofExcept_ok (congrArg Prod.fst hp)
      rw [hnamed] at hp
      cases hp
      obtain ⟨⟨service, resource⟩, _, hr, hrest⟩ := Run.bind_ok hrest
      exact .description hnamed hr (Run.ofExcept_ok hrest)
  | _ => cases hn

end Analysis

/-! ## Qualifiers of columns -/

namespace Sql

mutual

/-- The expression without the qualifiers of its columns. -/
def Expr.unqualified : Expr → Expr
  | .column _ name => .column none name
  | .literal l => .literal l
  | .comparison l op r => .comparison l.unqualified op r.unqualified
  | .and l r => .and l.unqualified r.unqualified
  | .or l r => .or l.unqualified r.unqualified
  | .not e => .not e.unqualified
  | .isNull e negated => .isNull e.unqualified negated
  | .call f args => .call f (Expr.unqualifiedAll args)

def Expr.unqualifiedAll : List Expr → List Expr
  | [] => []
  | e :: es => e.unqualified :: Expr.unqualifiedAll es

end

mutual

/-- The qualifiers of the columns, in the order in which they are written. -/
def Expr.qualifiers : Expr → List String
  | .column qualifier _ => qualifier.toList
  | .literal _ => []
  | .comparison l _ r => l.qualifiers ++ r.qualifiers
  | .and l r => l.qualifiers ++ r.qualifiers
  | .or l r => l.qualifiers ++ r.qualifiers
  | .not e => e.qualifiers
  | .isNull e _ => e.qualifiers
  | .call _ args => Expr.qualifiersAll args

def Expr.qualifiersAll : List Expr → List String
  | [] => []
  | e :: es => e.qualifiers ++ Expr.qualifiersAll es

end

def SelectItem.qualifiers : SelectItem → List String
  | .star => []
  | .expr e _ => e.qualifiers

/-- The qualifiers in the query, in the order in which they are written. -/
def Select.qualifiers (s : Select) : List String :=
  s.items.flatMap SelectItem.qualifiers ++ s.condition.toList.flatMap Expr.qualifiers

def SelectItem.unqualified : SelectItem → SelectItem
  | .star => .star
  | .expr e label => .expr e.unqualified label

/-- The query without the qualifiers of its columns. -/
def Select.unqualified (s : Select) : Select :=
  { s with
    items := s.items.map SelectItem.unqualified
    condition := s.condition.map Expr.unqualified }

mutual

theorem Expr.columnNames_unqualified (e : Expr) : e.unqualified.columnNames = e.columnNames := by
  cases e with
  | column _ _ | literal _ => rfl
  | comparison l _ r | and l r | or l r =>
      simp only [unqualified, columnNames, columnNames_unqualified l, columnNames_unqualified r]
  | not e | isNull e _ => simp only [unqualified, columnNames, columnNames_unqualified e]
  | call _ args => simp only [unqualified, columnNames, columnNamesAll_unqualifiedAll args]

theorem Expr.columnNamesAll_unqualifiedAll (es : List Expr) :
    columnNamesAll (unqualifiedAll es) = columnNamesAll es := by
  match es with
  | [] => rfl
  | e :: es =>
      simp only [unqualifiedAll, columnNamesAll, columnNames_unqualified e,
        columnNamesAll_unqualifiedAll es]

end

end Sql

open Sql (Expr)

theorem Filter.comparison?_unqualified (l : Expr) (op : Sql.CompareOp) (r : Expr) :
    comparison? l.unqualified op r.unqualified = comparison? l op r := by
  cases l <;> cases r <;> rfl

theorem Filter.ofExpr_unqualified (use : FilterUse) (skip : String → Bool) (e : Expr) :
    ofExpr use skip e.unqualified = (ofExpr use skip e).mapError Expr.unqualified := by
  fun_induction ofExpr use skip e with
  | case1 l r ihl ihr | case2 l r ihl ihr =>
      rw [Expr.unqualified, ofExpr, ihl, ihr]
      cases ofExpr use skip l <;> cases ofExpr use skip r <;> rfl
  | case3 e huse =>
      subst huse
      rfl
  | case4 e huse ih =>
      subst huse
      rw [Expr.unqualified, ofExpr, ih]
      cases ofExpr .rows skip e <;> rfl
  | case5 negated qualifier name huse =>
      subst huse
      rfl
  | case6 e negated hnot =>
      cases use with
      | listing => rfl
      | rows => cases e with
        | column qualifier name => exact (hnot qualifier name rfl rfl).elim
        | _ => rfl
  | case7 l op r column op' value hcomparison =>
      rw [Expr.unqualified, ofExpr, comparison?_unqualified, hcomparison]
      rfl
  | case8 l op r hcomparison =>
      rw [Expr.unqualified, ofExpr, comparison?_unqualified, hcomparison]
      rfl
  | case9 e hand hor hnot hnull hcomparison =>
      cases e with
      | and l r => exact (hand l r rfl).elim
      | or l r => exact (hor l r rfl).elim
      | not e => exact (hnot e rfl).elim
      | isNull e negated => exact (hnull e negated rfl).elim
      | comparison l op r => exact (hcomparison l op r rfl).elim
      | _ => rfl

namespace Analysis

theorem equalities_unqualified (e : Expr) : equalities e.unqualified = equalities e := by
  fun_induction equalities e with
  | case1 l r ihl ihr => rw [Expr.unqualified, equalities, ihl, ihr]
  | case2 | case3 => rfl
  | case4 e hand hleft hright =>
      cases e with
      | and l r => exact (hand l r rfl).elim
      | comparison l op r =>
          cases l <;> cases r <;> first
            | rfl
            | cases op <;> first
              | rfl
              | exact (hleft _ _ _ rfl).elim
              | exact (hright _ _ _ rfl).elim
      | _ => rfl

variable {call : Call} {schema : RowSchema}

/-- The output columns are the same; only a message shows an item with the qualifiers in it. -/
theorem outputColumns_unqualified {items : List (Sql.SelectItem × Nat)} {columns : List OutputColumn} :
    outputColumns call schema (items.map fun e => (e.1.unqualified, e.2)) = .ok columns ↔
      outputColumns call schema items = .ok columns := by
  induction items generalizing columns with
  | nil => rfl
  | cons item items ih =>
      obtain ⟨item, index⟩ := item
      cases item with
      | star => exact ih
      | expr e label =>
          cases e with
          | column qualifier name =>
              show outputColumns call schema ((.expr (.column none name) label, index) :: _) = _ ↔ _
              simp only [outputColumns, bind_eq_ok, ih]
          | literal l =>
              show outputColumns call schema ((.expr (.literal l) label, index) :: _) = _ ↔ _
              simp only [outputColumns, bind_eq_ok, ih]
          | _ => exact iff_of_false nofun nofun

theorem projection_unqualified {items : List Sql.SelectItem} {p : Projection} :
    projection call schema (items.map Sql.SelectItem.unqualified) = .ok p ↔
      projection call schema items = .ok p := by
  have hindexed : (items.map Sql.SelectItem.unqualified).zipIdx =
      items.zipIdx.map fun e => (e.1.unqualified, e.2) := by
    rw [List.zipIdx_map]
    rfl
  have hstar : (items.map Sql.SelectItem.unqualified).any isStar = items.any isStar := by
    rw [List.any_map]
    exact congrArg (items.any ·) (funext fun item => by cases item <;> rfl)
  simp only [projection, bind_eq_ok, hindexed, hstar, outputColumns_unqualified]

theorem condition_unqualified {e : Option Expr} {r : Fields × Option Filter} :
    condition call schema (e.map Expr.unqualified) = .ok r ↔ condition call schema e = .ok r := by
  cases e with
  | none => rfl
  | some e =>
      simp only [Option.map_some, condition, bind_eq_ok, Expr.columnNames_unqualified,
        equalities_unqualified, mapError_eq_ok, Filter.ofRows, Filter.ofExpr_unqualified]

theorem ofSelect_unqualified {pageSize : Nat} {s : Sql.Select} {a : Analysis} :
    ofSelect call pageSize s.unqualified = .ok a ↔ ofSelect call pageSize s = .ok a := by
  simp only [ofSelect, Sql.Select.unqualified, bind_eq_ok, mapError_eq_ok, projection_unqualified,
    condition_unqualified]

variable {ps : Providers} {current : String} {pageSize : Nat} {c : Context} {a : Analysis}

/-- A query on a table means the same without its qualifiers. -/
theorem analyze_unqualified {s : Sql.Select} {n : Sql.Name} {label : Option String}
    (hsource : s.source = some (.table n label)) :
    (analyze ps current pageSize (.select s.unqualified) c).1 = .ok a ↔
      (analyze ps current pageSize (.select s) c).1 = .ok a := by
  have hsource' : s.unqualified.source = some (.table n label) := hsource
  simp only [analyze, analyzeSelect, hsource, hsource', Run.bind_apply]
  rcases tableCall ps current n "select" c with ⟨e | call, c'⟩
  · rfl
  · simp only [Run.ofExcept_apply, mapError_eq_ok, ofSelect_unqualified]

theorem mem_names_of_boundName? {s : Sql.Statement} {n : Sql.Name} (hn : boundName? s = some n) :
    n ∈ s.names := by
  cases s with
  | select s =>
      obtain ⟨label, hsource⟩ := source_of_boundName? hn
      rw [Sql.Statement.names, hsource]
      exact List.mem_singleton_self _
  | «show» s =>
      rw [boundName?] at hn
      split at hn
      · exact Option.mem_toList.2 hn
      · cases hn
  | insert s | delete s | exec s | describe s =>
      obtain rfl := Option.some.inj hn
      exact List.mem_singleton_self _
  | _ => cases hn

/-- **A name is read from its end.** A statement is bound with the last parts of its name, before which the
current provider stands; so with all that is written exactly if the name has no more parts than the statement
reads. A query on a table does not depend on the qualifiers of its columns. -/
theorem name_read_from_end {text : String} {s : Sql.Statement} (hs : Sql.Statement.ofText text = .ok s)
    (h : (analyze ps current pageSize s c).1 = .ok a) {n : Sql.Name} (hn : boundName? s = some n) :
    Binds ps c (callName current n s) s a ∧
    (callName current n s).parts = (n.withProvider current).rtake (partsRead s) ∧
    ((callName current n s).parts = n.parts ∨ (callName current n s).parts = current :: n.parts ↔
      n.parts.length ≤ partsRead s) ∧
    ∀ q q' : Sql.Select, s = .select q → q'.unqualified = q.unqualified →
      (analyze ps current pageSize (.select q') c).1 = .ok a := by
  have hwritten : n.IsWritten :=
    Sql.Statement.hasWrittenNames_of_ofText hs n (mem_names_of_boundName? hn)
  have hparts : (callName current n s).parts = (n.withProvider current).rtake (partsRead s) :=
    parts_callName hwritten s
  refine ⟨binds_of_analyze hn h, hparts, by rw [hparts, CallName.rtake_withProvider_iff], ?_⟩
  rintro q q' rfl hsame
  obtain ⟨label, hsource⟩ := source_of_boundName? hn
  have hsource' : q'.source = some (.table n label) :=
    (congrArg Sql.Select.source hsame).trans hsource
  exact (analyze_unqualified hsource').1 (hsame ▸ (analyze_unqualified hsource).2 h)

/-- The statement on the sample provider, if it is accepted. -/
def acceptedText? (text : String) : Option Sql.Statement :=
  (Sql.Statement.ofText text).toOption.filter fun s =>
    (analyze Sample.providers "google" 0 s Sample.context).1.isOk

theorem exists_of_acceptedText {text : String} {P : Sql.Statement → Bool}
    (h : (acceptedText? text).any P = true) :
    ∃ s a, Sql.Statement.ofText text = .ok s ∧
      (analyze Sample.providers "google" 0 s Sample.context).1 = .ok a ∧ P s = true := by
  obtain ⟨s, hs, hP⟩ := (Option.any_eq_true _ _).1 h
  obtain ⟨hs, hok⟩ := Option.filter_eq_some_iff.1 hs
  cases ha : (analyze Sample.providers "google" 0 s Sample.context).1 with
  | error e =>
      rw [ha] at hok
      cases hok
  | ok a => exact ⟨s, a, eq_ok_of_toOption hs, ha, hP⟩

theorem name_read_from_end_networks :
    let n : Sql.Name := ⟨["compute", "networks"]⟩
    ∃ s a, Sql.Statement.ofText
        "SELECT n.name FROM compute.networks n WHERE n.project = \x27p\x27" = .ok s ∧
      (analyze Sample.providers "google" 0 s Sample.context).1 = .ok a ∧ boundName? s = some n ∧
      Binds Sample.providers Sample.context (callName "google" n s) s a ∧
      (callName "google" n s).parts = ["google", "compute", "networks"] := by
  intro n
  have h : (acceptedText? "SELECT n.name FROM compute.networks n WHERE n.project = \x27p\x27").any
      (fun s => decide (boundName? s = some n ∧ partsRead s = 3)) = true := by
    decide +kernel
  obtain ⟨s, a, hs, ha, hread⟩ := exists_of_acceptedText h
  obtain ⟨hn, hthree⟩ := of_decide_eq_true hread
  obtain ⟨hbinds, hparts, -⟩ := name_read_from_end hs ha hn
  rw [hthree] at hparts
  exact ⟨s, a, hs, ha, hn, hbinds, hparts⟩

/-- A part before the provider, and qualifiers that name nothing: they are left aside. -/
theorem not_name_read_whole :
    let n : Sql.Name := ⟨["other", "google", "compute", "networks"]⟩
    ∃ s a, Sql.Statement.ofText
        "SELECT foo.name FROM other.google.compute.networks WHERE bar.project = \x27p\x27" =
          .ok (.select s) ∧
      (analyze Sample.providers "google" 0 (.select s) Sample.context).1 = .ok a ∧
      s.table? = some (n, none) ∧ s.qualifiers = ["foo", "bar"] ∧
      Binds Sample.providers Sample.context (.ofResource n "google") (.select s) a ∧
      (CallName.ofResource n "google").parts = ["google", "compute", "networks"] ∧
      ¬((CallName.ofResource n "google").parts = n.parts ∨
        (CallName.ofResource n "google").parts = "google" :: n.parts) := by
  intro n
  have h : (acceptedText?
      "SELECT foo.name FROM other.google.compute.networks WHERE bar.project = \x27p\x27").any
      (fun s => s.query?.any fun q =>
        decide (q.table? = some (n, none) ∧ q.qualifiers = ["foo", "bar"])) = true := by
    decide +kernel
  obtain ⟨s, a, hs, ha, hread⟩ := exists_of_acceptedText h
  obtain ⟨q, hq, hread⟩ := (Option.any_eq_true _ _).1 hread
  obtain rfl := Sql.Statement.eq_of_query? hq
  obtain ⟨htable, hqualifiers⟩ := of_decide_eq_true hread
  have hn : boundName? (.select q) = some n := by rw [boundName?, htable, Option.map_some]
  exact ⟨q, a, hs, ha, htable, hqualifiers, binds_of_analyze hn ha, by decide, by decide⟩

end Analysis
end RestSql
