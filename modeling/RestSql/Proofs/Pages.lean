import Mathlib.Order.Bounds.Basic
import Mathlib.Tactic.Choose
import RestSql.Proofs.Calls
import RestSql.Proofs.PlanReuse

/-!
# The pages of a query

A query fetches its pages one after the other, until a page is the last one (`RestCall.IsLast`). The bodies
of the responses decide how many calls are made and for which requests. They are given as a sequence here,
with the contexts between the calls, so that nothing is assumed of the network.
-/

namespace RestSql

namespace RestCall

/-! ## Calls for pages -/

/-- The token of the page `i`, counted from zero, in the body before; the first page has none. -/
def tokenOf (body : Nat → Json) : Nat → Option String
  | 0 => none
  | i + 1 => nextPage? (body i)

/-- The request for the page with a token, or for the first one. -/
def pageRequest (c : RestCall) : Option String → Except ValidationError Request
  | none => .ok c.prepared.request
  | some token => c.prepared.request.page token

/-- The call for a page. It fails if there is no request for the page. -/
def pageCall (c : RestCall) (token : Option String) : Run Json := do
  let request ← Run.ofExcept .validation (c.pageRequest token)
  c.provider.call request

/-- No page follows the page `i`, counted from zero: its body names none, or the limit is reached. -/
def IsLast (s : CallSettings) (body : Nat → Json) (i : Nat) : Prop :=
  nextPage? (body i) = none ∨ 0 < s.pageLimit ∧ i + 1 = s.pageLimit

/-- The rows of the first `n` pages. -/
def rowsOf (c : RestCall) (body : Nat → Json) (n : Nat) : List Row :=
  (List.range n).flatMap fun i => Row.ofResponse (body i) c.itemsKey

variable {c : RestCall} {s : CallSettings} {body : Nat → Json} {context : Nat → Context}

theorem sends_of_pageCall {token : Option String} {c₁ c₂ : Context} {b : Json}
    (h : c.pageCall token c₁ = (.ok b, c₂)) :
    ∃ request, c.pageRequest token = .ok request ∧ c.provider.Sends request c₁ c₂ := by
  rw [pageCall, Run.bind_apply, Run.ofExcept_apply] at h
  cases hr : c.pageRequest token with
  | error e =>
      rw [hr] at h
      cases h
  | ok request =>
      rw [hr] at h
      exact ⟨request, rfl, Provider.sends_of_call h⟩

/-! ## One page -/

theorem tokenOf_of_not_isLast {i : Nat} (h : ¬IsLast s body i) :
    ∃ token, tokenOf body (i + 1) = some token :=
  Option.ne_none_iff_exists'.1 fun hnone => h (.inl hnone)

theorem mayFetch_of_not_isLast {i : Nat} (h : ∀ j ≤ i, ¬IsLast s body j) :
    mayFetch s (i + 1) = true := by
  simp only [mayFetch, Bool.or_eq_true, beq_iff_eq, decide_eq_true_eq]
  by_contra hlimit
  -- otherwise the limit was reached at this page or at an earlier one
  exact h (s.pageLimit - 1) (by omega) (.inr (by omega))

theorem morePages_of_isLast {i : Nat} (h : IsLast s body i) (patience : Nat) :
    c.morePages s patience (i + 1) (body i) = pure [] := by
  have hnone : (nextPage? (body i)).filter (fun _ => mayFetch s (i + 1)) = none := by
    rcases h with h | ⟨hpos, hlimit⟩
    · rw [h]
      rfl
    · have hmay : mayFetch s (i + 1) = false := by
        simp only [mayFetch, Bool.or_eq_false_iff, beq_eq_false_iff_ne, decide_eq_false_iff_not]
        omega
      simp [hmay]
  rw [morePages, hnone]

theorem morePages_of_not_isLast {i : Nat} (h : ∀ j ≤ i, ¬IsLast s body j) (patience : Nat) :
    c.morePages s (patience + 1) (i + 1) (body i) = (do
      let next ← c.pageCall (tokenOf body (i + 1))
      let rows ← c.morePages s patience (i + 2) next
      return Row.ofResponse next c.itemsKey ++ rows) := by
  obtain ⟨token, htoken⟩ := tokenOf_of_not_isLast (h i le_rfl)
  have hsome : (nextPage? (body i)).filter (fun _ => mayFetch s (i + 1)) = some token := by
    rw [show nextPage? (body i) = some token from htoken]
    simp [mayFetch_of_not_isLast h]
  rw [morePages, hsome, htoken]
  simp only [pageCall, pageRequest, bind_assoc]

/-! ## All pages -/

/-- After the first calls the run goes on from the last of their pages. -/
theorem fetchRows_after {k : Nat} (hk : k ≤ s.patience) (hlast : ∀ i < k, ¬IsLast s body i)
    (hcall : ∀ i ≤ k, c.pageCall (tokenOf body i) (context i) = (.ok (body i), context (i + 1))) :
    c.fetchRows s (context 0) = (do
      let rows ← c.morePages s (s.patience - k) (k + 1) (body k)
      return c.rowsOf body (k + 1) ++ rows : Run (List Row)) (context (k + 1)) := by
  induction k with
  | zero =>
      have hfirst : c.send (context 0) = (.ok (body 0), context 1) := hcall 0 le_rfl
      rw [fetchRows, Run.bind_apply, hfirst]
      simp [rowsOf]
  | succ k ih =>
      have hpatience : s.patience - k = s.patience - (k + 1) + 1 := by omega
      rw [ih (by omega) (fun i hi => hlast i (by omega)) fun i hi => hcall i (by omega), hpatience,
        morePages_of_not_isLast fun j hj => hlast j (by omega), bind_assoc, Run.bind_apply,
        hcall (k + 1) le_rfl]
      simp [rowsOf, List.range_succ]

theorem fetchRows_ok {m : Nat} (hm : m ≤ s.patience) (hlast : IsLeast {i | IsLast s body i} m)
    (hcall : ∀ i ≤ m, c.pageCall (tokenOf body i) (context i) = (.ok (body i), context (i + 1))) :
    c.fetchRows s (context 0) = (.ok (c.rowsOf body (m + 1)), context (m + 1)) := by
  have hbefore : ∀ i < m, ¬IsLast s body i := fun i hi h => absurd (hlast.2 h) (by omega)
  rw [fetchRows_after hm hbefore hcall, morePages_of_isLast hlast.1]
  simp only [pure_bind, List.append_nil]
  rfl

theorem fetchRows_error {k : Nat} {e : Error} {c' : Context} (hk : k ≤ s.patience)
    (hlast : ∀ i < k, ¬IsLast s body i)
    (hcall : ∀ i < k, c.pageCall (tokenOf body i) (context i) = (.ok (body i), context (i + 1)))
    (herror : c.pageCall (tokenOf body k) (context k) = (.error e, c')) :
    c.fetchRows s (context 0) = (.error e, c') := by
  cases k with
  | zero =>
      have hfirst : c.send (context 0) = (.error e, c') := herror
      rw [fetchRows, Run.bind_apply, hfirst]
  | succ k =>
      have hpatience : s.patience - k = s.patience - (k + 1) + 1 := by omega
      have hcall : ∀ i ≤ k, c.pageCall (tokenOf body i) (context i) = (.ok (body i), context (i + 1)) :=
        fun i hi => hcall i (by omega)
      rw [fetchRows_after (by omega) (fun i hi => hlast i (by omega)) hcall, hpatience,
        morePages_of_not_isLast fun j hj => hlast j (by omega), bind_assoc, Run.bind_apply, herror]

end RestCall

/-! ## The result of a query -/

namespace Shape

/-- The rows in the order that the query asks for. -/
def inOrder (s : Shape) (rows : List Row) : List Row :=
  if s.orderBy.isEmpty then rows
  else sortRows (fun a b => compareRows s.projection a b s.orderBy) rows

/-- As many of the rows as the query asks for. -/
def first (s : Shape) (rows : List Row) : List Row :=
  match s.limit with
  | some n => rows.take n
  | none => rows

theorem apply_eq (s : Shape) (rows : List Row) :
    s.apply rows = s.projection.apply (s.first (s.inOrder (filterRows s.filter rows))) := rfl

end Shape

namespace Session

open RestCall

variable {s : Session} {p : Plan} {c : RestCall} {shape : Shape}

theorem execute_query (hp : p.instruction = .rest c) (hc : c.use = .rows shape)
    (hdry : s.settings.dryRun = false) {r : Except Error (List Row)} {c' : Context}
    (h : c.fetchRows s.settings s.context = (r, c')) :
    p.instruction.execute s.settings s.context =
      (r.map fun rows => Output.ofRows (shape.apply rows), c') := by
  rw [hp, Instruction.execute, RestCall.execute, hdry, hc, if_neg Bool.false_ne_true]
  dsimp only
  rw [Run.bind_apply, h]
  cases r <;> rfl

/-- Answers the first request with a page that names another one. -/
def twoPages : Network :=
  ⟨fun earlier _ => .ok ⟨200, if earlier.isEmpty
    then "\x7b\"items\": [\x7b\"name\": \"a\"\x7d], \"nextPageToken\": \"x\"\x7d"
    else "\x7b\"items\": [\x7b\"name\": \"b\"\x7d]\x7d"⟩⟩

def namesCall : RestCall :=
  Sample.networksCall "GET" (.rows { projection := [.named "name"], filter := none, orderBy := []
                                     limit := none })

/-- The token becomes a parameter of the address. -/
example : (namesCall.pageRequest (some "x")).toOption.map (·.url) =
    some "https://compute.test/networks?pageToken=x" := by
  decide +kernel

/-- The answer to the call for each page, and the context after it. -/
def namesAnswer : Nat → Except Error Json × Context
  | 0 => namesCall.pageCall none (Sample.sessionOn twoPages).context
  | i + 1 => namesCall.pageCall (nextPage? ((namesAnswer i).1.toOption.getD .null)) (namesAnswer i).2

def namesBody (i : Nat) : Json :=
  (namesAnswer i).1.toOption.getD .null

def namesContext : Nat → Context
  | 0 => (Sample.sessionOn twoPages).context
  | i + 1 => (namesAnswer i).2

theorem pageCall_namesCall {i : Nat} (h : (namesAnswer i).1.isOk = true) :
    namesCall.pageCall (tokenOf namesBody i) (namesContext i) =
      (.ok (namesBody i), namesContext (i + 1)) := by
  have hanswer : namesCall.pageCall (tokenOf namesBody i) (namesContext i) = namesAnswer i := by
    cases i <;> rfl
  rw [hanswer]
  exact Prod.ext (eq_ok_of_isOk h .null) rfl

end Session
end RestSql
