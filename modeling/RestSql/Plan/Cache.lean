import RestSql.Number.Binary64
import RestSql.Plan.Basic

/-!
A cache of plans by the texts of their statements. It holds a limited number of plans and forgets the
one that was not used for the longest time. Main statements: a plan that was put in is found
(`get_insert`), the limit is kept (`length_insert`), and what holds of every plan that is put in holds
of every plan that is found (`Each`).
-/

namespace RestSql

structure PlanCache where
  /-- How many plans there may be, at least one. -/
  capacity : Nat
  /-- The plans by their texts, the one used last at the front. -/
  entries : List (String × Plan)
  /-- How often a plan was found. -/
  hits : Nat
  /-- How often no plan was found. -/
  misses : Nat

namespace PlanCache

/-- An empty cache. A capacity of zero counts as one. -/
def empty (capacity : Nat) : PlanCache :=
  { capacity := max 1 capacity, entries := [], hits := 0, misses := 0 }

/-- The entries other than that of a text. -/
def others (c : PlanCache) (text : String) : List (String × Plan) :=
  c.entries.filter (·.1 ≠ text)

/-- The plan for a text, whether it is used or not. -/
def find? (c : PlanCache) (text : String) : Option Plan :=
  (c.entries.find? (·.1 == text)).map Prod.snd

/-- The plan for a text, and the cache after its use. -/
def get (c : PlanCache) (text : String) : Option Plan × PlanCache :=
  match c.find? text with
  | some p => (some p, { c with entries := (text, p) :: c.others text, hits := c.hits + 1 })
  | none => (none, { c with misses := c.misses + 1 })

/-- The cache with a plan for a text, which counts as used. -/
def insert (c : PlanCache) (text : String) (p : Plan) : PlanCache :=
  { c with entries := (text, p) :: (c.others text).take (c.capacity - 1) }

/-- The cache with another plan in the place of one for the text. -/
def replace (c : PlanCache) (text : String) (p : Plan) : PlanCache :=
  { c with entries := c.entries.map fun e => if e.1 = text then (text, p) else e }

/-- The cache without its plans. -/
def clear (c : PlanCache) : PlanCache :=
  { c with entries := [] }

def size (c : PlanCache) : Nat :=
  c.entries.length

/-- How many of a hundred lookups found a plan. -/
def hitRate (c : PlanCache) : Binary64 :=
  if c.hits + c.misses = 0 then .zero
  else ((Binary64.ofInt c.hits).div (.ofInt (c.hits + c.misses : Nat))).mul (.ofInt 100)

theorem get_insert (c : PlanCache) (text : String) (p : Plan) :
    ((c.insert text p).get text).1 = some p := by
  simp [get, find?, insert]

theorem length_insert {c : PlanCache} (h : 1 ≤ c.capacity) (text : String) (p : Plan) :
    (c.insert text p).size ≤ c.capacity := by
  simp only [size, insert, List.length_cons, List.length_take]
  omega

/-! ## Properties of all plans at hand -/

variable {c : PlanCache} {P : String → Plan → Prop}

/-- Every plan at hand has the property, which may depend on its text. -/
def Each (P : String → Plan → Prop) (c : PlanCache) : Prop :=
  ∀ e ∈ c.entries, P e.1 e.2

theorem Each.find? (h : c.Each P) {text : String} {p : Plan} (hp : c.find? text = some p) :
    P text p := by
  obtain ⟨e, he, rfl⟩ := Option.map_eq_some_iff.1 hp
  obtain rfl : e.1 = text := by simpa using List.find?_some he
  exact h e (List.mem_of_find?_eq_some he)

theorem Each.get (h : c.Each P) (text : String) : (c.get text).2.Each P := by
  unfold PlanCache.get
  split
  · next p hp =>
    intro e he
    rcases List.mem_cons.1 he with rfl | he
    · exact h.find? hp
    · exact h e (List.mem_filter.1 he).1
  · exact h

theorem Each.insert (h : c.Each P) {text : String} {p : Plan} (hp : P text p) :
    (c.insert text p).Each P := by
  intro e he
  rcases List.mem_cons.1 he with rfl | he
  · exact hp
  · exact h e (List.mem_filter.1 (List.mem_of_mem_take he)).1

theorem Each.replace (h : c.Each P) {text : String} {p : Plan} (hp : P text p) :
    (c.replace text p).Each P := by
  intro e he
  obtain ⟨x, hx, rfl⟩ := List.mem_map.1 he
  split
  · exact hp
  · exact h x hx

theorem fst_get (c : PlanCache) (text : String) : (c.get text).1 = c.find? text := by
  unfold PlanCache.get
  split
  · next hp => exact hp.symm
  · next hp => exact hp.symm

end PlanCache
end RestSql
