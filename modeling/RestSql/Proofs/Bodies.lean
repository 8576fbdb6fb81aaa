import RestSql.Proofs.JsonValues
import RestSql.Proofs.ReadExpressions
import RestSql.Proofs.SentBody

/-!
# Bodies are well-formed

The body of a request is the text of a well-formed JSON value (`Analysis.Accepted.exists_body`). Its values
are literals of the statement, whose integers have 64 bits because the reader takes no others, or they are
read from texts in the statement.
-/

namespace RestSql

open Reader

namespace Sql

/-! ## Expressions -/

theorem Literal.isWellFormed_toJson {l : Literal} (h : l.isWord = true) : l.toJson.isWellFormed = true := by
  cases l with
  | integer n => exact Json.isWord_of_isSigned h
  | float x =>
      rw [toJson, Json.ofBinary]
      split <;> rfl
  | string | bool | null => rfl

namespace Expr

/-- The literals that are compared with columns, or that the expression is, stand for well-formed
values. -/
def isWellFormed : Expr → Bool
  | literal l => l.toJson.isWellFormed
  | comparison l _ r => isWellFormed l && isWellFormed r
  | and l r => isWellFormed l && isWellFormed r
  | _ => true

theorem IsWritten.isWellFormed {e : Expr} (h : IsWritten e) : e.isWellFormed = true := by
  induction h with
  | literal hword => exact Literal.isWellFormed_toJson hword
  | comparison _ _ _ hl hr | and _ _ hl hr => exact Bool.and_eq_true_iff.2 ⟨hl, hr⟩
  | column | call | or | not | isNull => rfl

theorem yields_isWellFormed : Yields (·.isWellFormed = true) read :=
  fun cs e rest h => (yields_read cs e rest h).isWellFormed

theorem yields_isWellFormed_operand : Yields (·.isWellFormed = true) readOperand :=
  fun cs e rest h => (yields_readOperand cs e rest h).isWellFormed

end Expr

/-! ## Statements -/

open Analysis (equalities equations equalities_eq_equations literalValues supplied)

theorem isWellFormed_of_mem_equations {e : Expr} (h : e.isWellFormed = true) :
    ∀ x ∈ equations e, x.2.isWellFormed = true := by
  rw [← equalities_eq_equations]
  fun_induction equalities e with
  | case1 l r ihl ihr =>
      rw [Expr.isWellFormed, Bool.and_eq_true] at h
      exact List.forall_mem_append.2 ⟨ihl h.1, ihr h.2⟩
  | case2 | case3 =>
      simp only [Expr.isWellFormed, Bool.true_and, Bool.and_true] at h
      exact List.forall_mem_singleton.2 h
  | case4 => exact List.forall_mem_nil _

theorem isWellFormed_of_mem_literalValues {values : List (String × Expr)}
    (h : ∀ x ∈ values, x.2.isWellFormed = true) :
    ∀ x ∈ literalValues values, x.2.isWellFormed = true := by
  intro x hx
  obtain ⟨⟨name, e⟩, he, heq⟩ := List.mem_filterMap.1 hx
  cases e with
  | literal l =>
      cases heq
      exact h _ he
  | _ => cases heq

/-- The values that the statement supplies are well-formed. -/
def Statement.IsWellFormed (s : Statement) : Prop :=
  ∀ e ∈ supplied s, e.2.isWellFormed = true

namespace Statement

theorem isWellFormed_condition {condition : Option Expr}
    (h : ∀ e ∈ condition, e.isWellFormed = true) :
    ∀ x ∈ (condition.map equations).getD [], x.2.isWellFormed = true := by
  cases condition with
  | none => exact List.forall_mem_nil _
  | some e => exact isWellFormed_of_mem_equations (h e rfl)

theorem yields_readSelect : Yields IsWellFormed readSelect := by
  intro cs s rest h
  simp only [readSelect, Select.read, Option.bind_eq_bind, Option.bind_eq_some_iff] at h
  obtain ⟨_, ⟨_, -, _, -, heq⟩, h⟩ := h
  cases heq
  split at h
  · cases h
    exact List.forall_mem_nil _
  · cases h
    exact isWellFormed_condition (Expr.yields_isWellFormed.after.optional _)

theorem yields_insert : Yields IsWellFormed (Reader.map insert Insert.read) := by
  have hrows : Yields (fun rows : List (List Expr) => ∀ row ∈ rows, ∀ e ∈ row, e.isWellFormed = true)
      Insert.readRows :=
    (((Expr.yields_isWellFormed.sepBy comma).before.after).sepBy comma).after.orElse
      ((Expr.yields_isWellFormed.sepBy comma).after.map fun _ h => List.forall_mem_singleton.2 h)
  refine Yields.map (P := fun s : Insert => ∀ row ∈ s.rows, ∀ e ∈ row, e.isWellFormed = true) ?_ ?_
  · intro cs s rest h
    simp only [Insert.read, Option.bind_eq_bind, Option.bind_eq_some_iff] at h
    obtain ⟨_, -, _, -, _, -, _, hr, heq⟩ := h
    cases heq
    exact hrows _ _ _ hr
  · intro s hs
    refine isWellFormed_of_mem_literalValues fun x hx => ?_
    obtain ⟨row, hrow, he⟩ := List.mem_flatten.1 (List.of_mem_zip hx).2
    exact hs row hrow x.2 he

theorem yields_delete : Yields IsWellFormed (Reader.map delete Delete.read) := by
  refine Yields.map (P := fun s : Delete => ∀ e ∈ s.condition, e.isWellFormed = true) ?_ ?_
  · intro cs s rest h
    simp only [Delete.read, Option.bind_eq_bind, Option.bind_eq_some_iff] at h
    obtain ⟨_, -, _, -, _, -, heq⟩ := h
    cases heq
    exact Expr.yields_isWellFormed.after.optional _
  · exact fun s hs => isWellFormed_condition hs

theorem yields_exec : Yields IsWellFormed (Reader.map exec Exec.read) := by
  have hbinding : Yields (fun b : String × Expr => b.2.isWellFormed = true)
      (Exec.readBinding Expr.readOperand) := by
    intro cs b rest h
    simp only [Exec.readBinding, Option.bind_eq_bind, Option.bind_eq_some_iff] at h
    obtain ⟨_, -, _, -, _, he, heq⟩ := h
    cases heq
    exact Expr.yields_isWellFormed_operand _ _ _ he
  have hpayload : Yields (fun _ => True) (Exec.readBinding spacedString) := fun _ _ _ _ => trivial
  have hargument : Yields (fun a : Exec.Argument => ∀ b ∈ a.binding?, b.2.isWellFormed = true)
      Exec.readArgument := by
    intro cs
    refine Yields.orElse (hpayload.after.after.map ?_) (hbinding.after.map ?_) (skipSpace cs)
    · intro _ _ b hb
      cases hb
    · intro b h _ hb
      cases hb
      exact h
  refine Yields.map (P := fun s : Exec => ∀ b ∈ s.bindings, b.2.isWellFormed = true) ?_ ?_
  · intro cs s rest h
    simp only [Exec.read, Option.bind_eq_bind, Option.bind_eq_some_iff] at h
    obtain ⟨_, -, _, -, heq⟩ := h
    cases heq
    intro b hb
    obtain ⟨a, ha, hab⟩ := List.mem_filterMap.1 hb
    have harguments : Yields (fun a : Exec.Argument => ∀ b ∈ a.binding?, b.2.isWellFormed = true)
        fun cs => Exec.readArgument (Reader.optional comma cs).2 := fun cs => hargument _
    exact harguments.many _ a ha b hab
  · exact fun s hs => isWellFormed_of_mem_literalValues hs

theorem yields_readAuth {P : Statement → Prop} (hauth : ∀ a, P (auth a)) (hrevoke : ∀ p, P (revoke p)) :
    Yields P readAuth := by
  intro cs s rest h
  simp only [readAuth, Option.bind_eq_bind, Option.bind_eq_some_iff] at h
  obtain ⟨_, -, h⟩ := h
  split at h
  · obtain ⟨_, -, heq⟩ := Option.map_eq_some_iff.1 h
    cases heq
    exact hrevoke _
  · obtain ⟨_, -, heq⟩ := Option.bind_eq_some_iff.1 h
    cases heq
    exact hauth _

theorem yields_readUnsupported {P : Statement → Prop} (h : ∀ kind, P (unsupported kind)) :
    Yields P readUnsupported := by
  intro cs s rest hs
  simp only [readUnsupported, Option.bind_eq_bind, Option.bind_eq_some_iff] at hs
  obtain ⟨_, -, hs⟩ := hs
  split at hs
  · cases hs
    exact h _
  · cases hs

theorem yields_read : Yields IsWellFormed read := by
  have hnone {α : Type} (f : α → Statement) (hf : ∀ a, supplied (f a) = []) (p : Reader α) :
      Yields IsWellFormed (p.map f) := by
    refine Yields.map (P := fun _ => True) (fun _ _ _ _ => trivial) fun a _ => ?_
    rw [IsWellFormed, hf]
    exact List.forall_mem_nil _
  refine yields_readSelect.orElse (yields_insert.orElse (yields_delete.orElse (yields_exec.orElse ?_)))
  refine (hnone «show» (fun _ => rfl) _).orElse ((hnone describe (fun _ => rfl) _).orElse ?_)
  refine (yields_readAuth (fun _ => List.forall_mem_nil _) fun _ => List.forall_mem_nil _).orElse ?_
  refine (hnone use (fun _ => rfl) _).orElse ((hnone sleep (fun _ => rfl) _).orElse ?_)
  exact yields_readUnsupported fun _ => List.forall_mem_nil _

theorem supplied_withDirectives (d : Directives) (s : Statement) :
    supplied (s.withDirectives d) = supplied s := by
  cases s <;> rfl

/-- What all statements have that are read, whatever their directives, those have that a text is. -/
theorem of_ofText {P : Statement → Prop} (hread : Yields P read)
    (hdirectives : ∀ d s, P s → P (s.withDirectives d)) {text : String} {s : Statement}
    (h : ofText text = .ok s) : P s := by
  simp only [ofText, bind_eq_ok, pure_eq_ok] at h
  obtain ⟨_, -, s, hs, rfl⟩ := h
  refine hdirectives _ s ?_
  unfold ofBareText at hs
  split at hs
  · cases hs
  · split at hs
    · cases hs
    · next hr =>
      split at hs
      · cases hs
        exact hread _ _ _ hr
      · cases hs

theorem isWellFormed_of_ofText {text : String} {s : Statement} (h : ofText text = .ok s) :
    s.IsWellFormed :=
  of_ofText yields_read (fun d s hs => by rwa [IsWellFormed, supplied_withDirectives]) h

end Statement
end Sql

/-! ## Bodies -/

namespace Parameters

theorem isWellFormed_bodyValue {v : Json} (h : v.isWellFormed = true) :
    (bodyValue v).isWellFormed = true := by
  unfold bodyValue
  repeat' split
  all_goals first
    | exact h
    | next hread => exact Json.isWellFormed_of_ofText? hread

/-- The fields of the body make a well-formed object. -/
def HasBody (p : Parameters) : Prop :=
  Dict.Sorted p.body ∧ ∀ e ∈ p.body, e.2.isWellFormed = true

theorem HasBody.add {p : Parameters} (h : p.HasBody) {place : Place} {key : String} {v : Json}
    (hv : ∀ field, place = .body field → v.isWellFormed = true) : (p.add place key v).HasBody := by
  cases place with
  | body field =>
      refine ⟨Dict.sorted_put h.1 _ _, fun e he => ?_⟩
      rcases Dict.mem_put he with rfl | he
      · exact isWellFormed_bodyValue (hv field rfl)
      · exact h.2 e he
  | _ => exact h

theorem hasBody_split {raw : Fields} {m : Method} {schemas : SchemaSet}
    {request response : Option Schema}
    (h : ∀ e ∈ raw, (m.parameter? e.1).isSome ∨ e.2.isWellFormed = true) :
    (split raw m schemas request response).HasBody := by
  suffices hall : ∀ p : Parameters, p.HasBody → HasBody (raw.foldl
      (fun p e => p.add (placeOf m schemas request response e.1) e.1 e.2) p) from
    hall empty ⟨List.Pairwise.nil, List.forall_mem_nil _⟩
  induction raw with
  | nil => exact fun p hp => hp
  | cons e raw ih =>
      intro p hp
      obtain ⟨he, hmore⟩ := List.forall_mem_cons.1 h
      refine ih hmore _ (hp.add fun field hfield => he.resolve_left fun hsome => ?_)
      -- a parameter never goes into the body
      obtain ⟨parameter, hparameter⟩ := Option.isSome_iff_exists.1 hsome
      simp only [placeOf, hparameter] at hfield
      split at hfield <;> cases hfield

end Parameters

namespace Analysis

variable {ps : Providers} {current : String} {pageSize : Nat} {s : Sql.Statement} {c : Context}
  {t : Target}

theorem isWellFormed_payload {call : Call} {p : Option Sql.Payload} {fields : Fields}
    (h : payload call p = .ok (some fields)) : (Json.object fields).isWellFormed = true := by
  obtain ⟨v, hv, hfields⟩ := Option.bind_eq_some_iff.1 (payload_ok h).1.symm
  obtain ⟨_, -, hread⟩ := Option.bind_eq_some_iff.1 hv
  cases v with
  | object _ =>
      cases hfields
      exact Json.isWellFormed_of_ofText? hread
  | _ => cases hfields

theorem isWellFormed_withPageSize {m : Method} {values : Fields}
    (h : ∀ e ∈ values, e.2.isWellFormed = true) :
    ∀ e ∈ withPageSize m pageSize values, (m.parameter? e.1).isSome ∨ e.2.isWellFormed = true := by
  intro e he
  unfold withPageSize at he
  split at he
  · next hsize =>
    rcases Dict.mem_put he with rfl | he
    · exact .inl hsize.2.1
    · exact .inr (h e he)
  · exact .inr (h e he)

/-- The body of an accepted statement, if it has any, is the text of a well-formed value. -/
theorem Accepted.exists_body (h : Accepted ps current pageSize s c t) (hs : s.IsWellFormed) :
    ∃ body : Option Json, t.prepared.request.body = body.map Json.write ∧
      ∀ v ∈ body, v.isWellFormed = true := by
  obtain ⟨values, payload, hmake, hvalues, hpayload⟩ := h.made
  obtain ⟨hparameters, -, hbody⟩ := PreparedRequest.make_ok hmake
  refine ⟨_, hbody, fun v hv => ?_⟩
  have hsupplied : ∀ e ∈ Dict.ofEntries (supplied s), e.2.isWellFormed = true :=
    fun e he => hs e (Dict.mem_ofEntries he)
  have hfields : t.prepared.parameters.HasBody := by
    rw [hparameters]
    refine Parameters.hasBody_split ?_
    rcases hvalues with rfl | rfl
    · exact fun e he => .inr (hsupplied e he)
    · exact isWellFormed_withPageSize hsupplied
  unfold Parameters.body? at hv
  split at hv
  -- the payload stands alone
  · obtain ⟨fields, rfl, rfl⟩ := Option.map_eq_some_iff.1 hv
    rcases hpayload with hnone | ⟨e, -, hread⟩
    · cases hnone
    · exact isWellFormed_payload hread
  · cases hv
    exact Json.isWellFormed_object.2 hfields

end Analysis
end RestSql
