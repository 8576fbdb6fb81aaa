import RestSql.Proofs.Documents

/-!
# Documents are read once

A provider is asked about its services again and again. The invariant of such a history is `Remembers`:
remembered is exactly what was found so far.
-/

namespace RestSql

/-- A question with its answer, and the contexts before and after. -/
structure Visit where
  inquiry : Inquiry
  before : Context
  result : Except Error Finding
  after : Context

namespace Provider

variable {p : Provider} {d : DocumentSource} {l : Library} {v : Visit} {past earlier later : List Visit}

/-- Questions one after the other, the first of which finds `l` remembered. In between, everything but
what is remembered may change. -/
inductive Visits (p : Provider) : Library → List Visit → Prop
  | nil (l : Library) : Visits p l []
  | cons {v : Visit} {later : List Visit} (visit : p.find v.inquiry v.before = (v.result, v.after))
      (h : Visits p (v.after.libraryOf p.name) later) :
      Visits p (v.before.libraryOf p.name) (v :: later)

/-- The answer to a question was found on one of the visits. -/
def Found (past : List Visit) (i : Inquiry) (f : Finding) : Prop :=
  ∃ v ∈ past, v.inquiry.key = i.key ∧ v.result = .ok f

/-- Exactly what was found is remembered. -/
def Remembers (past : List Visit) (l : Library) : Prop :=
  ∀ i f, l.find? i = some f ↔ Found past i f

theorem remembers_empty : Remembers [] .empty := by
  intro i f
  simp [Library.find?_empty, Found]

theorem Remembers.visit (h : Remembers past (v.before.libraryOf p.name))
    (hp : p.catalog = .documents d) (visit : p.find v.inquiry v.before = (v.result, v.after)) :
    Remembers (past ++ [v]) (v.after.libraryOf p.name) := by
  intro i f
  have hc := (find_eq_iff hp).1 visit
  have hfound : Found (past ++ [v]) i f ↔
      (v.before.libraryOf p.name).find? i = some f ∨ v.inquiry.key = i.key ∧ v.result = .ok f := by
    simp only [Found, List.mem_append, List.mem_singleton, or_and_right, exists_or, exists_eq_left,
      h i f]
  rw [hfound]
  cases hr : v.result with
  | error e =>
      rw [hc.library_of_error hr]
      simp
  | ok g =>
      rw [hc.find?_of_ok hr]
      by_cases hkey : v.inquiry.key = i.key
      · simp only [hkey, if_true, true_and, Option.some.injEq, Except.ok.injEq]
        refine ⟨.inr, fun hf => hf.elim (fun known => ?_) id⟩
        -- what was remembered is what was answered
        rw [← Library.find?_congr _ hkey] at known
        rw [find_apply hp, known] at visit
        cases (Prod.mk.inj visit).1.trans hr
        rfl
      · simp [hkey]

theorem Visits.remembers (h : p.Visits l (earlier ++ v :: later)) (hp : p.catalog = .documents d)
    (hpast : Remembers past l) : Remembers (past ++ earlier) (v.before.libraryOf p.name) := by
  induction earlier generalizing past l with
  | nil =>
      cases h
      rw [List.append_nil]
      exact hpast
  | cons w earlier ih =>
      cases h with
      | cons visit h => simpa using ih h (hpast.visit hp visit)

theorem Visits.visit (h : p.Visits l (earlier ++ v :: later)) :
    p.find v.inquiry v.before = (v.result, v.after) := by
  induction earlier generalizing l with
  | nil =>
      cases h with
      | cons visit h => exact visit
  | cons w earlier ih =>
      cases h with
      | cons visit h => exact ih h

/-- Nothing is fetched. -/
def Offline (p : Provider) : Prop :=
  ∀ d, p.catalog = .documents d → d.offline = true

theorem Offline.unchanged (h : p.Offline) (visit : p.find v.inquiry v.before = (v.result, v.after)) :
    v.after.sent = v.before.sent ∧ v.after.files = v.before.files := by
  cases hp : p.catalog with
  | loaded directory services =>
      have hloaded : p.Loaded := ⟨directory, services, hp⟩
      rw [hloaded.after_eq visit]
      exact ⟨rfl, rfl⟩
  | documents d =>
      rcases ((find_eq_iff hp).1 visit).sent with ⟨hfetches, -⟩ | ⟨-, hsame⟩
      · cases (h d hp).symm.trans hfetches.online
      · exact hsame

theorem Visits.find_of_found (h : p.Visits .empty (earlier ++ v :: later)) {f : Finding}
    (hf : Found earlier v.inquiry f) {c : Context}
    (hc : c.libraryOf p.name = v.before.libraryOf p.name) : p.find v.inquiry c = (.ok f, c) := by
  cases hp : p.catalog with
  | loaded directory services =>
      have hloaded : p.Loaded := ⟨directory, services, hp⟩
      obtain ⟨w, hw, hkey, hresult⟩ := hf
      obtain ⟨before, between, rfl⟩ := List.append_of_mem hw
      rw [List.append_assoc, List.cons_append] at h
      rw [hloaded.find_apply hkey.symm c w.before, h.visit, hresult]
  | documents d =>
      have known := (h.remembers hp remembers_empty v.inquiry f).2 hf
      rw [find_apply hp, hc, known]

theorem Visits.fetches_iff (h : p.Visits .empty (earlier ++ v :: later))
    (hp : p.catalog = .documents d) :
    p.Fetches d v.inquiry v.before ↔
      (¬∃ f, Found earlier v.inquiry f) ∧ d.offline = false ∧
        d.copy? v.before.files v.before.clock v.inquiry.document = .ok none := by
  have hunknown : (v.before.libraryOf p.name).find? v.inquiry = none ↔
      ¬∃ f, Found earlier v.inquiry f := by
    have hremembers : Remembers earlier (v.before.libraryOf p.name) :=
      h.remembers hp remembers_empty
    simp only [Option.eq_none_iff_forall_ne_some, ne_eq, hremembers v.inquiry, not_exists]
  constructor
  · intro hfetches
    exact ⟨hunknown.1 hfetches.unknown, hfetches.online, hfetches.noCopy⟩
  · rintro ⟨hnew, honline, hcopy⟩
    exact ⟨hunknown.2 hnew, hcopy, honline⟩

/-- A provider that is asked again and again: offline it sends and writes nothing. What it found once it
answers from then on, whatever the context holds besides what is remembered. It asks the network for a
document only if it is online, did not find the document before and has no fresh copy of it, and then it
does unless a folder is in the place of the copy. A failure leaves what is remembered as it is. -/
theorem documents_read_once (h : p.Visits .empty (earlier ++ v :: later)) :
    (p.Offline → v.after.sent = v.before.sent ∧ v.after.files = v.before.files) ∧
      (∀ f, Found earlier v.inquiry f → v.result = .ok f ∧ v.after = v.before ∧
        ∀ c : Context, c.libraryOf p.name = v.before.libraryOf p.name →
          p.find v.inquiry c = (.ok f, c)) ∧
      (v.after.sent = v.before.sent ∨ ∃ d, p.catalog = .documents d ∧
        v.after.sent = .read (v.inquiry.address d) :: v.before.sent ∧
        (¬∃ f, Found earlier v.inquiry f) ∧ d.offline = false ∧
        d.Stale v.before v.inquiry.document) ∧
      (∀ d, p.catalog = .documents d → (¬∃ f, Found earlier v.inquiry f) → d.offline = false →
        d.Stale v.before v.inquiry.document →
        v.before.files.read (d.copyPath v.inquiry.document) ≠ .error .isFolder →
        v.after.sent = .read (v.inquiry.address d) :: v.before.sent) ∧
      ∀ e, v.result = .error e → v.after.libraryOf p.name = v.before.libraryOf p.name := by
  have visit := h.visit
  refine ⟨fun hoffline => hoffline.unchanged visit, ?_, ?_, ?_, ?_⟩
  · intro f hf
    have hfind := visit.symm.trans (h.find_of_found hf rfl)
    exact ⟨(Prod.mk.inj hfind).1, (Prod.mk.inj hfind).2, fun c hc => h.find_of_found hf hc⟩
  · cases hp : p.catalog with
    | loaded directory services =>
        have hloaded : p.Loaded := ⟨directory, services, hp⟩
        exact .inl (congrArg Context.sent (hloaded.after_eq visit))
    | documents d =>
        rcases ((find_eq_iff hp).1 visit).sent with ⟨hfetches, hsent⟩ | ⟨-, hsame⟩
        · obtain ⟨hnew, honline, hcopy⟩ := (h.fetches_iff hp).1 hfetches
          exact .inr ⟨d, rfl, hsent, hnew, honline, DocumentSource.stale_of_copy? hcopy⟩
        · exact .inl hsame.1
  · intro d hp hnew honline hstale hfolder
    have hcopy := DocumentSource.copy?_of_stale hstale honline hfolder
    rcases ((find_eq_iff hp).1 visit).sent with ⟨-, hsent⟩ | ⟨hnot, -⟩
    · exact hsent
    · exact absurd ((h.fetches_iff hp).2 ⟨hnew, honline, hcopy⟩) hnot
  · intro e he
    cases hp : p.catalog with
    | loaded directory services =>
        have hloaded : p.Loaded := ⟨directory, services, hp⟩
        rw [hloaded.after_eq visit]
    | documents d => exact ((find_eq_iff hp).1 visit).library_of_error he

/-- Asks one question after the other. -/
def visits (p : Provider) : List Inquiry → Context → List Visit
  | [], _ => []
  | i :: more, c => ⟨i, c, (p.find i c).1, (p.find i c).2⟩ :: p.visits more (p.find i c).2

theorem visits_visits (p : Provider) (inquiries : List Inquiry) (c : Context) :
    p.Visits (c.libraryOf p.name) (p.visits inquiries c) := by
  induction inquiries generalizing c with
  | nil => exact .nil _
  | cons i more ih => exact .cons (v := ⟨i, c, (p.find i c).1, (p.find i c).2⟩) rfl (ih _)

/-- The directory is asked for three times: the network fails, then it answers, and then it is not asked
any more. -/
theorem documents_read_once_retried :
    let p := google (.documents ⟨"https://apis.test/list", "copies", 60000, false⟩) .google false
    let script := (Script.empty.respond "GET" "https://apis.test/list" ⟨500, ""⟩).respond "GET"
      "https://apis.test/list" ⟨200, "\x7b\"items\": []\x7d"⟩
    ∃ first second third,
      p.visits [.directory, .directory, .directory] (.initial script.network "google") =
        [first, second, third] ∧
      p.Visits .empty [first, second, third] ∧
      first.result.isOk = false ∧ second.result.isOk = true ∧ third.result = second.result ∧
      third.after = third.before ∧ third.after.sent.length = 2 := by
  intro p script
  have h := p.visits_visits [.directory, .directory, .directory] (.initial script.network "google")
  refine ⟨_, _, _, rfl, h, by decide +kernel, by decide +kernel, ?_⟩
  have hfound := eq_ok_of_isOk (x := (p.find .directory
    (p.find .directory (.initial script.network "google")).2).1) (by decide +kernel) (.directory [])
  have hlast : p.Visits .empty ([_, _] ++ _ :: []) := h
  obtain ⟨-, hagain, -⟩ := documents_read_once hlast
  obtain ⟨hresult, hafter, -⟩ := hagain _ ⟨_, .tail _ (.head _), rfl, hfound⟩
  exact ⟨hresult.trans hfound.symm, hafter, by decide +kernel⟩

end Provider
end RestSql
