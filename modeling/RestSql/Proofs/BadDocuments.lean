import RestSql.Proofs.Visits

/-!
# Documents that say nothing

The copy of a document is written before the text is read. If the text says nothing, the failure is not
remembered, but the copy stays: as long as it is fresh the question fails again, whatever the network
would answer now, and for every provider that keeps its copies in the same folder.
-/

namespace RestSql

open Response (firstErrorStatus)

/-! ## Paths of copies -/

theorem Files.getLast?_join {folder file : String} {c : Char} (h : file.toList.getLast? = some c) :
    (join folder file).toList.getLast? = some c := by
  unfold join
  split
  · exact h
  · rw [String.toList_append, List.getLast?_append, h]
    rfl

theorem Inquiry.namesFolder_copyPath (d : DocumentSource) (i : Inquiry) :
    Files.namesFolder (d.copyPath i.document) = false := by
  have hlast : i.document.toList.getLast? = some 'n' := by
    cases i with
    | directory => rfl
    | service e =>
        rw [document, Provider.serviceFile, String.toList_append, List.getLast?_append]
        rfl
  rw [Files.namesFolder, DocumentSource.copyPath, Files.getLast?_join hlast]
  rfl

/-! ## Copies that are written -/

theorem Context.copied_of_write {c : Context} {path text : String} {files : Files}
    (h : c.files.write path text c.clock = .ok files) : c.copied path text = { c with files } := by
  rw [copied, h]

theorem Context.read_copied {c : Context} {path text : String} {files : Files}
    (h : c.files.write path text c.clock = .ok files) (hpath : Files.namesFolder path = false) :
    (c.copied path text).files.read path = .ok ⟨text, c.clock⟩ := by
  rw [copied_of_write h]
  exact (Files.read_write h hpath).1

namespace DocumentSource

variable {d : DocumentSource} {files : Files} {now : Nat} {name : String}

theorem copy?_of_read {f : File} (h : files.read (d.copyPath name) = .ok f)
    (honline : d.offline = false) (now : Nat) :
    d.copy? files now name = .ok (if d.isFresh f now then some f.text else none) := by
  unfold copyPath at h
  simp only [copy?, h, honline, Bool.false_or]

theorem isFresh_iff {f : File} :
    d.isFresh f now = true ↔ f.time ≤ now ∧ now - f.time < d.lifetime := by
  simp [isFresh]

end DocumentSource

namespace Provider

variable {p : Provider} {d : DocumentSource} {i : Inquiry} {c c' : Context} {f : Finding}

/-- The network would answer the question with a text that says `f`. -/
def Answers (d : DocumentSource) (i : Inquiry) (c : Context) (f : Finding) : Prop :=
  ∃ response, c.network.answer c.sent (.read (i.address d)) = .ok response ∧
    response.status < firstErrorStatus ∧ i.finding? response.body = some f

theorem Fetches.find_eq (h : p.Fetches d i c) (hp : p.catalog = .documents d)
    (hanswers : Answers d i c f) : (p.find i c).1 = .ok f := by
  obtain ⟨response, answer, status, hf⟩ := hanswers
  rw [(Consulted.fetched h answer status).find_eq hp]
  exact Inquiry.reading_ok hf

/-- A question that fails after a request, because the text says nothing, leaves nothing but the copy. -/
theorem Consulted.of_badText (h : Consulted p d i c (.error (.discovery i.badText)) c')
    (hsent : c'.sent ≠ c.sent) :
    p.Fetches d i c ∧ ∃ response, c.network.answer c.sent (.read (i.address d)) = .ok response ∧
      i.finding? response.body = none ∧
      c' = (c.asked (i.address d)).copied (d.copyPath i.document) response.body := by
  generalize hr : Except.error (Error.discovery i.badText) = r at h
  cases h with
  | remembered known => cases hr
  | unreadable unknown copy => cases hr
  | copied unknown copy => exact absurd (c.sent_learn _ _) hsent
  | refused unknown noCopy offline => exact absurd rfl hsent
  | unanswered h answer => cases hr
  | rejected h answer status value => cases i <;> cases hr
  | fetched h answer status =>
      rename_i response
      refine ⟨h, response, answer, ?_, by rw [← hr]; rfl⟩
      cases hf : i.finding? response.body with
      | none => rfl
      | some f =>
          rw [Inquiry.reading_ok hf] at hr
          cases hr

theorem Fetches.find_of_badText (h : p.Fetches d i c) (hp : p.catalog = .documents d)
    {response : Response}
    (answer : c.network.answer c.sent (.read (i.address d)) = .ok response)
    (status : response.status < firstErrorStatus) (hbad : i.finding? response.body = none) :
    p.find i c = (.error (.discovery i.badText),
      (c.asked (i.address d)).copied (d.copyPath i.document) response.body) := by
  rw [(Consulted.fetched h answer status).find_eq hp, Inquiry.reading_error hbad]
  rfl

theorem find_of_freshCopy {file : File} (hp : p.catalog = .documents d)
    (hunknown : (c.libraryOf p.name).find? i = none) (honline : d.offline = false)
    (hread : c.files.read (d.copyPath i.document) = .ok file)
    (hfresh : file.time ≤ c.clock ∧ c.clock - file.time < d.lifetime)
    (hbad : i.finding? file.text = none) :
    p.find i c = (.error (.discovery i.badText), c) := by
  have hcopy := DocumentSource.copy?_of_read hread honline c.clock
  rw [if_pos (DocumentSource.isFresh_iff.2 hfresh)] at hcopy
  rw [(Consulted.copied hunknown hcopy).find_eq hp, Inquiry.reading_error hbad]
  rfl

theorem find_of_stale (hp : p.catalog = .documents d)
    (hunknown : (c.libraryOf p.name).find? i = none) (honline : d.offline = false)
    (hstale : d.Stale c i.document)
    (hfolder : c.files.read (d.copyPath i.document) ≠ .error .isFolder)
    (hanswers : Answers d i c f) : (p.find i c).1 = .ok f :=
  Fetches.find_eq ⟨hunknown, DocumentSource.copy?_of_stale hstale honline hfolder, honline⟩ hp
    hanswers

end Provider

namespace Sample

open Provider

/-- Copies are fresh for a minute. -/
def minuteCopies : DocumentSource :=
  ⟨"https://apis.test/list", "copies", 60000, false⟩

def reader : Provider :=
  .google (.documents minuteCopies) .google false

/-- The network answers a text that is no directory, and then an empty directory. -/
def badThenGood : Context :=
  .initial ((Script.empty.respond "GET" "https://apis.test/list" ⟨200, "oops"⟩).respond "GET"
    "https://apis.test/list" ⟨200, "\x7b\"items\": []\x7d"⟩).network "google"

/-- The context after the first of the answers. -/
def afterBad : Context :=
  { badThenGood with
    sent := [.read "https://apis.test/list"], files := [("copies/discovery.json", ⟨"oops", 0⟩)] }

/-- A directory without services says something. -/
example : (Inquiry.directory.finding? "\x7b\"items\": []\x7d").isSome := by
  decide +kernel

theorem finding?_oops : Inquiry.directory.finding? "oops" = none :=
  Option.isNone_iff_eq_none.1 (by decide +kernel)

theorem answer_badThenGood :
    badThenGood.network.answer badThenGood.sent (.read "https://apis.test/list") =
      .ok ⟨200, "oops"⟩ :=
  eq_ok_of_toOption (by decide +kernel)

theorem write_badThenGood :
    badThenGood.files.write "copies/discovery.json" "oops" badThenGood.clock = .ok afterBad.files :=
  eq_ok_of_toOption (by decide +kernel)

theorem find_badThenGood :
    reader.find .directory badThenGood = (.error (.discovery .badDirectory), afterBad) := by
  have hfetches : reader.Fetches minuteCopies .directory badThenGood :=
    ⟨rfl, eq_ok_of_toOption (by decide +kernel), rfl⟩
  rw [hfetches.find_of_badText rfl answer_badThenGood (by decide) finding?_oops]
  exact congrArg _ (Context.copied_of_write (c := badThenGood.asked "https://apis.test/list")
    write_badThenGood)

theorem answers_afterBad (clock : Nat) :
    ∃ f, Answers minuteCopies .directory { afterBad with clock } f := by
  have hgood : (Inquiry.directory.finding? "\x7b\"items\": []\x7d").isSome := by decide +kernel
  obtain ⟨f, hf⟩ := Option.isSome_iff_exists.1 hgood
  have hanswer : afterBad.network.answer afterBad.sent (.read "https://apis.test/list") =
      .ok ⟨200, "\x7b\"items\": []\x7d"⟩ := eq_ok_of_toOption (by decide +kernel)
  exact ⟨f, _, hanswer, by decide, hf⟩

end Sample

namespace Provider

variable {p : Provider} {d e : DocumentSource} {i : Inquiry} {c c' : Context} {f : Finding}

open Sample

/-- A document was fetched and says nothing. The failure is not remembered. If the copy could be written,
the next question that finds it there is answered from it and fails in the same way as long as it is fresh,
although the network would answer a document that says something; later it is answered with that document.
If there is no copy, it is answered with that document at once. -/
theorem bad_document_kept (q : Provider) (later : Context) (hp : p.catalog = .documents d)
    (hfailed : p.find i c = (.error (.discovery i.badText), c')) (hsent : c'.sent ≠ c.sent)
    (hq : q.catalog = .documents e) (hfolder : e.folder = d.folder) (honline : e.offline = false)
    (hunknown : (later.libraryOf q.name).find? i = none)
    (hfile : later.files.read (d.copyPath i.document) = c'.files.read (d.copyPath i.document))
    (hanswers : Answers e i later f) :
    (c'.libraryOf p.name).find? i = none ∧
      ∃ response, c.network.answer c.sent (.read (i.address d)) = .ok response ∧
        ((c.files.write (d.copyPath i.document) response.body c.clock).isOk = true →
          if c.clock ≤ later.clock ∧ later.clock - c.clock < e.lifetime then
            q.find i later = (.error (.discovery i.badText), later)
          else (q.find i later).1 = .ok f) ∧
        ((∀ file, later.files.read (d.copyPath i.document) ≠ .ok file) →
          later.files.read (d.copyPath i.document) ≠ .error .isFolder →
          (q.find i later).1 = .ok f) := by
  obtain ⟨hfetches, response, answer, hbad, rfl⟩ :=
    ((find_eq_iff hp).1 hfailed).of_badText hsent
  have hpath : e.copyPath i.document = d.copyPath i.document := by
    rw [DocumentSource.copyPath, DocumentSource.copyPath, hfolder]
  refine ⟨?_, response, answer, ?_, ?_⟩
  · rw [Context.libraryOf_copied]
    exact hfetches.unknown
  · intro hwritten
    cases hwrite : c.files.write (d.copyPath i.document) response.body c.clock with
    | error err =>
        rw [hwrite] at hwritten
        cases hwritten
    | ok files =>
        have hread : later.files.read (e.copyPath i.document) = .ok ⟨response.body, c.clock⟩ := by
          rw [hpath, hfile]
          exact Context.read_copied (c := c.asked (i.address d)) hwrite
            (i.namesFolder_copyPath d)
        split
        · rename_i hfresh
          exact find_of_freshCopy hq hunknown honline hread hfresh hbad
        · rename_i hnot
          refine find_of_stale hq hunknown honline ?_ (by simp [hread]) hanswers
          intro file hf
          cases hread.symm.trans hf
          exact hnot
  · intro hnone hfolder
    rw [← hpath] at hnone hfolder
    exact find_of_stale hq hunknown honline (fun file hf => absurd hf (hnone file)) hfolder hanswers

/-- The directory that was fetched says nothing. Until the copy is a minute old, the provider fails again
without a request; then it is answered with a good directory. -/
theorem bad_document_kept_directory :
    reader.find .directory afterBad = (.error (.discovery .badDirectory), afterBad) ∧
      ∃ f, (reader.find .directory { afterBad with clock := minuteCopies.lifetime }).1 = .ok f := by
  have hsent : afterBad.sent ≠ badThenGood.sent := by decide
  have hfresh : badThenGood.clock ≤ afterBad.clock ∧
    afterBad.clock - badThenGood.clock < minuteCopies.lifetime := by decide
  have hstale : ¬(badThenGood.clock ≤ minuteCopies.lifetime ∧
    minuteCopies.lifetime - badThenGood.clock < minuteCopies.lifetime) := by decide
  constructor
  · obtain ⟨f, hanswers⟩ := answers_afterBad 0
    obtain ⟨-, response, hanswer, hkept, -⟩ := bad_document_kept reader afterBad rfl
      find_badThenGood hsent rfl rfl rfl rfl rfl hanswers
    cases answer_badThenGood.symm.trans hanswer
    have hfind := hkept (congrArg Except.isOk write_badThenGood)
    rw [if_pos hfresh] at hfind
    exact hfind
  · obtain ⟨f, hanswers⟩ := answers_afterBad minuteCopies.lifetime
    obtain ⟨-, response, hanswer, hkept, -⟩ := bad_document_kept reader
      { afterBad with clock := minuteCopies.lifetime } rfl find_badThenGood hsent rfl rfl rfl rfl rfl
      hanswers
    cases answer_badThenGood.symm.trans hanswer
    have hfind := hkept (congrArg Except.isOk write_badThenGood)
    rw [if_neg hstale] at hfind
    exact ⟨f, hfind⟩

/-- A bad directory was fetched. Asked again at once, the provider fails without a request, although a good
directory would be answered. -/
theorem not_recovers_from_bad_directory :
    reader.find .directory badThenGood = (.error (.discovery .badDirectory), afterBad) ∧
      (∃ f, Answers minuteCopies .directory afterBad f) ∧
      reader.find .directory afterBad = (.error (.discovery .badDirectory), afterBad) := by
  have hread : afterBad.files.read "copies/discovery.json" = .ok ⟨"oops", 0⟩ :=
    eq_ok_of_toOption (by decide +kernel)
  exact ⟨find_badThenGood, answers_afterBad 0,
    find_of_freshCopy rfl rfl rfl hread (by decide) finding?_oops⟩

end Provider
end RestSql
