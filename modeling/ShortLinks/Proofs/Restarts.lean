import ShortLinks.CommandLine.Transcript
import ShortLinks.Proofs.OfficeStanding
import ShortLinks.Proofs.StoreFile

/-!
# Runs of the program, one after the other

Each run is a process of its own: it opens the storage, carries out one command, drains its
pipeline and saves the file. The runs write what one office would write that is never closed
between the commands and keeps its store in the process.
-/

namespace ShortLinks.CommandLine

set_option autoImplicit false

open Deletion (Pipeline)

def Request.parse (request : Request) : Except Refusal Invocation :=
  Invocation.parse request.environment request.arguments

def runAll : List Request → Session → List Finished × Session
  | [], session => ([], session)
  | request :: later, session =>
      let (finished, next) := run request.environment request.arguments session
      let (rest, last) := runAll later next
      (finished :: rest, last)

/-- What an office answers that carries out the commands one after the other. -/
def Office.attend : List Invocation → Office → List Finished
  | [], _ => []
  | invocation :: later, office =>
      let (outcome, next) := office.obey invocation.user invocation.command
      .of outcome :: next.attend later

namespace Invocation

/-- One run, in whatever order its pipeline goes. -/
inductive Conducts (invocation : Invocation) (session : Session) : Finished → Session → Prop
  | unread (unreadable : isFilter invocation.logLevel = false) :
      Conducts invocation session (.failure (invalidLogLevel invocation.logLevel)) session
  | unopened {error : StorageError} (readable : isFilter invocation.logLevel = true)
      (refused : (Store.openChosen session.folder invocation.storage).outcome = .error error) :
      Conducts invocation session (.failure ⟨"failed to open storage", some error.message⟩)
        { session with folder := (Store.openChosen session.folder invocation.storage).folder }
  | served {store : Store} {finished : Finished} {last : Office}
      (readable : isFilter invocation.logLevel = true)
      (opened : (Store.openChosen session.folder invocation.storage).outcome = .ok store)
      (serves : (Office.staff store invocation.service session.codes).Serves invocation.user
        invocation.command finished last) :
      Conducts invocation session finished
        ⟨last.store.save (Store.openChosen session.folder invocation.storage).folder,
          last.shortener.codes⟩

/-- The runs one after the other, each in its own order. -/
inductive Conducted : List Invocation → Session → List Finished → Session → Prop
  | nothing (session : Session) : Conducted [] session [] session
  | next {invocation : Invocation} {later : List Invocation} {session between last : Session}
      {finished : Finished} {rest : List Finished}
      (conducts : invocation.Conducts session finished between)
      (behind : Conducted later between rest last) :
      Conducted (invocation :: later) session (finished :: rest) last

theorem carryOut_conducts (invocation : Invocation) (session : Session) :
    invocation.Conducts session (invocation.carryOut session).1
      (invocation.carryOut session).2 := by
  unfold carryOut
  cases readable : isFilter invocation.logLevel with
  | false => exact .unread readable
  | true =>
    simp only [Bool.not_true, Bool.false_eq_true, if_false]
    cases opened : (Store.openChosen session.folder invocation.storage).outcome with
    | error error => exact .unopened readable opened
    | ok store =>
      have standing := Office.standing_staff store invocation.service session.codes
      exact .served readable opened (Office.serve_serves standing _ _)

theorem runAll_conducted {requests : List Request} {invocations : List Invocation}
    (parsed : requests.map Request.parse = invocations.map .ok) (session : Session) :
    Conducted invocations session (runAll requests session).1 (runAll requests session).2 := by
  induction requests generalizing invocations session with
  | nil =>
    cases invocations with
    | nil => exact .nothing session
    | cons invocation later => cases parsed
  | cons request requests induction =>
    cases invocations with
    | nil => cases parsed
    | cons invocation later =>
      rw [List.map_cons, List.map_cons, List.cons.injEq] at parsed
      have conducts := carryOut_conducts invocation session
      have ran : run request.environment request.arguments session =
          invocation.carryOut session := by
        unfold run
        rw [show Invocation.parse _ _ = _ from parsed.1]
      have behind := induction parsed.2 (invocation.carryOut session).2
      simp only [runAll, ran]
      exact .next conducts behind

/-- The runs use the one storage and show the one base URL, and their log levels can be read. -/
structure Alike (choice : StorageChoice) (baseUrl : String) (invocation : Invocation) : Prop where
  storage : invocation.storage.choice = choice
  baseUrl : invocation.service.baseUrl = baseUrl
  readable : isFilter invocation.logLevel = true

variable {choice : StorageChoice} {baseUrl : String} {name : String} {view next : View}
  {invocation : Invocation} {session between last : Session} {finished : Finished}
  {outcome : Except Failure String}

theorem conducts_leads (alike : invocation.Alike choice baseUrl)
    (rests : choice.Rests view.ledger session.folder name) (codes : session.codes = view.codes)
    (leads : Office.Leads ⟨choice.batchPolicy, baseUrl⟩ invocation.user view invocation.command
      outcome next)
    (conducts : invocation.Conducts session finished between) :
    finished = .of outcome ∧ choice.Rests next.ledger between.folder name ∧
      between.codes = next.codes := by
  rcases Store.open_rests rests alike.storage with ⟨found, opened, home, holds, fits, located⟩
  cases conducts with
  | unread unreadable =>
    rw [alike.readable] at unreadable
    cases unreadable
  | unopened readable refused =>
    rw [opened] at refused
    cases refused
  | @served store _ office readable again serves =>
    obtain rfl := Except.ok.inj (opened.symm.trans again)
    have shows : (Office.staff found invocation.service session.codes).Shows
        ⟨choice.batchPolicy, baseUrl⟩ view :=
      ⟨holds, StorageChoice.fits_policy fits, alike.baseUrl, codes⟩
    rcases Office.serves_leads (StorageChoice.fits_lasting choice)
      (Pipeline.untroubled_start invocation.service.deletion) shows fits leads serves with
      ⟨answered, drawn, closed, stored, holdsNext, fitsNext, same⟩
    refine ⟨answered, ?_, drawn⟩
    have saved : office.store.save (Store.openChosen session.folder invocation.storage).folder =
        closed.save (Store.openChosen session.folder invocation.storage).folder := by
      rw [stored]
      exact Store.save_shutdown closed _
    simp only [saved]
    exact Store.save_rests fitsNext holdsNext (same.trans home) located

/-- The runs answer as the office does that holds the same ledger and goes on. -/
theorem conducted_attended {invocations : List Invocation} {office : Office}
    {answers : List Finished} (alike : ∀ invocation ∈ invocations, Alike choice baseUrl invocation)
    (rests : choice.Rests view.ledger session.folder name) (codes : session.codes = view.codes)
    (standing : office.Standing) (shows : office.Shows ⟨choice.batchPolicy, baseUrl⟩ view)
    (conducted : Conducted invocations session answers last) :
    answers = office.attend invocations := by
  induction conducted generalizing office view with
  | nothing => rfl
  | @next invocation later session between last finished rest conducts behind induction =>
    rcases Office.leads_somewhere ⟨choice.batchPolicy, baseUrl⟩ invocation.user view
      invocation.command with ⟨outcome, next, leads⟩
    rcases conducts_leads (alike invocation List.mem_cons_self) rests codes leads conducts with
      ⟨answered, restsNext, codesNext⟩
    rcases Office.obey_leads standing shows leads with ⟨same, showsNext⟩
    have standingNext := Office.obey_standing standing invocation.user invocation.command
    have onward := induction
      (fun other member => alike other (List.mem_cons_of_mem invocation member)) restsNext
      codesNext standingNext showsNext
    rw [answered, onward, ← same]
    rfl

end Invocation

/-- Restarting between commands does not show. The storage may be a file or a database that is not
there at first. Whatever the order in which the pipelines of the runs go, the runs end as an office
answers that is never closed, applies every deletion before the next command, and has any new store
that leaves as much of a failing batch as the storage does. The runs that the program makes go in
one of these orders. -/
theorem restarts_do_not_show {storage : StorageSettings} {folder : Folder}
    (new : Store.New folder storage) {settings : ServiceSettings} {requests : List Request}
    {invocations : List Invocation}
    (parsed : requests.map Request.parse = invocations.map .ok)
    (alike : ∀ invocation ∈ invocations,
      Invocation.Alike storage.choice settings.baseUrl invocation)
    {backend : Backend} (newborn : backend.Newborn)
    (policy : backend.batchPolicy = storage.choice.batchPolicy) (codes : CodeSupply) :
    let answers := (Office.staff ⟨backend, none⟩ settings codes).attend invocations
    let runs := runAll requests ⟨folder, codes⟩
    runs.1 = answers ∧ Invocation.Conducted invocations ⟨folder, codes⟩ runs.1 runs.2 ∧
      ∀ finished last, Invocation.Conducted invocations ⟨folder, codes⟩ finished last →
        finished = answers := by
  intro answers runs
  rcases Store.new_rests new with ⟨name, rests⟩
  have standing := Office.standing_staff ⟨backend, none⟩ settings codes
  have shows : (Office.staff ⟨backend, none⟩ settings codes).Shows
      ⟨storage.choice.batchPolicy, settings.baseUrl⟩ ⟨.empty, codes⟩ :=
    ⟨Backend.newborn_holds newborn, policy, rfl, rfl⟩
  have attended : ∀ finished last,
      Invocation.Conducted invocations ⟨folder, codes⟩ finished last → finished = answers :=
    fun finished last conducted =>
      Invocation.conducted_attended alike rests rfl standing shows conducted
  have conducted := Invocation.runAll_conducted parsed ⟨folder, codes⟩
  exact ⟨attended _ _ conducted, conducted, attended⟩

/-- A batch that fails at its second link, and a deletion of which one code is another's. -/
def visits : List (String × List String × Command) :=
  [("u1", ["shorten", "http://a"], .shorten "http://a"),
    ("u2", ["batch", "http://b", "http://a"], .batch ["http://b", "http://a"]),
    ("u1", ["delete", "a", "b"], .delete [⟨"a"⟩, ⟨"b"⟩]),
    ("u2", ["resolve", "a"], .resolve ⟨"a"⟩), ("u2", ["resolve", "b"], .resolve ⟨"b"⟩)]

def visitRequests : List Request :=
  visits.map fun (user, words, _) =>
    ⟨"-f=links.json" :: "-u" :: user :: words, [("BASE_URL", "http://s")]⟩

def visitInvocations : List Invocation :=
  visits.map fun (user, _, command) =>
    ⟨⟨some "links.json", none⟩, .of (some "http://s") (.of none none) none, defaultLogLevel, .text,
      user, command⟩

theorem visits_do_not_show_restarts :
    Store.New (.empty "") ⟨some "links.json", none⟩ ∧
      visitRequests.map Request.parse = visitInvocations.map .ok ∧
      (∀ invocation ∈ visitInvocations,
        Invocation.Alike (.file "links.json") "http://s" invocation) ∧
      (Backend.memory Index.empty).Newborn ∧
      (runAll visitRequests ⟨.empty "", .cycle [⟨"a"⟩, ⟨"b"⟩, ⟨"c"⟩] 0⟩).1 =
        [.success "http://s/a\n",
          .failure ⟨"original url already shortened: http://a", none⟩,
          .success "accepted 2 code(s) for deletion\n",
          .failure ⟨"short code has been deleted: a", none⟩, .success "http://b\n"] := by
  have new : Store.New (.empty "") ⟨some "links.json", none⟩ :=
    ⟨⟨.journal "links.json" ⟨[], Index.empty⟩, some "links.json"⟩, "links.json", rfl, rfl, rfl⟩
  have parsed : visitRequests.map Request.parse = visitInvocations.map .ok := by decide +kernel
  have alike : ∀ invocation ∈ visitInvocations,
      Invocation.Alike (.file "links.json") "http://s" invocation := by
    intro invocation member
    rcases List.mem_map.1 member with ⟨visit, _, rfl⟩
    have readable : isFilter defaultLogLevel = true := by decide +kernel
    exact ⟨rfl, rfl, readable⟩
  let drawn : CodeSupply := .cycle [⟨"a"⟩, ⟨"b"⟩, ⟨"c"⟩] 0
  let settings : ServiceSettings := ⟨"http://s", ⟨1, 1⟩, 0⟩
  have newborn : (Backend.memory Index.empty).Newborn := rfl
  have same := @restarts_do_not_show _ _ new settings _ _ parsed alike _ newborn rfl drawn
  refine ⟨new, parsed, alike, newborn, ?_⟩
  rw [same.1]
  decide +kernel

end ShortLinks.CommandLine
