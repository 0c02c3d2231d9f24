-- SUMMARY: Which of the listed folders the IMAP crawl selects, and when these are the ones that can be read.
import GetEmail.Mail.Crawl

/-!
# The folders of a crawl

LIST also names folders that cannot be selected. The crawl leaves out sent mail and
drafts, selects all other names, and ends at the first error or panic. Whether it gets past
an empty folder is up to the session: the set that it fetches there is not well formed.
-/

namespace Mail

open Exec

variable {σ ε μ : Type}

/-! ## Servers with a list of folders -/

/-- A server that answers LIST with these entries. A name that is listed with
`\Noselect` is refused, and any other listed name can be selected. -/
structure FolderServer (σ : Type) {ε : Type} [Session σ ε] extends ImapServer σ where
  entries : List Name
  list : ∀ session : σ, ∃ session', Session.list none (some "*") session =
    .ok (entries.map .ok) session'
  listed : ∀ entry ∈ entries, (folders entry.name).isSome ↔
    ∀ entry' ∈ entries, entry'.name = entry.name → .noSelect ∉ entry'.attributes
  refused : ∀ name (session : σ), folders name = none →
    ∃ e session', Session.select name session = .error (.error e) session'
  /-- Whether the `BAD` for a set that is not well formed is reported. -/
  reported : Bool
  /-- If it is not, the stream ends without an item. -/
  malformed : ∀ (session : σ) sequenceSet query, SequenceSet.parse sequenceSet = none →
    if reported then
      (∃ e session', Session.fetch sequenceSet query session = .error (.error e) session') ∨
        ∃ items session', Session.fetch sequenceSet query session = .ok items session' ∧
          ∃ e, .error e ∈ items
    else ∃ session', Session.fetch sequenceSet query session = .ok [] session'

/-- The names that were selected, in order. -/
def selects : List Issued → List String
  | [] => []
  | .select name :: issued => name :: selects issued
  | _ :: issued => selects issued

theorem selects_append (a b : List Issued) : selects (a ++ b) = selects a ++ selects b := by
  induction a with
  | nil => rfl
  | cons command a ih => cases command <;> simp [selects, ih]

theorem selects_fetches {fetches : List Issued} (h : ∀ command ∈ fetches, ∃ sequenceSet,
    command = .fetch sequenceSet "RFC822") : selects fetches = [] := by
  induction fetches with
  | nil => rfl
  | cons command fetches ih =>
    rw [List.forall_mem_cons] at h
    obtain ⟨⟨sequenceSet, rfl⟩, hrest⟩ := h
    exact ih hrest

namespace FolderServer

variable [Session σ ε] [MessageParser μ] (server : FolderServer σ)

/-- The entries that carry none of the three attributes. -/
def wanted : List Name :=
  server.entries.filter fun entry =>
    entry.attributes.all fun x => !([.noSelect, .sent, .drafts].contains x)

/-- A run has selected the wanted folders, one for each entry and in the order of the
list, and none of them was refused. -/
def VisitsWanted (protocol : ImapProtocol σ)
    (r : EStateM.Result (Exit (Error ε)) (ImapProtocol σ) (List μ)) : Prop :=
  ∃ issued, (stateOf r).issued = protocol.issued ++ issued ∧
    selects issued = server.wanted.map Name.name ∧
    ∀ name ∈ selects issued, server.folders name ≠ none

/-- The entries that the code does not leave out. -/
def visited : List Name :=
  server.entries.filter fun entry => entry.attributes.all fun x => !([.sent, .drafts].contains x)

/-- The folder can be selected, all its messages can be parsed and the filter returns on
them. It has messages, if the session reports sets that are not well formed. -/
def Passes (filter : μ → Option Bool) (name : String) : Prop :=
  server.Readable μ name ∧ server.Judges filter name ∧
    (server.reported = true → server.messages name ≠ [])

/-- There is no folder that does not pass, or the first one of these can be selected and
no entry behind it is wanted. -/
def EndsWell (filter : μ → Option Bool) : List Name → Prop
  | [] => True
  | entry :: entries => server.Passes filter entry.name ∧ EndsWell filter entries ∨
    ¬ server.Passes filter entry.name ∧ server.folders entry.name ≠ none ∧
      ∀ entry' ∈ entries, .noSelect ∈ entry'.attributes

end FolderServer

namespace ImapProtocol

variable [Session σ ε] [MessageParser μ]

omit [Session σ ε] in
/-- An error in the stream ends the crawl. -/
theorem crawlMessage_error (filter : μ → Option Bool) (items : List (Except ε Fetch)) {e : ε}
    (he : .error e ∈ items) (res : List μ) (protocol : ImapProtocol σ) :
    value? (items.foldlM (crawlMessage filter) res protocol) = none := by
  induction items generalizing res with
  | nil => cases he
  | cons item items ih =>
    rw [List.foldlM_cons, bind_apply]
    cases item with
    | error e' => rfl
    | ok fetch =>
      have he : .error e ∈ items := (List.mem_cons.mp he).resolve_left (by simp)
      simp only [crawlMessage]
      cases (MessageParser.parse (fetch.body.getD []) : Option μ) with
      | none => rfl
      | some newMsg =>
        cases hkeep : filter newMsg with
        | none =>
          simp only [hkeep, orCrash_none, bind_apply, crash_apply]
          rfl
        | some keep =>
          simp only [hkeep, orCrash_some, pure_bind, pure_apply]
          exact ih he _

variable (server : FolderServer σ) (filter : μ → Option Bool) (name : String)
  (protocol : ImapProtocol σ)

/-- There is no sequence set for an empty folder. -/
theorem crawlMessages_empty (hfolder : server.folders name = some []) :
    if server.reported then value? (crawlMessages name filter protocol) = none
    else ∃ protocol', crawlMessages name filter protocol = .ok [] protocol' := by
  obtain ⟨mailbox, selected, hselect, hexisting, hselected⟩ :=
    server.select name [] protocol.session hfolder
  simp only [crawlMessages, bind_apply, issue_ok protocol hselect, hexisting]
  have hparse : SequenceSet.parse (['1', ':'] ++ Nat.toDigits 10 ([] : List Bytes).length) = none :=
    SequenceSet.parse_upTo (by decide)
  have hmalformed := server.malformed selected _ "RFC822" hparse
  split at hmalformed
  · rw [if_pos ‹_›]
    rcases hmalformed with ⟨e, session', hfetch⟩ | ⟨items, session', hfetch, e, he⟩
    · rw [issue_error _ hfetch]
      rfl
    · rw [issue_ok _ hfetch]
      exact crawlMessage_error filter items he [] ⟨session', _⟩
  · rw [if_neg ‹_›]
    obtain ⟨session', hfetch⟩ := hmalformed
    rw [issue_ok _ hfetch]
    exact ⟨_, rfl⟩

/-- A folder that passes is crawled to its end. -/
theorem crawlMessages_passes (hpasses : server.Passes filter name) : ∃ protocol',
    crawlMessages name filter protocol =
      .ok (kept filter ((server.messages name).filterMap MessageParser.parse)) protocol' := by
  obtain ⟨hname, hjudged, hreported⟩ := hpasses
  by_cases hne : server.messages name = []
  · obtain ⟨messages, hfolder, -⟩ := hname
    obtain rfl : messages = [] := by simpa [ImapServer.messages, hfolder] using hne
    have hempty := crawlMessages_empty server filter name protocol hfolder
    rw [if_neg fun h => hreported h hne] at hempty
    rw [hne]
    exact hempty
  · obtain ⟨session', hcrawl⟩ :=
      crawlMessages_ok server.toImapServer filter protocol hname hjudged hne
    exact ⟨_, hcrawl⟩

/-- A folder is crawled to its end only if it passes. -/
theorem crawlMessages_value : value? (crawlMessages name filter protocol) ≠ none ↔
    server.Passes filter name := by
  constructor
  · intro hok
    cases hfolder : server.folders name with
    | none =>
      obtain ⟨e, session', hselect⟩ := server.refused name protocol.session hfolder
      rw [crawlMessages, bind_apply, issue_error protocol hselect] at hok
      exact absurd rfl hok
    | some messages =>
      have hmessages : server.messages name = messages := by simp [ImapServer.messages, hfolder]
      have hhandled : ∀ body ∈ messages, (MessageParser.parse body : Option μ).isSome ∧
          ∀ msg ∈ (MessageParser.parse body : Option μ), (filter msg).isSome := by
        intro body hbody
        obtain ⟨session', hcrawl⟩ := crawlMessages_fetched server.toImapServer filter protocol hfolder
          (List.ne_nil_of_mem hbody)
        rw [hcrawl] at hok
        exact judged_of_crawlMessage_fold filter messages [] _ hok body hbody
      refine ⟨⟨messages, hfolder, fun body hbody => (hhandled body hbody).1⟩, ?_, ?_⟩
      · rw [ImapServer.Judges, hmessages]
        exact fun body hbody => (hhandled body hbody).2
      · rintro hreported hempty
        obtain rfl : messages = [] := hmessages.symm.trans hempty
        have hnone := crawlMessages_empty server filter name protocol hfolder
        rw [if_pos hreported] at hnone
        exact hok hnone
  · intro hpasses
    obtain ⟨protocol', hcrawl⟩ := crawlMessages_passes server filter name protocol hpasses
    rw [hcrawl]
    exact Option.some_ne_none _

omit [MessageParser μ] in
/-- What can be selected is not listed with `\Noselect`. -/
theorem selectable_of_listed {entry : Name} (hentry : entry ∈ server.entries)
    (hfolder : server.folders entry.name ≠ none) : .noSelect ∉ entry.attributes :=
  (server.listed entry hentry).mp (Option.isSome_iff_ne_none.mpr hfolder) entry hentry rfl

/-- The folders that a crawl selects are the entries without `\Noselect`, and none is
refused, exactly when it ends well. -/
theorem crawlFolders_selects (entries : List Name) (hentries : ∀ entry ∈ entries, entry ∈ server.entries)
    (res : List μ) : ∃ issued,
    (stateOf ((entries.map Name.name).foldlM (crawlFolder filter) res protocol)).issued =
        protocol.issued ++ issued ∧
      ((selects issued = (entries.filter fun entry => !(entry.attributes.contains .noSelect)).map
          Name.name ∧ ∀ name ∈ selects issued, server.folders name ≠ none) ↔
        server.EndsWell filter entries) := by
  induction entries generalizing res protocol with
  | nil => exact ⟨[], by simp [stateOf, selects, FolderServer.EndsWell]⟩
  | cons entry entries ih =>
    rw [List.forall_mem_cons] at hentries
    obtain ⟨fetches, ha, hfetches⟩ := crawlMessages_commands filter protocol entry.name
    have hselects : selects (.select entry.name :: fetches) = [entry.name] := by
      rw [selects, selects_fetches hfetches]
    generalize Issued.select entry.name :: fetches = a at ha hselects
    have hvalue := crawlMessages_value server filter entry.name protocol
    have hkept : server.folders entry.name ≠ none → (entry :: entries).filter
        (fun entry => !(entry.attributes.contains .noSelect)) =
          entry :: entries.filter fun entry => !(entry.attributes.contains .noSelect) := fun hfolder =>
      List.filter_cons_of_pos (by simpa using selectable_of_listed server hentries.1 hfolder)
    rw [List.map_cons, List.foldlM_cons, bind_apply, crawlFolder, bind_apply]
    cases hcrawl : crawlMessages entry.name filter protocol with
    | ok newMsgs protocol' =>
      have hpasses : server.Passes filter entry.name :=
        hvalue.mp (by rw [hcrawl]; exact Option.some_ne_none _)
      have hfolder : server.folders entry.name ≠ none := by
        obtain ⟨⟨messages, hmessages, -⟩, -⟩ := hpasses
        simp [hmessages]
      rw [hcrawl] at ha
      obtain ⟨b, hb, hiff⟩ := ih protocol' hentries.2 (res ++ newMsgs)
      have ha : protocol'.issued = protocol.issued ++ a := ha
      refine ⟨a ++ b, by rw [← List.append_assoc, ← ha]; exact hb, ?_⟩
      rw [hkept hfolder, selects_append, hselects]
      simp only [FolderServer.EndsWell, hpasses, not_true, false_and, or_false, true_and, ← hiff,
        List.cons_append, List.nil_append, List.map_cons, List.cons.injEq, List.forall_mem_cons]
      simp [hfolder]
    | error x protocol' =>
      have hpasses : ¬ server.Passes filter entry.name := fun h => hvalue.mpr h (by rw [hcrawl]; rfl)
      rw [hcrawl] at ha
      refine ⟨a, ha, ?_⟩
      simp only [FolderServer.EndsWell, hpasses, false_and, false_or, not_false_eq_true, true_and,
        hselects, List.forall_mem_cons, List.not_mem_nil, false_imp_iff, implies_true, and_true]
      rw [and_comm]
      refine and_congr_right fun hfolder => ?_
      rw [hkept hfolder, List.map_cons, List.cons_eq_cons, eq_comm (a := []), List.map_eq_nil_iff,
        List.filter_eq_nil_iff]
      simp

/-- The names that are crawled. -/
theorem getFolders_visited : ∃ session', getFolders protocol =
    .ok (server.visited.map Name.name) ⟨session', protocol.issued ++ [.list none (some "*")]⟩ := by
  obtain ⟨session', hlist⟩ := server.list protocol.session
  refine ⟨session', ?_⟩
  rw [getFolders, bind_apply, issue_ok protocol hlist, FolderServer.visited]
  simp only [List.foldlM_map]
  generalize (⟨session', _⟩ : ImapProtocol σ) = protocol'
  have hfold : ∀ (entries : List Name) (serverFolders : List String),
      entries.foldlM (fun serverFolders (item : Name) => (pure
        (if (item.attributes.all fun x => !([.sent, .drafts].contains x)) then
          serverFolders ++ [item.name] else serverFolders) : Exec (Error ε) (ImapProtocol σ) _))
        serverFolders protocol' =
      .ok (serverFolders ++ (entries.filter fun entry =>
        entry.attributes.all fun x => !([.sent, .drafts].contains x)).map Name.name) protocol' := by
    intro entries
    induction entries with
    | nil => intro serverFolders; simp
    | cons entry entries ih =>
      intro serverFolders
      rw [List.foldlM_cons, bind_apply, pure_apply, List.filter_cons]
      simp only [ih]
      split <;> simp
  simpa using hfold server.entries []

end ImapProtocol

/-- A crawl of everything selects the wanted folders, and is refused none, exactly when it
ends well: each visited folder passes, or the first that does not can be selected and has
no wanted folder behind it. -/
theorem getFilteredEmails_visits_iff [Session σ ε] [MessageParser μ] (server : FolderServer σ)
    (filter : μ → Option Bool) (protocol : ImapProtocol σ) :
    server.VisitsWanted protocol (ImapProtocol.getFilteredEmails filter protocol) ↔
      server.EndsWell filter server.visited := by
  have hmem : ∀ entry ∈ server.visited, entry ∈ server.entries := fun entry hentry =>
    (List.mem_filter.mp hentry).1
  obtain ⟨session', hfolders⟩ := ImapProtocol.getFolders_visited server protocol
  obtain ⟨issued, hissued, hiff⟩ := ImapProtocol.crawlFolders_selects server filter
    ⟨session', protocol.issued ++ [.list none (some "*")]⟩ server.visited hmem []
  have hwanted : server.wanted = server.visited.filter
      fun entry => !(entry.attributes.contains .noSelect) := by
    rw [FolderServer.wanted, FolderServer.visited, List.filter_filter]
    refine List.filter_congr fun entry _ => Bool.eq_iff_iff.mpr ?_
    simp only [List.all_eq_true, Bool.and_eq_true, Bool.not_eq_true', ← Bool.not_eq_true,
      List.contains_iff_mem, List.mem_cons, List.not_mem_nil, or_false, not_or]
    exact ⟨fun h => ⟨fun hin => (h _ hin).1 rfl, fun x hx => (h x hx).2⟩,
      fun ⟨hin, h⟩ x hx => ⟨fun heq => hin (heq ▸ hx), h x hx⟩⟩
  have hrun : ImapProtocol.getFilteredEmails filter protocol =
      (server.visited.map Name.name).foldlM (ImapProtocol.crawlFolder filter) []
        ⟨session', protocol.issued ++ [.list none (some "*")]⟩ := by
    rw [ImapProtocol.getFilteredEmails, bind_apply, hfolders]
    rfl
  rw [← hiff, FolderServer.VisitsWanted, hrun, hissued, hwanted]
  constructor
  · rintro ⟨issued', hissued', hselects⟩
    rw [List.append_assoc, List.append_cancel_left_eq] at hissued'
    subst hissued'
    exact hselects
  · exact fun h => ⟨.list none (some "*") :: issued, by simp, h⟩

/-! ## A server with a container -/

/-- A session that also answers LIST. -/
@[reducible] def listingSession (folders : String → Option (List Bytes)) (entries : List Name) :
    Session (Option (List Bytes)) Unit :=
  { folderSession true folders with list := fun _ _ => fun selected => .ok (entries.map .ok) selected }

/-- It follows RFC 3501 if exactly the names without `\Noselect` can be selected. -/
def listingServer (folders : String → Option (List Bytes)) (entries : List Name)
    (hcount : ∀ name messages, folders name = some messages → messages.length < 2 ^ 32)
    (hlisted : ∀ entry ∈ entries, (folders entry.name).isSome ↔
      ∀ entry' ∈ entries, entry'.name = entry.name → .noSelect ∉ entry'.attributes) :
    @FolderServer _ _ (listingSession folders entries) :=
  let base := folderServer true folders hcount
  let session := listingSession folders entries
  { folders := folders
    Selected := fun selected messages => selected = some messages
    count := hcount
    select := @ImapServer.select _ _ (folderSession true folders) base
    fetch := @ImapServer.fetch _ _ (folderSession true folders) base
    entries := entries
    list := fun selected => ⟨selected, rfl⟩
    listed := hlisted
    refused := fun name selected hfolder => ⟨(), selected, by simp [Session.select, hfolder]⟩
    reported := true
    malformed := fun selected sequenceSet query hparse =>
      .inl ⟨(), selected, by cases selected <;> simp [Session.fetch, hparse]⟩ }

/-- A container before a folder with mail. -/
def containerEntries : List Name := [⟨[.noSelect], "Mail"⟩, ⟨[], "Archive"⟩]

theorem containerEntries_listed : ∀ entry ∈ containerEntries, (twoFolders entry.name).isSome ↔
    ∀ entry' ∈ containerEntries, entry'.name = entry.name → .noSelect ∉ entry'.attributes := by
  decide

/-- The container is selected and refused, and the crawl ends before the folder with mail. -/
theorem container_ends_crawl :
    let r := @ImapProtocol.getFilteredEmails _ _ _ (listingSession twoFolders containerEntries)
      bodyParser (fun _ => some true) ⟨none, []⟩
    exit? r = some (.error (.imap ())) ∧
      (stateOf r).issued = [.list none (some "*"), .select "Mail"] ∧
      ¬ @FolderServer.VisitsWanted _ _ _ (listingSession twoFolders containerEntries)
        (listingServer twoFolders containerEntries twoFolders_count containerEntries_listed)
        ⟨none, []⟩ r := by
  refine ⟨rfl, rfl, ?_⟩
  rintro ⟨issued, hissued, hselects, -⟩
  obtain rfl : [.list none (some "*"), .select "Mail"] = issued := hissued
  exact absurd hselects (by decide)

end Mail
