-- SUMMARY: What the IMAP crawl fetches from a server that follows RFC 3501.
import GetEmail.Mail.ImapProtocol

/-!
# What the crawl fetches

The crawl asks for the messages from 1 to the size of a folder. That is a set of
messages if the folder has any.
-/

namespace Mail

open Exec
open SequenceSet (Denotes upTo)

variable {σ ε μ : Type}

/-- The sessions with a server that follows RFC 3501. What a session makes of a set that is
not well formed is open. -/
structure ImapServer (σ : Type) {ε : Type} [Session σ ε] where
  folders : String → Option (List Bytes)
  /-- The messages of the folder that is selected. -/
  Selected : σ → List Bytes → Prop
  count : ∀ name messages, folders name = some messages → messages.length < 2 ^ 32
  select : ∀ name messages (session : σ), folders name = some messages →
    ∃ mailbox session', Session.select name session = .ok mailbox session' ∧
      mailbox.existing.toNat = messages.length ∧ Selected session' messages
  fetch : ∀ messages session sequenceSet numbers, Selected session messages →
    Denotes sequenceSet messages.length numbers →
      ∃ session', Session.fetch sequenceSet "RFC822" session =
        .ok (numbers.map fun n => .ok ⟨messages[n - 1]?⟩) session'

namespace ImapServer

variable [Session σ ε] [MessageParser μ] (server : ImapServer σ)

/-- The messages of a folder. -/
def messages (name : String) : List Bytes := (server.folders name).getD []

/-- A folder that can be selected, and whose messages can be parsed. -/
def Readable (μ : Type) [MessageParser μ] (name : String) : Prop :=
  ∃ messages, server.folders name = some messages ∧
    ∀ body ∈ messages, (MessageParser.parse body : Option μ).isSome

/-- The filter returns on every message of the folder. -/
def Judges (filter : μ → Option Bool) (name : String) : Prop :=
  ∀ body ∈ server.messages name, ∀ msg ∈ (MessageParser.parse body : Option μ), (filter msg).isSome

/-- The messages of the folders that satisfy the filter, in order. -/
def matching (filter : μ → Option Bool) (names : List String) : List μ :=
  kept filter ((names.flatMap server.messages).filterMap MessageParser.parse)

/-- Each `FETCH` is well formed, and asks for all messages of the folder selected last. -/
def FetchesAll : Option String → List Issued → Prop
  | _, [] => True
  | _, .select name :: issued => FetchesAll (some name) issued
  | selected, .fetch sequenceSet _ :: issued =>
    (∃ name ∈ selected, Denotes sequenceSet (server.messages name).length
      (List.range' 1 (server.messages name).length)) ∧ FetchesAll selected issued
  | selected, .list _ _ :: issued => FetchesAll selected issued

/-- A crawl that ended with `r` has fetched what there is. -/
structure Crawled (filter : μ → Option Bool) (names : List String) (protocol : ImapProtocol σ)
    (r : EStateM.Result (Exit (Error ε)) (ImapProtocol σ) (List μ)) : Prop where
  result : value? r = some (server.matching filter names)
  fetches : ∃ issued, (stateOf r).issued = protocol.issued ++ issued ∧ server.FetchesAll none issued

end ImapServer

namespace ImapProtocol

variable [Session σ ε] [MessageParser μ]

omit [Session σ ε] in
/-- All messages are parsed, and those that satisfy the filter are kept. -/
theorem crawlMessage_fold (filter : μ → Option Bool) (bodies : List Bytes)
    (hparse : ∀ body ∈ bodies, (MessageParser.parse body : Option μ).isSome)
    (hjudged : ∀ body ∈ bodies, ∀ msg ∈ (MessageParser.parse body : Option μ), (filter msg).isSome)
    (res : List μ) (protocol : ImapProtocol σ) :
    (bodies.map fun body => (.ok ⟨some body⟩ : Except ε Fetch)).foldlM (crawlMessage filter) res
      protocol = .ok (res ++ kept filter (bodies.filterMap MessageParser.parse)) protocol := by
  induction bodies generalizing res with
  | nil => simp [kept]
  | cons body bodies ih =>
    rw [List.forall_mem_cons] at hparse hjudged
    obtain ⟨newMsg, hnew⟩ := Option.isSome_iff_exists.mp hparse.1
    obtain ⟨keep, hkeep⟩ := Option.isSome_iff_exists.mp (hjudged.1 newMsg hnew)
    have hturn : crawlMessage filter res (.ok ⟨some body⟩ : Except ε Fetch) protocol =
        .ok (if keep then res ++ [newMsg] else res) protocol := by
      simp [crawlMessage, hnew, hkeep]
    rw [List.map_cons, List.foldlM_cons, bind_apply, hturn]
    simp only [ih hparse.2 hjudged.2, List.filterMap_cons_some hnew, kept, List.filter_cons, hkeep]
    cases keep <;> simp

omit [Session σ ε] in
/-- Messages that the loop gets through are parsed, and the filter returns on them. -/
theorem judged_of_crawlMessage_fold (filter : μ → Option Bool) (bodies : List Bytes) (res : List μ)
    (protocol : ImapProtocol σ)
    (hok : value? ((bodies.map fun body => (.ok ⟨some body⟩ : Except ε Fetch)).foldlM
      (crawlMessage filter) res protocol) ≠ none) :
    ∀ body ∈ bodies, (MessageParser.parse body : Option μ).isSome ∧
      ∀ msg ∈ (MessageParser.parse body : Option μ), (filter msg).isSome := by
  induction bodies generalizing res with
  | nil => simp
  | cons body bodies ih =>
    rw [List.map_cons, List.foldlM_cons, bind_apply] at hok
    rw [List.forall_mem_cons]
    simp only [crawlMessage, Option.getD_some] at hok
    cases hnew : (MessageParser.parse body : Option μ) with
    | none =>
      rw [hnew] at hok
      exact absurd rfl hok
    | some newMsg =>
      cases hkeep : filter newMsg with
      | none =>
        rw [hnew] at hok
        simp only [hkeep, orCrash_none, bind_apply, crash_apply] at hok
        exact absurd rfl hok
      | some keep =>
        rw [hnew] at hok
        simp only [hkeep, orCrash_some, pure_bind, pure_apply] at hok
        refine ⟨⟨rfl, fun msg hmsg => ?_⟩, ih _ hok⟩
        obtain rfl := Option.some.inj hmsg
        simp [hkeep]

omit [Session σ ε] in
/-- The loop over the messages gives no commands. -/
theorem crawlMessage_state (filter : μ → Option Bool) (items : List (Except ε Fetch)) (res : List μ)
    (protocol : ImapProtocol σ) :
    stateOf (items.foldlM (crawlMessage filter) res protocol) = protocol := by
  induction items generalizing res with
  | nil => rfl
  | cons item items ih =>
    rw [List.foldlM_cons, bind_apply]
    cases item with
    | error e => rfl
    | ok fetch =>
      simp only [crawlMessage]
      cases (MessageParser.parse (fetch.body.getD []) : Option μ) with
      | none => rfl
      | some newMsg =>
        cases hkeep : filter newMsg with
        | none =>
          simp only [hkeep, orCrash_none, bind_apply, crash_apply]
          rfl
        | some keep =>
          simp only [hkeep, orCrash_some, pure_bind, pure_apply]
          exact ih _

omit [Session σ ε] in
theorem issue_issued {α : Type} (command : Issued) (m : Exec ε σ α) (protocol : ImapProtocol σ) :
    (stateOf (issue command m protocol)).issued = protocol.issued ++ [command] := by
  simp only [issue, bind_apply, modify_apply, mapError, zoom]
  cases m protocol.session <;> rfl

variable (server : ImapServer σ) (filter : μ → Option Bool) {name : String} (protocol : ImapProtocol σ)

omit [Session σ ε] in
/-- A session does what it is told, and the command is noted. -/
theorem issue_ok {α : Type} {command : Issued} {m : Exec ε σ α} {a : α} {session' : σ}
    (h : m protocol.session = .ok a session') :
    issue command m protocol = .ok a ⟨session', protocol.issued ++ [command]⟩ := by
  simp [issue, mapError, zoom, h]

omit [Session σ ε] in
theorem issue_error {α : Type} {command : Issued} {m : Exec ε σ α} {e : ε} {session' : σ}
    (h : m protocol.session = .error (.error e) session') :
    issue command m protocol =
      .error (.error (.imap e)) ⟨session', protocol.issued ++ [command]⟩ := by
  simp [issue, mapError, zoom, h, Exit.map]

/-- What is left to do on a folder with messages is the loop over them. -/
theorem crawlMessages_fetched {messages : List Bytes} (hfolder : server.folders name = some messages)
    (hne : messages ≠ []) : ∃ session', crawlMessages name filter protocol =
      (messages.map fun body => (.ok ⟨some body⟩ : Except ε Fetch)).foldlM (crawlMessage filter) []
        ⟨session', protocol.issued ++ [.select name, .fetch (upTo messages.length) "RFC822"]⟩ := by
  obtain ⟨mailbox, selected, hselect, hexisting, hselected⟩ :=
    server.select name messages protocol.session hfolder
  have hdenotes := SequenceSet.denotes_upTo (server.count name messages hfolder)
    (mt List.length_eq_zero_iff.mp hne)
  obtain ⟨fetched, hfetch⟩ := server.fetch messages selected _ _ hselected hdenotes
  have hbodies : (List.range' 1 messages.length).map
      (fun n => (.ok ⟨messages[n - 1]?⟩ : Except ε Fetch)) =
      messages.map fun body => .ok ⟨some body⟩ := by
    refine List.ext_getElem (by simp) fun i h h' => ?_
    have hi : i < messages.length := by simpa using h'
    simp [hi]
  rw [hbodies] at hfetch
  refine ⟨fetched, ?_⟩
  simp only [crawlMessages, bind_apply, issue_ok protocol hselect, hexisting]
  rw [show ['1', ':'] ++ Nat.toDigits 10 messages.length = upTo messages.length from rfl,
    issue_ok _ hfetch, List.append_assoc]
  rfl

/-- A folder with messages is fetched as a whole. -/
theorem crawlMessages_ok (hname : server.Readable μ name) (hjudged : server.Judges filter name)
    (hne : server.messages name ≠ []) :
    ∃ session', crawlMessages name filter protocol =
      .ok (kept filter ((server.messages name).filterMap MessageParser.parse)) ⟨session',
        protocol.issued ++ [.select name, .fetch (upTo (server.messages name).length) "RFC822"]⟩ := by
  obtain ⟨messages, hfolder, hparse⟩ := hname
  have hmessages : server.messages name = messages := by simp [ImapServer.messages, hfolder]
  rw [ImapServer.Judges, hmessages] at hjudged
  rw [hmessages] at hne ⊢
  obtain ⟨session', hcrawl⟩ := crawlMessages_fetched server filter protocol hfolder hne
  exact ⟨session', by rw [hcrawl, crawlMessage_fold filter messages hparse hjudged, List.nil_append]⟩

/-- A crawl of a folder asks for the messages up to its size. -/
theorem crawlMessages_issued {messages : List Bytes} (hfolder : server.folders name = some messages) :
    (stateOf (crawlMessages name filter protocol)).issued =
      protocol.issued ++ [.select name, .fetch (upTo messages.length) "RFC822"] := by
  obtain ⟨mailbox, selected, hselect, hexisting, -⟩ :=
    server.select name messages protocol.session hfolder
  rw [crawlMessages, bind_apply, issue_ok protocol hselect]
  dsimp only
  rw [stateOf_bind fun fetchResult protocol => crawlMessage_state filter fetchResult [] protocol,
    issue_issued, hexisting, List.append_assoc]
  rfl

/-- Folders with messages are crawled one after the other. -/
theorem crawlFolder_fold (names : List String) (hnames : ∀ name ∈ names, server.Readable μ name)
    (hjudged : ∀ name ∈ names, server.Judges filter name)
    (hne : ∀ name ∈ names, server.messages name ≠ []) (res : List μ) :
    ∃ session', names.foldlM (crawlFolder filter) res protocol =
      .ok (res ++ server.matching filter names) ⟨session', protocol.issued ++
        names.flatMap fun name =>
          [.select name, .fetch (upTo (server.messages name).length) "RFC822"]⟩ := by
  induction names generalizing res protocol with
  | nil => exact ⟨protocol.session, by simp [ImapServer.matching, kept]⟩
  | cons name names ih =>
    rw [List.forall_mem_cons] at hnames hjudged hne
    obtain ⟨session', hcrawl⟩ :=
      crawlMessages_ok server filter protocol hnames.1 hjudged.1 hne.1
    obtain ⟨session'', hrest⟩ := ih _ hnames.2 hjudged.2 hne.2 _
    refine ⟨session'', ?_⟩
    rw [List.foldlM_cons, bind_apply, crawlFolder, bind_apply, hcrawl]
    simp only [pure_apply]
    rw [hrest]
    simp [ImapServer.matching, kept]

/-- Crawling a folder selects it, and may then fetch messages. -/
theorem crawlMessages_commands (name : String) : ∃ fetches,
    (stateOf (crawlMessages name filter protocol)).issued =
      protocol.issued ++ .select name :: fetches ∧ ∀ command ∈ fetches, ∃ sequenceSet,
        command = .fetch sequenceSet "RFC822" := by
  have hselect := issue_issued (.select name) (Session.select name) protocol
  rw [crawlMessages, bind_apply]
  generalize issue (.select name) (Session.select name) protocol = r at hselect
  cases r with
  | error x protocol' => exact ⟨[], hselect, by simp⟩
  | ok mailbox protocol' =>
    have hselect : protocol'.issued = protocol.issued ++ [.select name] := hselect
    dsimp only
    rw [stateOf_bind fun fetchResult protocol => crawlMessage_state filter fetchResult [] protocol,
      issue_issued, hselect, List.append_assoc]
    exact ⟨_, rfl, by simp⟩

theorem crawlFolder_appends (names : List String) (res : List μ) : ∃ more,
    (stateOf (names.foldlM (crawlFolder filter) res protocol)).issued = protocol.issued ++ more := by
  induction names generalizing res protocol with
  | nil => exact ⟨[], (List.append_nil _).symm⟩
  | cons name names ih =>
    obtain ⟨fetches, hfirst, -⟩ := crawlMessages_commands filter protocol name
    rw [List.foldlM_cons, bind_apply, crawlFolder, bind_apply]
    cases hcrawl : crawlMessages name filter protocol with
    | error x protocol' =>
      rw [hcrawl] at hfirst
      exact ⟨_, hfirst⟩
    | ok newMsgs protocol' =>
      rw [hcrawl] at hfirst
      obtain ⟨more, hmore⟩ := ih protocol' (res ++ newMsgs)
      have hfirst : protocol'.issued = protocol.issued ++ .select name :: fetches := hfirst
      refine ⟨.select name :: fetches ++ more, ?_⟩
      rw [← List.append_assoc, ← hfirst]
      exact hmore

omit [MessageParser μ] in
/-- Each folder that a well-formed `FETCH` asks for has messages. -/
theorem nonempty_of_fetchesAll {n : Nat} {issued : List Issued} {selected : Option String}
    (h : server.FetchesAll selected (.select name :: .fetch (upTo n) "RFC822" :: issued)) :
    n ≠ 0 ∧ server.FetchesAll (some name) issued := by
  obtain ⟨⟨_, -, hdenotes⟩, hrest⟩ := h
  refine ⟨?_, hrest⟩
  rintro rfl
  obtain ⟨set, hset, -⟩ := Option.bind_eq_some_iff.mp hdenotes
  rw [SequenceSet.parse_upTo (by decide)] at hset
  cases hset

/-- What a crawl got through, with well-formed sets only, are folders with messages on which
the filter returns. -/
theorem judged_of_crawlFolder_fold (names : List String)
    (hnames : ∀ name ∈ names, server.Readable μ name) (res : List μ)
    (hok : value? (names.foldlM (crawlFolder filter) res protocol) ≠ none) {issued : List Issued}
    (hissued : (stateOf (names.foldlM (crawlFolder filter) res protocol)).issued =
      protocol.issued ++ issued) {selected : Option String} (hfetches : server.FetchesAll selected issued) :
    ∀ name ∈ names, server.messages name ≠ [] ∧ server.Judges filter name := by
  induction names generalizing res protocol issued selected with
  | nil => simp
  | cons name names ih =>
    rw [List.forall_mem_cons] at hnames ⊢
    obtain ⟨messages, hfolder, hparse⟩ := hnames.1
    have hmessages : server.messages name = messages := by simp [ImapServer.messages, hfolder]
    have hcommands := crawlMessages_issued server filter protocol hfolder
    rw [List.foldlM_cons, bind_apply, crawlFolder, bind_apply] at hok hissued
    cases hcrawl : crawlMessages name filter protocol with
    | error x protocol' =>
      rw [hcrawl] at hok
      exact absurd rfl hok
    | ok newMsgs protocol' =>
      rw [hcrawl] at hok hissued hcommands
      have hcommands : protocol'.issued = _ := hcommands
      obtain ⟨more, hmore⟩ := crawlFolder_appends filter protocol' names (res ++ newMsgs)
      have hcut : issued = .select name :: .fetch (upTo messages.length) "RFC822" :: more := by
        have hissued : (stateOf (names.foldlM (crawlFolder filter) (res ++ newMsgs) protocol')).issued =
          protocol.issued ++ issued := hissued
        rw [hmore, hcommands, List.append_assoc, List.append_cancel_left_eq] at hissued
        exact hissued.symm
      rw [hcut] at hfetches
      obtain ⟨hlength, hrest⟩ := nonempty_of_fetchesAll server hfetches
      have hne : messages ≠ [] := mt List.length_eq_zero_iff.mpr hlength
      obtain ⟨session', hfetched⟩ := crawlMessages_fetched server filter protocol hfolder hne
      have hfold := judged_of_crawlMessage_fold filter messages [] _
        (by rw [← hfetched, hcrawl]; exact Option.some_ne_none _)
      refine ⟨⟨hmessages ▸ hne, ?_⟩, ih protocol' hnames.2 _ hok hmore hrest⟩
      rw [ImapServer.Judges, hmessages]
      exact fun body hbody => (hfold body hbody).2

end ImapProtocol

theorem ImapServer.fetchesAll_commands [Session σ ε] (server : ImapServer σ) (names : List String)
    (hnames : ∀ name ∈ names, (server.messages name).length < 2 ^ 32 ∧ server.messages name ≠ [])
    (selected : Option String) :
    server.FetchesAll selected (names.flatMap fun name =>
      [.select name, .fetch (upTo (server.messages name).length) "RFC822"]) := by
  induction names generalizing selected with
  | nil => trivial
  | cons name names ih =>
    obtain ⟨hcount, hne⟩ := hnames name List.mem_cons_self
    refine ⟨⟨name, rfl, SequenceSet.denotes_upTo hcount (mt List.length_eq_zero_iff.mp hne)⟩, ?_⟩
    exact ih (fun name hname => hnames name (List.mem_cons_of_mem _ hname)) _

/-- A crawl through folders that can be selected, and whose messages can be parsed,
fetches exactly what there is if and only if none of the folders is empty and the filter
returns on all messages. -/
theorem crawled_iff [Session σ ε] [MessageParser μ] (server : ImapServer σ)
    (filter : μ → Option Bool) (names : List String)
    (hnames : ∀ name ∈ names, server.Readable μ name) (protocol : ImapProtocol σ) :
    server.Crawled filter names protocol (ImapProtocol.crawlFolders names filter protocol) ↔
      ∀ name ∈ names, server.messages name ≠ [] ∧ server.Judges filter name := by
  constructor
  · rintro ⟨hresult, issued, hissued, hfetches⟩
    rw [ImapProtocol.crawlFolders] at hresult hissued
    refine ImapProtocol.judged_of_crawlFolder_fold server filter protocol names hnames [] ?_
      hissued hfetches
    rw [hresult]
    exact Option.some_ne_none _
  · intro h
    obtain ⟨session', hcrawl⟩ := ImapProtocol.crawlFolder_fold server filter protocol names hnames
      (fun name hname => (h name hname).2) (fun name hname => (h name hname).1) []
    have hcrawl : ImapProtocol.crawlFolders names filter protocol = _ := hcrawl
    rw [hcrawl]
    refine ⟨by simp [value?], _, rfl, server.fetchesAll_commands names (fun name hname => ?_) none⟩
    obtain ⟨messages, hfolder, -⟩ := hnames name hname
    have hcount := server.count name messages hfolder
    exact ⟨by simpa [ImapServer.messages, hfolder] using hcount, (h name hname).1⟩

/-! ## A server -/

/-- A session with a server that has these folders. Its state is the folder that is
selected. A set that is not well formed is reported as an error, or the stream ends. -/
@[reducible] def folderSession (reported : Bool) (folders : String → Option (List Bytes)) :
    Session (Option (List Bytes)) Unit where
  select name := fun selected =>
    match folders name with
    | some messages => .ok ⟨.ofNat messages.length⟩ (some messages)
    | none => .error (.error ()) selected
  fetch sequenceSet _ := fun selected =>
    match selected, SequenceSet.parse sequenceSet with
    | some messages, some set =>
      match SequenceSet.numbers set messages.length with
      | some numbers => .ok (numbers.map fun n => .ok ⟨messages[n - 1]?⟩) selected
      | none => .error (.error ()) selected
    | _, _ => if reported then .error (.error ()) selected else .ok [] selected
  list _ _ := fun selected => .ok [] selected

/-- It follows RFC 3501. -/
def folderServer (reported : Bool) (folders : String → Option (List Bytes))
    (hcount : ∀ name messages, folders name = some messages → messages.length < 2 ^ 32) :
    @ImapServer _ _ (folderSession reported folders) :=
  let session := folderSession reported folders
  { folders := folders
    Selected := fun selected messages => selected = some messages
    count := hcount
    select := fun name messages _ hfolder =>
      ⟨⟨.ofNat messages.length⟩, some messages, by simp [Session.select, hfolder],
        Nat.mod_eq_of_lt (hcount name messages hfolder), rfl⟩
    fetch := by
      rintro messages _ sequenceSet numbers rfl hdenotes
      obtain ⟨set, hset, hnumbers⟩ := Option.bind_eq_some_iff.mp hdenotes
      exact ⟨some messages, by simp [Session.fetch, hset, hnumbers]⟩ }

/-- A parser that rejects empty input only. -/
@[reducible] def bodyParser : MessageParser Bytes := ⟨fun body => if body = [] then none else some body⟩

/-- Two folders, of which one has two messages. -/
def twoFolders : String → Option (List Bytes)
  | "INBOX" => some [[1], [2]]
  | "Archive" => some [[3]]
  | "Empty" => some []
  | _ => none

theorem twoFolders_count (name : String) (messages : List Bytes)
    (h : twoFolders name = some messages) : messages.length < 2 ^ 32 := by
  unfold twoFolders at h
  split at h <;> cases h <;> decide

theorem crawled_iff_twoFolders :
    @ImapServer.Crawled _ _ _ (folderSession true twoFolders) bodyParser
      (folderServer true twoFolders twoFolders_count) (fun body => some (body ≠ [2]))
      ["INBOX", "Archive"] ⟨none, []⟩
      (@ImapProtocol.crawlFolders _ _ _ (folderSession true twoFolders) bodyParser ["INBOX", "Archive"]
        (fun body => some (body ≠ [2])) ⟨none, []⟩) := by
  let session := folderSession true twoFolders
  let parser := bodyParser
  refine (crawled_iff (folderServer true twoFolders twoFolders_count) _ _ (fun name hname => ?_) _).mpr
    fun name hname => ?_
  · simp only [List.mem_cons, List.not_mem_nil, or_false] at hname
    rcases hname with rfl | rfl
    · exact ⟨_, rfl, by decide⟩
    · exact ⟨_, rfl, by decide⟩
  · simp only [List.mem_cons, List.not_mem_nil, or_false] at hname
    rcases hname with rfl | rfl <;> exact ⟨List.cons_ne_nil _ _, fun _ _ _ _ => rfl⟩

/-- An empty folder is asked for a set that is not well formed. Where that is reported, it makes
the whole crawl fail, although the messages of the folder before it were fetched. -/
theorem empty_folder_fails :
    let crawl (reported : Bool) := @ImapProtocol.crawlFolders _ _ _ (folderSession reported twoFolders)
      bodyParser ["INBOX", "Empty"] (fun _ => some true) ⟨none, []⟩
    exit? (crawl true) = some (.error (.imap ())) ∧ value? (crawl false) = some [[1], [2]] ∧
      SequenceSet.parse ['1', ':', '0'] = none ∧
      ∀ reported, (stateOf (crawl reported)).issued = [.select "INBOX",
          .fetch ['1', ':', '2'] "RFC822", .select "Empty", .fetch ['1', ':', '0'] "RFC822"] ∧
        ¬ @ImapServer.Crawled _ _ _ (folderSession reported twoFolders) bodyParser
          (folderServer reported twoFolders twoFolders_count) (fun _ => some true) ["INBOX", "Empty"]
          ⟨none, []⟩ (crawl reported) := by
  refine ⟨rfl, rfl, by decide, fun reported => ⟨by cases reported <;> rfl, ?_⟩⟩
  rintro ⟨-, issued, hissued, hfetches⟩
  obtain rfl : [.select "INBOX", .fetch ['1', ':', '2'] "RFC822", .select "Empty",
      .fetch ['1', ':', '0'] "RFC822"] = issued := by cases reported <;> exact hissued
  obtain ⟨-, ⟨_, -, hdenotes⟩, -⟩ := hfetches
  cases hdenotes

end Mail
