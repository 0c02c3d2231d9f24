-- SUMMARY: What a reader over IMAP returns, in every state of its session.
import GetEmail.Mail.Connect
import GetEmail.Mail.Folders

/-!
# Reading an account

A crawl goes through the listed folders but for sent mail and drafts, and returns their
messages if it gets through all of them. What the session was used for before has no part
in it.
-/

namespace Mail

open Exec

variable {σ ε κ μ : Type} [Session σ ε] [MessageParser μ]

namespace ImapProtocol

variable (server : FolderServer σ) (filter : μ → Option Bool)

/-- The folder that does not pass ends the crawl. -/
theorem crawlFolder_fold_value (names : List String) (res msgs : List μ) (protocol : ImapProtocol σ) :
    value? (names.foldlM (crawlFolder filter) res protocol) = some msgs ↔
      (∀ name ∈ names, server.Passes filter name) ∧ msgs = res ++ server.matching filter names := by
  induction names generalizing res protocol with
  | nil => simp [value?, ImapServer.matching, kept, eq_comm]
  | cons name names ih =>
    have hvalue := crawlMessages_value server filter name protocol
    rw [List.foldlM_cons, bind_apply, crawlFolder, bind_apply, List.forall_mem_cons]
    by_cases hpasses : server.Passes filter name
    · obtain ⟨protocol', hcrawl⟩ := crawlMessages_passes server filter name protocol hpasses
      rw [hcrawl]
      simp only [pure_apply, ih, hpasses, true_and]
      simp [ImapServer.matching, kept]
    · have hnone : value? (crawlMessages name filter protocol) = none :=
        not_not.mp fun h => hpasses (hvalue.mp h)
      cases hcrawl : crawlMessages name filter protocol with
      | ok newMsgs protocol' =>
        rw [hcrawl] at hnone
        cases hnone
      | error x protocol' => simp [value?, hpasses]

end ImapProtocol

/-- A reader over IMAP returns the matching messages of the account, folder by folder, if all
folders that it visits pass; else it returns nothing. -/
theorem account_read [Pop.Connection κ] (server : FolderServer σ) (filter : μ → Option Bool)
    (protocol : ImapProtocol σ) (msgs : List μ) :
    value? (Reader.dynGetFilteredEmails filter (.imap protocol : Reader σ κ)) = some msgs ↔
      (∀ entry ∈ server.visited, server.Passes filter entry.name) ∧
        msgs = server.matching filter (server.visited.map Name.name) := by
  obtain ⟨session', hfolders⟩ := ImapProtocol.getFolders_visited server protocol
  have hcrawl : ImapProtocol.getFilteredEmails filter protocol =
      (server.visited.map Name.name).foldlM (ImapProtocol.crawlFolder filter) []
        ⟨session', protocol.issued ++ [.list none (some "*")]⟩ := by
    rw [ImapProtocol.getFilteredEmails, bind_apply, hfolders]
    rfl
  have hvalue := ImapProtocol.crawlFolder_fold_value server filter (server.visited.map Name.name) []
    msgs ⟨session', protocol.issued ++ [.list none (some "*")]⟩
  rw [← hcrawl, List.forall_mem_map, List.nil_append] at hvalue
  rw [← hvalue, Reader.dynGetFilteredEmails, mapError]
  cases ImapProtocol.getFilteredEmails filter protocol <;> rfl

end Mail
