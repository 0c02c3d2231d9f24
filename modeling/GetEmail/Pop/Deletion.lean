-- SUMMARY: The deletion marks of a client, against the deletions that the server confirmed.
import GetEmail.Pop.Operations

/-!
# Deletion marks

`marked_as_del` is what `is_deleted` and the checks of five operations read.
`rset` and `quit` clear it, and nothing writes to it: `dele` returns the answer
and leaves the marks as they are.
-/

namespace Pop

open Exec
open Nom (Bytes ascii)

/-- Whether message `n` is deleted after a call, and before it. -/
def deletedBy (n : Nat) (before : Bool) : ClientOp × Except (Exit Error) Value → Bool
  | (.dele msgNumber, .ok _) => before || msgNumber == n
  | (.rset, .ok _) => false
  | (.quit, .ok _) => false
  | _ => before

/-- Whether message `n` is deleted after these calls: the server confirmed a `dele`,
and neither `rset` nor `quit` since. -/
def deletedAfter (n : Nat) (log : Log) : Bool := log.foldl (deletedBy n) false

theorem deletedBy_of_ne {n : Nat} {entry : ClientOp × Except (Exit Error) Value}
    (h : ∀ v, entry ≠ (.dele n, .ok v)) : deletedBy n false entry = false := by
  unfold deletedBy
  split
  · next msgNumber v =>
    have hne : msgNumber ≠ n := by
      rintro rfl
      exact h v rfl
    simpa using hne
  all_goals rfl

theorem deletedAfter_of_ne {n : Nat} {log : Log} (h : ∀ entry ∈ log, ∀ v, entry ≠ (.dele n, .ok v)) :
    deletedAfter n log = false := by
  unfold deletedAfter
  induction log with
  | nil => rfl
  | cons entry log ih =>
    rw [List.foldl_cons, deletedBy_of_ne (h entry List.mem_cons_self)]
    exact ih fun entry hentry => h entry (List.mem_cons_of_mem _ hentry)

namespace Client

theorem isDeleted_eq {κ : Type} (n : Nat) (client : Client κ) :
    isDeleted n client = .ok (decide (n ∈ client.markedAsDel))
      { client with markedAsDel := client.markedAsDel.insertionSort (· ≤ ·) } := by
  simp [isDeleted]

theorem checkCapability_cases {κ : Type} (capabilities : List Capability) (client : Client κ) :
    checkCapability capabilities client = .ok () client ∨
      checkCapability capabilities client = .error (.error featureUnsupported) client := by
  cases h : client.hasCapability capabilities with
  | true => exact .inl (by simp [checkCapability, h])
  | false => exact .inr (by simp [checkCapability, h])

/-- A reference to a deleted message is refused. -/
theorem checkDeleted_of_mem {κ : Type} {n : Nat} {client : Client κ} (h : n ∈ client.markedAsDel) :
    ∃ e c', checkDeleted n client = .error (.error e) c' ∧ c'.inner = client.inner := by
  simp [checkDeleted, isDeleted_eq, h]

end Client

variable [Host]

/-- In every state of a run no message is marked. -/
theorem Run.unmarked {stream : Transport} {log : Log} {client : Client PopStream}
    (h : Run stream log client) : client.markedAsDel = [] := by
  have hkeep : Connection.Keep (fun _ => True) fun _ : PopStream => True :=
    ⟨fun _ => .true, fun _ => .true, fun _ => .true⟩
  exact (h.keeping_of_keep (fun _ => trivial) hkeep (fun _ _ _ _ => trivial) trivial
    fun _ _ _ _ => trivial).2

/-- At every point of the run, `is_deleted(n)` is true exactly if `n` is deleted. -/
def TracksDeletion (stream : Transport) (log : Log) (client : Client PopStream) (n : Nat) : Prop :=
  ∀ log₁ log₂ c₁, log₁ ++ log₂ = log → Run stream log₁ c₁ → Calls c₁ log₂ client →
    (value? (Client.isDeleted n c₁) = some true ↔ deletedAfter n log₁ = true)

/-- While `is_deleted(n)` is true, references to `n` are errors and leave the
connection as it is. -/
def RefusesDeleted (n : Nat) : Prop :=
  ∀ (client : Client PopStream) (lines : Nat), value? (Client.isDeleted n client) = some true →
    ∀ op ∈ [ClientOp.retr n, .top n lines, .dele n, .list (some n), .uidl (some n)],
      ∃ e client', op.run client = .error (.error e) client' ∧ client'.inner = client.inner

theorem refusesDeleted (n : Nat) : RefusesDeleted n := by
  intro client lines hdeleted op hop
  have hmem : n ∈ client.markedAsDel := by simpa [Client.isDeleted_eq, value?] using hdeleted
  obtain ⟨e, client', hcheck, hinner⟩ := Client.checkDeleted_of_mem hmem
  simp only [List.mem_cons, List.not_mem_nil, or_false] at hop
  obtain rfl | rfl | rfl | rfl | rfl := hop
  · exact ⟨e, client', by simp [ClientOp.run, Client.retr, hcheck], hinner⟩
  · exact ⟨e, client', by simp [ClientOp.run, Client.top, hcheck], hinner⟩
  · exact ⟨e, client', by simp [ClientOp.run, Client.dele, hcheck], hinner⟩
  · exact ⟨e, client', by simp [ClientOp.run, Client.list, hcheck], hinner⟩
  · -- The capability is checked first.
    rcases Client.checkCapability_cases [.uidl] client with hok | herror
    · exact ⟨e, client', by simp [ClientOp.run, Client.uidl, hok, hcheck], hinner⟩
    · exact ⟨Client.featureUnsupported, client, by simp [ClientOp.run, Client.uidl, herror], rfl⟩

/-- The marks track the deletions through a run if and only if no `dele` of the message
has returned `Ok` in it. A client on which the message is marked refuses all references
to it. -/
theorem isDeleted_tracks {stream : Transport} {log : Log} {client : Client PopStream}
    (h : Run stream log client) (n : Nat) :
    (TracksDeletion stream log client n ↔ ∀ entry ∈ log, ∀ v, entry ≠ (.dele n, .ok v)) ∧
      RefusesDeleted n := by
  refine ⟨⟨fun htracks entry hentry v heq => ?_, fun hne log₁ log₂ c₁ hlog hrun _ => ?_⟩,
    refusesDeleted n⟩
  · -- After that `dele` the message is deleted, but not marked.
    subst heq
    obtain ⟨log₁, log₂, rfl⟩ := List.append_of_mem hentry
    obtain ⟨c, hnew, hcalls⟩ := h
    rw [List.append_cons] at hcalls
    obtain ⟨c₁, hfirst, hrest⟩ := hcalls.cut
    have hrun : Run stream (log₁ ++ [(.dele n, .ok v)]) c₁ := ⟨c, hnew, hfirst⟩
    have hdeleted := (htracks _ log₂ c₁ (List.append_cons ..).symm hrun hrest).mpr
      (by simp [deletedAfter, deletedBy])
    simp [Client.isDeleted_eq, value?, hrun.unmarked] at hdeleted
  · have hdeleted : deletedAfter n log₁ = false :=
      deletedAfter_of_ne fun entry hentry => hne entry (hlog ▸ List.mem_append_left _ hentry)
    simp [Client.isDeleted_eq, value?, hrun.unmarked, hdeleted]

omit [Host] in
/-- The deletion of message 1 is refused, the one of message 2 is taken back. -/
theorem isDeleted_tracks_rset : ∃ (stream : Transport) (log : Log) (client : Client PopStream),
    @Run (.bare false) stream log client ∧
      log.map Prod.fst = [.login (ascii "user") (ascii "secret"), .dele 1, .dele 2, .rset] ∧
      log.map (·.2.isOk) = [true, false, true, true] ∧
      deletedAfter 2 (log.take 3) = true ∧ deletedAfter 2 log = false ∧
      (@TracksDeletion (.bare false) stream log client 1 ↔
        ∀ entry ∈ log, ∀ v, entry ≠ (.dele 1, .ok v)) ∧ @RefusesDeleted (.bare false) 1 := by
  let host : Host := .bare false
  have hnew : value? (newClient (answering [ascii "+OK\r\n", ascii "-ERR\r\n"])) = some () := by
    decide +kernel
  have hlogin := fun c => (@Calls.nil host c).answered
    (.login (ascii "user") (ascii "secret")) [ascii "+OK\r\n", ascii "+OK\r\n", ascii "-ERR\r\n"]
  have hdeles := fun c => ((hlogin c).answered (.dele 1) [ascii "-ERR\r\n"]).answered (.dele 2)
    [ascii "+OK\r\n"]
  have hrun : Run _ _ _ :=
    ⟨_, eq_ok_of_value? hnew, (hdeles _).answered .rset [ascii "+OK\r\n"]⟩
  exact ⟨_, _, _, hrun, rfl, by decide +kernel, by decide +kernel, by decide +kernel,
    isDeleted_tracks hrun 1⟩

omit [Host] in
/-- The server confirms the deletion of message 1, and the client does not know of it. -/
theorem isDeleted_forgets : ∃ (stream : Transport) (log : Log) (client : Client PopStream),
    @Run (.bare false) stream log client ∧ deletedAfter 1 log = true ∧
      value? (Client.isDeleted 1 client) = some false := by
  let host : Host := .bare false
  have hnew : value? (newClient (answering [ascii "+OK\r\n", ascii "-ERR\r\n"])) = some () := by
    decide +kernel
  exact ⟨_, _, _, ⟨_, eq_ok_of_value? hnew, .answered (.answered .nil
    (.login (ascii "user") (ascii "secret")) [ascii "+OK\r\n", ascii "+OK\r\n", ascii "-ERR\r\n"])
    (.dele 1) [ascii "+OK\r\n"]⟩, by decide +kernel⟩

end Pop
