-- SUMMARY: A POP3 crawl returns the messages of the maildrop that match, in their order.
import GetEmail.Mail.Pop3Protocol
import GetEmail.Pop.Acknowledged

/-!
# Crawls of a maildrop

A client that is logged in asks for the count of the messages, and reads all of them. The
crawl ends at the first message that does not parse.
-/

namespace Mail

open Exec
open Nom (Bytes ascii)

variable {μ : Type} [MessageParser μ]

/-- A stored message, as the crawl parses it -/
def parsed? (m : Pop.Stored) : Option μ :=
  MessageParser.parse (Pop.Parser.message (m.letter.lines.map Pop.Parser.stuff))

/-- What is collected from these messages, behind what was collected before -/
def collected {ε : Type} (filter : μ → Option Bool) (result : List μ) :
    List Pop.Stored → Except (CrateError ε) (List μ)
  | [] => .ok result
  | m :: messages =>
    match parsed? m with
    | none => .error .messageParseFailed
    | some newMsg => collected filter (result ++ kept filter [newMsg]) messages

/-- The matching messages are collected, if all messages parse. -/
theorem collected_eq {ε : Type} (filter : μ → Option Bool) (messages : List Pop.Stored)
    (result : List μ) :
    (collected filter result messages : Except (CrateError ε) (List μ)) =
      if ∀ m ∈ messages, (parsed? m : Option μ).isSome then
        .ok (result ++ kept filter (messages.filterMap parsed?))
      else .error .messageParseFailed := by
  induction messages generalizing result with
  | nil => simp [collected, kept]
  | cons m messages ih =>
    rw [collected]
    cases hm : (parsed? m : Option μ) with
    | none => simp [hm]
    | some newMsg =>
      dsimp only
      rw [ih]
      simp only [List.forall_mem_cons, hm, Option.isSome_some, true_and, List.filterMap_cons, kept,
        List.filter_cons, List.filter_nil]
      by_cases hkeep : filter newMsg == some true <;> simp [hkeep]

/-- The filter returns on these messages, as far as they parse. -/
def Judged (filter : μ → Option Bool) (messages : List Pop.Stored) : Prop :=
  ∀ m ∈ messages, ∀ msg ∈ (parsed? m : Option μ), (filter msg).isSome

/-! ## The lines of a crawl -/

variable [Pop.Host]

variable (μ) in
/-- The lines that ask for these messages, if the first of them has this number -/
def retrLines (number : Nat) : List Pop.Stored → List Bytes
  | [] => []
  | m :: messages =>
    ((Pop.Request.ofCommand .retr).addArg number).display ::
      if (parsed? m : Option μ).isSome then retrLines (number + 1) messages else []

variable (μ) in
/-- The lines of a crawl of these messages, if a `usize` counts them -/
def crawlLines (messages : List Pop.Stored) : List Bytes :=
  (Pop.Request.ofCommand .stat).display ::
    if messages.length < 2 ^ 64 then retrLines μ 1 messages else []

/-! ## Calls of the crawl -/

section Calls

variable {drop : Pop.Maildrop} (greeting : Option Pop.Text) {lines : List Bytes}

/-- The session of a client that is logged in, and has marked nothing -/
def reading (drop : Pop.Maildrop) : Pop.Session := ⟨drop, .transaction []⟩

omit [Pop.Host] [MessageParser μ] in
theorem of_map_ok {ε σ α β : Type} {m : Exec ε σ α} {f : α → β} (hf : Function.Injective f)
    {s s' : σ} {a : α} (h : (f <$> m) s = .ok (f a) s') : m s = .ok a s' := by
  rw [map_apply] at h
  cases hm : m s with
  | ok b t =>
    rw [hm] at h
    injection h with ha ht
    rw [hf ha, ht]
  | error x t =>
    rw [hm] at h
    cases h

theorem stat_reading (hbrief : Pop.Brief ((reading drop).dialogue
    ((Pop.Request.ofCommand .stat).display :: lines))) :
    Pop.Client.stat ((reading drop).client greeting ((Pop.Request.ofCommand .stat).display :: lines)) =
      .ok (drop.count []).stat ((reading drop).client greeting lines) := by
  refine of_map_ok (f := Pop.Value.stat) (fun _ _ h => Pop.Value.stat.inj h) ?_
  exact Pop.Session.performs_stat (s := reading drop) (by simp [reading]) greeting lines hbrief

theorem retr_reading {number : Nat} {m : Pop.Stored} (hm : drop.message? [] number = some m)
    (hbrief : Pop.Brief ((reading drop).dialogue
      (((Pop.Request.ofCommand .retr).addArg number).display :: lines))) :
    Pop.Client.retr number ((reading drop).client greeting
        (((Pop.Request.ofCommand .retr).addArg number).display :: lines)) =
      .ok (Pop.Parser.message (m.letter.lines.map Pop.Parser.stuff))
        ((reading drop).client greeting lines) := by
  refine of_map_ok (f := Pop.Value.bytes) (fun _ _ h => Pop.Value.bytes.inj h) ?_
  have hperforms := Pop.Session.performs_retr (s := reading drop) (by simp [reading]) number
    greeting lines hbrief
  have hperform : (reading drop).perform (.retr number) =
      (.ok (.bytes (Pop.Parser.message (m.letter.lines.map Pop.Parser.stuff))), reading drop) := by
    simp only [Pop.Session.perform, reading, Pop.Session.ask, Pop.Session.order, Pop.Session.answer,
      Pop.Session.transact, Pop.Session.concerning, reduceCtorEq, if_false, hm]
    rfl
  rw [hperform] at hperforms
  exact hperforms

/-- Lines that look at the messages leave the session as it is. -/
theorem reading_tail (op : Pop.ClientOp) {request : Pop.Request} (hop : op.requests = [request])
    (hplain : Pop.Session.Plain op) (hlooks : Pop.Looks op)
    (hbrief : Pop.Brief ((reading drop).dialogue (request.display :: lines))) :
    Pop.Brief ((reading drop).dialogue lines) := by
  have hsame : ((reading drop).answer (.ofLine request.display)).2 = reading drop := by
    rw [Pop.Session.order_read hop hplain, Pop.Session.answer_looks hlooks]
  intro exchange hexchange
  refine hbrief exchange (List.mem_cons_of_mem _ ?_)
  rwa [hsame]

end Calls

/-! ## Crawls -/

namespace Pop3Protocol

variable {ε : Type} {drop : Pop.Maildrop} {greeting : Option Pop.Text} {mailboxInfo : Credentials}

omit [Pop.Host] [MessageParser μ] in
theorem onClient_ok (mailboxInfo : Credentials) {κ α : Type} {m : Exec Pop.Error (Pop.Client κ) α}
    {client client' : Pop.Client κ} {a : α} (h : m client = .ok a client') :
    (onClient m : Exec (CrateError ε) _ α) ⟨client, mailboxInfo⟩ = .ok a ⟨client', mailboxInfo⟩ := by
  simp only [onClient, mapError, zoom, h]

/-- The messages are read one after the other. -/
theorem crawlMessage_fold (filter : μ → Option Bool) (before messages : List Pop.Stored)
    (hall : drop.messages = before ++ messages) (hjudged : Judged filter messages) (result : List μ)
    (hbrief : Pop.Brief ((reading drop).dialogue (retrLines μ (before.length + 1) messages))) :
    ((List.range' (before.length + 1) messages.length).foldlM (crawlMessage filter) result :
        Exec (CrateError ε) _ (List μ))
      ⟨(reading drop).client greeting (retrLines μ (before.length + 1) messages), mailboxInfo⟩ =
    settled (collected filter result messages) ⟨(reading drop).client greeting [], mailboxInfo⟩ := by
  induction messages generalizing before result with
  | nil => rfl
  | cons m messages ih =>
    have hm : drop.message? [] (before.length + 1) = some m := by simp [Pop.Maildrop.message?, hall]
    have hretr := onClient_ok (ε := ε) mailboxInfo (retr_reading greeting hm hbrief)
    have htail := reading_tail (.retr (before.length + 1)) rfl trivial trivial hbrief
    rw [List.length_cons, List.range'_succ, List.foldlM_cons, bind_apply, crawlMessage, bind_apply,
      retrLines, hretr, collected]
    cases hparsed : (parsed? m : Option μ) with
    | none =>
      rw [parsed?] at hparsed
      simp only [hparsed, Option.isSome_none, Bool.false_eq_true, if_false]
      rfl
    | some newMsg =>
      have hrest := ih (before ++ [m]) (by rw [hall, List.append_assoc, List.singleton_append])
        (fun m hm => hjudged m (List.mem_cons_of_mem _ hm)) (result ++ kept filter [newMsg])
      obtain ⟨keep, hkeep⟩ := Option.isSome_iff_exists.mp (hjudged m List.mem_cons_self newMsg hparsed)
      have hresult : (if keep then result ++ [newMsg] else result) = result ++ kept filter [newMsg] := by
        cases keep <;> simp [kept, hkeep]
      rw [List.length_append, List.length_singleton] at hrest
      simp only [hparsed, Option.isSome_some, if_true] at htail ⊢
      rw [parsed?] at hparsed
      simp only [hparsed, hkeep, orCrash_some, pure_bind, pure_apply, hresult]
      exact hrest htail

/-- What a crawl of the maildrop comes to -/
def crawlResult (drop : Pop.Maildrop) (filter : μ → Option Bool) : Except (CrateError ε) (List μ) :=
  if drop.messages.length < 2 ^ 64 then collected filter [] drop.messages
  else .error (.pop (.ofParseInt .posOverflow))

omit [Pop.Host] in
theorem value_count {κ : Type} (self : Pop3Protocol κ) :
    (value (drop.count []).stat.messageCount : Exec (CrateError ε) _ Nat) self =
      if drop.messages.length < 2 ^ 64 then .ok drop.messages.length self
      else .error (.error (.pop (.ofParseInt .posOverflow))) self := by
  have hcount : (drop.count []).stat.messageCount = ⟨Pop.Display.display drop.messages.length⟩ := by
    have hlength : (drop.remaining []).length = drop.messages.length := by
      rw [Pop.Maildrop.remaining_eq, List.filter_eq_self.mpr (by simp)]
      simp
    rw [← hlength]
    rfl
  rw [hcount, value, Pop.Number.value_display]
  by_cases hfits : drop.messages.length < 2 ^ 64
  · simp only [if_pos hfits]
    rfl
  · simp only [if_neg hfits]
    rfl

theorem getFilteredEmails_reading (filter : μ → Option Bool) (hjudged : Judged filter drop.messages)
    (hbrief : Pop.Brief ((reading drop).dialogue (crawlLines μ drop.messages))) :
    (getFilteredEmails filter : Exec (CrateError ε) _ (List μ))
      ⟨(reading drop).client greeting (crawlLines μ drop.messages), mailboxInfo⟩ =
    settled (crawlResult drop filter) ⟨(reading drop).client greeting [], mailboxInfo⟩ := by
  have hstat := onClient_ok (ε := ε) mailboxInfo (stat_reading greeting hbrief)
  have htail := reading_tail .stat rfl trivial trivial hbrief
  rw [getFilteredEmails, bind_apply, crawlLines, hstat]
  dsimp only
  rw [bind_apply, value_count, crawlResult]
  by_cases hfits : drop.messages.length < 2 ^ 64
  · simp only [if_pos hfits] at htail ⊢
    by_cases hempty : drop.messages.length < 1
    · have hnil : drop.messages = [] := List.length_eq_zero_iff.mp (by omega)
      rw [if_pos hempty, hnil]
      rfl
    · rw [if_neg hempty]
      exact crawlMessage_fold filter [] drop.messages rfl hjudged [] htail
  · simp only [if_neg hfits]
    rfl

/-! ## Crawls over networks -/

/-- A client beside one over a transcript -/
def Twin {κ κ' : Type} (R : κ → κ' → Prop) (self : Pop3Protocol κ) (self' : Pop3Protocol κ') : Prop :=
  Pop.Client.Twin R self.client self'.client ∧ self.mailboxInfo = self'.mailboxInfo

section

variable {κ κ' : Type} {C : Pop.Connection κ} {C' : Pop.Connection κ'} {R : κ → κ' → Prop}
  (hR : C.Simulates C' R)

include hR

omit [Pop.Host] [MessageParser μ] hR in
theorem onClient_simulates {α : Type} {m : Exec Pop.Error (Pop.Client κ) α}
    {m' : Exec Pop.Error (Pop.Client κ') α} (hm : Simulates (Pop.Client.Twin R) m m') :
    Simulates (Twin R) (onClient m : Exec (CrateError ε) _ α) (onClient m') :=
  .mapError _ (.zoom hm (fun _ _ h => h.1) fun _ _ _ _ h hu => ⟨hu, h.2⟩)

omit [Pop.Host] in
theorem getFilteredEmails_simulates (filter : μ → Option Bool) :
    Simulates (Twin R)
      (@getFilteredEmails κ ε μ C _ filter) (@getFilteredEmails κ' ε μ C' _ filter) := by
  have hvalue (number : Pop.Number) :
      Simulates (Twin R) (value number : Exec (CrateError ε) _ Nat) (value number) := by
    unfold value
    cases number.value with
    | ok n => exact .pure n
    | error e => exact .fail _
  have hmessage (result : List μ) (currMsgId : Nat) :
      Simulates (Twin R) (@crawlMessage κ ε μ C _ filter result currMsgId)
        (@crawlMessage κ' ε μ C' _ filter result currMsgId) := by
    refine .bind (onClient_simulates (Pop.Client.retr_simulates hR _)) fun bytes => ?_
    cases (MessageParser.parse bytes : Option μ) with
    | none => exact .fail _
    | some newMsg => exact .bind (.orCrash _) fun keep => .pure _
  refine .bind (onClient_simulates (Pop.Client.stat_simulates hR)) fun stat => .bind (hvalue _)
    fun totalMsgCount => .ite (.pure _) (.foldlM hmessage _ _)

end

end Pop3Protocol

end Mail
