-- SUMMARY: The responses that are still to be read from a stream, whatever was dropped before.
import GetEmail.Pop.Chunking
import GetEmail.Pop.Stuck

/-!
# Responses to come

Calls that failed, or were dropped, leave their commands in the queue. The commands
are answered in order, so the bytes in the buffer and in the script say which
responses the next reads can return.
-/

namespace Pop

open Exec
open Nom (Bytes)

variable [Host]

/-- Among the first `n` responses in the bytes, one for each command, there is a
challenge. -/
def challengeWithin : Nat → List Command → Bytes → Bool
  | n + 1, command :: commands, bytes =>
    match Parser.parse bytes command with
    | .ok _ (.challenge _) => true
    | .ok rest _ => challengeWithin n commands rest
    | _ => false
  | _, _, _ => false

@[simp] theorem challengeWithin_zero (commands : List Command) (bytes : Bytes) :
    challengeWithin 0 commands bytes = false := by
  cases commands <;> rfl

@[simp] theorem challengeWithin_nil (n : Nat) (bytes : Bytes) :
    challengeWithin n [] bytes = false := by
  cases n <;> rfl

theorem challengeWithin_cons {n : Nat} {command : Command} {commands : List Command}
    {bytes rest : Bytes} {response : Response}
    (hparse : Parser.parse bytes command = .ok rest response) :
    challengeWithin (n + 1) (command :: commands) bytes = false ↔
      (∀ text, response ≠ .challenge text) ∧ challengeWithin n commands rest = false := by
  simp only [challengeWithin, hparse]
  cases response <;> simp

theorem challengeWithin_stopped {n : Nat} {command : Command} {commands : List Command}
    {bytes : Bytes} (hparse : ∀ rest response, Parser.parse bytes command ≠ .ok rest response) :
    challengeWithin (n + 1) (command :: commands) bytes = false := by
  cases h : Parser.parse bytes command with
  | ok rest response => exact absurd h (hparse rest response)
  | incomplete needed => simp only [challengeWithin, h]
  | error e => simp only [challengeWithin, h]

/-- Fewer responses, or fewer commands. -/
theorem challengeWithin_mono {n m : Nat} {commands : List Command} {bytes : Bytes} (hm : m ≤ n)
    (later : List Command) (h : challengeWithin n (commands ++ later) bytes = false) :
    challengeWithin m commands bytes = false := by
  induction commands generalizing n m bytes with
  | nil => exact challengeWithin_nil m bytes
  | cons command commands ih =>
    cases m with
    | zero => exact challengeWithin_zero _ _
    | succ m =>
      obtain ⟨n, rfl⟩ : ∃ k, n = k + 1 := ⟨n - 1, by omega⟩
      by_cases hparse : ∃ rest response, Parser.parse bytes command = .ok rest response
      · obtain ⟨rest, response, hparse⟩ := hparse
        rw [List.cons_append, challengeWithin_cons hparse] at h
        exact (challengeWithin_cons hparse).mpr ⟨h.1, ih (Nat.le_of_succ_le_succ hm) h.2⟩
      · exact challengeWithin_stopped fun rest response heq => hparse ⟨rest, response, heq⟩

/-- A command more that no challenge answers. -/
theorem challengeWithin_concat {n : Nat} {commands : List Command} {bytes : Bytes}
    (h : challengeWithin n commands bytes = false) {command : Command}
    (hcommand : Parser.takesChallenge command = false) :
    challengeWithin n (commands ++ [command]) bytes = false := by
  induction commands generalizing n bytes with
  | nil =>
    cases n with
    | zero => exact challengeWithin_zero _ _
    | succ n =>
      by_cases hparse : ∃ rest response, Parser.parse bytes command = .ok rest response
      · obtain ⟨rest, response, hparse⟩ := hparse
        refine (challengeWithin_cons hparse).mpr ⟨?_, challengeWithin_nil n rest⟩
        rintro text rfl
        exact Parser.parse_not_challenge hcommand hparse
      · exact challengeWithin_stopped fun rest response heq => hparse ⟨rest, response, heq⟩
  | cons first commands ih =>
    cases n with
    | zero => exact challengeWithin_zero _ _
    | succ n =>
      by_cases hparse : ∃ rest response, Parser.parse bytes first = .ok rest response
      · obtain ⟨rest, response, hparse⟩ := hparse
        rw [challengeWithin_cons hparse] at h
        exact (challengeWithin_cons hparse).mpr ⟨h.1, ih h.2⟩
      · exact challengeWithin_stopped fun rest response heq => hparse ⟨rest, response, heq⟩

namespace PopStream

variable {s s' : PopStream}

/-! ## Intact streams -/

omit [Host] in
/-- The bytes that are there and those still to come in. -/
def upcoming (s : PopStream) : Bytes :=
  s.buffer.inner.take s.buffer.cursor ++ incoming s.stream.reads

/-- What is left when `decode` has lost the buffer: zeros up to the cursor, or a cursor
beyond the end. -/
structure Blank (s : PopStream) : Prop where
  inner : s.buffer.inner = zeroed Buffer.chunkSize
  cursor : 0 < s.buffer.cursor
  needs : s.decodeNeeds ≤ s.buffer.cursor ∨ Buffer.chunkSize < s.buffer.cursor

/-- The buffer is well formed, or blank. -/
def Intact (s : PopStream) : Prop := (∃ bytes, s.Holds bytes) ∨ Blank s

omit [Host] in
@[simp] theorem blank_awaiting {command : Command} : Blank (s.awaiting command) ↔ Blank s :=
  ⟨fun h => ⟨h.inner, h.cursor, h.needs⟩, fun h => ⟨h.inner, h.cursor, h.needs⟩⟩

omit [Host] in
@[simp] theorem intact_awaiting {command : Command} : Intact (s.awaiting command) ↔ Intact s :=
  or_congr_right blank_awaiting

/-- Nothing is read from a blank buffer, and it stays as it is. -/
theorem Blank.next (h : Blank s) : ∃ x, next s = .error x s := by
  by_cases hskip : s.buffer.cursor < s.decodeNeeds
  · have hcursor := h.needs.resolve_left (Nat.not_le.mpr hskip)
    have hreceive : receive s = .error .panicked s := by
      have hlen : s.buffer.inner.length < s.buffer.cursor := by rwa [h.inner, zeroed_length]
      simp [receive, onBuffer, zoom, Buffer.ensureCapacity_eq, hlen]
    refine ⟨.panicked, ?_⟩
    simp only [PopStream.next, bind_apply, decode_skip hskip, get_apply, loop_succ, readTurn_apply,
      hreceive]
  have hle := Nat.not_lt.mp hskip
  by_cases hq : s.queue = []
  · exact ⟨.error missingRequest, by simp only [PopStream.next, bind_apply, decode_missing hle hq]⟩
  · rcases Rejected.decode ⟨hq, hle, h.cursor, h.inner⟩ with ⟨e, he⟩ | hpanics
    · exact ⟨.error (invalidResponse e), by simp only [PopStream.next, bind_apply, he]⟩
    · exact ⟨.panicked, by simp only [PopStream.next, bind_apply, hpanics]⟩

omit [Host] in
theorem Holds.upcoming {bytes : Bytes} (h : s.Holds bytes) :
    s.upcoming = bytes ++ incoming s.stream.reads := by
  rw [PopStream.upcoming, h.take]

omit [Host] in
/-- A read that does not return takes no bytes away. -/
theorem receive_incoming_error {x : Exit Error} (h : receive s = .error x s') :
    incoming s'.stream.reads = incoming s.stream.reads := by
  have hbuffer {α : Type} (m : Exec Error Buffer α) :
      Triple (fun t : PopStream => incoming t.stream.reads = incoming s.stream.reads) (onBuffer m)
        (fun _ t => incoming t.stream.reads = incoming s.stream.reads)
        fun _ t => incoming t.stream.reads = incoming s.stream.reads := by
    refine .zoom fun t ht _ _ => ?_
    split <;> exact ht
  have hreceive : Triple (fun t : PopStream => incoming t.stream.reads = incoming s.stream.reads)
      receive (fun _ _ => True) fun _ t => incoming t.stream.reads = incoming s.stream.reads := by
    refine .bind (.get fun _ ht => ht) fun _ => .bind (hbuffer _) fun _ => .bind (hbuffer _)
      fun buf => .bind (R := fun _ _ => True) (.zoom fun t ht => ?_) fun polled => ?_
    · exact (Transport.pollRead_incoming _ _).consequence (fun _ hu => hu ▸ ht) (fun _ _ hu => hu)
        fun _ _ hu => hu
    · cases polled with
      | none => exact .pure fun _ hu => hu
      | some bytes =>
        exact Exits.bind .modify fun _ => .bind (.zoom fun _ => .modify) fun _ => .zoom fun _ => .modify
  exact hreceive.exit rfl h

/-- Where `decode` loses the buffer, it leaves a blank one. -/
theorem Decoded.blank {command : Command} {queue : CommandQueue} {x : Exit Error}
    (hneeds : s.decodeNeeds ≤ s.buffer.cursor) (h : Decoded s command queue (.error x s')) :
    Blank s' := by
  have hparsed (hne : Parser.parse (s.buffer.inner.take s.buffer.cursor) command ≠
      .incomplete .unknown) : 0 < s.buffer.cursor := by
    by_contra hcursor
    rw [Nat.eq_zero_of_not_pos hcursor, List.take_zero, Parser.parse_nil] at hne
    exact hne rfl
  cases h with
  | overrun hlen => exact ⟨rfl, Nat.zero_lt_of_lt hlen, .inl hneeds⟩
  | untraceable hparse => exact ⟨rfl, hparsed (hparse ▸ nofun), .inl hneeds⟩
  | overflow hparse hrest => exact ⟨rfl, Nat.zero_lt_of_lt hrest, .inr hrest⟩
  | rejected hparse => exact ⟨rfl, hparsed (hparse ▸ nofun), .inl hneeds⟩

/-- A read takes the response to the first command off the bytes to come. One that fails
takes nothing, or loses the buffer. -/
theorem next_intact (hs : Intact s) : match next s with
    | .ok response s' => Intact s' ∧ ∃ command, s.queue = command :: s'.queue ∧
        Parser.parse s.upcoming command = .ok s'.upcoming response
    | .error x s' => Intact s' ∧
        (x.IsError → s'.queue = s.queue ∧ (Blank s' ∨ s'.upcoming = s.upcoming)) := by
  rcases hs with ⟨bytes, hbytes⟩ | hblank
  · have hpolls := next_polls hbytes
    cases hnext : next s with
    | ok response s' =>
      rw [hnext] at hpolls
      obtain ⟨t, ht, hends⟩ := hpolls.last
      obtain ⟨new, -, -, hqueue⟩ := ht.holds hbytes
      obtain ⟨bytes', hbytes', hcoming⟩ := ht.incoming_eq hbytes
      obtain ⟨command, queue, rest, hq, hparse, -, rfl⟩ := decode_eq_some hends
      refine ⟨.inl ⟨rest, _, rfl⟩, command, hqueue ▸ hq, ?_⟩
      rw [hbytes'.take] at hparse
      rw [hbytes.upcoming, ← hcoming, (Parser.parse_stable command).ok hparse]
      rw [Holds.upcoming ⟨_, rfl⟩]
    | error x s' =>
      rw [hnext] at hpolls
      obtain ⟨t, ht, hends⟩ := hpolls.last
      obtain ⟨new, -, -, hqueue⟩ := ht.holds hbytes
      obtain ⟨bytes', hbytes', hcoming⟩ := ht.incoming_eq hbytes
      have hupcoming : t.upcoming = s.upcoming := by rw [hbytes'.upcoming, hcoming, hbytes.upcoming]
      rcases hends with hdecode | ⟨t', hdecode, hreceive⟩
      · rcases decode_eq_error hdecode with ⟨-, rfl, rfl⟩ | ⟨command, queue, hq, hneeds, hcases⟩
        · exact ⟨.inl ⟨_, hbytes'⟩, fun _ => ⟨hqueue, .inr hupcoming⟩⟩
        · have hblank := hcases.blank hneeds
          refine ⟨.inr hblank, fun hx => ⟨?_, .inl hblank⟩⟩
          cases hcases with
          | rejected => exact hqueue
          | _ => exact hx.elim
      · obtain ⟨hbytes'', hqueue', hstream, -⟩ := decode_none_holds hbytes' hdecode
        obtain ⟨hholds, hqueue'', -, -⟩ := receive_error_holds hbytes'' hreceive
        refine ⟨.inl ⟨_, hholds⟩, fun _ => ⟨hqueue''.trans (hqueue'.trans hqueue), .inr ?_⟩⟩
        rw [hholds.upcoming, receive_incoming_error hreceive, hstream, ← hbytes'.upcoming, hupcoming]
  · obtain ⟨x, hx⟩ := hblank.next
    rw [hx]
    exact ⟨.inr hblank, fun _ => ⟨rfl, .inl hblank⟩⟩

omit [Host] in
theorem SameReader.intact (h : SameReader s s') (hs : Intact s) : Intact s' := by
  rcases hs with ⟨bytes, hbytes⟩ | hblank
  · exact .inl ⟨bytes, h.holds hbytes⟩
  · refine .inr ⟨h.buffer ▸ hblank.inner, h.buffer ▸ hblank.cursor, ?_⟩
    rw [h.buffer, h.decodeNeeds]
    exact hblank.needs

/-- Whatever comes of a call, the stream stays intact. -/
theorem intact_keep : Connection.Keep (fun _ => True) Intact where
  encode request := (encode_sends request).keeps_line (fun _ _ h => h.intact) _ _
  sendBytes buf := (sendBytes_sends buf).keeps_line (fun _ _ h => h.intact) _ _
  readResponse command := by
    refine (Triple.of_stateOf fun s hs => ?_).consequence (fun _ h => h) (fun _ _ h => h)
      fun _ _ h _ => h
    have hnext := next_intact (s := s.awaiting command) (intact_awaiting.mpr hs)
    show Intact (stateOf (PopStream.readResponse command s))
    rw [readResponse_eq]
    cases h : next (s.awaiting command) with
    | ok response s' =>
      rw [h] at hnext
      rw [stateOf_finished]
      exact hnext.1
    | error x s' =>
      rw [h] at hnext
      exact hnext.1

/-! ## Streams without a challenge to come -/

/-- None of the next `n` responses is a challenge. -/
def Unchallenged (n : Nat) (s : PopStream) : Prop :=
  Blank s ∨ Intact s ∧ challengeWithin n s.queue s.upcoming = false

theorem Unchallenged.mono {n m : Nat} (h : Unchallenged n s) (hm : m ≤ n) : Unchallenged m s :=
  h.imp_right fun h => ⟨h.1, challengeWithin_mono hm [] (by rw [List.append_nil]; exact h.2)⟩

/-- A command less in the queue. -/
theorem Unchallenged.of_awaiting {n : Nat} {command : Command}
    (h : Unchallenged n (s.awaiting command)) : Unchallenged n s :=
  h.imp blank_awaiting.mp fun h =>
    ⟨intact_awaiting.mp h.1, challengeWithin_mono (Nat.le_refl n) [command] h.2⟩

/-- A command more, that no challenge answers. -/
theorem Unchallenged.awaiting {n : Nat} (h : Unchallenged n s) {command : Command}
    (hcommand : Parser.takesChallenge command = false) : Unchallenged n (s.awaiting command) :=
  h.imp blank_awaiting.mpr fun h =>
    ⟨intact_awaiting.mpr h.1, challengeWithin_concat h.2 hcommand⟩

theorem Unchallenged.congr {n : Nat} (h : Unchallenged n s) (hbuffer : s'.buffer = s.buffer)
    (hneeds : s'.decodeNeeds = s.decodeNeeds) (hqueue : s'.queue = s.queue)
    (hreads : s'.stream.reads = s.stream.reads) : Unchallenged n s' := by
  have hblank (hs : Blank s) : Blank s' :=
    ⟨hbuffer ▸ hs.inner, hbuffer ▸ hs.cursor, hbuffer ▸ hneeds ▸ hs.needs⟩
  have hupcoming : s'.upcoming = s.upcoming := by rw [upcoming, upcoming, hbuffer, hreads]
  refine h.imp hblank fun h => ⟨?_, by rw [hqueue, hupcoming]; exact h.2⟩
  refine h.1.imp ?_ hblank
  rintro ⟨bytes, room, hholds⟩
  exact ⟨bytes, room, hbuffer.trans hholds⟩

theorem next_unchallenged {n : Nat} (hs : Unchallenged (n + 1) s) : match next s with
    | .ok response s' => (∀ text, response ≠ .challenge text) ∧ Unchallenged n s'
    | .error x s' => x.IsError → Unchallenged n s' := by
  rcases hs with hblank | ⟨hintact, hnone⟩
  · obtain ⟨x, hx⟩ := hblank.next
    rw [hx]
    exact fun _ => .inl hblank
  · have hnext := next_intact hintact
    cases h : next s with
    | ok response s' =>
      rw [h] at hnext
      obtain ⟨hintact', command, hqueue, hparse⟩ := hnext
      rw [hqueue, challengeWithin_cons hparse] at hnone
      exact ⟨hnone.1, .inr ⟨hintact', hnone.2⟩⟩
    | error x s' =>
      rw [h] at hnext
      intro hx
      obtain ⟨hqueue, hblank | hupcoming⟩ := hnext.2 hx
      · exact .inl hblank
      · have hnone' : challengeWithin (n + 1) s'.queue s'.upcoming = false := by
          rw [hqueue, hupcoming]
          exact hnone
        exact Unchallenged.mono (.inr ⟨hnext.1, hnone'⟩) (Nat.le_succ n)

end PopStream

end Pop
