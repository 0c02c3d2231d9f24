-- SUMMARY: The loop of `poll_next` as alternating decodes and reads, without fuel.
import GetEmail.Pop.StreamSteps

/-!
# Polling

`next` runs `decode`, and reads and decodes again as long as `decode` has no
response. `Polls` says this without the fuel, and `Decodes` lists the states in
which `decode` is run.
-/

namespace Pop.PopStream

open Exec
open Nom (Bytes Needed ParseError)

abbrev Outcome := EStateM.Result (Exit Error) PopStream Response

/-- The buffer is well formed, with `bytes` below the cursor. -/
def Holds (s : PopStream) (bytes : Bytes) : Prop := ∃ room, s.buffer = .holding bytes room

theorem new_holds (t : Transport) : (new t).Holds [] := ⟨Buffer.chunkSize, rfl⟩

theorem Holds.cursor {s : PopStream} {bytes : Bytes} (h : s.Holds bytes) :
    s.buffer.cursor = bytes.length := by
  obtain ⟨room, h⟩ := h
  simp [h]

theorem Holds.take {s : PopStream} {bytes : Bytes} (h : s.Holds bytes) :
    s.buffer.inner.take s.buffer.cursor = bytes := by
  obtain ⟨room, h⟩ := h
  simp [h]

theorem Holds.le {s : PopStream} {bytes : Bytes} (h : s.Holds bytes) :
    s.buffer.cursor ≤ s.buffer.inner.length := by
  obtain ⟨room, h⟩ := h
  simp [h]

variable [Host]

/-- `decode` is run in the states that are related to `s`, one read after the
other. -/
inductive Decodes (s : PopStream) : PopStream → Prop where
  | start : Decodes s s
  | again {t t' t'' : PopStream} (h : Decodes s t) (hdecode : decode t = .ok none t')
      (hreceive : receive t' = .ok () t'') : Decodes s t''

/-- Polling from a `decode` in `s` ends with `r`. -/
inductive Polls : PopStream → Outcome → Prop where
  | done {s s' : PopStream} {response : Response} (h : decode s = .ok (some response) s') :
      Polls s (.ok response s')
  | exit {s s' : PopStream} {x : Exit Error} (h : decode s = .error x s') : Polls s (.error x s')
  | stop {s s' s'' : PopStream} {x : Exit Error} (h : decode s = .ok none s')
      (hreceive : receive s' = .error x s'') : Polls s (.error x s'')
  | again {s s' s'' : PopStream} {r : Outcome} (h : decode s = .ok none s')
      (hreceive : receive s' = .ok () s'') (hrest : Polls s'' r) : Polls s r

/-- Polling goes on from each decode in the same way. -/
theorem Polls.of_decodes {s t : PopStream} {r : Outcome} (ht : Decodes s t) (h : Polls s r) :
    Polls t r := by
  induction ht with
  | start => exact h
  | again _ hdecode hreceive ih =>
    cases ih with
    | done h' => simp [hdecode] at h'
    | exit h' => simp [hdecode] at h'
    | stop h' hreceive' =>
      rw [hdecode] at h'
      cases h'
      simp [hreceive] at hreceive'
    | again h' hreceive' hrest =>
      rw [hdecode] at h'
      cases h'
      rw [hreceive] at hreceive'
      cases hreceive'
      exact hrest

theorem Decodes.head {s s' s'' t : PopStream} (hdecode : decode s = .ok none s')
    (hreceive : receive s' = .ok () s'') (h : Decodes s'' t) : Decodes s t := by
  induction h with
  | start => exact .again .start hdecode hreceive
  | again _ hdecode' hreceive' ih => exact .again ih hdecode' hreceive'

/-- From a `decode` in `t` polling ends without another one: `decode` has a
response or fails, or the read after it does not return. -/
def Ends (t : PopStream) : Outcome → Prop
  | .ok response s' => decode t = .ok (some response) s'
  | .error x s' =>
    decode t = .error x s' ∨ ∃ t', decode t = .ok none t' ∧ receive t' = .error x s'

theorem Polls.last {s : PopStream} {r : Outcome} (h : Polls s r) : ∃ t, Decodes s t ∧ Ends t r := by
  induction h with
  | done h => exact ⟨_, .start, h⟩
  | exit h => exact ⟨_, .start, .inl h⟩
  | stop h hreceive => exact ⟨_, .start, .inr ⟨_, h, hreceive⟩⟩
  | again h hreceive _ ih =>
    obtain ⟨t, ht, hlast⟩ := ih
    exact ⟨t, .head h hreceive ht, hlast⟩

theorem Polls.unique {s : PopStream} {r r' : Outcome} (h : Polls s r) (h' : Polls s r') :
    r = r' := by
  induction h with
  | done hdecode =>
    cases h' <;> simp_all
  | exit hdecode =>
    cases h' <;> simp_all
  | stop hdecode hreceive =>
    cases h' <;> simp_all
  | again hdecode hreceive _ ih =>
    exact ih (h'.of_decodes (.again .start hdecode hreceive))

/-! ## Progress -/

theorem decode_none_holds {s s' : PopStream} {bytes : Bytes} (h : s.Holds bytes)
    (hdecode : decode s = .ok none s') :
    s'.Holds bytes ∧ s'.queue = s.queue ∧ s'.stream = s.stream ∧ s'.history = s.history := by
  rcases decode_eq_none hdecode with ⟨-, rfl⟩ | ⟨command, queue, needed, -, -, rfl⟩
  · exact ⟨h, rfl, rfl, rfl⟩
  · exact ⟨h, rfl, rfl, rfl⟩

omit [Host] in
/-- A read that returns adds what came in at the cursor, and uses up a part of
the script. -/
theorem receive_holds {s s' : PopStream} {bytes : Bytes} (h : s.Holds bytes)
    (hreceive : receive s = .ok () s') :
    (∃ new, s'.Holds (bytes ++ new) ∧ received s'.history = received s.history ++ new) ∧
      s'.queue = s.queue ∧ s'.stream.readFuel < s.stream.readFuel := by
  obtain ⟨room, h⟩ := h
  have hcases := receive_cases h
  rw [hreceive] at hcases
  cases hcases with
  | woken hbroken hreads =>
    refine ⟨⟨[], ⟨ensuredRoom bytes room s.decodeNeeds, by simp⟩, by simp⟩, rfl, ?_⟩
    simp [Transport.readFuel, hreads]
  | ready hbroken hreads =>
    refine ⟨⟨_, ⟨_, rfl⟩, by simp⟩, rfl, ?_⟩
    have hroom := ensuredRoom_pos bytes room s.decodeNeeds
    simp only [Transport.readFuel, hreads]
    split
    · simp
    · simp only [List.map_cons, List.sum_cons, List.length_drop]
      omega

omit [Host] in
/-- A read that does not return brings nothing in. -/
theorem receive_error_holds {s s' : PopStream} {bytes : Bytes} {x : Exit Error}
    (h : s.Holds bytes) (hreceive : receive s = .error x s') :
    s'.Holds bytes ∧ s'.queue = s.queue ∧ s'.history = s.history ∧ x ≠ .panicked := by
  obtain ⟨room, h⟩ := h
  have hcases := receive_cases h
  rw [hreceive] at hcases
  cases hcases with
  | tooLarge hsize hgrow => exact ⟨⟨room, h⟩, rfl, rfl, nofun⟩
  | blocked hbroken hreads => exact ⟨⟨_, rfl⟩, rfl, rfl, nofun⟩
  | failed hwhy => exact ⟨⟨_, rfl⟩, rfl, rfl, nofun⟩

/-- Until there is a response, the buffer holds what it held and what came in. -/
theorem Decodes.holds {s t : PopStream} {bytes : Bytes} (ht : Decodes s t) (h : s.Holds bytes) :
    ∃ new, t.Holds (bytes ++ new) ∧ received t.history = received s.history ++ new ∧
      t.queue = s.queue := by
  induction ht with
  | start => exact ⟨[], by simpa using h, by simp, rfl⟩
  | again _ hdecode hreceive ih =>
    obtain ⟨new, hholds, hreceived, hqueue⟩ := ih
    obtain ⟨hholds', hqueue', -, hhistory'⟩ := decode_none_holds hholds hdecode
    obtain ⟨⟨new', hholds'', hreceived''⟩, hqueue'', -⟩ := receive_holds hholds' hreceive
    refine ⟨new ++ new', by simpa using hholds'', ?_, by rw [hqueue'', hqueue', hqueue]⟩
    rw [hreceived'', hhistory', hreceived, List.append_assoc]

theorem readTurn_apply (u : Unit) (s : PopStream) :
    readTurn u s = match receive s with
      | .error x s' => .error x s'
      | .ok _ s' => match decode s' with
        | .error x s'' => .error x s''
        | .ok (some response) s'' => .ok (.inr response) s''
        | .ok none s'' => .ok (.inl ()) s'' := by
  simp only [readTurn, bind_apply]
  cases receive s with
  | error x s' => rfl
  | ok _ s' =>
    cases hdecode : decode s' with
    | error x s'' => simp [hdecode]
    | ok response s'' => cases response <;> simp [hdecode]

theorem polls_of_runs {u : Unit} {s' : PopStream} {r : Outcome} (hrun : Runs readTurn u s' r)
    {s : PopStream} (hdecode : decode s = .ok none s') : Polls s r := by
  induction hrun generalizing s with
  | done hturn =>
    rw [readTurn_apply] at hturn
    split at hturn
    · cases hturn
    · next hreceive =>
      split at hturn <;> cases hturn
      next h => exact .again hdecode hreceive (.done h)
  | exit hturn =>
    rw [readTurn_apply] at hturn
    split at hturn
    · next hreceive =>
      cases hturn
      exact .stop hdecode hreceive
    · next hreceive =>
      split at hturn <;> cases hturn
      next h => exact .again hdecode hreceive (.exit h)
  | again hturn _ ih =>
    rw [readTurn_apply] at hturn
    split at hturn
    · cases hturn
    · next hreceive =>
      split at hturn <;> cases hturn
      next h => exact .again hdecode hreceive (ih h)

/-- On a well-formed buffer `next` has enough fuel. -/
theorem next_polls {s : PopStream} {bytes : Bytes} (h : s.Holds bytes) : Polls s (next s) := by
  have hturn : ∀ (u : Unit) s u' s', (∃ bytes, s.Holds bytes) → readTurn u s = .ok (.inl u') s' →
      (∃ bytes, s'.Holds bytes) ∧ s'.stream.readFuel < s.stream.readFuel := by
    rintro u s u' s' ⟨bytes, h⟩ hturn
    rw [readTurn_apply] at hturn
    split at hturn
    · cases hturn
    · next hreceive =>
      obtain ⟨⟨new, h', -⟩, -, hfuel⟩ := receive_holds h hreceive
      split at hturn <;> cases hturn
      next hdecode =>
        obtain ⟨h'', -, hstream, -⟩ := decode_none_holds h' hdecode
        exact ⟨⟨_, h''⟩, hstream ▸ hfuel⟩
  unfold next
  rw [bind_apply]
  cases hdecode : decode s with
  | error x s' => exact .exit hdecode
  | ok response s' =>
    cases response with
    | some response => exact .done hdecode
    | none =>
      have h' := (decode_none_holds h hdecode).1
      have hrun := loop_runs (I := fun _ (s : PopStream) => ∃ bytes, s.Holds bytes)
        (fun _ s => s.stream.readFuel) hturn (b := ()) ⟨_, h'⟩ (Nat.lt_succ_self _)
      exact polls_of_runs hrun hdecode

/-- Polling does not fail with the error of the server; that one is a response. -/
theorem Ends.kind {t s' : PopStream} {bytes : Bytes} {e : Error} (ht : t.Holds bytes)
    (h : Ends t (.error (.error e) s')) (text : Bytes) : e.kind ≠ .serverError text := by
  rcases h with h | ⟨t', hdecode, hreceive⟩
  · rcases decode_eq_error h with ⟨-, he, -⟩ | ⟨command, queue, -, -, hcases⟩
    · cases he
      nofun
    · cases hcases
      nofun
  · obtain ⟨room, ht'⟩ := (decode_none_holds ht hdecode).1
    have hcases := receive_cases ht'
    rw [hreceive] at hcases
    cases hcases <;> nofun

/-! ## The call -/

/-- What `read_response` makes of a response. -/
def deliver : Response → Except Error Response
  | .err err => .error ⟨"Server error", .serverError err.display⟩
  | response => .ok response

/-- A finished call, and the state it leaves. -/
def finished (answer : Except Error Response) (s : PopStream) : Outcome :=
  match answer with
  | .ok response => .ok response s
  | .error e => .error (.error e) s

omit [Host] in
theorem finished_inj {a b : Except Error Response} {s s' : PopStream} :
    finished a s = finished b s' ↔ a = b ∧ s = s' := by
  cases a <;> cases b <;> simp [finished]

omit [Host] in
@[simp] theorem stateOf_finished (answer : Except Error Response) (s : PopStream) :
    stateOf (finished answer s) = s := by
  cases answer <;> rfl

/-- The state in which `read_response` starts to poll. -/
def awaiting (s : PopStream) (command : Command) : PopStream :=
  { s with queue := s.queue ++ [command] }

theorem readResponse_eq (command : Command) (s : PopStream) :
    readResponse command s = match next (s.awaiting command) with
      | .ok response s' => finished (deliver response) s'
      | .error x s' => .error x s' := by
  simp only [readResponse, bind_apply, onQueue, zoom, CommandQueue.add, modify_apply, awaiting]
  cases next ⟨s.buffer, s.decodeNeeds, s.queue ++ [command], s.stream, s.history⟩ with
  | error x s' => rfl
  | ok response s' => cases response <;> rfl

/-- A call that returned a response or a server error. -/
def Answered : Except Error Response → Prop
  | .ok _ => True
  | .error e => ∃ text, e.kind = .serverError text

omit [Host] in
theorem deliver_answered (response : Response) : Answered (deliver response) := by
  cases response <;> simp [deliver, Answered]

/-- A call is answered with what it makes of the response that polling ends with. -/
theorem readResponse_finished {s s' : PopStream} {bytes : Bytes} {command : Command}
    {answer : Except Error Response} (hs : s.Holds bytes) (hanswer : Answered answer) :
    readResponse command s = finished answer s' ↔
      ∃ response, Polls (s.awaiting command) (.ok response s') ∧ answer = deliver response := by
  have hpolls := next_polls (s := s.awaiting command) hs
  rw [readResponse_eq]
  constructor
  · intro h
    cases hnext : next (s.awaiting command) with
    | ok response s'' =>
      rw [hnext] at h hpolls
      obtain ⟨rfl, rfl⟩ := finished_inj.mp h
      exact ⟨response, hpolls, rfl⟩
    | error x s'' =>
      rw [hnext] at h hpolls
      cases answer with
      | ok response => cases h
      | error e =>
        cases h
        obtain ⟨t, ht, hends⟩ := hpolls.last
        obtain ⟨new, hnew, -⟩ := ht.holds hs
        obtain ⟨text, htext⟩ := hanswer
        exact absurd htext (hends.kind hnew text)
  · rintro ⟨response, hresponse, rfl⟩
    rw [hpolls.unique hresponse]

/-- An answered call has parsed the answer from the bytes it found and those that
came in, and leaves what follows. -/
theorem readResponse_answered {s s' : PopStream} {bytes : Bytes} {command : Command}
    {answer : Except Error Response} (hs : s.Holds bytes) (hqueue : s.queue = [])
    (h : readResponse command s = finished answer s') (hanswer : Answered answer) :
    ∃ new rest response, received s'.history = received s.history ++ new ∧
      Parser.parse (bytes ++ new) command = .ok rest response ∧ rest.length ≤ Buffer.chunkSize ∧
      answer = deliver response ∧ s'.queue = [] ∧
      s'.buffer = .holding rest (Buffer.chunkSize - rest.length) := by
  obtain ⟨response, hpolls, rfl⟩ := (readResponse_finished hs hanswer).mp h
  obtain ⟨t, ht, hends⟩ := hpolls.last
  obtain ⟨new, hnew, hreceived, hqueue'⟩ := ht.holds hs
  obtain ⟨command', queue, rest, hq, hparse, hrest, rfl⟩ := decode_eq_some hends
  obtain ⟨rfl, rfl⟩ : command' = command ∧ queue = [] := by
    simpa [hqueue', awaiting, hqueue] using hq.symm
  refine ⟨new, rest, response, ?_, ?_, hrest, rfl, rfl, rfl⟩
  · simpa [awaiting] using hreceived
  · rwa [hnew.take] at hparse

end Pop.PopStream
