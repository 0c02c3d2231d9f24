-- SUMMARY: When the receive path panics, in runs of calls against any server.
import GetEmail.Pop.Chunking
import GetEmail.Pop.Stuck
import Mathlib.Data.List.Infix

/-!
# Panics

A run makes calls on one stream, whatever came of the calls before. `Safe` is what
`decode` asks of the state it is run in: the copy of what is left has to fit into a
new chunk, the traced bytes have to be text, and a rejected response must not have
moved the cursor past the first chunk. A server that is `Moderate` sends nothing that
leads to another state.
-/

namespace Pop.PopStream

open Exec
open Nom (Bytes ascii)

def InBounds (s : PopStream) : Prop := s.buffer.cursor ≤ s.buffer.inner.length

/-- The buffer holds some bytes below the cursor, and nothing beyond. -/
def WellFormed (s : PopStream) : Prop := ∃ bytes, s.Holds bytes

theorem WellFormed.inBounds {s : PopStream} (h : WellFormed s) : InBounds s := by
  obtain ⟨bytes, h⟩ := h
  exact h.le

/-- What a rejected response leaves is well formed while the cursor is in the first chunk. -/
theorem taken_wellFormed {s : PopStream} (h : s.buffer.cursor ≤ Buffer.chunkSize) :
    WellFormed s.taken := by
  refine ⟨zeroed s.buffer.cursor, Buffer.chunkSize - s.buffer.cursor, ?_⟩
  simp [taken, Buffer.holding, Buffer.zeroed_append, Nat.add_sub_cancel' h]

variable [Host]

/-! ## One decode -/

/-- If `decode` gets to parse, it can handle the outcome. -/
def Safe (s : PopStream) : Prop :=
  s.decodeNeeds ≤ s.buffer.cursor → ∀ command ∈ s.queue.current,
    match Parser.parse (s.buffer.inner.take s.buffer.cursor) command with
    | .ok rest _ => rest.length ≤ Buffer.chunkSize ∧
        (Host.traceEnabled → Utf8.valid s.buffer.inner)
    | .incomplete _ => True
    | .error _ => s.buffer.cursor ≤ Buffer.chunkSize

theorem decode_wellFormed {s : PopStream} (hs : WellFormed s) (hsafe : Safe s) :
    exit? (decode s) ≠ some .panicked ∧ WellFormed (stateOf (decode s)) := by
  by_cases hskip : s.buffer.cursor < s.decodeNeeds
  · rw [decode_skip hskip]
    exact ⟨(Option.some_ne_none _).symm, hs⟩
  have hle := Nat.not_lt.mp hskip
  cases hq : s.queue with
  | nil =>
    rw [decode_missing hle hq]
    exact ⟨by simp [exit?], hs⟩
  | cons command queue =>
    have hsafe := hsafe hle command (by simp [CommandQueue.current, hq])
    have hcases := decode_command hle hq
    generalize decode s = r at hcases
    cases hcases with
    | overrun hlen => exact absurd hs.inBounds (Nat.not_le.mpr hlen)
    | accepted => exact ⟨(Option.some_ne_none _).symm, _, _, rfl⟩
    | untraceable hparse htrace =>
      rw [hparse] at hsafe
      exact absurd hsafe.2 htrace
    | overflow hparse hrest =>
      rw [hparse] at hsafe
      exact absurd hsafe.1 (Nat.not_le.mpr hrest)
    | incomplete => exact ⟨(Option.some_ne_none _).symm, hs⟩
    | rejected hparse =>
      rw [hparse] at hsafe
      exact ⟨by simp [exit?], taken_wellFormed hsafe⟩

theorem safe_of_decode {s : PopStream} (hpanic : exit? (decode s) ≠ some .panicked)
    (hbounds : InBounds (stateOf (decode s))) : Safe s := by
  intro hle command hcommand
  obtain ⟨queue, hq⟩ : ∃ queue, s.queue = command :: queue := by
    obtain ⟨queue, hq⟩ := List.head?_eq_some_iff.mp hcommand
    exact ⟨queue, hq⟩
  have hcases := decode_command hle hq
  generalize decode s = r at hcases hpanic hbounds
  cases hcases with
  | overrun => exact absurd rfl hpanic
  | accepted hparse htrace hrest =>
    rw [hparse]
    exact ⟨hrest, htrace⟩
  | untraceable => exact absurd rfl hpanic
  | overflow => exact absurd rfl hpanic
  | incomplete hparse =>
    rw [hparse]
    trivial
  | rejected hparse =>
    rw [hparse]
    simpa [InBounds, stateOf, taken] using hbounds

/-! ## One call -/

theorem Decodes.wellFormed {s t : PopStream} (ht : Decodes s t) (hs : WellFormed s) :
    WellFormed t := by
  obtain ⟨bytes, hs⟩ := hs
  obtain ⟨new, hnew, -⟩ := ht.holds hs
  exact ⟨_, hnew⟩

omit [Host] in
theorem receive_wellFormed {s : PopStream} (hs : WellFormed s) :
    exit? (receive s) ≠ some .panicked ∧ WellFormed (stateOf (receive s)) := by
  obtain ⟨bytes, hs⟩ := hs
  cases h : receive s with
  | ok u s' =>
    obtain ⟨⟨new, hnew, -⟩, -⟩ := receive_holds hs h
    exact ⟨nofun, _, hnew⟩
  | error x s' =>
    obtain ⟨hs', -, -, hx⟩ := receive_error_holds hs h
    refine ⟨?_, _, hs'⟩
    simpa [exit?] using hx

theorem Polls.wellFormed {s : PopStream} {r : Outcome} (h : Polls s r) (hs : WellFormed s)
    (hsafe : ∀ t, Decodes s t → Safe t) : exit? r ≠ some .panicked ∧ WellFormed (stateOf r) := by
  obtain ⟨t, ht, hends⟩ := h.last
  have hdecode := decode_wellFormed (ht.wellFormed hs) (hsafe t ht)
  cases r with
  | ok response s' =>
    rw [show decode t = .ok (some response) s' from hends] at hdecode
    exact ⟨nofun, hdecode.2⟩
  | error x s' =>
    rcases hends with hends | ⟨t', hnone, hreceive⟩
    · rwa [hends] at hdecode
    · rw [hnone] at hdecode
      have hwell := receive_wellFormed hdecode.2
      rwa [stateOf, hreceive] at hwell

/-- A panic of `decode` is one of the call. -/
theorem Polls.decode_ne_panicked {s t : PopStream} {r : Outcome} (h : Polls s r) (ht : Decodes s t)
    (hr : exit? r ≠ some .panicked) : exit? (decode t) ≠ some .panicked := by
  intro hpanic
  have hdecode := eq_error_of_exit? hpanic
  rw [(h.of_decodes ht).unique (.exit hdecode)] at hr
  exact hr rfl

omit [Host] in
theorem finished_exit (answer : Except Error Response) (s : PopStream) :
    exit? (finished answer s) ≠ some .panicked ∧ stateOf (finished answer s) = s := by
  cases answer <;> exact ⟨nofun, rfl⟩

/-- A call that decodes safely does not panic. -/
theorem readResponse_wellFormed {s : PopStream} {command : Command} (hs : WellFormed s)
    (hsafe : ∀ t, Decodes (s.awaiting command) t → Safe t) :
    exit? (readResponse command s) ≠ some .panicked ∧
      WellFormed (stateOf (readResponse command s)) := by
  obtain ⟨bytes, hs⟩ := hs
  have hnext := (next_polls (s := s.awaiting command) hs).wellFormed ⟨bytes, hs⟩ hsafe
  rw [readResponse_eq]
  cases h : next (s.awaiting command) with
  | ok response s' =>
    rw [h] at hnext
    obtain ⟨hexit, hstate⟩ := finished_exit (deliver response) s'
    exact ⟨hexit, (congrArg WellFormed hstate).mpr hnext.2⟩
  | error x s' => rwa [h] at hnext

/-- A call that does not panic decodes without a panic. -/
theorem decode_ne_panicked {s t : PopStream} {command : Command} (hs : WellFormed s)
    (hcall : exit? (readResponse command s) ≠ some .panicked)
    (ht : Decodes (s.awaiting command) t) : exit? (decode t) ≠ some .panicked := by
  obtain ⟨bytes, hs⟩ := hs
  refine (next_polls (s := s.awaiting command) hs).decode_ne_panicked ht ?_
  rw [readResponse_eq] at hcall
  cases h : next (s.awaiting command) with
  | ok response s' => exact nofun
  | error x s' => rwa [h] at hcall

theorem encode_wellFormed (request : Request) {s : PopStream} (hs : WellFormed s) :
    exit? (encode request s) ≠ some .panicked ∧ WellFormed (stateOf (encode request s)) := by
  obtain ⟨bytes, room, hs⟩ := hs
  have hsends := encode_sends request s s rfl
  cases h : encode request s with
  | ok u s' =>
    rw [h] at hsends
    exact ⟨nofun, bytes, room, hsends.1.buffer.trans hs⟩
  | error x s' =>
    rw [h] at hsends
    obtain ⟨⟨sent, -, hsent⟩, hx⟩ := hsends
    refine ⟨?_, bytes, room, hsent.buffer.trans hs⟩
    rintro ⟨⟩
    exact hx

/-! ## Runs -/

/-- A call, and what the transport goes on with. -/
inductive Call where
  | encode (request : Request) (reads : List ReadEvent) (writes : List WriteEvent)
  | readResponse (command : Command) (reads : List ReadEvent) (writes : List WriteEvent)

def Call.run (s : PopStream) : Call → EStateM.Result (Exit Error) PopStream (Option Response)
  | .encode request reads writes =>
    ((fun _ => none) <$> PopStream.encode request) (s.supply reads writes)
  | .readResponse command reads writes =>
    (some <$> PopStream.readResponse command) (s.supply reads writes)

/-- The call runs `decode` in `t`. -/
def Call.Decodes (s : PopStream) : Call → PopStream → Prop
  | .encode .., _ => False
  | .readResponse command reads writes, t =>
    PopStream.Decodes ((s.supply reads writes).awaiting command) t

/-- `decode` is run in `t` when these calls are made on `s`. -/
inductive Decoding : PopStream → List Call → PopStream → Prop where
  | now {s t : PopStream} {call : Call} {calls : List Call} (h : call.Decodes s t) :
      Decoding s (call :: calls) t
  | later {s t : PopStream} {call : Call} {calls : List Call}
      (h : Decoding (stateOf (call.run s)) calls t) : Decoding s (call :: calls) t

/-- The stream is in `t` between two steps of these calls. -/
inductive Between : PopStream → List Call → PopStream → Prop where
  | start {s : PopStream} {calls : List Call} : Between s calls s
  | decoding {s t : PopStream} {calls : List Call} (h : Decoding s calls t) : Between s calls t
  | decoded {s t : PopStream} {calls : List Call} (h : Decoding s calls t) :
      Between s calls (stateOf (decode t))
  | received {s t t' : PopStream} {calls : List Call} (h : Decoding s calls t)
      (hdecode : decode t = .ok none t') : Between s calls (stateOf (receive t'))
  | later {s t : PopStream} {call : Call} {calls : List Call}
      (h : Between (stateOf (call.run s)) calls t) : Between s (call :: calls) t

/-- No call panics. -/
def NeverPanics : PopStream → List Call → Prop
  | _, [] => True
  | s, call :: calls =>
    exit? (call.run s) ≠ some .panicked ∧ NeverPanics (stateOf (call.run s)) calls

instance decidableNeverPanics :
    (s : PopStream) → (calls : List Call) → Decidable (NeverPanics s calls)
  | _, [] => .isTrue trivial
  | s, call :: calls =>
    have := decidableNeverPanics (stateOf (call.run s)) calls
    inferInstanceAs (Decidable (_ ∧ _))

variable {s t : PopStream} {call : Call} {calls : List Call}

theorem Call.Decodes.wellFormed (ht : call.Decodes s t) (hs : WellFormed s) : WellFormed t := by
  cases call with
  | encode request reads writes => exact ht.elim
  | readResponse command reads writes => exact PopStream.Decodes.wellFormed ht hs

theorem Call.run_wellFormed (hs : WellFormed s) (hsafe : ∀ t, call.Decodes s t → Safe t) :
    exit? (call.run s) ≠ some .panicked ∧ WellFormed (stateOf (call.run s)) := by
  cases call with
  | encode request reads writes =>
    rw [Call.run, exit?_map, stateOf_map]
    exact encode_wellFormed request hs
  | readResponse command reads writes =>
    rw [Call.run, exit?_map, stateOf_map]
    exact readResponse_wellFormed hs hsafe

theorem Call.decode_ne_panicked (hs : WellFormed s) (hcall : exit? (call.run s) ≠ some .panicked)
    (ht : call.Decodes s t) : exit? (decode t) ≠ some .panicked := by
  cases call with
  | encode request reads writes => exact ht.elim
  | readResponse command reads writes =>
    rw [Call.run, exit?_map] at hcall
    have hs : WellFormed (s.supply reads writes) := hs
    exact PopStream.decode_ne_panicked hs hcall ht

/-- In a run whose decodes are safe the cursor stays in bounds. -/
theorem Between.inBounds (ht : Between s calls t) (hs : WellFormed s)
    (hsafe : ∀ t, Decoding s calls t → Safe t) (hwell : ∀ t, Decoding s calls t → WellFormed t) :
    InBounds t := by
  induction ht with
  | start => exact hs.inBounds
  | decoding h => exact (hwell _ h).inBounds
  | decoded h => exact (decode_wellFormed (hwell _ h) (hsafe _ h)).2.inBounds
  | received h hdecode =>
    have hdecoded := (decode_wellFormed (hwell _ h) (hsafe _ h)).2
    rw [hdecode] at hdecoded
    exact (receive_wellFormed hdecoded).2.inBounds
  | later h ih =>
    refine ih ?_ (fun t ht => hsafe t (.later ht)) fun t ht => hwell t (.later ht)
    exact (Call.run_wellFormed hs fun t ht => hsafe t (.now ht)).2

theorem Decoding.wellFormed (ht : Decoding s calls t) (hs : WellFormed s)
    (hsafe : ∀ t, Decoding s calls t → Safe t) : WellFormed t := by
  induction ht with
  | now h => exact h.wellFormed hs
  | later h ih =>
    exact ih (Call.run_wellFormed hs fun t ht => hsafe t (.now ht)).2 fun t ht => hsafe t (.later ht)

/-- The calls on a well-formed stream panic, or the cursor leaves the buffer, unless
every decode is safe. -/
theorem WellFormed.neverPanics_iff (hs : WellFormed s) :
    (NeverPanics s calls ∧ ∀ t, Between s calls t → InBounds t) ↔
      ∀ t, Decoding s calls t → Safe t := by
  constructor
  · rintro ⟨hnever, hbounds⟩ t ht
    induction ht with
    | now h =>
      exact safe_of_decode (Call.decode_ne_panicked hs hnever.1 h) (hbounds _ (.decoded (.now h)))
    | @later s t call calls h ih =>
      refine ih ?_ hnever.2 fun t ht => hbounds t (.later ht)
      refine (Call.run_wellFormed hs fun t ht => ?_).2
      exact safe_of_decode (Call.decode_ne_panicked hs hnever.1 ht) (hbounds _ (.decoded (.now ht)))
  · intro hsafe
    refine ⟨?_, fun t ht => ht.inBounds hs hsafe fun t ht => ht.wellFormed hs hsafe⟩
    induction calls generalizing s with
    | nil => trivial
    | cons call calls ih =>
      obtain ⟨hexit, hs'⟩ := Call.run_wellFormed hs fun t ht => hsafe t (.now ht)
      exact ⟨hexit, ih hs' fun t ht => hsafe t (.later ht)⟩

/-! ## What a server may send -/

/-- The stream can handle it if these bytes have come in when `command` is to be answered:
at most a chunk follows the response, the bytes can be traced, and what is rejected is not
longer than a chunk. -/
def Bearable (command : Command) (bytes : Bytes) : Prop :=
  match Parser.parse bytes command with
  | .ok rest _ => rest.length ≤ Buffer.chunkSize ∧ (Host.traceEnabled → Utf8.valid bytes)
  | .incomplete _ => True
  | .error _ => bytes.length ≤ Buffer.chunkSize

instance (command : Command) (bytes : Bytes) : Decidable (Bearable command bytes) :=
  match h : Parser.parse bytes command with
  | .ok rest _ =>
    decidable_of_iff (rest.length ≤ Buffer.chunkSize ∧ (Host.traceEnabled → Utf8.valid bytes))
      (by simp [Bearable, h])
  | .incomplete _ => isTrue (by simp [Bearable, h])
  | .error _ => decidable_of_iff (bytes.length ≤ Buffer.chunkSize) (by simp [Bearable, h])

/-- What comes in during these calls is bearable, if the bytes `unread` belong to no
response yet, and the commands in `queue` have none. A call may read any part of what comes
in, and end there: with the response, if there is one, or without. -/
def Moderate : Bytes → CommandQueue → List Call → Prop
  | _, _, [] => True
  | unread, queue, .encode .. :: calls => Moderate unread queue calls
  | unread, queue, .readResponse command reads _ :: calls =>
    ∀ more ∈ (incoming reads).inits, ∀ first ∈ CommandQueue.current (queue ++ [command]),
      Bearable first (unread ++ more) ∧ Moderate (unread ++ more) (queue ++ [command]) calls ∧
        ∀ rest ∈ (Parser.parse (unread ++ more) first).rest?,
          Moderate rest (queue ++ [command]).tail calls

instance decidableModerate : (unread : Bytes) → (queue : CommandQueue) → (calls : List Call) →
    Decidable (Moderate unread queue calls)
  | _, _, [] => .isTrue trivial
  | unread, queue, .encode .. :: calls => decidableModerate unread queue calls
  | unread, queue, .readResponse command reads _ :: calls =>
    have := fun unread queue => decidableModerate unread queue calls
    inferInstanceAs (Decidable (∀ more ∈ (incoming reads).inits,
      ∀ first ∈ CommandQueue.current (queue ++ [command]), Bearable first (unread ++ more) ∧ _ ∧
        ∀ rest ∈ _, _))

/-- The stream stands where these bytes are unread and these commands unanswered, or it has
rejected bytes that were not longer than a chunk. -/
def Stands (s : PopStream) (unread : Bytes) (queue : CommandQueue) : Prop :=
  s.Holds unread ∧ s.queue = queue ∨ Rejected s ∧ s.buffer.cursor ≤ Buffer.chunkSize

omit [Host] in
theorem Rejected.wellFormed (h : Rejected s) (hcursor : s.buffer.cursor ≤ Buffer.chunkSize) :
    WellFormed s := by
  have htaken : s.taken = s := by rw [taken, ← h.blank]
  exact htaken ▸ taken_wellFormed hcursor

/-- A stream that has rejected a response rejects at once. -/
theorem Rejected.decodes (h : Rejected s) (ht : PopStream.Decodes s t) : t = s := by
  induction ht with
  | start => rfl
  | again _ hdecode _ ih =>
    subst ih
    rcases h.decode with ⟨e, he⟩ | hpanics
    · simp [he] at hdecode
    · simp [hpanics] at hdecode

omit [Host] in
theorem Stands.wellFormed {unread : Bytes} {queue : CommandQueue} (h : Stands s unread queue) :
    WellFormed s := by
  rcases h with ⟨hholds, -⟩ | ⟨hrejected, hcursor⟩
  · exact ⟨unread, hholds⟩
  · exact hrejected.wellFormed hcursor

/-- The states of a call: some of what comes in has been read, or the stream has rejected
before. -/
theorem Stands.decodes {unread : Bytes} {queue : CommandQueue} (hs : Stands s unread queue)
    (ht : PopStream.Decodes s t) :
    (∃ more, more <+: incoming s.stream.reads ∧ t.Holds (unread ++ more) ∧ t.queue = queue) ∨
      t = s ∧ Rejected s ∧ s.buffer.cursor ≤ Buffer.chunkSize := by
  rcases hs with ⟨hholds, rfl⟩ | ⟨hrejected, hcursor⟩
  · obtain ⟨more, hmore, -, hqueue⟩ := ht.holds hholds
    obtain ⟨bytes, hbytes, heq⟩ := ht.incoming_eq hholds
    obtain rfl : unread ++ more = bytes := hmore.take.symm.trans hbytes.take
    rw [List.append_assoc, List.append_cancel_left_eq] at heq
    exact .inl ⟨more, ⟨_, heq⟩, hmore, hqueue⟩
  · exact .inr ⟨hrejected.decodes ht, hrejected, hcursor⟩

theorem Holds.safe {bytes : Bytes} (hs : s.Holds bytes)
    (h : ∀ first ∈ s.queue.current, Bearable first bytes) : Safe s := by
  intro _ first hfirst
  have h := h first hfirst
  obtain ⟨room, hbuffer⟩ := id hs
  have hvalid : Utf8.valid s.buffer.inner = Utf8.valid bytes := by
    rw [hbuffer]
    exact Utf8.valid_append_zeros _ _
  rw [hs.take, hs.cursor, hvalid]
  exact h

theorem Rejected.safe (h : Rejected s) (hcursor : s.buffer.cursor ≤ Buffer.chunkSize) : Safe s := by
  intro _ first _
  obtain ⟨e, he⟩ := h.parse first
  rw [he]
  exact hcursor

/-- What may come in during a call that is bearable, if the stream has these commands to answer -/
def Bears (unread : Bytes) (queue : CommandQueue) (reads : List ReadEvent) : Prop :=
  ∀ more, more <+: incoming reads → ∀ first ∈ queue.current, Bearable first (unread ++ more)

variable {unread : Bytes} {queue : CommandQueue}

theorem Stands.safe (hs : Stands s unread queue) (hbears : Bears unread queue s.stream.reads)
    (ht : PopStream.Decodes s t) : Safe t := by
  rcases hs.decodes ht with ⟨more, hmore, hholds, hqueue⟩ | ⟨rfl, hrejected, hcursor⟩
  · exact hholds.safe fun first hfirst => hbears more hmore first (hqueue ▸ hfirst)
  · exact hrejected.safe hcursor

/-- A response that is rejected leaves a blank of at most a chunk. -/
theorem decode_stands {s' : PopStream} {x : Exit Error} (hs : WellFormed s) (hsafe : Safe s)
    (hq : s.queue ≠ []) (hdecode : decode s = .error x s') : Stands s' unread queue := by
  obtain ⟨hexit, hwell⟩ := decode_wellFormed hs hsafe
  rw [hdecode] at hexit hwell
  cases x with
  | panicked => exact absurd rfl hexit
  | pending =>
    rcases decode_eq_error hdecode with ⟨hnil, -⟩ | ⟨command, queue, -, -, hcases⟩
    · exact absurd hnil hq
    · cases hcases
  | error e =>
    obtain ⟨hrejected, -, -⟩ := decode_rejected hq hdecode
    have hbounds : s'.buffer.cursor ≤ s'.buffer.inner.length := hwell.inBounds
    rw [hrejected.blank, zeroed_length] at hbounds
    exact .inr ⟨hrejected, hbounds⟩

/-- Where a call ends: some of what comes in has been read, and the response was taken off
it, or not. -/
theorem Stands.ends (hs : Stands s unread queue) (hbears : Bears unread queue s.stream.reads)
    (hq : queue ≠ []) {r : Outcome} (hr : Polls s r) : ∃ more, more <+: incoming s.stream.reads ∧
      (Stands (stateOf r) (unread ++ more) queue ∨ ∃ first ∈ queue.current,
        ∃ rest ∈ (Parser.parse (unread ++ more) first).rest?, Stands (stateOf r) rest queue.tail) := by
  obtain ⟨t, ht, hends⟩ := hr.last
  have hsafe := hs.safe hbears ht
  have hwell := ht.wellFormed hs.wellFormed
  rcases hs.decodes ht with ⟨more, hmore, hholds, hqueue⟩ | ⟨rfl, hrejected, hcursor⟩
  · refine ⟨more, hmore, ?_⟩
    cases r with
    | ok response s' =>
      obtain ⟨first, rest, unread', hfirst, hparse, -, rfl⟩ := decode_eq_some hends
      rw [hqueue] at hfirst
      rw [hholds.take] at hparse
      refine .inr ⟨first, by rw [hfirst]; rfl, unread', by rw [hparse]; rfl, .inl ⟨⟨_, rfl⟩, ?_⟩⟩
      rw [hfirst]
      rfl
    | error x s' =>
      left
      rcases hends with hdecode | ⟨t', hdecode, hreceive⟩
      · exact decode_stands hwell hsafe (hqueue ▸ hq) hdecode
      · obtain ⟨hholds', hqueue', -⟩ := decode_none_holds hholds hdecode
        obtain ⟨hholds'', hqueue'', -⟩ := receive_error_holds hholds' hreceive
        exact .inl ⟨hholds'', hqueue''.trans (hqueue'.trans hqueue)⟩
  · have hdecode := hrejected.decode
    refine ⟨[], List.nil_prefix, .inl ?_⟩
    cases r with
    | ok response s' =>
      rw [show decode t = .ok (some response) s' from hends] at hdecode
      rcases hdecode with ⟨e, he⟩ | hpanics
      · cases he
      · cases hpanics
    | error x s' =>
      rcases hends with hends | ⟨t', hnone, -⟩
      · exact decode_stands hwell hsafe hrejected.queue hends
      · rw [hnone] at hdecode
        rcases hdecode with ⟨e, he⟩ | hpanics
        · cases he
        · cases hpanics

omit [Host] in
theorem Stands.supply (hs : Stands s unread queue) (reads : List ReadEvent)
    (writes : List WriteEvent) : Stands (s.supply reads writes) unread queue :=
  hs.imp id fun h => ⟨(SameReader.supply s reads writes).rejected h.1, h.2⟩

omit [Host] in
theorem Stands.awaiting (hs : Stands s unread queue) (command : Command) :
    Stands (s.awaiting command) unread (queue ++ [command]) := by
  rcases hs with ⟨hholds, rfl⟩ | ⟨hrejected, hcursor⟩
  · exact .inl ⟨hholds, rfl⟩
  · exact .inr ⟨⟨by simp [PopStream.awaiting], hrejected.needs, hrejected.cursor,
      hrejected.blank⟩, hcursor⟩

/-- Writing does not touch what was read. -/
theorem encode_stands (request : Request) (hs : Stands s unread queue) :
    Stands (stateOf (encode request s)) unread queue := by
  refine Triple.stateOf ((encode_sends request).keeps_sent (R := (Stands · unread queue))
    fun {s s' sent} hsent hs => ?_) hs
  rcases hs with ⟨⟨room, hbuffer⟩, hqueue⟩ | ⟨hrejected, hcursor⟩
  · exact .inl ⟨⟨room, hsent.buffer.trans hbuffer⟩, hsent.queue.trans hqueue⟩
  · exact .inr ⟨⟨hsent.queue ▸ hrejected.queue, hsent.decodeNeeds ▸ hsent.buffer ▸ hrejected.needs,
      hsent.buffer ▸ hrejected.cursor, hsent.buffer ▸ hrejected.blank⟩, hsent.buffer ▸ hcursor⟩

theorem readResponse_polls {bytes : Bytes} (hs : s.Holds bytes) (command : Command) :
    ∃ r, Polls (s.awaiting command) r ∧ stateOf (readResponse command s) = stateOf r := by
  refine ⟨_, next_polls (s := s.awaiting command) hs, ?_⟩
  rw [readResponse_eq]
  cases next (s.awaiting command) with
  | ok response s' => exact stateOf_finished _ _
  | error x s' => rfl

/-- With a moderate server every decode is safe. -/
theorem Moderate.safe (h : Moderate unread queue calls) (hs : Stands s unread queue)
    (ht : Decoding s calls t) : Safe t := by
  induction calls generalizing s unread queue with
  | nil => cases ht
  | cons call calls ih =>
    cases call with
    | encode request reads writes =>
      cases ht with
      | now hnow => exact hnow.elim
      | later hlater =>
        have hmoderate : Moderate unread queue calls := h
        refine ih hmoderate ?_ hlater
        rw [Call.run, stateOf_map]
        exact encode_stands request (hs.supply reads writes)
    | readResponse command reads writes =>
      have hstands := (hs.supply reads writes).awaiting command
      have hbears : Bears unread (queue ++ [command]) reads := fun more hmore first hfirst =>
        (h more (List.mem_inits more _ |>.mpr hmore) first hfirst).1
      cases ht with
      | now hnow => exact hstands.safe hbears hnow
      | later hlater =>
        obtain ⟨bytes, hbytes⟩ := (hs.supply reads writes).wellFormed
        obtain ⟨r, hr, hstate⟩ := readResponse_polls hbytes command
        rw [Call.run, stateOf_map, hstate] at hlater
        obtain ⟨more, hmore, hends | ⟨first, hfirst, rest, hrest, hends⟩⟩ :=
          hstands.ends hbears (by simp) hr
        · obtain ⟨first, hfirst⟩ : ∃ first, first ∈ CommandQueue.current (queue ++ [command]) :=
            Option.isSome_iff_exists.mp (by simp [CommandQueue.current])
          exact ih (h more (List.mem_inits more _ |>.mpr hmore) first hfirst).2.1 hends hlater
        · exact ih ((h more (List.mem_inits more _ |>.mpr hmore) first hfirst).2.2 rest hrest) hends
            hlater

/-- In a run on a new stream nothing panics, and the cursor stays in the buffer, if the
server is moderate. -/
theorem receive_path_safe (stream : Transport) (h : Moderate [] [] calls) :
    NeverPanics (new stream) calls ∧ ∀ t, Between (new stream) calls t → InBounds t :=
  WellFormed.neverPanics_iff ⟨[], new_holds stream⟩ |>.mpr fun _ ht =>
    h.safe (.inl ⟨new_holds stream, rfl⟩) ht

omit [Host] in
/-- A call that is dropped, one that reads on, and one for a response that was there already -/
theorem receive_path_safe_stat :
    let calls : List Call := [
      .readResponse .stat [.data (ascii "+OK 1")] [],
      .readResponse .noop [.data (ascii " 2\r\n+O")] [],
      .readResponse .noop [.data (ascii "K\r\n-")] []]
    @NeverPanics (.bare true) (new (delivering [])) calls ∧
      ∀ t, @Between (.bare true) (new (delivering [])) calls t → InBounds t :=
  let _ : Host := .bare true
  receive_path_safe (delivering []) (by decide +kernel)

omit [Host] in
/-- With tracing a text that is not UTF-8 is enough. Without it, a response that is
rejected after the first chunk, and another call. -/
theorem receive_path_panics :
    ¬ @NeverPanics (.bare true) (new ⟨[], [], false, none⟩)
        [.readResponse .noop [.data (ascii "+OK " ++ [0xFF] ++ endOfLine)] []] ∧
    ¬ @NeverPanics (.bare false) (new ⟨[], [], false, none⟩)
        [.readResponse .stat
          [.data (ascii "+OK " ++ List.replicate 2044 0x31), .data (ascii "x")] [],
          .readResponse .stat [] []] :=
  ⟨by decide +kernel, by decide +kernel⟩

end Pop.PopStream
