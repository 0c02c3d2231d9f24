-- SUMMARY: What each operation of the stream can do, said once.
import GetEmail.Pop.Stream

/-!
# Steps of the stream

One lemma for each operation, with its guards and the state it leaves. Later
proofs use these and do not unfold the operations.
-/

namespace Pop

open Exec
open Nom (Bytes Needed ParseError)

namespace PopStream

/-! ## Sending -/

/-- From `s` to `s'` the bytes were written, piece by piece, and nothing else
happened to the stream. -/
structure Sent (s s' : PopStream) (bytes : Bytes) : Prop where
  buffer : s'.buffer = s.buffer
  decodeNeeds : s'.decodeNeeds = s.decodeNeeds
  queue : s'.queue = s.queue
  reads : s'.stream.reads = s.stream.reads
  after : s.stream.After s'.stream
  history : ∃ pieces : List Bytes,
    s'.history = s.history ++ pieces.map .sent ∧ pieces.flatten = bytes

/-- The transport is set to other events; nothing is written. -/
theorem Sent.ofStream (s : PopStream) {writes : List WriteEvent} (failure : Option IoError)
    (hwrites : writes <:+ s.stream.writes) :
    Sent s { s with stream := { s.stream with writes := writes, failure := failure } } [] :=
  ⟨rfl, rfl, rfl, rfl, ⟨rfl, hwrites⟩, [], by simp, rfl⟩

theorem Sent.refl (s : PopStream) : Sent s s [] := .ofStream s s.stream.failure List.suffix_rfl

theorem Sent.received_eq {s s' : PopStream} {bytes : Bytes} (h : Sent s s' bytes) :
    received s'.history = received s.history := by
  obtain ⟨pieces, hhistory, -⟩ := h.history
  simp [hhistory, received, List.flatMap_map]

theorem Sent.trans {s s' s'' : PopStream} {xs ys : Bytes} (h : Sent s s' xs)
    (h' : Sent s' s'' ys) : Sent s s'' (xs ++ ys) := by
  obtain ⟨pieces, hhistory, hxs⟩ := h.history
  obtain ⟨pieces', hhistory', hys⟩ := h'.history
  refine ⟨h'.buffer.trans h.buffer, h'.decodeNeeds.trans h.decodeNeeds, h'.queue.trans h.queue,
    h'.reads.trans h.reads, h.after.trans h'.after, pieces ++ pieces', ?_, ?_⟩
  · simp [hhistory', hhistory]
  · simp [hxs, hys]

/-- How a write of `bytes` that started in `s` ends early: after a part of the
bytes, with the script used up, a failure of the transport, or a write that accepted
nothing. -/
def SendExit (s : PopStream) (bytes : Bytes) (x : Exit Error) (s' : PopStream) : Prop :=
  (∃ sent, sent <+: bytes ∧ Sent s s' sent) ∧
    match x with
    | .pending => s'.stream.writes = [] ∧ s'.stream.failure = s.stream.failure
    | .error e => ∃ io, e = .ofIo io ∧
      (s'.stream.failure = some io ∨
        s'.stream.failure = s.stream.failure ∧ .ready 0 ∈ s.stream.writes)
    | .panicked => False

/-- `m` writes `bytes`, unless it ends early. -/
def Sends (m : Exec Error PopStream Unit) (bytes : Bytes) : Prop :=
  ∀ s, Triple (· = s) m (fun _ s' => Sent s s' bytes ∧ s'.stream.failure = s.stream.failure)
    (SendExit s bytes)

theorem Sends.seq {m m' : Exec Error PopStream Unit} {xs ys : Bytes} (h : Sends m xs)
    (h' : Sends m' ys) : Sends (m >>= fun _ => m') (xs ++ ys) := by
  intro s
  refine Triple.bind (R := fun _ s' => Sent s s' xs ∧ s'.stream.failure = s.stream.failure)
    ((h s).consequence (fun _ hs => hs) (fun _ _ hs => hs) ?_) fun _ => ?_
  · rintro x s' ⟨⟨sent, hpre, hsent⟩, hx⟩
    exact ⟨⟨sent, hpre.trans (List.prefix_append _ _), hsent⟩, hx⟩
  · refine Triple.of_pre fun s' ⟨hsent, hfailure⟩ => (h' s').consequence (fun _ hs => hs) ?_ ?_
    · rintro _ s'' ⟨hsent', hfailure'⟩
      exact ⟨hsent.trans hsent', hfailure'.trans hfailure⟩
    · rintro x s'' ⟨⟨sent, hpre, hsent'⟩, hx⟩
      refine ⟨⟨xs ++ sent, (List.prefix_append_right_inj xs).mpr hpre, hsent.trans hsent'⟩, ?_⟩
      cases x with
      | pending => exact ⟨hx.1, hx.2.trans hfailure⟩
      | error e =>
        obtain ⟨io, he, hx⟩ := hx
        exact ⟨io, he, hx.imp_right fun hx => ⟨hx.1.trans hfailure, hsent.after.writes.mem hx.2⟩⟩
      | panicked => exact hx

/-- What any written bytes keep, a write keeps, also one that ends early. -/
theorem Sends.keeps_sent {m : Exec Error PopStream Unit} {bytes : Bytes} (hm : Sends m bytes)
    {R : PopStream → Prop} (hR : ∀ {s s' sent}, Sent s s' sent → R s → R s') :
    Triple R m (fun _ => R) fun _ => R := by
  refine .of_pre fun s hs => (hm s).consequence (fun _ h => h) ?_ ?_
  · intro _ s' ⟨hsent, _⟩
    exact hR hsent hs
  · intro x s' ⟨⟨_, _, hsent⟩, _⟩
    exact hR hsent hs

/-- The bytes `buf` of `bytes` are still to be written. -/
def Writing (s : PopStream) (bytes buf : Bytes) (s' : PopStream) : Prop :=
  ∃ sent, sent ++ buf = bytes ∧ Sent s s' sent ∧ s'.stream.failure = s.stream.failure

theorem writeTurn_triple (s : PopStream) (bytes buf : Bytes) (n : Nat) :
    Triple (fun s' => Writing s bytes buf s' ∧ s'.stream.writes.length = n)
      (writeTurn buf)
      (fun r s' => r.elim
        (fun buf' => Writing s bytes buf' s' ∧ s'.stream.writes.length < n)
        fun _ => Sent s s' bytes ∧ s'.stream.failure = s.stream.failure)
      (SendExit s bytes) := by
  rintro s' ⟨⟨sent, rfl, hsent, hfailure⟩, rfl⟩
  have hpre : sent <+: sent ++ buf := List.prefix_append _ _
  by_cases hbuf : buf = []
  · simp only [writeTurn, if_pos hbuf, pure_apply, Sum.elim_inr]
    exact ⟨by simpa [hbuf] using hsent, hfailure⟩
  have hpoll := Transport.pollWrite_cases s'.stream buf
  simp only [writeTurn, if_neg hbuf, bind_apply, onStream, zoom]
  generalize Transport.pollWrite buf s'.stream = polled at hpoll
  cases hpoll with
  | blocked hbroken hwrites =>
    exact ⟨⟨sent, hpre, hsent⟩, hwrites, hfailure⟩
  | @failed e writes hwhy hwrites =>
    exact ⟨⟨sent, hpre, by simpa using hsent.trans (.ofStream s' (some e) hwrites)⟩, e, rfl,
      .inl rfl⟩
  | @woken writes hbroken hwrites =>
    refine ⟨⟨sent, rfl, ?_, hfailure⟩, by simp [hwrites]⟩
    simpa using hsent.trans (.ofStream s' s'.stream.failure (hwrites ▸ List.suffix_cons _ _))
  | @ready n writes hbroken hwrites =>
    have hstep := hsent.trans (.ofStream s' s'.stream.failure (hwrites ▸ List.suffix_cons _ writes))
    cases hn : min n buf.length with
    | zero =>
      have hlen := List.length_pos_iff.mpr hbuf
      obtain rfl : n = 0 := by omega
      have hmem : .ready 0 ∈ s.stream.writes := hsent.after.writes.mem (hwrites ▸ List.mem_cons_self)
      exact ⟨⟨sent, hpre, by simpa using hstep⟩, _, rfl, .inr ⟨hfailure, hmem⟩⟩
    | succ k =>
      simp only [record, bind_apply, modify_apply, pure_apply, Sum.elim_inl]
      refine ⟨⟨sent ++ buf.take (k + 1), by simp, ?_, hfailure⟩, by simp [hwrites]⟩
      have hpiece : Sent { s' with stream := { s'.stream with writes := writes } }
          { s' with
            stream := { s'.stream with writes := writes }
            history := s'.history ++ [.sent (buf.take (k + 1))] } (buf.take (k + 1)) :=
        ⟨rfl, rfl, rfl, rfl, ⟨rfl, List.suffix_rfl⟩, [buf.take (k + 1)], rfl, by simp⟩
      simpa using hstep.trans hpiece

theorem writeAll_sends (bytes : Bytes) : Sends (writeAll bytes) bytes := by
  rintro _ _ rfl
  simp only [writeAll, bind_apply, get_apply]
  refine (Triple.loop_of_decreases (fun _ s' => s'.stream.writes.length)
    (writeTurn_triple _ bytes) _ bytes) _ ?_
  exact ⟨⟨[], rfl, .refl _, rfl⟩, Nat.lt_succ_self _⟩

theorem flushTurn_triple (s : PopStream) (n : Nat) :
    Triple (fun s' => Writing s [] [] s' ∧ s'.stream.writes.length = n)
      (flushTurn ())
      (fun r s' => r.elim (fun _ => Writing s [] [] s' ∧ s'.stream.writes.length < n)
        fun _ => Sent s s' [] ∧ s'.stream.failure = s.stream.failure)
      (SendExit s []) := by
  rintro s' ⟨⟨sent, hnil, hsent, hfailure⟩, rfl⟩
  obtain rfl : sent = [] := by simpa using hnil
  have hpoll := Transport.pollWrite_cases s'.stream []
  simp only [flushTurn, bind_apply, onStream, zoom]
  generalize Transport.pollWrite [] s'.stream = polled at hpoll
  cases hpoll with
  | blocked hbroken hwrites =>
    exact ⟨⟨[], List.prefix_rfl, hsent⟩, hwrites, hfailure⟩
  | @failed e writes hwhy hwrites =>
    exact ⟨⟨[], List.prefix_rfl, hsent.trans (.ofStream s' (some e) hwrites)⟩, e, rfl, .inl rfl⟩
  | @woken writes hbroken hwrites =>
    refine ⟨⟨[], rfl, ?_, hfailure⟩, by simp [hwrites]⟩
    exact hsent.trans (.ofStream s' s'.stream.failure (hwrites ▸ List.suffix_cons _ _))
  | @ready n writes hbroken hwrites =>
    exact ⟨hsent.trans (.ofStream s' s'.stream.failure (hwrites ▸ List.suffix_cons _ _)), hfailure⟩

theorem flush_sends : Sends flush [] := by
  rintro _ _ rfl
  simp only [flush, bind_apply, get_apply]
  refine (Triple.loop_of_decreases (I := fun _ => Writing _ [] [])
    (fun _ s' => s'.stream.writes.length) (fun _ => flushTurn_triple _) _ ()) _ ?_
  exact ⟨⟨[], rfl, .refl _, rfl⟩, Nat.lt_succ_self _⟩

theorem sendBytes_sends (buf : Bytes) : Sends (sendBytes buf) (buf ++ endOfLine) := by
  have h := (writeAll_sends buf).seq ((writeAll_sends endOfLine).seq flush_sends)
  rwa [List.append_nil] at h

theorem encode_sends [Host] (request : Request) :
    Sends (encode request) (request.display ++ endOfLine) := sendBytes_sends _

theorem writeAll_nil (s : PopStream) : writeAll [] s = .ok () s := by
  simp [writeAll, loop, writeTurn]

theorem writeAll_broken {s : PopStream} {e : IoError} (h : s.stream.broken = some e) {buf : Bytes}
    (hbuf : buf ≠ []) : writeAll buf s = .error (.error (.ofIo e)) s := by
  simp [writeAll, loop, writeTurn, hbuf, onStream, zoom, Transport.pollWrite_broken h]

/-- Nothing more is sent after a failure that lasts. -/
theorem sendBytes_broken {s : PopStream} {e : IoError} (h : s.stream.broken = some e)
    (buf : Bytes) : sendBytes buf s = .error (.error (.ofIo e)) s := by
  by_cases hbuf : buf = []
  · simp [sendBytes, hbuf, writeAll_nil, writeAll_broken h (show endOfLine ≠ [] by nofun)]
  · simp [sendBytes, writeAll_broken h hbuf]

theorem writeAll_blocked {s : PopStream} (hbroken : s.stream.broken = none)
    (hwrites : s.stream.writes = []) {buf : Bytes} (hbuf : buf ≠ []) :
    writeAll buf s = .error .pending s := by
  simp [writeAll, loop, writeTurn, hbuf, onStream, zoom, Transport.pollWrite, hbroken, hwrites]

theorem sendBytes_blocked {s : PopStream} (hbroken : s.stream.broken = none)
    (hwrites : s.stream.writes = []) (buf : Bytes) : sendBytes buf s = .error .pending s := by
  have hblocked {buf : Bytes} (hbuf : buf ≠ []) := writeAll_blocked hbroken hwrites hbuf
  by_cases hbuf : buf = []
  · simp [sendBytes, hbuf, writeAll_nil, hblocked (show endOfLine ≠ [] by nofun)]
  · simp [sendBytes, hblocked hbuf]

theorem writeTurn_nil (s : PopStream) : writeTurn [] s = .ok (.inr ()) s := rfl

/-- A write that is taken whole. -/
theorem writeAll_ready {s : PopStream} {buf : Bytes} {writes : List WriteEvent}
    (hbroken : s.stream.broken = none) (hwrites : s.stream.writes = .ready buf.length :: writes)
    (hbuf : buf ≠ []) :
    writeAll buf s = .ok () { s with
      stream := { s.stream with writes := writes }, history := s.history ++ [.sent buf] } := by
  obtain ⟨n, hn⟩ := Nat.exists_eq_succ_of_ne_zero (mt List.length_eq_zero_iff.mp hbuf)
  have htake : buf.take (n + 1) = buf := List.take_of_length_le (Nat.le_of_eq hn)
  have hturn : writeTurn buf s = .ok (.inl []) { s with
      stream := { s.stream with writes := writes }, history := s.history ++ [.sent buf] } := by
    simp [writeTurn, hbuf, onStream, zoom, Transport.pollWrite, hbroken, hwrites, hn, record, htake]
  simp [writeAll, loop_succ, hturn, hwrites, writeTurn_nil]

theorem flush_ready {s : PopStream} {n : Nat} {writes : List WriteEvent}
    (hbroken : s.stream.broken = none) (hwrites : s.stream.writes = .ready n :: writes) :
    flush s = .ok () { s with stream := { s.stream with writes := writes } } := by
  simp [flush, loop_succ, flushTurn, onStream, zoom, Transport.pollWrite, hbroken, hwrites]

/-- The polls of a line that is taken whole. -/
def takingLine (text : Bytes) : List WriteEvent :=
  [.ready text.length, .ready endOfLine.length, .ready 0]

theorem sendBytes_ready {s : PopStream} {buf : Bytes} {n : Nat} (hbroken : s.stream.broken = none)
    (hwrites : s.stream.writes = [.ready buf.length, .ready endOfLine.length, .ready n])
    (hbuf : buf ≠ []) :
    sendBytes buf s = .ok () { s with
      stream := { s.stream with writes := [] },
      history := s.history ++ [.sent buf] ++ [.sent endOfLine] } := by
  unfold sendBytes
  exact bind_eq_ok.mpr ⟨_, _, writeAll_ready hbroken hwrites hbuf, bind_eq_ok.mpr
    ⟨_, _, writeAll_ready hbroken rfl (by decide), flush_ready hbroken rfl⟩⟩

/-! ## Reading -/

/-- The room after `ensure_capacity`. -/
def ensuredRoom (bytes : Bytes) (room needs : Nat) : Nat :=
  Buffer.ensuredSize (bytes.length + room) bytes.length needs - bytes.length

theorem ensuredRoom_pos (bytes : Bytes) (room needs : Nat) : 0 < ensuredRoom bytes room needs := by
  have hgrown := Buffer.lt_ensuredSize (Nat.le_add_right bytes.length room) needs
  unfold ensuredRoom
  omega

theorem add_ensuredRoom (bytes : Bytes) (room needs : Nat) :
    bytes.length + ensuredRoom bytes room needs =
      Buffer.ensuredSize (bytes.length + room) bytes.length needs := by
  have hle := Buffer.le_ensuredSize (bytes.length + room) bytes.length needs
  unfold ensuredRoom
  omega

/-- A read moves the cursor only. -/
theorem length_after_read (bytes new : Bytes) (room needs : Nat) :
    (bytes ++ new.take (ensuredRoom bytes room needs)).length +
        (ensuredRoom bytes room needs - new.length) =
      Buffer.ensuredSize (bytes.length + room) bytes.length needs := by
  have hroom := add_ensuredRoom bytes room needs
  rw [List.length_append, List.length_take]
  omega

/-- What `receive` does on a well-formed buffer. -/
inductive Received (s : PopStream) (bytes : Bytes) (room : Nat) :
    EStateM.Result (Exit Error) PopStream Unit → Prop where
  | tooLarge
      (hsize : Buffer.maxSize < Buffer.ensuredSize (bytes.length + room) bytes.length s.decodeNeeds)
      (hgrow : room = 0 ∨ bytes.length + room < s.decodeNeeds) :
      Received s bytes room (.error (.error Buffer.tooLarge) s)
  | blocked (hbroken : s.stream.broken = none) (hreads : s.stream.reads = []) :
      Received s bytes room (.error .pending
        { s with buffer := .holding bytes (ensuredRoom bytes room s.decodeNeeds) })
  | failed {e : IoError} {reads : List ReadEvent}
      (hwhy : s.stream.broken = some e ∨ .failed e ∈ s.stream.reads) :
      Received s bytes room (.error (.error (.ofIo e))
        { s with
          buffer := .holding bytes (ensuredRoom bytes room s.decodeNeeds)
          stream := { s.stream with reads := reads, failure := some e } })
  | woken {reads : List ReadEvent} (hbroken : s.stream.broken = none)
      (hreads : s.stream.reads = .pending :: reads) :
      Received s bytes room (.ok ()
        { s with
          buffer := .holding bytes (ensuredRoom bytes room s.decodeNeeds)
          stream := { s.stream with reads := reads } })
  | ready {new : Bytes} {reads : List ReadEvent} (hbroken : s.stream.broken = none)
      (hreads : s.stream.reads = .data new :: reads) :
      Received s bytes room (.ok ()
        { s with
          buffer := .holding (bytes ++ new.take (ensuredRoom bytes room s.decodeNeeds))
            (ensuredRoom bytes room s.decodeNeeds - new.length)
          stream := { s.stream with
            reads := if new.length ≤ ensuredRoom bytes room s.decodeNeeds then reads
              else .data (new.drop (ensuredRoom bytes room s.decodeNeeds)) :: reads }
          history := s.history ++
            [.received (new.take (ensuredRoom bytes room s.decodeNeeds))] })

theorem receive_cases {s : PopStream} {bytes : Bytes} {room : Nat}
    (hbuffer : s.buffer = .holding bytes room) : Received s bytes room (receive s) := by
  obtain ⟨_, decodeNeeds, queue, stream, history⟩ := s
  subst hbuffer
  by_cases hsize : Buffer.maxSize <
      Buffer.ensuredSize (bytes.length + room) bytes.length decodeNeeds ∧
        (room = 0 ∨ bytes.length + room < decodeNeeds)
  · have hensure := Buffer.ensureCapacity_holding bytes room decodeNeeds
    rw [if_pos hsize] at hensure
    simp only [receive, bind_apply, get_apply, onBuffer, zoom, hensure]
    exact .tooLarge hsize.1 hsize.2
  · have hensure := Buffer.ensureCapacity_holding bytes room decodeNeeds
    rw [if_neg hsize] at hensure
    have hunused := Buffer.unused_holding bytes (ensuredRoom bytes room decodeNeeds)
    have hpoll := Transport.pollRead_cases stream (ensuredRoom bytes room decodeNeeds)
    simp only [receive, bind_apply, get_apply, onBuffer, onStream, zoom, hensure]
    rw [ensuredRoom] at hunused hpoll
    simp only [hunused, zeroed_length]
    generalize Transport.pollRead _ stream = polled at hpoll
    cases hpoll with
    | blocked hbroken hreads => exact .blocked hbroken hreads
    | failed hwhy => exact .failed hwhy
    | woken hbroken hreads => exact .woken hbroken hreads
    | @ready new reads hbroken hreads =>
      obtain ⟨_, mid, hfill, hmove⟩ := bind_eq_ok.mp (Buffer.fill_moveCursor bytes
        (new.take (ensuredRoom bytes room decodeNeeds)) (ensuredRoom bytes room decodeNeeds))
      have hlen : ensuredRoom bytes room decodeNeeds -
          (new.take (ensuredRoom bytes room decodeNeeds)).length =
            ensuredRoom bytes room decodeNeeds - new.length := by
        rw [List.length_take]
        omega
      rw [hlen] at hmove
      rw [ensuredRoom] at hfill hmove
      simp only [record, bind_apply, modify_apply, zoom, hfill, hmove]
      exact .ready hbroken hreads

/-! ## Decoding -/

variable [Host]

/-- The cursor position that a parser asks for. -/
def asked (cursor : Nat) : Needed → Nat
  | .size n => cursor + n
  | .unknown => 0

/-- The state while `decode` holds the buffer. -/
def taken (s : PopStream) : PopStream :=
  { s with buffer := ⟨zeroed Buffer.chunkSize, s.buffer.cursor⟩ }

def missingRequest : Error :=
  ⟨"Trying to read a response without having sent a request", .missingRequest⟩

/-- What `decode` does while it does not skip and the command `command` is at the
head of the queue. -/
inductive Decoded (s : PopStream) (command : Command) (queue : CommandQueue) :
    EStateM.Result (Exit Error) PopStream (Option Response) → Prop where
  | overrun (hlen : s.buffer.inner.length < s.buffer.cursor) :
      Decoded s command queue (.error .panicked s.taken)
  | accepted {rest : Bytes} {response : Response}
      (hparse : Parser.parse (s.buffer.inner.take s.buffer.cursor) command = .ok rest response)
      (htrace : Host.traceEnabled → Utf8.valid s.buffer.inner)
      (hrest : rest.length ≤ Buffer.chunkSize) :
      Decoded s command queue (.ok (some response)
        { s with
          buffer := .holding rest (Buffer.chunkSize - rest.length)
          queue := queue
          history := s.history ++ [.answered command response] })
  | untraceable {rest : Bytes} {response : Response}
      (hparse : Parser.parse (s.buffer.inner.take s.buffer.cursor) command = .ok rest response)
      (htrace : ¬ (Host.traceEnabled → Utf8.valid s.buffer.inner)) :
      Decoded s command queue (.error .panicked s.taken)
  | overflow {rest : Bytes} {response : Response}
      (hparse : Parser.parse (s.buffer.inner.take s.buffer.cursor) command = .ok rest response)
      (hrest : Buffer.chunkSize < rest.length) :
      Decoded s command queue (.error .panicked
        { s with buffer := ⟨zeroed Buffer.chunkSize, rest.length⟩, queue := queue })
  | incomplete {needed : Needed}
      (hparse : Parser.parse (s.buffer.inner.take s.buffer.cursor) command = .incomplete needed) :
      Decoded s command queue (.ok none { s with decodeNeeds := asked s.buffer.cursor needed })
  | rejected {e : ParseError}
      (hparse : Parser.parse (s.buffer.inner.take s.buffer.cursor) command = .error e) :
      Decoded s command queue (.error (.error (invalidResponse e)) s.taken)

theorem decode_skip {s : PopStream} (h : s.buffer.cursor < s.decodeNeeds) :
    decode s = .ok none s := by
  simp [decode, h]

theorem decode_missing {s : PopStream} (h : s.decodeNeeds ≤ s.buffer.cursor) (hq : s.queue = []) :
    decode s = .error (.error missingRequest) s := by
  obtain ⟨⟨inner, cursor⟩, decodeNeeds, queue, stream, history⟩ := s
  subst hq
  simp_all [decode, Nat.not_lt.mpr h, CommandQueue.current, onBuffer, zoom, Buffer.take,
    Buffer.returnTo, missingRequest]

theorem decode_eq {s : PopStream} (h : s.decodeNeeds ≤ s.buffer.cursor) {command : Command}
    {queue : CommandQueue} (hq : s.queue = command :: queue) :
    decode s =
      if s.buffer.inner.length < s.buffer.cursor then .error .panicked s.taken
      else match Parser.parse (s.buffer.inner.take s.buffer.cursor) command with
        | .ok rest response =>
          if Host.traceEnabled ∧ Utf8.valid s.buffer.inner = false then .error .panicked s.taken
          else if Buffer.chunkSize < rest.length then
            .error .panicked
              { s with buffer := ⟨zeroed Buffer.chunkSize, rest.length⟩, queue := queue }
          else .ok (some response)
            { s with
              buffer := .holding rest (Buffer.chunkSize - rest.length)
              queue := queue
              history := s.history ++ [.answered command response] }
        | .incomplete needed => .ok none { s with decodeNeeds := asked s.buffer.cursor needed }
        | .error e => .error (.error (invalidResponse e)) s.taken := by
  obtain ⟨⟨inner, cursor⟩, decodeNeeds, _, stream, history⟩ := s
  subst hq
  have hskip : ¬ cursor < decodeNeeds := Nat.not_lt.mpr h
  by_cases hlen : inner.length < cursor
  · simp [decode, hskip, CommandQueue.current, onBuffer, zoom, Buffer.take, sliceTo, hlen, taken]
  have hslice : (sliceTo inner cursor : Exec Error PopStream Bytes) = pure (inner.take cursor) :=
    if_neg hlen
  cases hparse : Parser.parse (inner.take cursor) command with
  | ok rest response =>
    by_cases htrace : Host.traceEnabled ∧ Utf8.valid inner = false
    · have htrace' : traceReceived inner = crash := if_pos htrace
      simp [decode, hskip, CommandQueue.current, onBuffer, zoom, Buffer.take, hslice, hparse,
        htrace', taken, htrace, hlen]
    · have htrace' : traceReceived inner = pure () := if_neg htrace
      by_cases hrest : Buffer.chunkSize < rest.length <;>
        simp only [decode, hskip, CommandQueue.current, onBuffer, zoom, Buffer.take, hslice, hparse,
          htrace', onQueue, CommandQueue.markCurrentAsDone, Buffer.resetWith_eq, hrest, record,
          htrace, hlen, bind_apply, get_apply, modify_apply, pure_apply, if_false, if_true,
          List.head?_cons] <;> simp
  | incomplete needed =>
    cases needed <;>
      simp [decode, hskip, CommandQueue.current, onBuffer, zoom, Buffer.take, hslice, hparse,
        asked, setDecodeNeeds, Buffer.returnTo, hlen]
  | error e =>
    simp [decode, hskip, CommandQueue.current, onBuffer, zoom, Buffer.take, hslice, hparse, taken,
      hlen]

theorem decode_command {s : PopStream} (h : s.decodeNeeds ≤ s.buffer.cursor) {command : Command}
    {queue : CommandQueue} (hq : s.queue = command :: queue) :
    Decoded s command queue (decode s) := by
  rw [decode_eq h hq]
  split
  · next hlen => exact .overrun hlen
  split
  · next hparse =>
    split
    · next htrace => exact .untraceable hparse (by simpa using htrace)
    · next htrace =>
      split
      · next hrest => exact .overflow hparse hrest
      · next hrest => exact .accepted hparse (by simpa using htrace) (Nat.not_lt.mp hrest)
  · next hparse => exact .incomplete hparse
  · next hparse => exact .rejected hparse

theorem decode_eq_none {s s' : PopStream} (h : decode s = .ok none s') :
    (s.buffer.cursor < s.decodeNeeds ∧ s' = s) ∨ ∃ command queue needed,
      s.queue = command :: queue ∧
      Parser.parse (s.buffer.inner.take s.buffer.cursor) command = .incomplete needed ∧
      s' = { s with decodeNeeds := asked s.buffer.cursor needed } := by
  by_cases hskip : s.buffer.cursor < s.decodeNeeds
  · rw [decode_skip hskip] at h
    cases h
    exact .inl ⟨hskip, rfl⟩
  by_cases hq : s.queue = []
  · simp [decode_missing (Nat.not_lt.mp hskip) hq] at h
  obtain ⟨command, queue, hq⟩ := List.exists_cons_of_ne_nil hq
  have hcases := decode_command (Nat.not_lt.mp hskip) hq
  rw [h] at hcases
  cases hcases with
  | incomplete hparse => exact .inr ⟨command, queue, _, hq, hparse, rfl⟩

theorem decode_eq_error {s s' : PopStream} {x : Exit Error} (h : decode s = .error x s') :
    (s.queue = [] ∧ x = .error missingRequest ∧ s' = s) ∨ ∃ command queue,
      s.queue = command :: queue ∧ s.decodeNeeds ≤ s.buffer.cursor ∧
        Decoded s command queue (.error x s') := by
  by_cases hskip : s.buffer.cursor < s.decodeNeeds
  · rw [decode_skip hskip] at h
    cases h
  by_cases hq : s.queue = []
  · rw [decode_missing (Nat.not_lt.mp hskip) hq] at h
    cases h
    exact .inl ⟨hq, rfl, rfl⟩
  obtain ⟨command, queue, hq⟩ := List.exists_cons_of_ne_nil hq
  exact .inr ⟨command, queue, hq, Nat.not_lt.mp hskip, h ▸ decode_command (Nat.not_lt.mp hskip) hq⟩

theorem decode_eq_some {s s' : PopStream} {response : Response}
    (h : decode s = .ok (some response) s') : ∃ command queue rest,
      s.queue = command :: queue ∧
      Parser.parse (s.buffer.inner.take s.buffer.cursor) command = .ok rest response ∧
      rest.length ≤ Buffer.chunkSize ∧
      s' = { s with
        buffer := .holding rest (Buffer.chunkSize - rest.length)
        queue := queue
        history := s.history ++ [.answered command response] } := by
  by_cases hskip : s.buffer.cursor < s.decodeNeeds
  · rw [decode_skip hskip] at h
    cases h
  by_cases hq : s.queue = []
  · simp [decode_missing (Nat.not_lt.mp hskip) hq] at h
  obtain ⟨command, queue, hq⟩ := List.exists_cons_of_ne_nil hq
  have hcases := decode_command (Nat.not_lt.mp hskip) hq
  rw [h] at hcases
  cases hcases with
  | accepted hparse htrace hrest => exact ⟨command, queue, _, hq, hparse, hrest, rfl⟩

end PopStream

end Pop
