-- SUMMARY: On a transport without errors, a reply that fits the buffer is read or waited for.
import GetEmail.Pop.Allocation
import GetEmail.Pop.ParserAsks

/-!
# Replies that fit

Without errors of the transport a line is written or waited for. A reply is read or
waited for if the buffer can hold it, and what the parser asks for while it comes in.
-/

namespace Pop

open Exec
open Nom (Bytes Needed)

/-! ## Transports without errors -/

/-- No poll fails, and no write is refused. -/
structure Transport.Smooth (t : Transport) : Prop where
  broken : t.broken = none
  reads : ∀ e, .failed e ∉ t.reads
  writes : ∀ e, .failed e ∉ t.writes
  accepts : .ready 0 ∉ t.writes

theorem Transport.Smooth.after_writes {t : Transport} (h : t.Smooth) {writes : List WriteEvent}
    (hwrites : writes <:+ t.writes) : Smooth { t with writes := writes } :=
  ⟨h.broken, h.reads, fun e he => h.writes e (hwrites.mem he), fun he => h.accepts (hwrites.mem he)⟩

namespace PopStream

theorem pollWrite_smooth {s : PopStream} (hs : s.stream.Smooth) (buf : Bytes) :
    (∃ accepted t, Transport.pollWrite buf s.stream = .ok accepted t ∧ t.Smooth ∧
      (buf ≠ [] → accepted ≠ some 0)) ∨
      ∃ t, Transport.pollWrite buf s.stream = .error .pending t := by
  have hpoll := Transport.pollWrite_cases s.stream buf
  generalize Transport.pollWrite buf s.stream = polled at hpoll
  cases hpoll with
  | blocked hbroken hwrites => exact .inr ⟨_, rfl⟩
  | @failed e writes hwhy hwrites =>
    rcases hwhy with hwhy | hwhy
    · rw [hs.broken] at hwhy
      cases hwhy
    · exact absurd (hwhy ▸ List.mem_cons_self) (hs.writes e)
  | @woken writes hbroken hwrites =>
    exact .inl ⟨_, _, rfl, hs.after_writes (hwrites ▸ List.suffix_cons _ _), nofun⟩
  | @ready n writes hbroken hwrites =>
    refine .inl ⟨_, _, rfl, hs.after_writes (hwrites ▸ List.suffix_cons _ _), fun hbuf hzero => ?_⟩
    have hn : n ≠ 0 := by
      rintro rfl
      exact hs.accepts (hwrites ▸ List.mem_cons_self)
    have hlength := List.length_pos_iff.mpr hbuf
    have hmin : min n buf.length = 0 := Option.some.inj hzero
    omega

/-- On a smooth transport a write waits, or comes to its end. -/
theorem sendBytes_smooth (buf : Bytes) :
    Triple (fun s => s.stream.Smooth) (sendBytes buf) (fun _ s => s.stream.Smooth)
      fun x _ => x = .pending := by
  have hwrite (buf : Bytes) : Triple (fun s => s.stream.Smooth) (writeTurn buf)
      (fun _ s => s.stream.Smooth) fun x _ => x = .pending := by
    intro s hs
    by_cases hbuf : buf = []
    · simpa [writeTurn, hbuf] using hs
    simp only [writeTurn, if_neg hbuf, bind_apply, onStream, zoom]
    rcases pollWrite_smooth hs buf with ⟨accepted, t, hpoll, ht, hzero⟩ | ⟨t, hpoll⟩
    · rw [hpoll]
      rcases accepted with _ | _ | n
      · exact ht
      · exact absurd rfl (hzero hbuf)
      · exact ht
    · rw [hpoll]
  have hflush (u : Unit) : Triple (fun s => s.stream.Smooth) (flushTurn u)
      (fun _ s => s.stream.Smooth) fun x _ => x = .pending := by
    intro s hs
    simp only [flushTurn, bind_apply, onStream, zoom]
    rcases pollWrite_smooth hs [] with ⟨accepted, t, hpoll, ht, -⟩ | ⟨t, hpoll⟩
    · rw [hpoll]
      cases accepted <;> exact ht
    · rw [hpoll]
  have hwriteAll (buf : Bytes) : Triple (fun s => s.stream.Smooth) (writeAll buf)
      (fun _ s => s.stream.Smooth) fun x _ => x = .pending :=
    .bind (.get fun _ h => h) fun s => .loop (I := fun _ s => s.stream.Smooth)
      (fun buf => (hwrite buf).consequence (fun _ h => h) (fun r _ h => by cases r <;> exact h)
        fun _ _ h => h) (fun _ _ _ => rfl) _ _
  have hflushAll : Triple (fun s => s.stream.Smooth) flush (fun _ s => s.stream.Smooth)
      fun x _ => x = .pending :=
    .bind (.get fun _ h => h) fun s => .loop (I := fun _ s => s.stream.Smooth)
      (fun u => (hflush u).consequence (fun _ h => h) (fun r _ h => by cases r <;> exact h)
        fun _ _ h => h) (fun _ _ _ => rfl) _ _
  exact .bind (hwriteAll buf) fun _ => .bind (hwriteAll endOfLine) fun _ => hflushAll

/-! ## Reading a reply that fits -/

end PopStream

variable [Host]

/-- The reply, and what the parser asks for while it comes in, fits the buffer. -/
def Fits (command : Command) (reply : Bytes) : Prop :=
  reply.length ≤ Buffer.maxSize ∧ ∀ x, x <+: reply → x ≠ reply → ∀ needed,
    Parser.parse x command = .incomplete needed → PopStream.asked x.length needed ≤ Buffer.maxSize

/-- The parser asks for a few bytes at most. -/
theorem fits_of_length {reply : Bytes} (h : reply.length + Parser.longest ≤ Buffer.maxSize + 1)
    (command : Command) : Fits command reply := by
  have hlongest : 0 < Parser.longest := by decide
  refine ⟨by omega, fun x hx hne needed hparse => ?_⟩
  cases needed with
  | unknown => exact Nat.zero_le _
  | size n =>
    have hasks : n ≤ Parser.longest := Parser.parse_asks command hparse
    have hlength := lt_of_le_of_ne hx.length_le fun heq => hne (hx.eq_of_length heq)
    rw [PopStream.asked]
    omega

namespace PopStream

omit [Host] in
/-- A smooth stream that holds `bytes`, and whose buffer has the room that it waits for. -/
structure Ready (s : PopStream) (bytes : Bytes) : Prop where
  smooth : s.stream.Smooth
  needs : s.decodeNeeds ≤ Buffer.maxSize
  buffer : ∃ room, s.buffer = .holding bytes room ∧ Buffer.chunkSize ∣ bytes.length + room ∧
    bytes.length + room ≤ Buffer.maxSize

omit [Host] in
theorem Ready.holds {s : PopStream} {bytes : Bytes} (h : s.Ready bytes) : s.Holds bytes := by
  obtain ⟨room, hbuffer, -⟩ := h.buffer
  exact ⟨room, hbuffer⟩

omit [Host] in
/-- A buffer that is not full takes what comes in. -/
theorem Ready.receive {s : PopStream} {bytes : Bytes} (h : s.Ready bytes)
    (hroom : bytes.length < Buffer.maxSize) :
    (∃ s' new, receive s = .ok () s' ∧ s'.Ready (bytes ++ new)) ∨
      ∃ s', receive s = .error .pending s' := by
  obtain ⟨room, hbuffer, haligned, hbounded⟩ := h.buffer
  have hsize := Buffer.ensuredSize_le_maxSize haligned hbounded hroom h.needs
  have haligned' := Buffer.ensuredSize_aligned haligned bytes.length s.decodeNeeds
  have hcases := receive_cases hbuffer
  generalize PopStream.receive s = r at hcases
  cases hcases with
  | tooLarge htoo hgrow => exact absurd hsize (Nat.not_le.mpr htoo)
  | blocked hbroken hreads => exact .inr ⟨_, rfl⟩
  | @failed e reads hwhy =>
    rcases hwhy with hwhy | hwhy
    · rw [h.smooth.broken] at hwhy
      cases hwhy
    · exact absurd hwhy (h.smooth.reads e)
  | @woken reads hbroken hreads =>
    refine .inl ⟨_, [], rfl, ⟨⟨h.smooth.broken, fun e he => ?_, h.smooth.writes, h.smooth.accepts⟩,
      h.needs, ensuredRoom bytes room s.decodeNeeds, by rw [List.append_nil], ?_⟩⟩
    · exact h.smooth.reads e (hreads ▸ List.mem_cons_of_mem _ he)
    · rw [List.append_nil, add_ensuredRoom]
      exact ⟨haligned', hsize⟩
  | @ready new reads hbroken hreads =>
    refine .inl ⟨_, _, rfl, ⟨⟨h.smooth.broken, fun e he => ?_, h.smooth.writes, h.smooth.accepts⟩,
      h.needs, _, rfl, ?_⟩⟩
    · have hmem : .failed e ∈ reads := by
        dsimp only at he
        split at he
        · exact he
        · exact (List.mem_cons.mp he).resolve_left nofun
      exact h.smooth.reads e (hreads ▸ List.mem_cons_of_mem _ hmem)
    · rw [length_after_read]
      exact ⟨haligned', hsize⟩

/-- While the reply is not there in full, the buffer is not full, and does not wait for
more than it may take. -/
theorem Ready.decode_none {command : Command} {reply tail : Bytes} {response : Response}
    (hreply : Parser.parse reply command = .ok [] response) (hfits : Fits command reply)
    {s s' : PopStream} {bytes : Bytes} (h : s.Ready bytes) (hqueue : s.queue = [command])
    (hbytes : bytes <+: reply ++ tail) (hdecode : decode s = .ok none s') :
    s'.Ready bytes ∧ s'.queue = [command] ∧ bytes.length < Buffer.maxSize := by
  have hcursor := h.holds.cursor
  rcases decode_eq_none hdecode with ⟨hskip, rfl⟩ | ⟨command', queue, needed, hq, hparse, rfl⟩
  · exact ⟨h, hqueue, hcursor ▸ hskip.trans_le h.needs⟩
  obtain ⟨rfl, rfl⟩ : command = command' ∧ [] = queue := by simpa [hqueue] using hq
  rw [h.holds.take] at hparse
  rcases Parser.parse_within hreply hbytes with ⟨hle, hne, -⟩ | ⟨more, hok⟩
  · have hlt : bytes.length < reply.length :=
      lt_of_le_of_ne hle.length_le fun heq => hne (hle.eq_of_length heq)
    refine ⟨⟨h.smooth, ?_, h.buffer⟩, hqueue, hlt.trans_le hfits.1⟩
    exact hcursor ▸ hfits.2 bytes hle hne needed hparse
  · rw [hok] at hparse
    cases hparse

/-- A part of the reply is not rejected, nor what follows it. -/
theorem Ready.decode_error {command : Command} {reply tail : Bytes} {response : Response}
    (hreply : Parser.parse reply command = .ok [] response)
    {s s' : PopStream} {bytes : Bytes} (h : s.Ready bytes) (hqueue : s.queue = [command])
    (hbytes : bytes <+: reply ++ tail) {e : Error} : decode s ≠ .error (.error e) s' := by
  intro hdecode
  rcases decode_eq_error hdecode with ⟨hempty, -⟩ | ⟨command', queue, hq, -, hdecoded⟩
  · rw [hempty] at hqueue
    cases hqueue
  obtain ⟨rfl, rfl⟩ : command = command' ∧ [] = queue := by simpa [hqueue] using hq
  cases hdecoded with
  | rejected hparse =>
    rw [h.holds.take] at hparse
    rcases Parser.parse_within hreply hbytes with ⟨-, -, needed, hpart⟩ | ⟨more, hok⟩
    · rw [hpart] at hparse
      cases hparse
    · rw [hok] at hparse
      cases hparse

theorem decode_error_history {s s' : PopStream} {x : Exit Error} (h : decode s = .error x s') :
    s'.history = s.history := by
  rcases decode_eq_error h with ⟨-, -, rfl⟩ | ⟨command, queue, -, -, hdecoded⟩
  · rfl
  · cases hdecoded <;> rfl

theorem Ends.history {t s' : PopStream} {bytes : Bytes} {x : Exit Error} (ht : t.Holds bytes)
    (h : Ends t (.error x s')) : s'.history = t.history := by
  rcases h with hdecode | ⟨t', hdecode, hreceive⟩
  · exact decode_error_history hdecode
  · obtain ⟨hholds, -, -, hhistory⟩ := decode_none_holds ht hdecode
    exact (receive_error_holds hholds hreceive).2.2.1.trans hhistory

/-- Polling does not end with an error while the reply comes in. -/
theorem Ready.not_ends_error {command : Command} {reply tail : Bytes} {response : Response}
    (hreply : Parser.parse reply command = .ok [] response) (hfits : Fits command reply)
    {t s' : PopStream} {bytes : Bytes} (h : t.Ready bytes) (hqueue : t.queue = [command])
    (hbytes : bytes <+: reply ++ tail) {e : Error} : ¬ Ends t (.error (.error e) s') := by
  rintro (hdecode | ⟨t', hdecode, hreceive⟩)
  · exact h.decode_error hreply hqueue hbytes hdecode
  · obtain ⟨hready, -, hroom⟩ := h.decode_none hreply hfits hqueue hbytes hdecode
    rcases hready.receive hroom with ⟨s'', new, hok, -⟩ | ⟨s'', hpending⟩
    · rw [hreceive] at hok
      cases hok
    · rw [hreceive] at hpending
      cases hpending

/-- So the stream stays ready for it. -/
theorem Ready.decodes {command : Command} {reply tail : Bytes} {response : Response}
    (hreply : Parser.parse reply command = .ok [] response) (hfits : Fits command reply)
    {s t : PopStream} {bytes : Bytes} (h : s.Ready bytes) (hqueue : s.queue = [command])
    (ht : Decodes s t) (hin : ∀ bytes', t.Holds bytes' → bytes' <+: reply ++ tail) :
    ∃ bytes', t.Ready bytes' ∧ t.queue = [command] := by
  induction ht with
  | start => exact ⟨bytes, h, hqueue⟩
  | @again t t' t'' _ hdecode hreceive ih =>
    have hbefore : ∀ bytes', t.Holds bytes' → bytes' <+: reply ++ tail := by
      intro bytes' hbytes'
      obtain ⟨hholds, -⟩ := decode_none_holds hbytes' hdecode
      obtain ⟨⟨new, hnew, -⟩, -⟩ := receive_holds hholds hreceive
      exact (List.prefix_append _ _).trans (hin _ hnew)
    obtain ⟨bytes', hready, hq⟩ := ih hbefore
    obtain ⟨hready', hq', hroom⟩ :=
      hready.decode_none hreply hfits hq (hbefore _ hready.holds) hdecode
    rcases hready'.receive hroom with ⟨s', new, hok, hready''⟩ | ⟨s', hpending⟩
    · rw [hreceive] at hok
      cases hok
      exact ⟨_, hready'', (receive_holds hready'.holds hreceive).2.1.trans hq'⟩
    · rw [hreceive] at hpending
      cases hpending

end PopStream

end Pop
