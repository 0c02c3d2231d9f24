-- SUMMARY: The sizes that the buffer has between calls, whatever the calls came to.
import GetEmail.Pop.Stuck

/-!
# Allocation

A call may fail, or be dropped, and leave a buffer that no later call can use. It then
leaves a command as well. While nothing is awaited, the buffer has a size that it may
have, and the parser has not asked for more than it can hold.
-/

namespace Pop.PopStream

open Exec
open Nom (Bytes)

variable {s s' : PopStream}

/-- Some bytes are below the cursor, in a buffer that consists of whole chunks. -/
def Allocated (s : PopStream) : Prop :=
  ∃ bytes room, s.buffer = .holding bytes room ∧ Buffer.chunkSize ∣ bytes.length + room ∧
    bytes.length + room ≤ Buffer.maxSize

def Sized (s : PopStream) : Prop :=
  s.queue = [] → Allocated s ∧ s.decodeNeeds ≤ Buffer.maxSize

theorem new_sized (t : Transport) : Sized (new t) := fun _ =>
  ⟨⟨[], Buffer.chunkSize, rfl, Nat.dvd_refl _, by decide⟩, Nat.zero_le _⟩

theorem Allocated.holds (hs : Allocated s) : ∃ bytes, s.Holds bytes := by
  obtain ⟨bytes, room, hbuffer, -⟩ := hs
  exact ⟨bytes, room, hbuffer⟩

theorem Allocated.cursor_le (hs : Allocated s) : s.buffer.cursor ≤ Buffer.maxSize := by
  obtain ⟨bytes, room, hbuffer, -, hmax⟩ := hs
  rw [hbuffer, Buffer.holding_cursor]
  omega

theorem SameReader.sized (h : SameReader s s') (hs : Sized s) : Sized s' := by
  intro hqueue
  obtain ⟨⟨bytes, room, hbuffer, hsize⟩, hneeds⟩ := hs (h.queue ▸ hqueue)
  exact ⟨⟨bytes, room, h.buffer.trans hbuffer, hsize⟩, h.decodeNeeds ▸ hneeds⟩

/-! ## Reads -/

theorem receive_tooLarge {bytes : Bytes} {room : Nat} (hbuffer : s.buffer = .holding bytes room)
    (hsize : Buffer.maxSize < Buffer.ensuredSize (bytes.length + room) bytes.length s.decodeNeeds)
    (hgrow : room = 0 ∨ bytes.length + room < s.decodeNeeds) :
    receive s = .error (.error Buffer.tooLarge) s := by
  obtain ⟨_, decodeNeeds, queue, stream, history⟩ := s
  subst hbuffer
  have hensure := Buffer.ensureCapacity_holding bytes room decodeNeeds
  rw [if_pos ⟨hsize, hgrow⟩] at hensure
  simp only [receive, bind_apply, get_apply, onBuffer, zoom, hensure]

/-- After a read the buffer has the size that was asked for, and also where it waits. -/
theorem receive_stays_allocated (hs : Allocated s) :
    (∀ s', receive s = .ok () s' → Allocated s') ∧
      ∀ s', receive s = .error .pending s' → Allocated s' := by
  obtain ⟨bytes, room, hbuffer, haligned, hmax⟩ := hs
  have haligned' := Buffer.ensuredSize_aligned haligned bytes.length s.decodeNeeds
  by_cases hmax' : Buffer.ensuredSize (bytes.length + room) bytes.length s.decodeNeeds ≤
      Buffer.maxSize
  · have hcases := receive_cases hbuffer
    constructor
    · intro s' h
      rw [h] at hcases
      cases hcases with
      | woken hbroken hreads =>
        refine ⟨bytes, _, rfl, ?_⟩
        rw [add_ensuredRoom]
        exact ⟨haligned', hmax'⟩
      | @ready new reads hbroken hreads =>
        refine ⟨_, _, rfl, ?_⟩
        rw [length_after_read]
        exact ⟨haligned', hmax'⟩
    · intro s' h
      rw [h] at hcases
      cases hcases with
      | blocked hbroken hreads =>
        refine ⟨bytes, _, rfl, ?_⟩
        rw [add_ensuredRoom]
        exact ⟨haligned', hmax'⟩
  · have hlarge := Nat.not_le.mp hmax'
    have hgrow := Buffer.grows_of_lt_ensuredSize (hmax.trans_lt hlarge)
    have htoo := receive_tooLarge hbuffer hlarge (by omega)
    constructor
    · intro s' h
      rw [htoo] at h
      cases h
    · intro s' h
      rw [htoo] at h
      cases h

theorem receive_allocated (hs : Allocated s) (h : receive s = .ok () s') : Allocated s' :=
  (receive_stays_allocated hs).1 s' h

variable [Host]

theorem Decodes.allocated {t : PopStream} (ht : Decodes s t) (hs : Allocated s) : Allocated t := by
  induction ht with
  | start => exact hs
  | again _ hdecode hreceive ih =>
    refine receive_allocated ?_ hreceive
    rcases decode_eq_none hdecode with ⟨-, rfl⟩ | ⟨_, _, _, -, -, rfl⟩
    · exact ih
    · exact ih

/-! ## Commands that are left -/

theorem decode_queue (queue : CommandQueue) :
    Triple (fun s => s.queue = queue) decode
      (fun r s => match r with
        | some _ => ∃ command, queue = command :: s.queue
        | none => s.queue = queue)
      fun x s => x ≠ .panicked → s.queue = queue := by
  rintro s rfl
  cases h : decode s with
  | ok r s' =>
    cases r with
    | some response =>
      obtain ⟨command, queue, _, hqueue, -, -, rfl⟩ := decode_eq_some h
      exact ⟨command, hqueue⟩
    | none =>
      rcases decode_eq_none h with ⟨-, rfl⟩ | ⟨_, _, _, -, -, rfl⟩
      · rfl
      · rfl
  | error x s' =>
    intro hx
    rcases decode_eq_error h with ⟨-, -, rfl⟩ | ⟨command, queue, -, -, hdecoded⟩
    · rfl
    · cases hdecoded with
      | rejected => rfl
      | _ => exact absurd rfl hx

/-- Polling takes one command from the queue, or leaves all of them. -/
theorem next_queue (queue : CommandQueue) :
    Triple (fun s => s.queue = queue) next (fun _ s => ∃ command, queue = command :: s.queue)
      fun x s => x ≠ .panicked → s.queue = queue := by
  have hreading : Reading fun s => s.queue = queue :=
    ⟨fun _ _ h => h, fun _ _ h _ => h, fun _ _ h => h⟩
  have hturn : ∀ u, Triple (fun s => s.queue = queue) (readTurn u)
      (fun r s => r.elim (fun _ => s.queue = queue) fun _ => ∃ command, queue = command :: s.queue)
      fun x s => x ≠ .panicked → s.queue = queue := fun _ =>
    .bind (receive_keeps hreading) fun _ => .bind (decode_queue queue) fun response => by
      cases response <;> exact .pure fun _ h => h
  refine .bind (decode_queue queue) fun response => ?_
  cases response with
  | some response => exact .pure fun _ h => h
  | none => exact .bind (.get fun _ h => h) fun s => .loop hturn (fun _ _ h _ => h) _ _

/-! ## The invariant -/

/-- A call that was answered leaves a new buffer. It was parsed once the bytes that had
been asked for were there. -/
theorem next_sized (hs : Sized s) (hqueue : s.queue = []) (command : Command) {response : Response}
    (h : next (s.awaiting command) = .ok response s') : Sized s' := by
  intro _
  have hallocated : Allocated (s.awaiting command) := (hs hqueue).1
  obtain ⟨bytes, hholds⟩ := hallocated.holds
  have hpolls := next_polls hholds
  rw [h] at hpolls
  obtain ⟨t, ht, hends⟩ := hpolls.last
  have hcursor := (ht.allocated hallocated).cursor_le
  have hneeds : t.decodeNeeds ≤ t.buffer.cursor := by
    by_contra hskip
    have hends : decode t = .ok (some response) s' := hends
    rw [decode_skip (Nat.not_le.mp hskip)] at hends
    cases hends
  obtain ⟨_, _, rest, -, -, hrest, rfl⟩ := decode_eq_some hends
  refine ⟨⟨rest, Buffer.chunkSize - rest.length, rfl, ?_⟩, hneeds.trans hcursor⟩
  rw [Nat.add_sub_cancel' hrest]
  exact ⟨Nat.dvd_refl _, by decide⟩

theorem readResponse_sized (command : Command) :
    Keeps (· ≠ .panicked) Sized (readResponse command) := by
  intro s hs
  have hleft := next_queue (s.queue ++ [command]) (s.awaiting command) rfl
  rw [readResponse_eq]
  cases hnext : next (s.awaiting command) with
  | ok response s' =>
    rw [hnext] at hleft
    have hs' : Sized s' := by
      intro hempty
      obtain ⟨first, hfirst⟩ := hleft
      have hqueue : s.queue = [] := by simpa [hempty] using congrArg List.length hfirst
      exact next_sized hs hqueue command hnext hempty
    cases response with
    | err text => exact fun _ => hs'
    | _ => exact hs'
  | error x s' =>
    rw [hnext] at hleft
    intro hx hempty
    have hqueue := hleft hx
    rw [hempty] at hqueue
    simp at hqueue

theorem sized_keep : Connection.Keep (· ≠ .panicked) Sized :=
  ⟨fun _ => (encode_sends _).keeps_line (fun _ _ h => h.sized) _ _,
    fun _ => (sendBytes_sends _).keeps_line (fun _ _ h => h.sized) _ _, readResponse_sized⟩

end Pop.PopStream
