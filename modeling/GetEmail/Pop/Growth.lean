-- SUMMARY: The growth of the receive buffer, on machine words and at the size limit.
import GetEmail.Exec.Word
import GetEmail.Pop.Allocation
import GetEmail.Pop.Operations
import GetEmail.Pop.ParserAsks

/-!
# Buffer growth

The sizes of a buffer are `usize` values. `ensure_capacity` and `grow` are given here with
the arithmetic of machine words. It is exact on every buffer that a stream has.
-/

namespace Pop

open Exec
open Nom (Bytes)

namespace Buffer

/-! ## Arithmetic on `usize` -/

namespace Usize

/-- `usize::BITS` on a 64-bit target -/
def bits : Nat := 64

/-- `BytesMut::resize` with zeroes -/
def resize (bytes : Bytes) (n : Nat) : Bytes := bytes.take n ++ zeroed (n - bytes.length)

/-- `new_size` of `grow` -/
def newSize (overflow : Overflow) (minSize : Nat) : Exec Error Buffer Nat :=
  match minSize % chunkSize with
  | 0 => pure minSize
  | n => do overflow.add bits minSize (← overflow.sub bits chunkSize n)

def grow (overflow : Overflow) (amount : Nat) : Exec Error Buffer Unit := do
  let b ← get
  let minSize ← overflow.add bits b.inner.length amount
  let newSize ← newSize overflow minSize
  if newSize > maxSize then
    fail ⟨"The servers response is larger than the maximum allowed size", .responseTooLarge⟩
  else
    modify fun b => { b with inner := resize b.inner newSize }

def ensureCapacity (overflow : Overflow) (toEnsure : Nat) : Exec Error Buffer Unit := do
  let b ← get
  let freeBytes ← overflow.sub bits b.inner.length b.cursor
  -- `saturating_sub` does not overflow
  let extraBytesNeeded := toEnsure - b.inner.length
  if freeBytes = 0 ∨ 0 < extraBytesNeeded then
    grow overflow (max chunkSize extraBytesNeeded)

theorem resize_widen {b : Buffer} {size : Nat} (h : b.inner.length ≤ size) :
    { b with inner := resize b.inner size } = b.widen size := by
  rw [resize, List.take_of_length_le h, widen]

/-- Rounding up is exact when a word has room for one more chunk. -/
theorem newSize_eq (overflow : Overflow) {n : Nat} (h : n + chunkSize ≤ 2 ^ bits) :
    newSize overflow n = pure (roundUp n) := by
  have hchunk : chunkSize < 2 ^ bits := by decide
  have hlt : n % chunkSize < chunkSize := Nat.mod_lt _ (by decide)
  unfold newSize roundUp
  cases hn : n % chunkSize with
  | zero => rfl
  | succ k =>
    have hk : k + 1 ≤ chunkSize := hn ▸ hlt.le
    simp only [Overflow.sub_of_le overflow hchunk hk, pure_bind]
    exact Overflow.add_of_lt overflow (by omega)

theorem grow_exact (overflow : Overflow) {b : Buffer} {amount : Nat}
    (h : b.inner.length + amount + chunkSize ≤ 2 ^ bits) :
    grow overflow amount b = Buffer.grow amount b := by
  have hchunk : 0 < chunkSize := by decide
  have hround := (roundUp_spec (b.inner.length + amount)).1
  have hadd : overflow.add bits b.inner.length amount =
      (pure (b.inner.length + amount) : Exec Error Buffer Nat) :=
    Overflow.add_of_lt overflow (by omega)
  rw [grow_eq]
  simp only [grow, bind_apply, get_apply, hadd, newSize_eq overflow h, pure_apply, if_apply,
    fail_apply, modify_apply]
  rw [resize_widen (by omega)]
  rfl

end Usize

/-! ## Sizes -/

/-- The cursor is in the buffer, which consists of whole chunks. -/
structure WellSized (b : Buffer) : Prop where
  cursor_le : b.cursor ≤ b.inner.length
  aligned : chunkSize ∣ b.inner.length
  bounded : b.inner.length ≤ maxSize

/-- A buffer without room. -/
theorem full_wellSized {n : Nat} (haligned : chunkSize ∣ n) (hmax : n ≤ maxSize) :
    WellSized ⟨zeroed n, n⟩ :=
  ⟨(zeroed_length n).ge, by simpa only [zeroed_length], by simpa only [zeroed_length]⟩

variable {b : Buffer} {toEnsure : Nat}

/-- No operation on sizes leaves the word. -/
theorem Usize.ensureCapacity_eq (overflow : Overflow) (hb : b.WellSized) (h : toEnsure < 2 ^ 63) :
    Usize.ensureCapacity overflow toEnsure b = Buffer.ensureCapacity toEnsure b := by
  have hmax : b.inner.length ≤ 20971520 := hb.bounded
  have hbits : (2 : Nat) ^ 63 + 2 ^ 63 = 2 ^ Usize.bits := by decide
  have hlimit : 20971520 + 2048 + chunkSize ≤ (2 : Nat) ^ 63 := by decide
  have hchunk : chunkSize = 2048 := rfl
  have hfree : overflow.sub Usize.bits b.inner.length b.cursor =
      (pure (b.inner.length - b.cursor) : Exec Error Buffer Nat) :=
    Overflow.sub_of_le overflow (by omega) hb.cursor_le
  have hgrow : Usize.grow overflow (max chunkSize (toEnsure - b.inner.length)) b =
      Buffer.grow (max chunkSize (toEnsure - b.inner.length)) b :=
    Usize.grow_exact overflow (by omega)
  rw [Buffer.ensureCapacity_eq, if_neg (Nat.not_lt.mpr hb.cursor_le)]
  simp only [Usize.ensureCapacity, bind_apply, get_apply, hfree, pure_apply, if_apply, hgrow]

/-- What `ensure_capacity` returns a buffer with. -/
structure Ensured (toEnsure : Nat) (b b' : Buffer) : Prop where
  aligned : chunkSize ∣ b'.inner.length
  bounded : b'.inner.length ≤ maxSize
  ensured : toEnsure ≤ b'.inner.length
  room : b'.cursor < b'.inner.length
  /-- The next read is offered some bytes. -/
  offered : ∃ slice, unused b' = .ok slice b' ∧ slice ≠ []
  cursor : b'.cursor = b.cursor
  kept : b'.inner.take b'.cursor = b.inner.take b.cursor

theorem unused_of_room (h : b.cursor < b.inner.length) :
    ∃ slice, unused b = .ok slice b ∧ slice ≠ [] := by
  refine ⟨b.inner.drop b.cursor, ?_, fun hnil => ?_⟩
  · simp only [unused, sliceFrom, bind_apply, get_apply, if_apply, pure_apply]
    rw [if_neg (Nat.not_lt.mpr h.le)]
  · exact absurd (List.drop_eq_nil_iff.mp hnil) (Nat.not_le.mpr h)

theorem widen_ensured (hb : b.WellSized)
    (h : ensuredSize b.inner.length b.cursor toEnsure ≤ maxSize) :
    Ensured toEnsure b (b.widen (ensuredSize b.inner.length b.cursor toEnsure)) := by
  have hlength := widen_length (le_ensuredSize b.inner.length b.cursor toEnsure)
  have hroom : b.cursor < (b.widen (ensuredSize b.inner.length b.cursor toEnsure)).inner.length :=
    (lt_ensuredSize hb.cursor_le toEnsure).trans_eq hlength.symm
  exact {
    aligned := by
      rw [hlength]
      exact ensuredSize_aligned hb.aligned b.cursor toEnsure
    bounded := hlength.trans_le h
    ensured := (le_of_ensuredSize _ b.cursor toEnsure).trans_eq hlength.symm
    room := hroom
    offered := unused_of_room hroom
    cursor := rfl
    kept := List.take_append_of_le_length hb.cursor_le }

theorem ensureCapacity_wellSized (hb : b.WellSized) (toEnsure : Nat) :
    ensureCapacity toEnsure b =
      if max toEnsure (b.cursor + 1) ≤ maxSize then
        .ok () (b.widen (ensuredSize b.inner.length b.cursor toEnsure))
      else .error (.error tooLarge) b := by
  have hfits : ensuredSize b.inner.length b.cursor toEnsure ≤ maxSize ↔
      max toEnsure (b.cursor + 1) ≤ maxSize :=
    ensuredSize_le_maxSize_iff hb.cursor_le hb.aligned hb.bounded
  rw [ensureCapacity_of_le hb.cursor_le]
  by_cases h : ensuredSize b.inner.length b.cursor toEnsure ≤ maxSize
  · rw [if_neg (fun hlarge => absurd h (Nat.not_le.mpr hlarge.1)), if_pos (hfits.mp h)]
  · have hlarge := Nat.not_le.mp h
    have hgrow := grows_of_lt_ensuredSize (hb.bounded.trans_lt hlarge)
    rw [if_pos ⟨hlarge, hgrow.imp_left hb.cursor_le.antisymm'⟩, if_neg (mt hfits.mpr h)]

/-- The outcome `r` of `ensure_capacity(to_ensure)` is exact and loses nothing. -/
structure Exact (toEnsure : Nat) (b : Buffer) (r : EStateM.Result (Exit Error) Buffer Unit) :
    Prop where
  ok_iff : (∃ b', r = .ok () b') ↔ max toEnsure (b.cursor + 1) ≤ maxSize
  ensured : ∀ b', r = .ok () b' → Ensured toEnsure b b'
  unchanged : ∀ x b', r = .error x b' → x = .error tooLarge ∧ b' = b

/-- On machine words, `ensure_capacity` returns what it returns on numbers: nothing over-
or underflows, in either build. -/
theorem ensureCapacity_exact (overflow : Overflow) {b : Buffer} (hb : b.WellSized) {toEnsure : Nat}
    (h : toEnsure < 2 ^ 63) :
    Usize.ensureCapacity overflow toEnsure b = ensureCapacity toEnsure b ∧
      Exact toEnsure b (Usize.ensureCapacity overflow toEnsure b) := by
  have heq := Usize.ensureCapacity_eq overflow hb h
  refine ⟨heq, ?_⟩
  rw [heq, ensureCapacity_wellSized hb]
  by_cases hfits : max toEnsure (b.cursor + 1) ≤ maxSize
  · rw [if_pos hfits]
    have hsize := (ensuredSize_le_maxSize_iff hb.cursor_le hb.aligned hb.bounded).mpr hfits
    refine ⟨⟨fun _ => hfits, fun _ => ⟨_, rfl⟩⟩, ?_, nofun⟩
    rintro _ ⟨⟩
    exact widen_ensured hb hsize
  · rw [if_neg hfits]
    refine ⟨⟨nofun, fun h => absurd h hfits⟩, nofun, ?_⟩
    rintro _ _ ⟨⟩
    exact ⟨rfl, rfl⟩

/-- A full buffer grows for 5000 bytes, and not when it has reached the limit. -/
theorem ensureCapacity_exact_full :
    let b : Buffer := ⟨zeroed chunkSize, chunkSize⟩
    let largest : Buffer := ⟨zeroed maxSize, maxSize⟩
    b.WellSized ∧ 5000 < 2 ^ 63 ∧ largest.WellSized ∧
      (∃ b', Usize.ensureCapacity .panics 5000 b = .ok () b' ∧ Ensured 5000 b b') ∧
      Usize.ensureCapacity .wraps 0 largest = .error (.error tooLarge) largest := by
  intro b largest
  have hb : b.WellSized := full_wellSized (Nat.dvd_refl _) (by decide)
  have hlargest : largest.WellSized := full_wellSized chunkSize_dvd_maxSize (Nat.le_refl _)
  have hfits : max 5000 (b.cursor + 1) ≤ maxSize := by decide
  have hover : ¬ max 0 (largest.cursor + 1) ≤ maxSize := by decide
  obtain ⟨-, hgrown⟩ := ensureCapacity_exact .panics hb (show 5000 < 2 ^ 63 by decide)
  obtain ⟨-, hrefused⟩ := ensureCapacity_exact .wraps hlargest (show 0 < 2 ^ 63 by decide)
  refine ⟨hb, by decide, hlargest, ?_, ?_⟩
  · obtain ⟨b', hok⟩ := hgrown.ok_iff.mpr hfits
    exact ⟨b', hok, hgrown.ensured b' hok⟩
  · cases hr : Usize.ensureCapacity .wraps 0 largest with
    | ok u b' => exact absurd (hrefused.ok_iff.mp ⟨b', hr⟩) hover
    | error x b' =>
      obtain ⟨rfl, rfl⟩ := hrefused.unchanged x b' hr
      rfl

end Buffer

/-! ## The buffer of a stream -/

namespace PopStream

variable {s s' t t' : PopStream}

theorem Allocated.wellSized (hs : Allocated s) : s.buffer.WellSized := by
  obtain ⟨bytes, room, hbuffer, haligned, hmax⟩ := hs
  rw [hbuffer]
  refine ⟨?_, ?_, ?_⟩ <;> rw [Buffer.holding_inner_length]
  · exact Nat.le_add_right _ _
  · exact haligned
  · exact hmax

variable [Host]

/-- What the parser misses is asked for beyond the cursor. -/
theorem decode_none_needs {limit : Nat} (h : decode s = .ok none s')
    (hcursor : s.buffer.cursor + Parser.longest ≤ limit) (hneeds : s.decodeNeeds ≤ limit) :
    s'.buffer = s.buffer ∧ s'.decodeNeeds ≤ limit := by
  rcases decode_eq_none h with ⟨-, rfl⟩ | ⟨command, _, needed, -, hparse, rfl⟩
  · exact ⟨rfl, hneeds⟩
  · cases needed with
    | unknown => exact ⟨rfl, Nat.zero_le _⟩
    | size n =>
      have hasks : n ≤ Parser.longest := Parser.parse_asks command hparse
      exact ⟨rfl, (Nat.add_le_add_left hasks _).trans hcursor⟩

omit [Host] in
theorem receive_needs (hs : Allocated s) (h : receive s = .ok () s') :
    s'.decodeNeeds = s.decodeNeeds := by
  obtain ⟨_, _, hbuffer, -⟩ := hs
  have hcases := receive_cases hbuffer
  rw [h] at hcases
  cases hcases <;> rfl

/-- Whatever comes in, the stream asks for few bytes more than a buffer holds. -/
theorem Decodes.needs (ht : Decodes s t) (hs : Allocated s)
    (hneeds : s.decodeNeeds ≤ Buffer.maxSize + Parser.longest) :
    t.decodeNeeds ≤ Buffer.maxSize + Parser.longest := by
  induction ht with
  | start => exact hneeds
  | @again t t' t'' ht hdecode hreceive ih =>
    have hcursor := (ht.allocated hs).cursor_le
    obtain ⟨hbuffer, hneeds'⟩ := decode_none_needs hdecode (Nat.add_le_add_right hcursor _) ih
    have hallocated : Allocated t' := by
      unfold Allocated
      rw [hbuffer]
      exact ht.allocated hs
    exact (receive_needs hallocated hreceive).trans_le hneeds'

/-- Sizes stay in a word, whenever the stream is about to read. -/
theorem Decodes.ensureCapacity_eq (overflow : Overflow) (ht : Decodes s t) (hs : Allocated s)
    (hneeds : s.decodeNeeds ≤ Buffer.maxSize) (hdecode : decode t = .ok none t') :
    Buffer.Usize.ensureCapacity overflow t'.decodeNeeds t'.buffer =
      Buffer.ensureCapacity t'.decodeNeeds t'.buffer := by
  have hlimit : Buffer.maxSize + Parser.longest < 2 ^ 63 := by decide
  have hcursor := (ht.allocated hs).cursor_le
  obtain ⟨hbuffer, hneeds'⟩ := decode_none_needs hdecode (Nat.add_le_add_right hcursor _)
    (ht.needs hs (hneeds.trans (Nat.le_add_right _ _)))
  have hsized : t'.buffer.WellSized := by
    rw [hbuffer]
    exact (ht.allocated hs).wellSized
  exact Buffer.Usize.ensureCapacity_eq overflow hsized (hneeds'.trans_lt hlimit)

end PopStream

section

variable [Host] {stream : Transport} {log : Log} {client : Client PopStream}

theorem Run.sized (h : Run stream log client)
    (hlog : ∀ entry ∈ log, ∀ x, entry.2 = .error x → x ≠ .panicked) :
    client.Keeping PopStream.Sized :=
  h.keeping_of_keep (fun _ => nofun) PopStream.sized_keep
    (fun s reads writes hs => (PopStream.SameReader.supply s reads writes).sized hs)
    (PopStream.new_sized stream) hlog

/-- The next call of a run, once it has written its request and nothing else is awaited,
reads with exact sizes. -/
theorem Run.ensureCapacity_eq (overflow : Overflow) (h : Run stream log client)
    (hlog : ∀ entry ∈ log, ∀ x, entry.2 = .error x → x ≠ .panicked) {s s' t t' : PopStream}
    (hs : client.inner = some s) (hqueue : s.queue = []) (hwritten : PopStream.SameReader s s')
    {command : Command} (ht : PopStream.Decodes (s'.awaiting command) t)
    (hdecode : PopStream.decode t = .ok none t') :
    Buffer.Usize.ensureCapacity overflow t'.decodeNeeds t'.buffer =
      Buffer.ensureCapacity t'.decodeNeeds t'.buffer := by
  obtain ⟨hallocated, hneeds⟩ := hwritten.sized ((h.sized hlog).1 s hs) (hwritten.queue.trans hqueue)
  exact ht.ensureCapacity_eq overflow hallocated hneeds hdecode

end

end Pop
