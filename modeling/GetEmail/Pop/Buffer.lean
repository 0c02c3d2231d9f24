-- SUMMARY: The receive buffer and the queue of commands that await a response.
import GetEmail.Exec.Basic
import GetEmail.Pop.Command
import GetEmail.Pop.Error

/-!
# Buffer and command queue

`inner` holds the received bytes below `cursor`, and the room for the next read
from there on. Slices and subtractions that Rust checks at run time crash.
-/

namespace Pop

open Exec
open Nom (Bytes)

structure Buffer where
  inner : Bytes
  cursor : Nat
  deriving DecidableEq, Repr

/-- `&bytes[..n]` -/
def sliceTo {σ : Type} (bytes : Bytes) (n : Nat) : Exec Error σ Bytes :=
  if bytes.length < n then crash else return bytes.take n

/-- `&bytes[n..]` -/
def sliceFrom {σ : Type} (bytes : Bytes) (n : Nat) : Exec Error σ Bytes :=
  if bytes.length < n then crash else return bytes.drop n

/-- `BytesMut::zeroed` -/
def zeroed (n : Nat) : Bytes := List.replicate n 0

@[simp] theorem zeroed_length (n : Nat) : (zeroed n).length = n := by simp [zeroed]

namespace Buffer

def chunkSize : Nat := 2048

def maxSize : Nat := chunkSize * 1024 * 10

def new : Buffer := ⟨zeroed chunkSize, 0⟩

def unused : Exec Error Buffer Bytes := do
  let b ← get
  sliceFrom b.inner b.cursor

/-- What a read puts at the start of the unused part. -/
def fill (bytes : Bytes) : Exec Error Buffer Unit :=
  modify fun b =>
    { b with inner := b.inner.take b.cursor ++ bytes ++ b.inner.drop (b.cursor + bytes.length) }

def moveCursor (offset : Nat) : Exec Error Buffer Unit :=
  modify fun b =>
    let cursor := b.cursor + offset
    { b with cursor := if cursor > b.inner.length then b.inner.length else cursor }

def take : Exec Error Buffer Bytes := do
  let b ← get
  modify fun b => { b with inner := zeroed chunkSize }
  return b.inner

def returnTo (inner : Bytes) : Exec Error Buffer Unit :=
  modify fun b => { b with inner := inner }

def resetWith (data : Bytes) : Exec Error Buffer Unit := do
  modify fun _ => ⟨zeroed chunkSize, data.length⟩
  let b ← get
  let _ ← sliceTo b.inner b.cursor
  modify fun b => { b with inner := data ++ b.inner.drop b.cursor }

def grow (amount : Nat) : Exec Error Buffer Unit := do
  let b ← get
  let minSize := b.inner.length + amount
  let newSize :=
    match minSize % chunkSize with
    | 0 => minSize
    | n => minSize + (chunkSize - n)
  if newSize > maxSize then
    fail ⟨"The servers response is larger than the maximum allowed size", .responseTooLarge⟩
  else
    modify fun b => { b with inner := b.inner ++ zeroed (newSize - b.inner.length) }

def ensureCapacity (toEnsure : Nat) : Exec Error Buffer Unit := do
  let b ← get
  if b.inner.length < b.cursor then crash
  let freeBytes := b.inner.length - b.cursor
  let extraBytesNeeded := toEnsure - b.inner.length
  if freeBytes = 0 ∨ 0 < extraBytesNeeded then
    grow (max chunkSize extraBytesNeeded)

/-! ## What the operations do -/

/-- The buffer with `bytes` below the cursor and room for `room` more. -/
def holding (bytes : Bytes) (room : Nat) : Buffer := ⟨bytes ++ zeroed room, bytes.length⟩

@[simp] theorem holding_cursor (bytes : Bytes) (room : Nat) :
    (holding bytes room).cursor = bytes.length := rfl

@[simp] theorem holding_inner_length (bytes : Bytes) (room : Nat) :
    (holding bytes room).inner.length = bytes.length + room := by simp [holding]

@[simp] theorem holding_take (bytes : Bytes) (room : Nat) :
    (holding bytes room).inner.take bytes.length = bytes := by simp [holding]

theorem zeroed_append (m n : Nat) : zeroed m ++ zeroed n = zeroed (m + n) := by
  simp [zeroed, List.replicate_append_replicate]

/-- The next multiple of the chunk size. -/
def roundUp (n : Nat) : Nat :=
  match n % chunkSize with
  | 0 => n
  | k => n + (chunkSize - k)

theorem roundUp_spec (n : Nat) : n ≤ roundUp n ∧ roundUp n < n + chunkSize ∧
    chunkSize ∣ roundUp n := by
  unfold roundUp
  split
  · next h => exact ⟨Nat.le_refl _, by simp [chunkSize], Nat.dvd_of_mod_eq_zero h⟩
  · next h =>
    have hlt : n % chunkSize < chunkSize := Nat.mod_lt _ (by decide)
    have hpos : 0 < n % chunkSize := Nat.pos_of_ne_zero h
    refine ⟨by omega, by omega, ?_⟩
    simp only [chunkSize] at *
    omega

/-- Rounding up does not pass a multiple of the chunk size. -/
theorem roundUp_le_iff {n limit : Nat} (h : chunkSize ∣ limit) : roundUp n ≤ limit ↔ n ≤ limit := by
  obtain ⟨hle, hlt, k, hk⟩ := roundUp_spec n
  obtain ⟨m, rfl⟩ := h
  have hchunk : chunkSize = 2048 := rfl
  rw [hk] at hle hlt ⊢
  rw [hchunk] at hle hlt ⊢
  omega

/-- The size that `ensure_capacity` asks for. -/
def ensuredSize (size cursor toEnsure : Nat) : Nat :=
  if size - cursor = 0 ∨ 0 < toEnsure - size then
    roundUp (size + max chunkSize (toEnsure - size))
  else size

theorem le_ensuredSize (size cursor toEnsure : Nat) : size ≤ ensuredSize size cursor toEnsure := by
  unfold ensuredSize
  split
  · have := (roundUp_spec (size + max chunkSize (toEnsure - size))).1
    omega
  · exact Nat.le_refl _

/-- There is room in the buffer afterwards. -/
theorem lt_ensuredSize {size cursor : Nat} (h : cursor ≤ size) (toEnsure : Nat) :
    cursor < ensuredSize size cursor toEnsure := by
  have hround := (roundUp_spec (size + max chunkSize (toEnsure - size))).1
  have hchunk : 0 < chunkSize := by decide
  unfold ensuredSize
  split <;> omega

theorem ensuredSize_aligned {size : Nat} (hsize : chunkSize ∣ size) (cursor toEnsure : Nat) :
    chunkSize ∣ ensuredSize size cursor toEnsure := by
  unfold ensuredSize
  split
  · exact (roundUp_spec _).2.2
  · exact hsize

theorem le_of_ensuredSize (size cursor toEnsure : Nat) :
    toEnsure ≤ ensuredSize size cursor toEnsure := by
  have hround := (roundUp_spec (size + max chunkSize (toEnsure - size))).1
  unfold ensuredSize
  split <;> omega

/-- The buffer grows when it is full, or too small for what is asked for. -/
theorem grows_of_lt_ensuredSize {size cursor toEnsure : Nat}
    (h : size < ensuredSize size cursor toEnsure) : size ≤ cursor ∨ size < toEnsure := by
  by_contra hroom
  rw [ensuredSize, if_neg (by omega)] at h
  exact Nat.lt_irrefl _ h

theorem chunkSize_dvd_maxSize : chunkSize ∣ maxSize := ⟨1024 * 10, Nat.mul_assoc _ _ _⟩

/-- A size that is a multiple of the chunk size and below the limit can grow by a
chunk. -/
theorem ensuredSize_le_maxSize {size cursor toEnsure : Nat} (hsize : chunkSize ∣ size)
    (hmax : size ≤ maxSize) (hcursor : cursor < maxSize) (hensure : toEnsure ≤ maxSize) :
    ensuredSize size cursor toEnsure ≤ maxSize := by
  unfold ensuredSize
  split
  · next hgrow =>
    obtain ⟨m, rfl⟩ := hsize
    have hchunk : chunkSize = 2048 := rfl
    have hlimit : maxSize = 20971520 := rfl
    rw [roundUp_le_iff chunkSize_dvd_maxSize]
    rw [hlimit] at hmax hcursor hensure ⊢
    simp only [hchunk] at hgrow hmax ⊢
    omega
  · exact hmax

/-- The bytes that are asked for and the next read have to fit. -/
theorem ensuredSize_le_maxSize_iff {size cursor toEnsure : Nat} (hcursor : cursor ≤ size)
    (hsize : chunkSize ∣ size) (hmax : size ≤ maxSize) :
    ensuredSize size cursor toEnsure ≤ maxSize ↔ max toEnsure (cursor + 1) ≤ maxSize := by
  constructor
  · intro h
    have hensure := le_of_ensuredSize size cursor toEnsure
    have hroom := lt_ensuredSize hcursor toEnsure
    omega
  · intro h
    exact ensuredSize_le_maxSize hsize hmax (by omega) (by omega)

def tooLarge : Error :=
  ⟨"The servers response is larger than the maximum allowed size", .responseTooLarge⟩

/-- The buffer with room up to `size`. -/
def widen (b : Buffer) (size : Nat) : Buffer :=
  { b with inner := b.inner ++ zeroed (size - b.inner.length) }

theorem widen_length {b : Buffer} {size : Nat} (h : b.inner.length ≤ size) :
    (b.widen size).inner.length = size := by
  simp only [widen, List.length_append, zeroed_length]
  omega

theorem widen_holding (bytes : Bytes) {room size : Nat} (h : bytes.length + room ≤ size) :
    (holding bytes room).widen size = holding bytes (size - bytes.length) := by
  have hroom : room + (size - (bytes.length + room)) = size - bytes.length := by omega
  simp only [widen, holding_inner_length]
  rw [holding, List.append_assoc, zeroed_append, hroom, holding]

theorem grow_eq (amount : Nat) (b : Buffer) :
    grow amount b =
      if roundUp (b.inner.length + amount) > maxSize then .error (.error tooLarge) b
      else .ok () (b.widen (roundUp (b.inner.length + amount))) := by
  simp only [grow, bind_apply, get_apply, if_apply, fail_apply, modify_apply]
  rfl

theorem ensureCapacity_eq (toEnsure : Nat) (b : Buffer) :
    ensureCapacity toEnsure b =
      if b.inner.length < b.cursor then .error .panicked b
      else if b.inner.length - b.cursor = 0 ∨ 0 < toEnsure - b.inner.length then
        grow (max chunkSize (toEnsure - b.inner.length)) b
      else .ok () b := by
  simp only [ensureCapacity, bind_apply, get_apply, if_apply, crash_apply, pure_apply]

/-- Add room up to the size, or report that the response is too large and change
nothing. -/
theorem ensureCapacity_of_le {b : Buffer} (h : b.cursor ≤ b.inner.length) (toEnsure : Nat) :
    ensureCapacity toEnsure b =
      if maxSize < ensuredSize b.inner.length b.cursor toEnsure ∧
          (b.inner.length = b.cursor ∨ b.inner.length < toEnsure) then
        .error (.error tooLarge) b
      else .ok () (b.widen (ensuredSize b.inner.length b.cursor toEnsure)) := by
  have hgrow : b.inner.length - b.cursor = 0 ∨ 0 < toEnsure - b.inner.length ↔
      b.inner.length = b.cursor ∨ b.inner.length < toEnsure := by
    omega
  rw [ensureCapacity_eq, if_neg (Nat.not_lt.mpr h)]
  unfold ensuredSize
  by_cases hneeds : b.inner.length = b.cursor ∨ b.inner.length < toEnsure
  · rw [if_pos (hgrow.mpr hneeds), if_pos (hgrow.mpr hneeds), grow_eq]
    simp only [hneeds, and_true, gt_iff_lt]
  · rw [if_neg (mt hgrow.mp hneeds), if_neg (mt hgrow.mp hneeds), if_neg (fun hc => hneeds hc.2),
      widen, Nat.sub_self, zeroed, List.replicate_zero, List.append_nil]

/-- On a well-formed buffer. -/
theorem ensureCapacity_holding (bytes : Bytes) (room toEnsure : Nat) :
    ensureCapacity toEnsure (holding bytes room) =
      if maxSize < ensuredSize (bytes.length + room) bytes.length toEnsure ∧
          (room = 0 ∨ bytes.length + room < toEnsure) then
        .error (.error tooLarge) (holding bytes room)
      else .ok () (holding bytes
        (ensuredSize (bytes.length + room) bytes.length toEnsure - bytes.length)) := by
  rw [ensureCapacity_of_le (by simp), holding_inner_length, holding_cursor,
    widen_holding bytes (le_ensuredSize _ _ _)]
  simp only [Nat.add_eq_left]

theorem unused_holding (bytes : Bytes) (room : Nat) :
    unused (holding bytes room) = .ok (zeroed room) (holding bytes room) := by
  simp [unused, sliceFrom, holding]

theorem resetWith_eq (data : Bytes) (b : Buffer) :
    resetWith data b =
      if chunkSize < data.length then .error .panicked ⟨zeroed chunkSize, data.length⟩
      else .ok () (holding data (chunkSize - data.length)) := by
  by_cases h : chunkSize < data.length
  · simp [resetWith, sliceTo, h]
  · simp [resetWith, sliceTo, h, holding, zeroed, List.drop_replicate]

/-- What a read fills in is below the cursor after the move. -/
theorem fill_moveCursor (bytes new : Bytes) (room : Nat) :
    (fill new >>= fun _ => moveCursor new.length) (holding bytes room) =
      .ok () (holding (bytes ++ new) (room - new.length)) := by
  have hdrop : (bytes ++ zeroed room).drop (bytes.length + new.length) =
      zeroed (room - new.length) := by
    simp [zeroed, List.drop_append, List.drop_replicate, List.drop_eq_nil_of_le]
  simp only [fill, moveCursor, bind_apply, modify_apply, holding_cursor, holding_take]
  simp only [holding, hdrop, List.append_assoc, List.length_append, zeroed_length]
  rw [if_neg (by omega)]

end Buffer

/-! ## The command queue -/

abbrev CommandQueue := List Command

namespace CommandQueue

def add (command : Command) : Exec Error CommandQueue Unit := modify (· ++ [command])

def current (q : CommandQueue) : Option Command := q.head?

/-- `self.list.remove(0)` -/
def markCurrentAsDone : Exec Error CommandQueue Unit := do
  if (← get) = [] then crash
  modify List.tail

end CommandQueue

end Pop
