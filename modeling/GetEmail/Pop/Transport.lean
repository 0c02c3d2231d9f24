-- SUMMARY: A scripted transport: what the polls of the socket return, and what went over it.
import Mathlib.Algebra.GroupWithZero.Nat
import GetEmail.Exec.Loop
import GetEmail.Pop.Buffer
import GetEmail.Pop.Response

/-!
# Transport

The socket belongs to the runtime, so it is a script: each poll takes the next
event. Scripts are arbitrary, so statements about all scripts are statements
about every behaviour of the network. A poll at the end of the script is
pending for good.
-/

namespace Pop

open Exec
open Nom (Bytes)

/-- What one `poll_read` does. -/
inductive ReadEvent where
  /-- Pending, and later the task is woken. -/
  | pending
  /-- These bytes have arrived; what the buffer has no room for is left to the
  next read. No bytes is the end of the stream. -/
  | data (bytes : Bytes)
  | failed (e : IoError)
  deriving DecidableEq, Repr

/-- What one `poll_write` or `poll_flush` does. -/
inductive WriteEvent where
  | pending
  /-- As many bytes are accepted, or all there are. -/
  | ready (n : Nat)
  | failed (e : IoError)
  deriving DecidableEq, Repr

/-- The bytes that a script has in store. -/
def incoming (reads : List ReadEvent) : Bytes :=
  reads.flatMap fun
    | .data bytes => bytes
    | _ => []

@[simp] theorem incoming_data (bytes : Bytes) (reads : List ReadEvent) :
    incoming (.data bytes :: reads) = bytes ++ incoming reads := by simp [incoming]
@[simp] theorem incoming_pending (reads : List ReadEvent) :
    incoming (.pending :: reads) = incoming reads := by simp [incoming]
@[simp] theorem incoming_failed (e : IoError) (reads : List ReadEvent) :
    incoming (.failed e :: reads) = incoming reads := by simp [incoming]

structure Transport where
  reads : List ReadEvent
  writes : List WriteEvent
  /-- Whether a transport that has failed fails from then on. -/
  sticky : Bool
  failure : Option IoError
  deriving DecidableEq, Repr

namespace Transport

/-- A bound on the number of polls that a script answers. -/
def readFuel (t : Transport) : Nat :=
  (t.reads.map fun | .data bytes => bytes.length + 1 | _ => 1).sum

/-- The failure that a broken transport keeps reporting. -/
def broken (t : Transport) : Option IoError := if t.sticky then t.failure else none

/-- Report a failure, and remember it. -/
def failWith {α : Type} (e : IoError) : Exec Error Transport α := do
  modify fun t => { t with failure := some e }
  fail (.ofIo e)

/-- The bytes of a read with room for `room` bytes, or `none` when the task was
put to sleep and woken. -/
def pollRead (room : Nat) : Exec Error Transport (Option Bytes) := do
  let t ← get
  match t.broken with
  | some e => failWith e
  | none =>
    match t.reads with
    | [] => wait
    | .pending :: reads =>
      modify fun t => { t with reads := reads }
      return none
    | .data bytes :: reads =>
      modify fun t =>
        { t with
          reads := if bytes.length ≤ room then reads else .data (bytes.drop room) :: reads }
      return some (bytes.take room)
    | .failed e :: reads =>
      modify fun t => { t with reads := reads }
      failWith e

/-- The number of bytes of `buf` that a write accepts, or `none` when the task
was put to sleep and woken. -/
def pollWrite (buf : Bytes) : Exec Error Transport (Option Nat) := do
  let t ← get
  match t.broken with
  | some e => failWith e
  | none =>
    match t.writes with
    | [] => wait
    | .pending :: writes =>
      modify fun t => { t with writes := writes }
      return none
    | .ready n :: writes =>
      modify fun t => { t with writes := writes }
      return some (min n buf.length)
    | .failed e :: writes =>
      modify fun t => { t with writes := writes }
      failWith e

/-- `t` comes after `t₀` in a session. -/
structure After (t₀ t : Transport) : Prop where
  sticky : t.sticky = t₀.sticky
  writes : t.writes <:+ t₀.writes

theorem After.refl (t : Transport) : t.After t := ⟨rfl, List.suffix_rfl⟩

theorem After.trans {t t' t'' : Transport} (h : t.After t') (h' : t'.After t'') : t.After t'' :=
  ⟨h'.sticky.trans h.sticky, h'.writes.trans h.writes⟩

/-! ## What a poll does -/

/-- What a poll for a read does, with room for `room` bytes. -/
inductive PolledRead (t : Transport) (room : Nat) :
    EStateM.Result (Exit Error) Transport (Option Bytes) → Prop where
  | blocked (hbroken : t.broken = none) (hreads : t.reads = []) :
      PolledRead t room (.error .pending t)
  | failed {e : IoError} {reads : List ReadEvent}
      (hwhy : t.broken = some e ∨ .failed e ∈ t.reads) :
      PolledRead t room (.error (.error (.ofIo e)) { t with reads := reads, failure := some e })
  | woken {reads : List ReadEvent} (hbroken : t.broken = none)
      (hreads : t.reads = .pending :: reads) :
      PolledRead t room (.ok none { t with reads := reads })
  | ready {bytes : Bytes} {reads : List ReadEvent} (hbroken : t.broken = none)
      (hreads : t.reads = .data bytes :: reads) :
      PolledRead t room (.ok (some (bytes.take room)) { t with
        reads := if bytes.length ≤ room then reads else .data (bytes.drop room) :: reads })

theorem pollRead_cases (t : Transport) (room : Nat) :
    PolledRead t room (pollRead room t) := by
  obtain ⟨reads, writes, sticky, failure⟩ := t
  cases hbroken : broken ⟨reads, writes, sticky, failure⟩ with
  | some e =>
    simp only [pollRead, bind_apply, get_apply, hbroken, failWith,
      modify_apply, fail_apply]
    exact .failed (.inl hbroken)
  | none =>
    simp only [pollRead, bind_apply, get_apply, hbroken]
    cases reads with
    | nil => exact .blocked hbroken rfl
    | cons event reads =>
      cases event with
      | pending => exact .woken hbroken rfl
      | data bytes => exact .ready hbroken rfl
      | failed e => exact .failed (.inr (by simp))

/-- What a poll for a write does. -/
inductive PolledWrite (t : Transport) (buf : Bytes) :
    EStateM.Result (Exit Error) Transport (Option Nat) → Prop where
  | blocked (hbroken : t.broken = none) (hwrites : t.writes = []) :
      PolledWrite t buf (.error .pending t)
  | failed {e : IoError} {writes : List WriteEvent}
      (hwhy : t.broken = some e ∨ t.writes = .failed e :: writes) (hwrites : writes <:+ t.writes) :
      PolledWrite t buf (.error (.error (.ofIo e)) { t with writes := writes, failure := some e })
  | woken {writes : List WriteEvent} (hbroken : t.broken = none)
      (hwrites : t.writes = .pending :: writes) :
      PolledWrite t buf (.ok none { t with writes := writes })
  | ready {n : Nat} {writes : List WriteEvent} (hbroken : t.broken = none)
      (hwrites : t.writes = .ready n :: writes) :
      PolledWrite t buf (.ok (some (min n buf.length)) { t with writes := writes })

theorem pollWrite_cases (t : Transport) (buf : Bytes) :
    PolledWrite t buf (pollWrite buf t) := by
  obtain ⟨reads, writes, sticky, failure⟩ := t
  cases hbroken : broken ⟨reads, writes, sticky, failure⟩ with
  | some e =>
    simp only [pollWrite, bind_apply, get_apply, hbroken, failWith, modify_apply, fail_apply]
    exact .failed (.inl hbroken) List.suffix_rfl
  | none =>
    simp only [pollWrite, bind_apply, get_apply, hbroken]
    cases writes with
    | nil => exact .blocked hbroken rfl
    | cons event writes =>
      cases event with
      | pending => exact .woken hbroken rfl
      | ready n => exact .ready hbroken rfl
      | failed e => exact .failed (.inr rfl) (List.suffix_cons _ _)

/-- A broken transport reports its failure, and that is all. -/
theorem pollWrite_broken {t : Transport} {e : IoError} (h : t.broken = some e) (buf : Bytes) :
    pollWrite buf t = .error (.error (.ofIo e)) t := by
  obtain ⟨reads, writes, sticky, failure⟩ := t
  simp only [pollWrite, bind_apply, get_apply, h, failWith, modify_apply, fail_apply]
  cases sticky with
  | true =>
    obtain rfl : failure = some e := h
    rfl
  | false => cases h

theorem pollRead_after {counts : Exit Error → Prop} (t₀ : Transport) (room : Nat) :
    Keeps counts (After t₀) (pollRead room) := by
  intro t h
  have hpoll := pollRead_cases t room
  generalize pollRead room t = polled at hpoll
  cases hpoll with
  | blocked => exact fun _ => h
  | failed => exact fun _ => ⟨h.sticky, h.writes⟩
  | woken => exact ⟨h.sticky, h.writes⟩
  | ready => exact ⟨h.sticky, h.writes⟩

/-- A poll that does not return takes no bytes away. -/
theorem pollRead_incoming (bytes : Bytes) (room : Nat) :
    Triple (fun t => incoming t.reads = bytes) (pollRead room) (fun _ _ => True)
      (fun _ t => incoming t.reads = bytes) := by
  intro t h
  cases hbroken : t.broken with
  | some e => simpa [pollRead, hbroken, failWith] using h
  | none =>
    cases hreads : t.reads with
    | nil => simpa [pollRead, hbroken, hreads] using h
    | cons event reads =>
      rw [hreads] at h
      cases event with
      | pending => simp [pollRead, hbroken, hreads]
      | data new => simp [pollRead, hbroken, hreads]
      | failed e => simpa [pollRead, hbroken, hreads, failWith] using h

theorem pollWrite_after {counts : Exit Error → Prop} (t₀ : Transport) (buf : Bytes) :
    Keeps counts (After t₀) (pollWrite buf) := by
  intro t h
  have hpoll := pollWrite_cases t buf
  generalize pollWrite buf t = polled at hpoll
  cases hpoll with
  | blocked => exact fun _ => h
  | failed _ hwrites => exact fun _ => ⟨h.sticky, hwrites.trans h.writes⟩
  | woken _ hwrites => exact ⟨h.sticky, ((hwrites ▸ List.suffix_cons _ _).trans h.writes)⟩
  | ready _ hwrites => exact ⟨h.sticky, ((hwrites ▸ List.suffix_cons _ _).trans h.writes)⟩

end Transport

end Pop
