-- SUMMARY: When a response that has arrived in full, in whatever chunks, is returned.
import GetEmail.Pop.ParserStable
import GetEmail.Pop.Polling

/-!
# Chunking

`decode` waits for as many bytes as the alternative that gave up first asked
for, which may be more than the response has. Whether a response is returned
once it has arrived is decided by the prefixes that the parser is tried on:
none of them may ask for bytes past the end.
-/

namespace Pop

open Exec
open Nom (Bytes ascii)

variable [Host]

/-! ## The prefixes that are tried -/

/-- A buffer while a response arrives: the bytes that have arrived, the size of the
buffer, the number of bytes before which the parser is not tried again, and the
chunks to come. -/
structure Delivery where
  seen : Bytes
  size : Nat
  needs : Nat
  coming : List Bytes

namespace Delivery

def start (chunks : List Bytes) : Delivery := ⟨[], Buffer.chunkSize, 0, chunks⟩

/-- The room for the next read. -/
def room (d : Delivery) : Nat := Buffer.ensuredSize d.size d.seen.length d.needs - d.seen.length

/-- One read: the next chunk, or as much of it as there is room for. -/
def read (d : Delivery) : Option Delivery :=
  match d.coming with
  | [] => none
  | chunk :: coming => some
    { seen := d.seen ++ chunk.take d.room
      size := Buffer.ensuredSize d.size d.seen.length d.needs
      needs := d.needs
      coming := if chunk.length ≤ d.room then coming else chunk.drop d.room :: coming }

omit [Host] in
theorem read_cons {d : Delivery} {chunk : Bytes} {coming : List Bytes}
    (h : d.coming = chunk :: coming) : d.read = some
      { seen := d.seen ++ chunk.take d.room
        size := Buffer.ensuredSize d.size d.seen.length d.needs
        needs := d.needs
        coming := if chunk.length ≤ d.room then coming else chunk.drop d.room :: coming } := by
  simp only [read, h]

omit [Host] in
/-- A read loses no byte. -/
theorem read_all {d d' : Delivery} (h : d.read = some d') :
    d'.seen ++ d'.coming.flatten = d.seen ++ d.coming.flatten := by
  cases hcoming : d.coming with
  | nil => simp [read, hcoming] at h
  | cons chunk coming =>
    rw [read_cons hcoming] at h
    cases h
    dsimp only
    rw [List.append_assoc, List.flatten_cons]
    split
    · next hle => rw [List.take_of_length_le hle]
    · rw [List.flatten_cons, ← List.append_assoc (chunk.take _), List.take_append_drop]

/-- The next read needs more room than a buffer may have. -/
def Full (d : Delivery) : Prop :=
  Buffer.maxSize < Buffer.ensuredSize d.size d.seen.length d.needs

instance (d : Delivery) : Decidable d.Full := inferInstanceAs (Decidable (_ < _))

/-- The prefixes that the parser is tried on after `fuel` reads at most. -/
def triedWithin (command : Command) : Nat → Delivery → List Bytes
  | 0, _ => []
  | fuel + 1, d =>
    if d.seen.length < d.needs then
      (d.read.map (triedWithin command fuel)).getD []
    else
      d.seen :: match Parser.parse d.seen command with
        | .incomplete needed =>
          let d := { d with needs := PopStream.asked d.seen.length needed }
          (d.read.map (triedWithin command fuel)).getD []
        | _ => []

/-- The prefixes of the chunks that the parser is tried on until it accepts or
rejects. -/
def tried (command : Command) (chunks : List Bytes) : List Bytes :=
  triedWithin command (chunks.flatten.length + 1) (start chunks)

end Delivery

/-- On the prefix `tried` of a response of `length` bytes the parser does not ask for
bytes past the end. If it accepts, what follows fits the new buffer, and the trace
line can be printed. -/
def Timely (command : Command) (length : Nat) (tried : Bytes) : Prop :=
  match Parser.parse tried command with
  | .incomplete (.size n) => tried.length + n ≤ length
  | .ok rest _ => rest.length ≤ Buffer.chunkSize ∧ (Host.traceEnabled → Utf8.valid tried)
  | _ => True

instance (command : Command) (length : Nat) (tried : Bytes) :
    Decidable (Timely command length tried) :=
  match h : Parser.parse tried command with
  | .incomplete (.size n) => decidable_of_iff (tried.length + n ≤ length) (by simp [Timely, h])
  | .incomplete .unknown => isTrue (by simp [Timely, h])
  | .ok rest _ =>
    decidable_of_iff (rest.length ≤ Buffer.chunkSize ∧ (Host.traceEnabled → Utf8.valid tried))
      (by simp [Timely, h])
  | .error _ => isTrue (by simp [Timely, h])

namespace PopStream

/-! ## The stream goes through the delivery -/

def delivering (chunks : List Bytes) : Transport := ⟨chunks.map .data, [], false, none⟩

/-- The stream stands where the delivery does, and these commands are to be answered. -/
structure Follows (s : PopStream) (queue : CommandQueue) (d : Delivery) : Prop where
  buffer : s.buffer = .holding d.seen (d.size - d.seen.length)
  needs : s.decodeNeeds = d.needs
  queue : s.queue = queue
  stream : s.stream = delivering d.coming
  fits : d.seen.length ≤ d.size
  bounded : d.size ≤ Buffer.maxSize

omit [Host] in
/-- A read takes the delivery one step further, unless the buffer is full or the
delivery at its end. -/
theorem Follows.receive {s : PopStream} {queue : CommandQueue} {d : Delivery}
    (h : Follows s queue d) :
    (d.Full ∧ receive s = .error (.error Buffer.tooLarge) s) ∨
      (¬ d.Full ∧ d.read = none ∧ ∃ s', receive s = .error .pending s') ∨
      ¬ d.Full ∧ ∃ s' d', d.read = some d' ∧ receive s = .ok () s' ∧ Follows s' queue d' := by
  have hsize : d.seen.length + (d.size - d.seen.length) = d.size := Nat.add_sub_cancel' h.fits
  have hroom : ensuredRoom d.seen (d.size - d.seen.length) s.decodeNeeds = d.room := by
    rw [ensuredRoom, hsize, h.needs, Delivery.room]
  by_cases hfull : d.Full
  · refine .inl ⟨hfull, ?_⟩
    have hgrow : d.size - d.seen.length = 0 ∨ d.size < d.needs := by
      by_contra hgrow
      have hbounded := h.bounded
      simp only [Delivery.Full, Buffer.ensuredSize] at hfull
      rw [if_neg (by omega)] at hfull
      omega
    have hensure := Buffer.ensureCapacity_holding d.seen (d.size - d.seen.length) s.decodeNeeds
    rw [hsize, h.needs, if_pos ⟨hfull, hgrow⟩, ← h.buffer, ← h.needs] at hensure
    simp [PopStream.receive, onBuffer, zoom, hensure]
  have hcases := receive_cases h.buffer
  have hreads : s.stream.reads = d.coming.map .data := by simp [h.stream, delivering]
  generalize PopStream.receive s = r at hcases ⊢
  cases hcases with
  | tooLarge htoo hgrow =>
    rw [hsize, h.needs] at htoo
    exact absurd htoo hfull
  | blocked hbroken hblocked =>
    rw [hreads, List.map_eq_nil_iff] at hblocked
    exact .inr (.inl ⟨hfull, by simp [Delivery.read, hblocked], _, rfl⟩)
  | failed hwhy =>
    rw [hreads, h.stream] at hwhy
    simp [delivering, Transport.broken] at hwhy
  | woken hbroken hwoken => simp [hreads, List.map_eq_cons_iff] at hwoken
  | @ready chunk reads hbroken hready =>
    rw [hreads] at hready
    obtain ⟨chunk', coming, hcoming, hchunk, rfl⟩ := List.map_eq_cons_iff.mp hready
    cases hchunk
    rw [hroom]
    have hseen : (d.seen ++ chunk.take d.room).length = d.seen.length + min d.room chunk.length := by
      simp
    have hroomdef : d.room = Buffer.ensuredSize d.size d.seen.length d.needs - d.seen.length := rfl
    have hgrown : d.seen.length ≤ Buffer.ensuredSize d.size d.seen.length d.needs :=
      h.fits.trans (Buffer.le_ensuredSize _ _ _)
    refine .inr (.inr ⟨hfull, _, _, Delivery.read_cons hcoming, rfl,
      ⟨?_, h.needs, h.queue, ?_, ?_, ?_⟩⟩)
    · refine congrArg (Buffer.holding _) ?_
      dsimp only
      rw [hseen]
      omega
    · simp only [h.stream, delivering]
      split <;> simp
    · refine hseen.trans_le ?_
      dsimp only
      omega
    · exact Nat.not_lt.mp hfull

/-- The stream stands where the delivery does, and `w` is delivered in the end. -/
structure Tracks (s : PopStream) (command : Command) (w : Bytes) (d : Delivery) : Prop where
  buffer : s.buffer = .holding d.seen (d.size - d.seen.length)
  needs : s.decodeNeeds = d.needs
  queue : s.queue = [command]
  stream : s.stream = delivering d.coming
  fits : d.seen.length ≤ d.size
  aligned : Buffer.chunkSize ∣ d.size
  bounded : d.size ≤ Buffer.maxSize
  rest : d.seen ++ d.coming.flatten = w
  nonempty : ∀ chunk ∈ d.coming, chunk ≠ []

omit [Host] in
theorem start_tracks (command : Command) {chunks : List Bytes} (hne : ∀ chunk ∈ chunks, chunk ≠ []) :
    Tracks ((new (delivering chunks)).awaiting command) command chunks.flatten (.start chunks) where
  buffer := rfl
  needs := rfl
  queue := rfl
  stream := rfl
  fits := Nat.zero_le _
  aligned := Nat.dvd_refl _
  bounded := (by decide : Buffer.chunkSize ≤ Buffer.maxSize)
  rest := rfl
  nonempty := hne

omit [Host] in
theorem Tracks.holds {s : PopStream} {command : Command} {w : Bytes} {d : Delivery}
    (h : Tracks s command w d) : s.Holds d.seen := ⟨_, h.buffer⟩

omit [Host] in
theorem Tracks.length {s : PopStream} {command : Command} {w : Bytes} {d : Delivery}
    (h : Tracks s command w d) : d.seen.length + d.coming.flatten.length = w.length := by
  rw [← List.length_append, h.rest]

omit [Host] in
theorem Tracks.follows {s : PopStream} {command : Command} {w : Bytes} {d : Delivery}
    (h : Tracks s command w d) : Follows s [command] d :=
  ⟨h.buffer, h.needs, h.queue, h.stream, h.fits, h.bounded⟩

omit [Host] in
/-- A read takes the delivery one step further. -/
theorem Tracks.receive {s : PopStream} {command : Command} {w : Bytes} {d : Delivery}
    (h : Tracks s command w d) (hmax : w.length ≤ Buffer.maxSize) (hneeds : d.needs ≤ w.length)
    (hcoming : d.coming ≠ []) : ∃ s' d', receive s = .ok () s' ∧ d.read = some d' ∧
      Tracks s' command w d' ∧ d'.needs = d.needs ∧
        d'.coming.flatten.length < d.coming.flatten.length := by
  obtain ⟨chunk, coming, hcoming⟩ := List.exists_cons_of_ne_nil hcoming
  have hchunk : chunk ≠ [] := h.nonempty chunk (by simp [hcoming])
  have hpos : 0 < chunk.length := List.length_pos_iff.mpr hchunk
  have hlength := h.length
  simp only [hcoming, List.flatten_cons, List.length_append] at hlength
  have hbound : Buffer.ensuredSize d.size d.seen.length d.needs ≤ Buffer.maxSize :=
    Buffer.ensuredSize_le_maxSize h.aligned h.bounded (by omega) (by omega)
  have hroompos : 0 < d.room := Nat.sub_pos_of_lt (Buffer.lt_ensuredSize h.fits _)
  have hread := Delivery.read_cons hcoming
  rcases h.follows.receive with ⟨hfull, -⟩ | ⟨-, hnone, -⟩ | ⟨-, s', d', hsome, hreceive, hfollows⟩
  · exact absurd hbound (Nat.not_le.mpr hfull)
  · simp [hread] at hnone
  have hall := Delivery.read_all hsome
  rw [hread] at hsome
  cases hsome
  refine ⟨s', _, hreceive, hread, ⟨hfollows.buffer, hfollows.needs, hfollows.queue,
    hfollows.stream, hfollows.fits, Buffer.ensuredSize_aligned h.aligned _ _, hbound, ?_, ?_⟩,
    rfl, ?_⟩
  · exact hall.trans h.rest
  · intro c hc
    dsimp only at hc
    split at hc
    · exact h.nonempty c (by simp [hcoming, hc])
    · next hlt =>
      rcases List.mem_cons.mp hc with rfl | hc
      · simpa using hlt
      · exact h.nonempty c (by simp [hcoming, hc])
  · have := congrArg List.length hall
    simp only [List.length_append, List.length_take] at this
    dsimp only
    omega

/-! ## Waiting for too much -/

omit [Host] in
theorem receive_incoming {s s' : PopStream} {bytes : Bytes} (h : s.Holds bytes)
    (hreceive : receive s = .ok () s') : s'.decodeNeeds = s.decodeNeeds ∧ ∃ bytes', s'.Holds bytes' ∧
      bytes' ++ incoming s'.stream.reads = bytes ++ incoming s.stream.reads := by
  obtain ⟨room, h⟩ := h
  have hcases := receive_cases h
  rw [hreceive] at hcases
  cases hcases with
  | woken hbroken hreads => exact ⟨rfl, bytes, ⟨_, rfl⟩, by simp [hreads]⟩
  | ready hbroken hreads =>
    refine ⟨rfl, _, ⟨_, rfl⟩, ?_⟩
    simp only [hreads, incoming_data, List.append_assoc, List.append_cancel_left_eq]
    split
    · next hle => rw [List.take_of_length_le hle]
    · rw [incoming_data, ← List.append_assoc, List.take_append_drop]

/-- What has come in and what is to come stays the same. -/
theorem Decodes.incoming_eq {s t : PopStream} {bytes : Bytes} (ht : Decodes s t) (h : s.Holds bytes) :
    ∃ bytes', t.Holds bytes' ∧
      bytes' ++ incoming t.stream.reads = bytes ++ incoming s.stream.reads := by
  induction ht with
  | start => exact ⟨bytes, h, rfl⟩
  | again _ hdecode hreceive ih =>
    obtain ⟨bytes', hholds, heq⟩ := ih
    obtain ⟨hholds', -, hstream, -⟩ := decode_none_holds hholds hdecode
    obtain ⟨-, bytes'', hholds'', heq'⟩ := receive_incoming hholds' hreceive
    exact ⟨bytes'', hholds'', by rw [heq', hstream, heq]⟩

/-- A stream that waits for more bytes than come does not return. -/
theorem waits {s s' : PopStream} {bytes : Bytes} (h : s.Holds bytes)
    (hneeds : (bytes ++ incoming s.stream.reads).length < s.decodeNeeds)
    (response : Response) : ¬ Polls s (.ok response s') := by
  intro hpolls
  obtain ⟨t, ht, hends⟩ := hpolls.last
  have hskip : ∃ bytes, t.Holds bytes ∧
      (bytes ++ incoming t.stream.reads).length < t.decodeNeeds := by
    clear hends
    induction ht with
    | start => exact ⟨bytes, h, hneeds⟩
    | again _ hdecode hreceive ih =>
      obtain ⟨bytes', hholds, hneeds'⟩ := ih
      rw [List.length_append] at hneeds'
      rw [decode_skip (by rw [hholds.cursor]; omega)] at hdecode
      cases hdecode
      obtain ⟨hsame, bytes'', hholds', heq⟩ := receive_incoming hholds hreceive
      exact ⟨bytes'', hholds', by rwa [heq, List.length_append, hsame]⟩
  obtain ⟨bytes', hholds, hneeds'⟩ := hskip
  rw [List.length_append] at hneeds'
  rw [Ends, decode_skip (by rw [hholds.cursor]; omega)] at hends
  cases hends

omit [Host] in
theorem Tracks.incoming_eq {s : PopStream} {command : Command} {w : Bytes} {d : Delivery}
    (h : Tracks s command w d) : d.seen ++ incoming s.stream.reads = w := by
  have hcoming : incoming (d.coming.map .data) = d.coming.flatten := by
    simp [incoming, List.flatMap_map]
  rw [← h.rest, h.stream, delivering, hcoming]

/-! ## The response is returned -/

/-- A `decode` that is passed over changes nothing for the polls after it. -/
theorem Polls.of_skip {s t : PopStream} {r : Outcome} (h : Polls s r)
    (hdecode : decode s = .ok none t) (hskip : decode t = .ok none t) : Polls t r := by
  cases h with
  | done h' => simp [hdecode] at h'
  | exit h' => simp [hdecode] at h'
  | stop h' hreceive =>
    rw [hdecode] at h'
    cases h'
    exact .stop hskip hreceive
  | again h' hreceive hrest =>
    rw [hdecode] at h'
    cases h'
    exact .again hskip hreceive hrest

theorem not_polls_of_error {s t : PopStream} {x : Exit Error} {response : Response}
    (h : decode s = .error x t) : ¬ ∃ s', Polls s (.ok response s') := by
  rintro ⟨s', hpolls⟩
  cases hpolls with
  | done h' => simp [h] at h'
  | again h' _ _ => simp [h] at h'

omit [Host] in
theorem Tracks.ask {s : PopStream} {command : Command} {w : Bytes} {d : Delivery}
    (h : Tracks s command w d) (n : Nat) :
    Tracks { s with decodeNeeds := n } command w { d with needs := n } :=
  ⟨h.buffer, rfl, h.queue, h.stream, h.fits, h.aligned, h.bounded, h.rest, h.nonempty⟩

/-- Where the delivery goes on, the stream reads on. -/
theorem Tracks.reads_on {command : Command} {w : Bytes} {response : Response} {fuel : Nat}
    (hmax : w.length ≤ Buffer.maxSize) {s t : PopStream} {d : Delivery}
    (hdecode : decode s = .ok none t) (h : Tracks t command w d) (hneeds : d.needs ≤ w.length)
    (hcoming : d.coming ≠ []) (hfuel : d.coming.flatten.length < fuel + 1)
    (ih : ∀ {s : PopStream} {d : Delivery}, Tracks s command w d → d.needs ≤ w.length →
      d.coming.flatten.length < fuel → ((∃ s', Polls s (.ok response s')) ↔
        ∀ x ∈ d.triedWithin command fuel, Timely command w.length x)) :
    (∃ s', Polls s (.ok response s')) ↔
      ∀ x ∈ (d.read.map (Delivery.triedWithin command fuel)).getD [],
        Timely command w.length x := by
  obtain ⟨t', d', hreceive, hread, htracks, hsame, hless⟩ := h.receive hmax hneeds hcoming
  rw [hread, Option.map_some, Option.getD_some, ← ih htracks (by omega) (by omega)]
  constructor
  · rintro ⟨s', hs'⟩
    exact ⟨s', hs'.of_decodes (.again .start hdecode hreceive)⟩
  · rintro ⟨s', hs'⟩
    exact ⟨s', .again hdecode hreceive hs'⟩

theorem timely_incomplete {command : Command} {length : Nat} {tried : Bytes} {needed : Nom.Needed}
    (hparse : Parser.parse tried command = .incomplete needed) :
    Timely command length tried ↔ asked tried.length needed ≤ length := by
  cases needed <;> simp [Timely, hparse, asked]

theorem timely_accepted {command : Command} {length : Nat} {tried rest : Bytes}
    {response : Response} (hparse : Parser.parse tried command = .ok rest response) :
    Timely command length tried ↔
      rest.length ≤ Buffer.chunkSize ∧ (Host.traceEnabled → Utf8.valid tried) := by
  simp only [Timely, hparse]

/-- The response is returned exactly when all prefixes tried are timely. -/
theorem Tracks.returns {w rest : Bytes} {command : Command} {response : Response}
    (hparse : Parser.parse w command = .ok rest response) (hmax : w.length ≤ Buffer.maxSize)
    {fuel : Nat} {s : PopStream} {d : Delivery} (h : Tracks s command w d)
    (hneeds : d.needs ≤ w.length) (hfuel : d.coming.flatten.length < fuel) :
    (∃ s', Polls s (.ok response s')) ↔
      ∀ x ∈ d.triedWithin command fuel, Timely command w.length x := by
  induction fuel generalizing s d with
  | zero => exact absurd hfuel (Nat.not_lt_zero _)
  | succ fuel ih =>
    have hstable := Parser.parse_stable command
    have hlength := h.length
    by_cases hskip : d.seen.length < d.needs
    · -- The bytes asked for have not arrived, so there is more to come.
      have hcoming : d.coming ≠ [] := by
        intro hnil
        simp only [hnil, List.flatten_nil, List.length_nil] at hlength
        omega
      rw [Delivery.triedWithin, if_pos hskip]
      refine h.reads_on hmax (decode_skip ?_) hneeds hcoming hfuel ih
      rw [h.holds.cursor, h.needs]
      exact hskip
    · rw [Delivery.triedWithin, if_neg hskip, List.forall_mem_cons]
      have hcases := decode_command (s := s) (by rw [h.holds.cursor, h.needs]; omega) h.queue
      have hvalid : Utf8.valid s.buffer.inner = Utf8.valid d.seen := by
        rw [h.buffer]
        exact Utf8.valid_append_zeros _ _
      generalize hdecode : decode s = r at hcases
      cases hcases with
      | overrun hlen => exact absurd h.holds.le (Nat.not_le.mpr hlen)
      | @accepted rest' response' hparse' htrace hrest =>
        rw [h.holds.take] at hparse'
        have hwhole := hstable.ok hparse' d.coming.flatten
        rw [h.rest, hparse] at hwhole
        cases hwhole
        simp only [hparse', timely_accepted hparse', List.not_mem_nil, false_imp_iff, implies_true,
          and_true]
        exact iff_of_true ⟨_, .done hdecode⟩ ⟨hrest, hvalid ▸ htrace⟩
      | untraceable hparse' htrace =>
        rw [h.holds.take] at hparse'
        refine iff_of_false (not_polls_of_error hdecode) fun htimely => ?_
        exact htrace (hvalid ▸ ((timely_accepted hparse').mp htimely.1).2)
      | overflow hparse' hrest =>
        rw [h.holds.take] at hparse'
        refine iff_of_false (not_polls_of_error hdecode) fun htimely => ?_
        exact absurd ((timely_accepted hparse').mp htimely.1).1 (Nat.not_le.mpr hrest)
      | @incomplete needed hparse' =>
        rw [h.holds.take] at hparse'
        rw [h.holds.cursor] at hdecode
        simp only [hparse', timely_incomplete hparse']
        have hask := h.ask (asked d.seen.length needed)
        by_cases hasked : asked d.seen.length needed ≤ w.length
        · -- The whole response is not incomplete, so there is more to come.
          have hcoming : d.coming ≠ [] := by
            intro hnil
            have hseen : d.seen = w := by simpa [hnil] using h.rest
            rw [hseen, hparse] at hparse'
            cases hparse'
          simp only [hasked, true_and]
          exact hask.reads_on hmax hdecode hasked hcoming hfuel ih
        · refine iff_of_false ?_ fun htimely => hasked htimely.1
          rintro ⟨_, hs'⟩
          have hlate := Nat.not_le.mp hasked
          have hskip' := decode_skip (s := { s with decodeNeeds := asked d.seen.length needed })
            (by rw [h.holds.cursor]; dsimp only; omega)
          refine waits hask.holds ?_ response (hs'.of_skip hdecode hskip')
          rwa [hask.incoming_eq]
      | rejected hparse' =>
        rw [h.holds.take] at hparse'
        obtain ⟨e, herror⟩ := hstable.error hparse' d.coming.flatten
        rw [h.rest, hparse] at herror
        cases herror

/-- A fresh stream to which the chunks of a response of at most the maximal size are
delivered returns the response if and only if every prefix of it that the parser is
tried on is timely. -/
theorem readResponse_chunks {command : Command} {w rest : Bytes} {response : Response}
    (hparse : Parser.parse w command = .ok rest response) (hmax : w.length ≤ Buffer.maxSize)
    {chunks : List Bytes} (hchunks : chunks.flatten = w) (hne : ∀ chunk ∈ chunks, chunk ≠ []) :
    (∃ s', readResponse command (new (delivering chunks)) = finished (deliver response) s') ↔
      ∀ x ∈ Delivery.tried command chunks, Timely command w.length x := by
  subst hchunks
  have htracks := start_tracks command hne
  refine Iff.trans ?_ (htracks.returns hparse hmax (Nat.zero_le _) (Nat.lt_succ_self _))
  have hfinished : ∀ s', readResponse command (new (delivering chunks)) =
      finished (deliver response) s' ↔ _ := fun s' =>
    readResponse_finished (new_holds _) (deliver_answered response)
  simp only [hfinished]
  refine exists_congr fun s' => ⟨?_, fun h => ⟨response, h, rfl⟩⟩
  rintro ⟨response', hpolls, -⟩
  -- Whatever response comes out is the one of the whole input.
  obtain ⟨t, ht, hends⟩ := hpolls.last
  obtain ⟨bytes, hholds, hbytes⟩ := ht.incoming_eq htracks.holds
  obtain ⟨command', queue, rest', hq, hparse', -, -⟩ := decode_eq_some hends
  rw [htracks.incoming_eq] at hbytes
  obtain ⟨-, -, -, hqueue⟩ := ht.holds htracks.holds
  obtain ⟨rfl, rfl⟩ : command' = command ∧ queue = [] := by
    simpa [hqueue, htracks.queue] using hq.symm
  rw [hholds.take] at hparse'
  have hwhole := (Parser.parse_stable _).ok hparse' (incoming t.stream.reads)
  rw [hbytes, hparse] at hwhole
  cases hwhole
  exact hpolls

omit [Host] in
theorem readResponse_chunks_stat : ∃ s',
    @readResponse (.bare false) .stat (new (delivering [ascii "+OK 1", ascii " 2\r\n"])) =
      finished (deliver (.stat ⟨⟨ascii "1"⟩, ⟨ascii "2"⟩⟩)) s' := by
  have hparse : @Parser.parse (.bare false) (ascii "+OK 1 2\r\n") .stat =
      .ok [] (.stat ⟨⟨ascii "1"⟩, ⟨ascii "2"⟩⟩) := by decide
  have hne : ∀ chunk ∈ [ascii "+OK 1", ascii " 2\r\n"], chunk ≠ [] := by decide
  exact (@readResponse_chunks (.bare false) .stat _ [] _ hparse (by decide) _ rfl hne).mpr
    (by decide)

omit [Host] in
/-- After the lone CR the parser asks for two bytes, of which only one comes. -/
theorem readResponse_chunks_uidl :
    @Parser.parse (.bare false) (ascii "+OK 1 a\r\n") .uidl =
        .ok [] (.uidl (.single ⟨⟨ascii "1"⟩, ⟨ascii "a"⟩⟩)) ∧
      [ascii "+OK 1 a\r", ascii "\n"].flatten = ascii "+OK 1 a\r\n" ∧
      (∀ chunk ∈ [ascii "+OK 1 a\r", ascii "\n"], chunk ≠ []) ∧
      exit? (@readResponse (.bare false) .uidl
        (new (delivering [ascii "+OK 1 a\r", ascii "\n"]))) = some .pending := by
  decide +kernel

end PopStream

end Pop
