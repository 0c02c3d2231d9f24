-- SUMMARY: How the delivery of some chunks ends, told from the prefixes that the parser is tried on.
import GetEmail.Pop.Chunking

/-!
# Endings

A delivery is decided when the parser answers on what has arrived. It is so if the parser
answers on what the buffer can hold of the whole, and asks for nothing behind it. Reads of
the end of the stream, which bring no bytes, do not change that.
-/

namespace Pop

open Nom (Bytes)

variable [Host]

/-! ## How a delivery ends -/

inductive Ending where
  /-- The parser accepts or rejects these bytes. -/
  | decided (seen : Bytes)
  /-- The buffer would grow over its limit. -/
  | full
  /-- All has arrived, and the parser asks for more. -/
  | unfinished
  deriving DecidableEq

namespace Delivery

/-- `decode` on what has arrived, unless the parser answers. -/
def decode (command : Command) (d : Delivery) : Option Delivery :=
  if d.seen.length < d.needs then some d
  else
    match Parser.parse d.seen command with
    | .incomplete needed => some { d with needs := PopStream.asked d.seen.length needed }
    | _ => none

def endingWithin (command : Command) : Nat → Delivery → Ending
  | 0, _ => .unfinished
  | fuel + 1, d =>
    match d.decode command with
    | none => .decided d.seen
    | some d =>
      if d.Full then .full else (d.read.map (endingWithin command fuel)).getD .unfinished

/-- A bound on the number of reads. -/
def reads (d : Delivery) : Nat := (d.coming.map fun chunk => chunk.length + 1).sum

def ending (command : Command) (d : Delivery) : Ending := endingWithin command (d.reads + 1) d

/-- The end of the stream, read `n` times behind the delivery. -/
def closing (d : Delivery) (n : Nat) : Delivery :=
  { d with coming := d.coming ++ List.replicate n [] }

/-! ## The end of the stream changes no ending -/

omit [Host] in
theorem read_fits {d d' : Delivery} (h : d.read = some d') (hfits : d.seen.length ≤ d.size) :
    d'.seen.length ≤ d'.size ∧ d'.reads < d.reads := by
  cases hcoming : d.coming with
  | nil => simp [read, hcoming] at h
  | cons chunk coming =>
    rw [read_cons hcoming] at h
    cases h
    have hlt := Buffer.lt_ensuredSize hfits d.needs
    have hroom : d.room = Buffer.ensuredSize d.size d.seen.length d.needs - d.seen.length := rfl
    constructor
    · simp only [List.length_append, List.length_take]
      omega
    · simp only [reads, hcoming, List.map_cons, List.sum_cons]
      split
      · omega
      · simp only [List.map_cons, List.sum_cons, List.length_drop]
        omega

theorem decode_spec {command : Command} {d d' : Delivery} (h : d.decode command = some d') :
    d'.seen = d.seen ∧ d'.size = d.size ∧ d'.coming = d.coming ∧
      ∀ size coming, decode command ⟨d.seen, size, d'.needs, coming⟩ =
        some ⟨d.seen, size, d'.needs, coming⟩ := by
  unfold decode at h
  split at h
  · next hskip =>
    cases h
    exact ⟨rfl, rfl, rfl, fun size coming => by simp [decode, hskip]⟩
  · split at h <;> cases h
    next hparse => exact ⟨rfl, rfl, rfl, fun size coming => by simp [decode, hparse]⟩

theorem decode_closing (command : Command) (d : Delivery) (n : Nat) :
    (d.closing n).decode command = (d.decode command).map (closing · n) := by
  by_cases hskip : d.seen.length < d.needs
  · simp [decode, closing, hskip]
  · cases hparse : Parser.parse d.seen command <;> simp [decode, closing, hskip, hparse]

omit [Host] in
theorem read_closing {d : Delivery} (h : d.coming ≠ []) (n : Nat) :
    (d.closing n).read = d.read.map (closing · n) := by
  obtain ⟨chunk, coming, hcoming⟩ := List.exists_cons_of_ne_nil h
  have hclosing : (d.closing n).coming = chunk :: (coming ++ List.replicate n []) := by
    simp [closing, hcoming]
  have hroom : (d.closing n).room = d.room := rfl
  rw [read_cons hcoming, read_cons hclosing, hroom]
  by_cases hle : chunk.length ≤ d.room
  · simp only [hle, if_true, Option.map_some, closing]
  · simp only [hle, if_false, Option.map_some, closing, List.cons_append]

omit [Host] in
/-- Once the buffer is as large as was asked for, it stays so. -/
theorem ensuredSize_idem {size cursor : Nat} (h : cursor ≤ size) (needs : Nat) :
    Buffer.ensuredSize (Buffer.ensuredSize size cursor needs) cursor needs =
      Buffer.ensuredSize size cursor needs := by
  have hlt := Buffer.lt_ensuredSize h needs
  have hneeds : needs ≤ Buffer.ensuredSize size cursor needs := by
    unfold Buffer.ensuredSize
    split
    · have := (Buffer.roundUp_spec (size + max Buffer.chunkSize (needs - size))).1
      omega
    · omega
  generalize Buffer.ensuredSize size cursor needs = size' at hlt hneeds
  rw [Buffer.ensuredSize, if_neg (by omega)]

/-- At its end a delivery stays as it is, however often the end is read. -/
theorem endingWithin_end {command : Command} {d : Delivery} (hdecode : d.decode command = some d)
    (hfits : d.seen.length ≤ d.size) (hfull : ¬ d.Full) (n fuel : Nat)
    (hcoming : d.coming = List.replicate n []) : endingWithin command fuel d = .unfinished := by
  induction fuel generalizing d n with
  | zero => rfl
  | succ fuel ih =>
    simp only [endingWithin, hdecode, hfull, if_false]
    cases n with
    | zero => simp [read, hcoming]
    | succ n =>
      rw [List.replicate_succ] at hcoming
      rw [read_cons hcoming, Option.map_some, Option.getD_some]
      have hlt := Buffer.lt_ensuredSize hfits d.needs
      refine ih ?_ ?_ ?_ n (by simp)
      · simpa using (decode_spec hdecode).2.2.2 _ _
      · simpa using hlt.le
      · simpa [Full, ensuredSize_idem hfits] using hfull

theorem endingWithin_closing {command : Command} {d : Delivery} {fuel fuel' : Nat} (n : Nat)
    (hfits : d.seen.length ≤ d.size) (hfuel : d.reads < fuel)
    (hfuel' : (d.closing n).reads < fuel') :
    endingWithin command fuel' (d.closing n) = endingWithin command fuel d := by
  induction fuel generalizing d fuel' with
  | zero => exact absurd hfuel (Nat.not_lt_zero _)
  | succ fuel ih =>
    obtain ⟨fuel', rfl⟩ : ∃ k, fuel' = k + 1 := ⟨fuel' - 1, by omega⟩
    simp only [endingWithin, decode_closing]
    cases hdecode : d.decode command with
    | none => rfl
    | some d₁ =>
      obtain ⟨hseen, hsize, hsame, hidem⟩ := decode_spec hdecode
      simp only [Option.map_some]
      have hfull : (d₁.closing n).Full ↔ d₁.Full := Iff.rfl
      simp only [hfull]
      split
      · rfl
      next hroom =>
        have hfits₁ : d₁.seen.length ≤ d₁.size := by rw [hseen, hsize]; exact hfits
        by_cases hcoming : d₁.coming = []
        · have hrest : d₁.decode command = some d₁ := by
            simpa [← hseen] using hidem d₁.size d₁.coming
          have hread : d₁.read = none := by simp [read, hcoming]
          have hrest' : (d₁.closing n).decode command = some (d₁.closing n) := by
            rw [decode_closing, hrest, Option.map_some]
          have hend : endingWithin command (fuel' + 1) (d₁.closing n) = .unfinished :=
            endingWithin_end hrest' hfits₁ hroom n _ (by simp [closing, hcoming])
          simp only [endingWithin, decode_closing, hrest, Option.map_some, hfull, hroom,
            if_false] at hend
          rw [hend, hread, Option.map_none, Option.getD_none]
        · rw [read_closing hcoming]
          cases hread : d₁.read with
          | none => rfl
          | some d₂ =>
            obtain ⟨hfits₂, hless⟩ := read_fits hread hfits₁
            have hreads : d₁.reads = d.reads := by simp [reads, hsame]
            have hread' : (d₁.closing n).read = some (d₂.closing n) := by
              rw [read_closing hcoming, hread, Option.map_some]
            have hless' := (read_fits hread' hfits₁).2
            have hreads' : (d₁.closing n).reads = (d.closing n).reads := by
              simp [reads, closing, hsame]
            simp only [Option.map_some, Option.getD_some]
            exact ih hfits₂ (by omega) (by omega)

/-! ## What decides a delivery -/

/-- All that has arrived, and that is to come -/
def total (d : Delivery) : Bytes := d.seen ++ d.coming.flatten

/-- The prefixes that the parser is tried on until it accepts or rejects -/
def attempts (command : Command) (d : Delivery) : List Bytes :=
  d.triedWithin command (d.reads + 1)

/-- What the parser asks for on these bytes: the number of bytes before which it is not
tried again -/
def request (command : Command) (tried : Bytes) : Option Nat :=
  (Parser.parse tried command).needed?.map (PopStream.asked tried.length)

def requestsWithin (command : Command) (fuel : Nat) (d : Delivery) : List Nat :=
  d.needs :: (d.triedWithin command fuel).filterMap (request command)

/-- The bytes that were asked for before, and what is asked for on the prefixes -/
def requests (command : Command) (d : Delivery) : List Nat :=
  d.requestsWithin command (d.reads + 1)

/-- The parser answers on these bytes, and none of the requests goes beyond them. -/
def Settles (command : Command) (bytes : Bytes) (requests : List Nat) : Prop :=
  (Parser.parse bytes command).needed? = none ∧ ∀ n ∈ requests, n ≤ bytes.length

instance (command : Command) (bytes : Bytes) (requests : List Nat) :
    Decidable (Settles command bytes requests) := inferInstanceAs (Decidable (_ ∧ _))

/-- More bytes arrive than a buffer may hold, or more are asked for. -/
def Outgrows (total : Bytes) (requests : List Nat) : Prop :=
  Buffer.maxSize ≤ total.length ∨ ∃ n ∈ requests, Buffer.maxSize < n

instance (total : Bytes) (requests : List Nat) : Decidable (Outgrows total requests) :=
  inferInstanceAs (Decidable (_ ∨ _))

/-- The buffer has a size that it may have. -/
structure Sound (d : Delivery) : Prop where
  fits : d.seen.length ≤ d.size
  aligned : Buffer.chunkSize ∣ d.size
  bounded : d.size ≤ Buffer.maxSize

omit [Host] in
theorem Sound.full_iff {d : Delivery} (h : d.Sound) :
    d.Full ↔ Buffer.maxSize < d.needs ∨ d.seen.length = Buffer.maxSize := by
  have hiff : Buffer.ensuredSize d.size d.seen.length d.needs ≤ Buffer.maxSize ↔ _ :=
    Buffer.ensuredSize_le_maxSize_iff h.fits h.aligned h.bounded
  have hfits := h.fits
  have hbounded := h.bounded
  rw [Full, ← not_le, hiff]
  omega

omit [Host] in
theorem Sound.read {d d' : Delivery} (h : d.Sound) (hfull : ¬ d.Full) (hread : d.read = some d') :
    d'.Sound := by
  obtain ⟨hfits, -⟩ := read_fits hread h.fits
  cases hcoming : d.coming with
  | nil => simp [Delivery.read, hcoming] at hread
  | cons chunk coming =>
    rw [read_cons hcoming] at hread
    cases hread
    exact ⟨hfits, Buffer.ensuredSize_aligned h.aligned _ _, Nat.not_lt.mp hfull⟩

omit [Host] in
theorem read_total {d d' : Delivery} (h : d.read = some d') : d'.total = d.total ∧
    d.seen <+: d'.seen ∧ d'.needs = d.needs := by
  refine ⟨read_all h, ?_⟩
  cases hcoming : d.coming with
  | nil => simp [read, hcoming] at h
  | cons chunk coming =>
    rw [read_cons hcoming] at h
    cases h
    exact ⟨List.prefix_append _ _, rfl⟩

omit [Host] in
theorem read_eq_none {d : Delivery} (h : d.read = none) : d.total = d.seen := by
  cases hcoming : d.coming with
  | nil => simp [total, hcoming]
  | cons chunk coming => simp [read_cons hcoming] at h

/-- Bytes are asked for that are there already, or the parser asks for more. -/
theorem decode_needs {command : Command} {d d' : Delivery} (h : d.decode command = some d') :
    d.seen.length < d.needs ∧ d'.needs = d.needs ∨
      d.needs ≤ d.seen.length ∧ request command d.seen = some d'.needs := by
  unfold decode at h
  split at h
  · next hskip =>
    cases h
    exact .inl ⟨hskip, rfl⟩
  · next hskip =>
    split at h
    · next hparse =>
      cases h
      exact .inr ⟨Nat.not_lt.mp hskip, by simp [request, hparse, Nom.IResult.needed?]⟩
    · cases h

theorem decode_eq_none {command : Command} {d : Delivery} (h : d.decode command = none) :
    d.needs ≤ d.seen.length ∧ (Parser.parse d.seen command).needed? = none := by
  unfold decode at h
  split at h
  · cases h
  · next hskip =>
    refine ⟨Nat.not_lt.mp hskip, ?_⟩
    cases hparse : Parser.parse d.seen command with
    | incomplete needed =>
      rw [hparse] at h
      cases h
    | _ => rfl

theorem request_eq_none {command : Command} {bytes : Bytes} :
    request command bytes = none ↔ (Parser.parse bytes command).needed? = none := by
  simp [request]

/-- What has arrived settles nothing while `decode` waits. -/
theorem not_settles {command : Command} {d d' : Delivery} (h : d.decode command = some d')
    {requests : List Nat} (hneeds : d'.needs ∈ requests) : ¬ Settles command d.seen requests := by
  rintro ⟨hanswer, hrequests⟩
  rcases decode_needs h with ⟨hskip, hsame⟩ | ⟨-, hrequest⟩
  · have := hrequests _ hneeds
    omega
  · rw [request_eq_none.mpr hanswer] at hrequest
    cases hrequest

/-- The prefixes that are tried from a `decode` on -/
theorem triedWithin_succ (command : Command) (fuel : Nat) (d : Delivery) :
    d.triedWithin command (fuel + 1) = (if d.seen.length < d.needs then [] else [d.seen]) ++
      (((d.decode command).bind read).map (triedWithin command fuel)).getD [] := by
  by_cases hskip : d.seen.length < d.needs
  · simp [triedWithin, decode, hskip]
  · cases hparse : Parser.parse d.seen command <;> simp [triedWithin, decode, hskip, hparse]

/-- The prefixes that are tried are parts of what arrives. -/
theorem triedWithin_prefix {command : Command} {fuel : Nat} {d : Delivery} {x : Bytes}
    (hx : x ∈ d.triedWithin command fuel) : x <+: d.total := by
  induction fuel generalizing d with
  | zero => cases hx
  | succ fuel ih =>
    rw [triedWithin_succ] at hx
    rcases List.mem_append.mp hx with hx | hx
    · split at hx
      · cases hx
      · rw [List.mem_singleton.mp hx]
        exact List.prefix_append _ _
    · cases hdecode : d.decode command with
      | none => simp [hdecode] at hx
      | some d₁ =>
        obtain ⟨hseen, -, hcoming, -⟩ := decode_spec hdecode
        cases hread : d₁.read with
        | none => simp [hdecode, hread] at hx
        | some d₂ =>
          rw [hdecode, Option.bind_some, hread, Option.map_some, Option.getD_some] at hx
          have hpre := ih hx
          rwa [(read_total hread).1, total, hseen, hcoming, ← total] at hpre

theorem requestsWithin_end {command : Command} {d d' : Delivery} {fuel : Nat}
    (hdecode : d.decode command = some d') (hread : d'.read = none) (n : Nat) :
    n ∈ d.requestsWithin command (fuel + 1) ↔ n = d.needs ∨ n = d'.needs := by
  rw [requestsWithin, triedWithin_succ, hdecode, Option.bind_some, hread]
  rcases decode_needs hdecode with ⟨hskip, hsame⟩ | ⟨hle, hrequest⟩
  · simp [hskip, hsame]
  · simp [Nat.not_lt.mpr hle, hrequest]

theorem requestsWithin_read {command : Command} {d d₁ d₂ : Delivery}
    (hdecode : d.decode command = some d₁) (hread : d₁.read = some d₂) (fuel n : Nat) :
    n ∈ d.requestsWithin command (fuel + 1) ↔
      n = d.needs ∨ n ∈ d₂.requestsWithin command fuel := by
  have hneeds := (read_total hread).2.2
  rw [requestsWithin, triedWithin_succ, hdecode, Option.bind_some, hread, requestsWithin, hneeds]
  rcases decode_needs hdecode with ⟨hskip, hsame⟩ | ⟨hle, hrequest⟩
  · simp [hskip, hsame]
  · simp [Nat.not_lt.mpr hle, hrequest]

/-- What the ending of a delivery says of the prefixes that are tried and of what is asked
for -/
def Justified (command : Command) (d : Delivery) (fuel : Nat) : Ending → Prop
  | .decided seen => seen ∈ d.triedWithin command fuel ∧ d.seen <+: seen ∧ seen <+: d.total ∧
      seen.length ≤ Buffer.maxSize ∧ Settles command seen (d.requestsWithin command fuel) ∧
      ∀ x ∈ d.triedWithin command fuel, (Parser.parse x command).needed? = none → x = seen
  | .full =>
    ¬ Settles command (d.total.take Buffer.maxSize) (d.requestsWithin command fuel) ∧
      Outgrows d.total (d.requestsWithin command fuel)
  | .unfinished =>
    ¬ Settles command (d.total.take Buffer.maxSize) (d.requestsWithin command fuel) ∧
      ¬ Outgrows d.total (d.requestsWithin command fuel)

section

variable {command : Command} {d d₁ d₂ : Delivery} {fuel : Nat}

/-- What is asked for before a read is asked for behind it, unless it had arrived. -/
theorem needs_read (hdecode : d.decode command = some d₁) (hread : d₁.read = some d₂) :
    d.needs ≤ d.seen.length ∨ d.needs ∈ d₂.requestsWithin command fuel := by
  rcases decode_needs hdecode with ⟨-, hsame⟩ | ⟨hle, -⟩
  · refine .inr ?_
    rw [← hsame, ← (read_total hread).2.2, requestsWithin]
    exact List.mem_cons_self
  · exact .inl hle

theorem settles_read (hdecode : d.decode command = some d₁) (hread : d₁.read = some d₂)
    {bytes : Bytes} (hseen : d.seen.length ≤ bytes.length) :
    Settles command bytes (d.requestsWithin command (fuel + 1)) ↔
      Settles command bytes (d₂.requestsWithin command fuel) := by
  have hrequests := requestsWithin_read hdecode hread fuel
  refine and_congr_right fun _ => ⟨fun h n hn => h n ((hrequests n).mpr (.inr hn)), fun h n hn => ?_⟩
  rcases (hrequests n).mp hn with rfl | hn
  · exact (needs_read hdecode hread).elim (fun hle => hle.trans hseen) (h _)
  · exact h n hn

theorem outgrows_read (hdecode : d.decode command = some d₁) (hread : d₁.read = some d₂)
    (hmax : d.seen.length ≤ Buffer.maxSize) (total : Bytes) :
    Outgrows total (d.requestsWithin command (fuel + 1)) ↔
      Outgrows total (d₂.requestsWithin command fuel) := by
  have hrequests := requestsWithin_read hdecode hread fuel
  refine or_congr_right ⟨?_, fun ⟨n, hn, hlarge⟩ => ⟨n, (hrequests n).mpr (.inr hn), hlarge⟩⟩
  rintro ⟨n, hn, hlarge⟩
  rcases (hrequests n).mp hn with rfl | hn
  · exact ⟨_, (needs_read hdecode hread).resolve_left fun hle => by omega, hlarge⟩
  · exact ⟨n, hn, hlarge⟩

/-- What is justified behind a read was so before it. -/
theorem Justified.read {ending : Ending} (hd : d.Sound) (hdecode : d.decode command = some d₁)
    (hread : d₁.read = some d₂) (h : d₂.Justified command fuel ending) :
    d.Justified command (fuel + 1) ending := by
  obtain ⟨hseen, hsize, hcoming, -⟩ := decode_spec hdecode
  obtain ⟨htotal, hpre, -⟩ := read_total hread
  have htotal : d₂.total = d.total := by rw [htotal, total, hseen, hcoming, total]
  have hmax : d.seen.length ≤ Buffer.maxSize := hd.fits.trans hd.bounded
  have hwhole : d.seen <+: d.total.take Buffer.maxSize :=
    List.prefix_take_iff.mpr ⟨List.prefix_append _ _, hmax⟩
  have hsettles : _ ↔ Settles command _ (d₂.requestsWithin command fuel) :=
    settles_read hdecode hread hwhole.length_le
  have houtgrows : _ ↔ Outgrows d.total (d₂.requestsWithin command fuel) :=
    outgrows_read hdecode hread hmax d.total
  rw [hseen] at hpre
  cases ending with
  | decided seen =>
    obtain ⟨hmem, hsome, hpart, hshort, hdecides, honly⟩ := h
    have htried : d.triedWithin command (fuel + 1) =
        (if d.seen.length < d.needs then [] else [d.seen]) ++ d₂.triedWithin command fuel := by
      rw [triedWithin_succ, hdecode, Option.bind_some, hread, Option.map_some, Option.getD_some]
    refine ⟨htried ▸ List.mem_append_right _ hmem, hpre.trans hsome, htotal ▸ hpart, hshort,
      (settles_read hdecode hread (hpre.trans hsome).length_le).mpr hdecides, fun x hx hnone => ?_⟩
    rw [htried] at hx
    rcases List.mem_append.mp hx with hx | hx
    · -- The parser asked for more, or `decode` would not have gone on.
      rcases decode_needs hdecode with ⟨hskip, -⟩ | ⟨hle, hrequest⟩
      · simp [hskip] at hx
      · obtain rfl : x = d.seen := by simpa [Nat.not_lt.mpr hle] using hx
        rw [request_eq_none.mpr hnone] at hrequest
        cases hrequest
    · exact honly x hx hnone
  | full =>
    rw [Justified, htotal] at h
    exact ⟨mt hsettles.mp h.1, houtgrows.mpr h.2⟩
  | unfinished =>
    rw [Justified, htotal] at h
    exact ⟨mt hsettles.mp h.1, mt houtgrows.mp h.2⟩

theorem Justified.answered (hd : d.Sound) (hdecode : d.decode command = none) :
    d.Justified command (fuel + 1) (.decided d.seen) := by
  obtain ⟨hneeds, hanswer⟩ := decode_eq_none hdecode
  have htried : d.triedWithin command (fuel + 1) = [d.seen] := by
    simp [triedWithin_succ, hdecode, Nat.not_lt.mpr hneeds]
  have hrequests : d.requestsWithin command (fuel + 1) = [d.needs] := by
    simp [requestsWithin, htried, request_eq_none.mpr hanswer]
  refine ⟨by simp [htried], List.prefix_rfl, List.prefix_append _ _, hd.fits.trans hd.bounded,
    ⟨hanswer, ?_⟩, ?_⟩
  · simpa [hrequests] using hneeds
  · simp [htried]

theorem Sound.decode (hd : d.Sound) (hdecode : d.decode command = some d₁) : d₁.Sound := by
  obtain ⟨hseen, hsize, -, -⟩ := decode_spec hdecode
  exact ⟨hseen ▸ hsize ▸ hd.fits, hsize ▸ hd.aligned, hsize ▸ hd.bounded⟩

/-- The buffer is full: it holds as much as it may, or too much is asked for. -/
theorem Justified.overfull (hd : d.Sound) (hdecode : d.decode command = some d₁)
    (hfull : d₁.Full) : d.Justified command (fuel + 1) .full := by
  have hneeds : d₁.needs ∈ d.requestsWithin command (fuel + 1) := by
    cases hread : d₁.read with
    | none => exact (requestsWithin_end hdecode hread _).mpr (.inr rfl)
    | some d₂ =>
      refine (requestsWithin_read hdecode hread _ _).mpr (.inr ?_)
      rw [← (read_total hread).2.2, requestsWithin]
      exact List.mem_cons_self
  rcases (hd.decode hdecode).full_iff.mp hfull with hlarge | hwhole
  · refine ⟨fun hsettles => ?_, .inr ⟨_, hneeds, hlarge⟩⟩
    have hle := hsettles.2 _ hneeds
    rw [List.length_take] at hle
    omega
  · rw [(decode_spec hdecode).1] at hwhole
    have htake : d.total.take Buffer.maxSize = d.seen := by rw [total, ← hwhole, List.take_left]
    refine ⟨htake ▸ not_settles hdecode hneeds, .inl ?_⟩
    rw [← hwhole, total, List.length_append]
    omega

/-- Nothing more arrives, and the buffer has room. -/
theorem Justified.ended (hd : d.Sound) (hdecode : d.decode command = some d₁)
    (hroom : ¬ d₁.Full) (hread : d₁.read = none) :
    d.Justified command (fuel + 1) .unfinished := by
  obtain ⟨hseen, -, hcoming, -⟩ := decode_spec hdecode
  have hmax : d.seen.length ≤ Buffer.maxSize := hd.fits.trans hd.bounded
  have htotal : d.total = d.seen := by
    have hwhole := read_eq_none hread
    rwa [total, hseen, hcoming] at hwhole
  rw [(hd.decode hdecode).full_iff, hseen, not_or] at hroom
  have hrequests (n : Nat) : n ∈ d.requestsWithin command (fuel + 1) ↔ n = d.needs ∨ n = d₁.needs :=
    requestsWithin_end hdecode hread n
  refine ⟨?_, ?_⟩
  · rw [htotal, List.take_of_length_le hmax]
    exact not_settles hdecode ((hrequests _).mpr (.inr rfl))
  · rw [htotal]
    rintro (hlarge | ⟨n, hn, hlarge⟩)
    · omega
    · rcases (hrequests n).mp hn with rfl | rfl
      · rcases decode_needs hdecode with ⟨-, hsame⟩ | ⟨hle, -⟩ <;> omega
      · exact hroom.1 hlarge

end

theorem endingWithin_justified (command : Command) {d : Delivery} {fuel : Nat} (hd : d.Sound)
    (hfuel : d.reads < fuel) : d.Justified command fuel (d.endingWithin command fuel) := by
  induction fuel generalizing d with
  | zero => exact absurd hfuel (Nat.not_lt_zero _)
  | succ fuel ih =>
    simp only [endingWithin]
    cases hdecode : d.decode command with
    | none => exact .answered hd hdecode
    | some d₁ =>
      have hd₁ := hd.decode hdecode
      dsimp only
      by_cases hfull : d₁.Full
      · rw [if_pos hfull]
        exact .overfull hd hdecode hfull
      · rw [if_neg hfull]
        cases hread : d₁.read with
        | none => exact .ended hd hdecode hfull hread
        | some d₂ =>
          have hless := (read_fits hread hd₁.fits).2
          have hreads : d₁.reads = d.reads := by simp [reads, (decode_spec hdecode).2.2.1]
          exact (ih (hd₁.read hfull hread) (by omega)).read hd hdecode hread

end Delivery

end Pop
