-- SUMMARY: The response parser is stable under extension and always consumes.
import GetEmail.Nom.Stable
import GetEmail.Pop.Parser

/-!
# Stability of the response grammars

Every grammar is built from stable combinators. The dispatch of `parse` adds two
things to a sequence of combinators: the empty input, and the challenge that
falls back to a status line when its base64 does not decode.
-/

namespace Pop.Parser

open Nom

/-! ## The grammars -/

theorem eol_stable : Stable eol := (Stable.space0.pair .lineEnding).bind fun _ => .pure _

theorem endOfMultiline_stable : Stable endOfMultiline :=
  ((Stable.tag _).pair .lineEnding).bind fun _ => .pure _

theorem messageParser_stable : Stable messageParser :=
  Stable.notLineEnding.opt.terminated eol_stable

theorem status_stable : Stable status := by
  refine (Stable.map ?_ _).terminated .space0
  exact ((Stable.tag _).value _).alt_cons ((Stable.tag _).value _)

theorem stat_stable : Stable stat :=
  Stable.digit1.bind fun _ => Stable.space1.bind fun _ => Stable.digit1.bind fun _ =>
    Stable.notLineEnding.opt.bind fun _ => eol_stable.bind fun _ => .pure _

theorem statResponse_stable : Stable statResponse := stat_stable.bind fun _ => .pure _

theorem listStats_stable : Stable listStats := by
  refine Stable.digit1.bind fun _ => Stable.space1.bind fun _ => (Stable.takeWhile _).bind fun _ =>
    Stable.space1.bind fun _ => Stable.bind ?_ fun _ => eol_stable.bind fun _ => .pure _
  exact (Stable.char _).delimited (Stable.digit1.bind fun _ => Stable.space1.bind fun _ =>
    (Stable.takeWhile _).bind fun _ => .pure _) (.char _)

theorem listResponse_stable : Stable listResponse := by
  refine Stable.bind ?_ fun _ =>
    (((Stable.tag _).opt.preceded stat_stable).manyTill endOfMultiline_stable).bind
      fun _ => .pure _
  exact (listStats_stable.map _).alt_cons (messageParser_stable.map _)

theorem uidl_stable : Stable uidl :=
  Stable.digit1.bind fun _ => Stable.space1.bind fun _ =>
    (Stable.takeWhileMN _ (by decide)).bind fun _ => eol_stable.bind fun _ => .pure _

theorem uidlListResponse_stable : Stable uidlListResponse :=
  messageParser_stable.bind fun _ =>
    (((Stable.tag _).opt.preceded uidl_stable).manyTill endOfMultiline_stable).bind
      fun _ => .pure _

theorem uidlResponse_stable : Stable uidlResponse := uidl_stable.bind fun _ => .pure _

theorem rfc822Response_stable : Stable rfc822Response :=
  messageParser_stable.bind fun _ => (Stable.takeUntil _).bind fun _ => eol_stable.bind fun _ =>
    endOfMultiline_stable.bind fun _ => .pure _

theorem errorResponse_stable : Stable errorResponse := messageParser_stable.bind fun _ => .pure _

theorem stringResponse_stable : Stable stringResponse :=
  messageParser_stable.bind fun _ => .pure _

theorem saslMechanism_stable : Stable saslMechanism :=
  .alt_cons (.tagNoCase _) <| .alt_cons (.tagNoCase _) <| .alt_cons (.tagNoCase _) <|
    .alt_cons (.tagNoCase _) <| .alt_cons (.tagNoCase _) <| .alt_cons (.tagNoCase _) <|
      .tagNoCase _

theorem sasl_stable : Stable sasl :=
  (Stable.tagNoCase _).bind fun _ => Stable.space0.bind fun _ =>
    (Stable.space1.separatedList0 saslMechanism_stable).bind fun _ =>
      eol_stable.bind fun _ => .pure _

theorem loginDelay_stable : Stable loginDelay :=
  (Stable.tagNoCase _).bind fun _ => Stable.space1.bind fun _ => Stable.digit1.bind fun _ =>
    eol_stable.bind fun _ => .pure _

theorem expire_stable : Stable expire := by
  refine (Stable.tagNoCase _).bind fun _ => (Stable.space1.preceded ?_).opt.bind fun _ =>
    eol_stable.bind fun _ => .pure _
  exact (Stable.digit1.map _).alt_cons ((Stable.tagNoCase _).value _)

theorem implementation_stable : Stable implementation :=
  (Stable.tagNoCase _).bind fun _ => messageParser_stable.bind fun _ => .pure _

theorem unknownCapability_stable : Stable unknownCapability :=
  ((Stable.many1 (.oneOf _)).map _).terminated eol_stable

theorem keyword_stable (word : String) (capa : Capability) : Stable (keyword word capa) :=
  ((Stable.tagNoCase _).value _).terminated eol_stable

theorem capability_stable : Stable capability :=
  .alt_cons (keyword_stable _ _) <| .alt_cons (keyword_stable _ _) <|
    .alt_cons (keyword_stable _ _) <| .alt_cons sasl_stable <| .alt_cons loginDelay_stable <|
      .alt_cons (keyword_stable _ _) <| .alt_cons expire_stable <|
        .alt_cons (keyword_stable _ _) <| .alt_cons implementation_stable <|
          .alt_cons (keyword_stable _ _) unknownCapability_stable

theorem capabilityResponse_stable : Stable capabilityResponse :=
  messageParser_stable.bind fun _ => (capability_stable.manyTill endOfMultiline_stable).bind
    fun _ => .pure _

theorem auth_stable : Stable auth :=
  (Stable.tag _).bind fun _ => Stable.space1.bind fun _ => messageParser_stable.bind
    fun _ => .pure _

/-! ## The dispatch -/

theorem okResponse_stable (request : Command) : Stable (okResponse request) := by
  cases request with
  | stat => exact statResponse_stable
  | uidl => exact uidlResponse_stable.alt_cons uidlListResponse_stable
  | list => exact statResponse_stable.alt_cons listResponse_stable
  | retr => exact rfc822Response_stable
  | top => exact rfc822Response_stable
  | capa => exact capabilityResponse_stable
  | _ => exact stringResponse_stable

theorem afterStatus_stable (request : Command) (status : Status) :
    Stable (if status.success then okResponse request else errorResponse) := by
  split
  · exact okResponse_stable request
  · exact errorResponse_stable

theorem statusResponse_stable (request : Command) : Stable (statusResponse request) :=
  status_stable.bind (afterStatus_stable request)

variable [Host]

/-- A challenge is tried before the status line. -/
def takesChallenge : Command → Bool
  | .base64 _ | .auth => true
  | _ => false

theorem parse_eq (x : Bytes) (request : Command) :
    parse x request =
      if x = [] then .incomplete .unknown
      else if takesChallenge request then
        match auth x with
        | .ok rest base64Challenge =>
          match Host.base64Decode base64Challenge with
          | some challenge => .ok rest (.challenge ⟨challenge⟩)
          | none => statusResponse request x
        | .incomplete needed => .incomplete needed
        | .error _ => statusResponse request x
      else statusResponse request x := by
  unfold parse
  cases request <;> rfl

theorem parse_nil (request : Command) : parse [] request = .incomplete .unknown := rfl

theorem parse_stable (request : Command) : Stable (parse · request) := by
  have hs := statusResponse_stable request
  refine ⟨?_, ?_, ?_⟩
  · intro x rest r h
    simp only [parse_eq] at h
    split at h
    · cases h
    split at h
    · split at h
      · next ha =>
        split at h
        · cases h; exact auth_stable.suffix ha
        · exact hs.suffix h
      · cases h
      · exact hs.suffix h
    · exact hs.suffix h
  · intro x rest r h s
    simp only [parse_eq] at h ⊢
    split at h
    · cases h
    next hne =>
      rw [if_neg (by simp [hne])]
      split at h
      · next hc =>
        rw [if_pos hc]
        split at h
        · next ha =>
          simp only [auth_stable.ok ha s]
          split at h
          · cases h; simp
          · simp [hs.ok h s]
        · cases h
        · next ha =>
          obtain ⟨e', ha'⟩ := auth_stable.error ha s
          simp [ha', hs.ok h s]
      · next hc => simp [hc, hs.ok h s]
  · intro x e h s
    simp only [parse_eq] at h ⊢
    split at h
    · cases h
    next hne =>
      rw [if_neg (by simp [hne])]
      split at h
      · next hc =>
        rw [if_pos hc]
        split at h
        · next ha =>
          simp only [auth_stable.ok ha s]
          split at h
          · cases h
          · next hd => simpa [hd] using hs.error h s
        · cases h
        · next ha =>
          obtain ⟨e', ha'⟩ := auth_stable.error ha s
          simpa [ha'] using hs.error h s
      · next hc => simpa [hc] using hs.error h s

/-! ## Consumption -/

omit [Host] in
theorem status_consumes : Consumes status := by
  have htag : Consumes (alt [value true (tag okTag), value false (tag errTag)]) :=
    Consumes.alt_cons ((Consumes.tag (by decide)).bind fun _ => .pure _)
      ((Consumes.tag (by decide)).bind fun _ => .pure _)
  exact (htag.bind fun _ => .pure _).bind fun _ => Stable.space0.bind fun _ => .pure _

omit [Host] in
theorem statusResponse_consumes (request : Command) : Consumes (statusResponse request) :=
  status_consumes.bind (afterStatus_stable request)

omit [Host] in
theorem auth_consumes : Consumes auth :=
  (Consumes.tag (by decide)).bind fun _ => Stable.space1.bind fun _ =>
    messageParser_stable.bind fun _ => .pure _

theorem parse_consumes {x rest : Bytes} {request : Command} {r : Response}
    (h : parse x request = .ok rest r) : rest.length < x.length := by
  have hs := statusResponse_consumes request
  simp only [parse_eq] at h
  split at h
  · cases h
  split at h
  · split at h
    · next ha =>
      split at h
      · cases h; exact auth_consumes.lt ha
      · exact hs.lt h
    · cases h
    · exact hs.lt h
  · exact hs.lt h

/-- An answer of the parser is the answer for every longer input, and reads a
nonempty prefix of it. -/
theorem parse_extension (x : Bytes) (request : Command) :
    (∀ rest r, parse x request = .ok rest r →
      (∃ used, used ≠ [] ∧ x = used ++ rest) ∧
        ∀ s, parse (x ++ s) request = .ok (rest ++ s) r) ∧
    (∀ e, parse x request = .error e → ∀ s, ∃ e', parse (x ++ s) request = .error e') := by
  have hstable := parse_stable request
  refine ⟨fun rest r h => ⟨?_, fun s => hstable.ok h s⟩, fun e h s => hstable.error h s⟩
  obtain ⟨used, hused⟩ := hstable.suffix h
  refine ⟨used, ?_, hused.symm⟩
  rintro rfl
  have := parse_consumes h
  simp [← hused] at this

/-- A part of a response is neither accepted nor rejected. -/
theorem parse_part {x w : Bytes} {request : Command} {r : Response}
    (hwhole : parse w request = .ok [] r) (hx : x <+: w) (hne : x ≠ w) :
    ∃ needed, parse x request = .incomplete needed := by
  have hstable := parse_stable request
  obtain ⟨more, rfl⟩ := hx
  cases hparse : parse x request with
  | ok rest r' =>
    have hmore := hstable.ok hparse more
    rw [hwhole, IResult.ok.injEq] at hmore
    obtain ⟨-, rfl⟩ := List.append_eq_nil_iff.mp hmore.1.symm
    exact absurd (List.append_nil x).symm hne
  | error e =>
    obtain ⟨e', herror⟩ := hstable.error hparse more
    rw [hwhole] at herror
    cases herror
  | incomplete needed => exact ⟨needed, rfl⟩

/-- So of a response and what follows it the parser reads a part only, or the response. -/
theorem parse_within {x w tail : Bytes} {request : Command} {r : Response}
    (hwhole : parse w request = .ok [] r) (hx : x <+: w ++ tail) :
    (x <+: w ∧ x ≠ w ∧ ∃ needed, parse x request = .incomplete needed) ∨
      ∃ more, parse x request = .ok more r := by
  rcases List.prefix_or_prefix_of_prefix hx (List.prefix_append w tail) with hle | ⟨more, rfl⟩
  · by_cases hne : x = w
    · exact .inr ⟨[], hne ▸ hwhole⟩
    · exact .inl ⟨hle, hne, parse_part hwhole hle hne⟩
  · exact .inr ⟨more, (parse_stable request).ok hwhole more⟩

omit [Host] in
theorem parse_extension_stat :
    @parse (.bare false) (ascii "+OK 1 2\r\n" ++ ascii "+OK") .stat =
      .ok (ascii "+OK") (.stat ⟨⟨ascii "1"⟩, ⟨ascii "2"⟩⟩) :=
  ((@parse_extension (.bare false) (ascii "+OK 1 2\r\n") .stat).1 [] _
    (by decide)).2 (ascii "+OK")

end Pop.Parser
