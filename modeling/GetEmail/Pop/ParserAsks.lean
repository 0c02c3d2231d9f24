-- SUMMARY: The response parser never asks for more than its longest literal.
import GetEmail.Nom.Asks
import GetEmail.Pop.ParserStable

/-!
# What the response grammars ask for

The longest literal is `IMPLEMENTATION`. So a reply that comes in never makes the stream
wait for more than a few bytes beyond what has come.
-/

namespace Pop.Parser

open Nom

/-- `"IMPLEMENTATION".len()` -/
def longest : Nat := 14

variable {α : Type}

theorem tag_asks (t : Bytes) (h : t.length ≤ longest) : AsksAtMost longest (tag t) :=
  (asksAtMost_tag t).mono h

theorem tagNoCase_asks (t : Bytes) (h : t.length ≤ longest) :
    AsksAtMost longest (tagNoCase t) := (asksAtMost_tagNoCase t).mono h

theorem takeWhile_asks (p : UInt8 → Bool) : AsksAtMost longest (takeWhile p) :=
  (asksAtMost_takeWhile p).mono (by decide)

theorem takeWhile1_asks (kind : Nom.ErrorKind) (p : UInt8 → Bool) :
    AsksAtMost longest (takeWhile1 kind p) := (asksAtMost_takeWhile1 kind p).mono (by decide)

theorem satisfyByte_asks (kind : Nom.ErrorKind) (p : UInt8 → Bool) :
    AsksAtMost longest (satisfyByte kind p) := (asksAtMost_satisfyByte kind p).mono (by decide)

theorem digit1_asks : AsksAtMost longest digit1 := takeWhile1_asks _ _

theorem space0_asks : AsksAtMost longest space0 := takeWhile_asks _

theorem space1_asks : AsksAtMost longest space1 := takeWhile1_asks _ _

theorem lineEnding_asks : AsksAtMost longest lineEnding := asksAtMost_lineEnding.mono (by decide)

theorem dot_asks : AsksAtMost longest (tag (ascii ".")) := tag_asks _ (by decide)

theorem text_asks : AsksAtMost longest (opt notLineEnding) :=
  (asksAtMost_notLineEnding.mono (Nat.zero_le _)).opt

/-! ## The grammars -/

theorem eol_asks : AsksAtMost longest eol :=
  (space0_asks.pair lineEnding_asks).bind fun _ => .pure _

theorem endOfMultiline_asks : AsksAtMost longest endOfMultiline :=
  (dot_asks.pair lineEnding_asks).bind fun _ => .pure _

theorem message_asks : AsksAtMost longest messageParser := text_asks.terminated eol_asks

theorem statusLine_asks : AsksAtMost longest status := by
  refine AsksAtMost.terminated (.map ?_ _) space0_asks
  exact .alt_cons (.value (tag_asks okTag (by decide)) true)
    (.value (tag_asks errTag (by decide)) false)

theorem stat_asks : AsksAtMost longest stat :=
  digit1_asks.bind fun _ => space1_asks.bind fun _ => digit1_asks.bind fun _ =>
    text_asks.bind fun _ => eol_asks.bind fun _ => .pure _

theorem statResponse_asks : AsksAtMost longest statResponse := stat_asks.bind fun _ => .pure _

theorem listStats_asks : AsksAtMost longest listStats := by
  refine digit1_asks.bind fun _ => space1_asks.bind fun _ => (takeWhile_asks _).bind fun _ =>
    space1_asks.bind fun _ => AsksAtMost.bind ?_ fun _ => eol_asks.bind fun _ => .pure _
  refine AsksAtMost.delimited (satisfyByte_asks _ _) ?_ (satisfyByte_asks _ _)
  exact digit1_asks.bind fun _ => space1_asks.bind fun _ => (takeWhile_asks _).bind fun _ => .pure _

theorem listResponse_asks : AsksAtMost longest listResponse := by
  have hentry := dot_asks.opt.preceded stat_asks
  refine AsksAtMost.bind ?_ fun _ => (hentry.manyTill endOfMultiline_asks).bind fun _ => .pure _
  exact (listStats_asks.map _).alt_cons (message_asks.map _)

theorem uidl_asks : AsksAtMost longest uidl :=
  digit1_asks.bind fun _ => space1_asks.bind fun _ =>
    AsksAtMost.bind ((asksAtMost_takeWhileMN 1 70 isValidChar).mono (by decide)) fun _ =>
      eol_asks.bind fun _ => .pure _

theorem uidlListResponse_asks : AsksAtMost longest uidlListResponse := by
  have hentry := dot_asks.opt.preceded uidl_asks
  exact message_asks.bind fun _ => (hentry.manyTill endOfMultiline_asks).bind fun _ => .pure _

theorem uidlResponse_asks : AsksAtMost longest uidlResponse := uidl_asks.bind fun _ => .pure _

theorem rfc822Response_asks : AsksAtMost longest rfc822Response :=
  message_asks.bind fun _ =>
    AsksAtMost.bind ((asksAtMost_takeUntil _).mono (Nat.zero_le _)) fun _ =>
      eol_asks.bind fun _ => endOfMultiline_asks.bind fun _ => .pure _

theorem errorResponse_asks : AsksAtMost longest errorResponse := message_asks.bind fun _ => .pure _

theorem stringResponse_asks : AsksAtMost longest stringResponse :=
  message_asks.bind fun _ => .pure _

theorem saslMechanism_asks : AsksAtMost longest saslMechanism := by
  refine .alt_cons (tagNoCase_asks _ ?_) <| .alt_cons (tagNoCase_asks _ ?_) <|
    .alt_cons (tagNoCase_asks _ ?_) <| .alt_cons (tagNoCase_asks _ ?_) <|
      .alt_cons (tagNoCase_asks _ ?_) <| .alt_cons (tagNoCase_asks _ ?_) <| tagNoCase_asks _ ?_
  all_goals decide

theorem sasl_asks : AsksAtMost longest sasl :=
  (tagNoCase_asks _ (by decide)).bind fun _ => space0_asks.bind fun _ =>
    (space1_asks.separatedList0 saslMechanism_asks).bind fun _ => eol_asks.bind fun _ => .pure _

theorem loginDelay_asks : AsksAtMost longest loginDelay :=
  (tagNoCase_asks _ (by decide)).bind fun _ => space1_asks.bind fun _ => digit1_asks.bind fun _ =>
    eol_asks.bind fun _ => .pure _

theorem expire_asks : AsksAtMost longest expire := by
  refine (tagNoCase_asks _ (by decide)).bind fun _ => (space1_asks.preceded ?_).opt.bind fun _ =>
    eol_asks.bind fun _ => .pure _
  exact (digit1_asks.map _).alt_cons ((tagNoCase_asks _ (by decide)).value _)

theorem implementation_asks : AsksAtMost longest implementation :=
  (tagNoCase_asks _ (by decide)).bind fun _ => message_asks.bind fun _ => .pure _

theorem unknownCapability_asks : AsksAtMost longest unknownCapability :=
  (AsksAtMost.map (.many1 (satisfyByte_asks _ _)) _).terminated eol_asks

theorem keyword_asks (word : String) (capa : Capability) (h : (ascii word).length ≤ longest) :
    AsksAtMost longest (keyword word capa) :=
  ((tagNoCase_asks _ h).value _).terminated eol_asks

theorem capability_asks : AsksAtMost longest capability := by
  refine .alt_cons (keyword_asks _ _ ?_) <| .alt_cons (keyword_asks _ _ ?_) <|
    .alt_cons (keyword_asks _ _ ?_) <| .alt_cons sasl_asks <| .alt_cons loginDelay_asks <|
      .alt_cons (keyword_asks _ _ ?_) <| .alt_cons expire_asks <|
        .alt_cons (keyword_asks _ _ ?_) <| .alt_cons implementation_asks <|
          .alt_cons (keyword_asks _ _ ?_) unknownCapability_asks
  all_goals decide

theorem capabilityResponse_asks : AsksAtMost longest capabilityResponse :=
  message_asks.bind fun _ => (capability_asks.manyTill endOfMultiline_asks).bind fun _ => .pure _

theorem auth_asks : AsksAtMost longest auth :=
  (tag_asks _ (by decide)).bind fun _ => space1_asks.bind fun _ =>
    message_asks.bind fun _ => .pure _

/-! ## The dispatch -/

theorem okResponse_asks (request : Command) : AsksAtMost longest (okResponse request) := by
  cases request with
  | stat => exact statResponse_asks
  | uidl => exact uidlResponse_asks.alt_cons uidlListResponse_asks
  | list => exact statResponse_asks.alt_cons listResponse_asks
  | retr => exact rfc822Response_asks
  | top => exact rfc822Response_asks
  | capa => exact capabilityResponse_asks
  | _ => exact stringResponse_asks

theorem afterStatus_asks (request : Command) : AsksAtMost longest (statusResponse request) := by
  refine statusLine_asks.bind fun status => ?_
  split
  · exact okResponse_asks request
  · exact errorResponse_asks

variable [Host]

/-- Whatever the request and the bytes that are there. -/
theorem parse_asks (request : Command) : AsksAtMost longest (parse · request) := by
  intro x n h
  simp only [parse_eq] at h
  split at h
  · cases h
  split at h
  · split at h
    · split at h
      · cases h
      · exact afterStatus_asks request h
    · next hask =>
      cases h
      exact auth_asks hask
    · exact afterStatus_asks request h
  · exact afterStatus_asks request h

end Pop.Parser
