-- SUMMARY: The kinds of response that an accepted input can have.
import GetEmail.Pop.ParserStable

/-!
# Kinds of response

Which kind of response comes out of the parser depends on the status of the line
and on the command it is parsed under.
-/

namespace Pop.Parser

open Nom (Bytes Parser IResult)

/-- A status is read off the tag that the input starts with. -/
theorem status_eq_ok {x rest : Bytes} {s : Status} (h : status x = .ok rest s) :
    (if s.success then okTag else errTag) <+: x := by
  obtain ⟨mid, s', hmap, hspace⟩ := IResult.bind_eq_ok.mp h
  obtain ⟨_, _, _, hs⟩ := IResult.bind_eq_ok.mp hspace
  cases hs
  obtain ⟨mid', success, halt, hs'⟩ := IResult.bind_eq_ok.mp hmap
  cases hs'
  simp only [Nom.alt] at halt
  split at halt
  · obtain ⟨_, _, htag, hvalue⟩ := IResult.bind_eq_ok.mp halt
    cases hvalue
    exact Nom.tag_prefix htag
  · obtain ⟨_, _, htag, hvalue⟩ := IResult.bind_eq_ok.mp halt
    cases hvalue
    exact Nom.tag_prefix htag

theorem statusResponse_eq_ok {x rest : Bytes} {request : Command} {r : Response}
    (h : statusResponse request x = .ok rest r) :
    (okTag <+: x ∧ ∃ mid, okResponse request mid = .ok rest r) ∨
      errTag <+: x ∧ ∃ text, r = .err text := by
  obtain ⟨mid, s, hstatus, hbranch⟩ := IResult.bind_eq_ok.mp h
  have hpre := status_eq_ok hstatus
  cases hs : s.success with
  | true =>
    simp only [hs, if_true] at hbranch hpre
    exact .inl ⟨hpre, mid, hbranch⟩
  | false =>
    simp only [hs, Bool.false_eq_true, if_false] at hbranch hpre
    obtain ⟨_, message, _, hresponse⟩ := IResult.bind_eq_ok.mp hbranch
    cases hresponse
    exact .inr ⟨hpre, _, rfl⟩

/-- The commands that are answered with a line of text. -/
def answeredByText : Command → Bool
  | .stat | .uidl | .list | .retr | .top | .capa => false
  | _ => true

theorem okResponse_text {mid rest : Bytes} {request : Command} {r : Response}
    (hrequest : answeredByText request) (h : okResponse request mid = .ok rest r) :
    ∃ text, r = .message text := by
  have hstring : ∀ {r}, stringResponse mid = .ok rest r → ∃ text, r = .message text := by
    intro r h
    obtain ⟨_, message, _, hresponse⟩ := IResult.bind_eq_ok.mp h
    cases hresponse
    exact ⟨_, rfl⟩
  cases request <;> first
    | exact hstring h
    | simp [answeredByText] at hrequest

/-- No positive response is a challenge. -/
theorem okResponse_not_challenge {mid rest : Bytes} {request : Command} {text : Text} :
    okResponse request mid ≠ .ok rest (.challenge text) := by
  have hbind {α : Type} {p : Parser α} {f : α → Parser Response}
      (hf : ∀ a {x}, f a x ≠ .ok rest (.challenge text)) {x : Bytes} :
      (p >>= f) x ≠ .ok rest (.challenge text) := by
    intro h
    obtain ⟨_, a, _, h⟩ := IResult.bind_eq_ok.mp h
    exact hf a h
  have halt {p q : Parser Response} (hp : ∀ {x}, p x ≠ .ok rest (.challenge text))
      (hq : ∀ {x}, q x ≠ .ok rest (.challenge text)) :
      Nom.alt [p, q] mid ≠ .ok rest (.challenge text) := by
    simp only [Nom.alt]
    split
    · exact hq
    · exact hp
  have hlast {r : Response} (hr : ∀ text, r ≠ .challenge text) {x : Bytes} :
      (pure r : Parser Response) x ≠ .ok rest (.challenge text) := by
    intro h
    cases h
    exact hr text rfl
  cases request with
  | stat => exact hbind fun _ => hlast (by simp)
  | uidl => exact halt (hbind fun _ => hlast (by simp)) (hbind fun _ => hbind fun _ => hlast (by simp))
  | list => exact halt (hbind fun _ => hlast (by simp)) (hbind fun _ => hbind fun _ => hlast (by simp))
  | retr | top => exact hbind fun _ => hbind fun _ => hbind fun _ => hbind fun _ => hlast (by simp)
  | capa => exact hbind fun _ => hbind fun _ => hlast (by simp)
  | _ =>
    intro h
    obtain ⟨_, htext⟩ := okResponse_text rfl h
    cases htext

variable [Host]

theorem parse_eq_ok {x rest : Bytes} {request : Command} {r : Response}
    (h : parse x request = .ok rest r) :
    (takesChallenge request ∧ ∃ text, r = .challenge text) ∨
      statusResponse request x = .ok rest r := by
  rw [parse_eq] at h
  split at h
  · cases h
  split at h
  · next hchallenge =>
    split at h
    · split at h
      · cases h
        exact .inl ⟨hchallenge, _, rfl⟩
      · exact .inr h
    · cases h
    · exact .inr h
  · exact .inr h

/-- Only the lines of a handshake are answered with a challenge. -/
theorem parse_not_challenge {x rest : Bytes} {request : Command} {text : Text}
    (hrequest : takesChallenge request = false) : parse x request ≠ .ok rest (.challenge text) := by
  intro h
  rcases parse_eq_ok h with ⟨htakes, -⟩ | hstatus
  · simp [hrequest] at htakes
  · rcases statusResponse_eq_ok hstatus with ⟨-, mid, hmid⟩ | ⟨-, text', htext⟩
    · exact okResponse_not_challenge hmid
    · cases htext

/-- An answer of one line is a message after `+OK`, an error after `-ERR`, or a
challenge. -/
theorem parse_text {x rest : Bytes} {request : Command} {r : Response}
    (hrequest : answeredByText request) (h : parse x request = .ok rest r) :
    (takesChallenge request ∧ ∃ text, r = .challenge text) ∨
      (okTag <+: x ∧ ∃ text, r = .message text) ∨ errTag <+: x ∧ ∃ text, r = .err text := by
  rcases parse_eq_ok h with hchallenge | hstatus
  · exact .inl hchallenge
  · rcases statusResponse_eq_ok hstatus with ⟨hok, mid, hmid⟩ | herr
    · exact .inr (.inl ⟨hok, okResponse_text hrequest hmid⟩)
    · exact .inr (.inr herr)

/-- Under no command is a blank buffer a response. -/
theorem parse_blank (x : Bytes) (request : Command) : ∃ e, parse (0 :: x) request = .error e := by
  have hstatus : ∃ e, statusResponse request (0 :: x) = .error e := ⟨⟨0 :: x, .tag⟩, rfl⟩
  have hauth : ∃ e, auth (0 :: x) = .error e := ⟨⟨0 :: x, .tag⟩, rfl⟩
  obtain ⟨e, hauth⟩ := hauth
  simp only [parse_eq, hauth, reduceCtorEq, if_false]
  split
  · exact hstatus
  · exact hstatus

end Pop.Parser
