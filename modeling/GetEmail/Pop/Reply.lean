-- SUMMARY: The replies of a server, as they are sent and as they are read.
import GetEmail.Pop.Capabilities
import GetEmail.Pop.Listings
import GetEmail.Pop.Rfc822

/-!
# Replies

The replies of RFC 1939 and RFC 2449, put together from parts that carry their own form.
Under each command that a reply answers, it is read as the response it stands for, and
what follows it is left alone.
-/

namespace Pop

open Nom (Bytes ascii crlf isDigit isSpace)
open Pop.Parser (IsLine ScanEntry IdEntry)

/-! ## Parts -/

/-- What a server says behind a status, where it does not start with a number. -/
structure Remark where
  text : Bytes
  isLine : IsLine text
  head : ∀ c ∈ text.head?, isDigit c = false ∧ isSpace c = false

/-- Nothing is said. -/
def Remark.empty : Remark :=
  ⟨[], fun _ h => absurd h List.not_mem_nil, fun _ h => absurd h (Option.not_mem_none _)⟩

/-- The lines of a message, one at least -/
structure Letter where
  lines : List Bytes
  ne_nil : lines ≠ []
  isLine : ∀ l ∈ lines, IsLine l

/-- A line of a capability listing, with the capability that it announces -/
structure Announced where
  line : Bytes
  capability : Capability
  isLine : IsLine line
  accepted : Parser.capability (line ++ crlf) = .ok [] capability

/-! ## Replies -/

inductive Reply where
  | ok (remark : Remark)
  | err (remark : Remark)
  /-- A count and a size, or a number and a size. -/
  | counts (entry : ScanEntry)
  | scans (remark : Remark) (entries : List ScanEntry)
  | uid (entry : IdEntry)
  | uids (remark : Remark) (entries : List IdEntry)
  | body (remark : Remark) (letter : Letter)
  | capabilities (remark : Remark) (announced : List Announced)

namespace Reply

/-- A reply of one line -/
def statusLine (tag text : Bytes) : Bytes := tag ++ (0x20 :: text ++ crlf)

def bytes : Reply → Bytes
  | ok remark => statusLine okTag remark.text
  | err remark => statusLine errTag remark.text
  | counts entry => statusLine okTag entry.line
  | scans remark entries => Parser.listing remark.text (entries.map ScanEntry.line)
  | uid entry => statusLine okTag entry.line
  | uids remark entries => Parser.listing remark.text (entries.map IdEntry.line)
  | body remark letter => statusLine okTag remark.text ++ Parser.wire letter.lines
  | capabilities remark announced => Parser.listing remark.text (announced.map Announced.line)

/-- What the reply stands for. The lines of a message keep their stuffing. -/
def response : Reply → Response
  | ok remark => .message ⟨remark.text⟩
  | err remark => .err ⟨remark.text⟩
  | counts entry => .stat entry.stat
  | scans _ entries => .list ⟨none, entries.map ScanEntry.stat⟩
  | uid entry => .uidl (.single entry.uniqueId)
  | uids remark entries => .uidl (.multiple ⟨some ⟨remark.text⟩, entries.map IdEntry.uniqueId⟩)
  | body _ letter => .bytes (Parser.message (letter.lines.map Parser.stuff))
  | capabilities _ announced => .capability (announced.map Announced.capability)

/-- The replies to each command. Any command can be refused. -/
def Answers : Reply → Command → Prop
  | err _, _ => True
  | counts _, command => command = .stat ∨ command = .list
  | scans _ _, command => command = .list
  | uid _, command => command = .uidl
  | uids _ _, command => command = .uidl
  | body _ _, command => command = .retr ∨ command = .top
  | capabilities _ _, command => command = .capa
  | ok _, command => command ∉ [.stat, .list, .uidl, .retr, .top, .capa]

end Reply

/-! ## Reading the parts -/

namespace Remark

/-- A remark does not read as an answer that starts with a number. -/
theorem numbered {α : Type} (remark : Remark) (f : Bytes → Nom.Parser α) (z : Bytes) :
    ∃ e, (do let count ← Nom.digit1; let _ ← Nom.space1; f count) (remark.text ++ (crlf ++ z)) =
      .error e := by
  rcases Parser.numbered_line f remark.text z with herror | ⟨count, _, _, hcut, hcount, -⟩
  · exact herror
  · obtain ⟨c, more, hcons, hdigit⟩ := hcount.head _
    have hnot := (remark.head c (by rw [hcut, hcons]; rfl)).1
    simp [hdigit] at hnot

theorem listResponse (remark : Remark) (entries : List ScanEntry) (z : Bytes) :
    Parser.listResponse (remark.text ++ (crlf ++
      ((entries.map ScanEntry.line).flatMap (· ++ crlf) ++ (ascii "." ++ (crlf ++ z))))) =
        .ok z (.list ⟨none, entries.map ScanEntry.stat⟩) := by
  have hlines := Parser.manyTill_lines (fun e z => e.statLine.parse e.line_isLine z)
    (fun e => e.number_run.head _) entries z
  generalize (entries.map ScanEntry.line).flatMap (· ++ crlf) ++ (ascii "." ++ (crlf ++ z)) = lines
    at hlines ⊢
  obtain ⟨e, hstats⟩ : ∃ e, Parser.listStats (remark.text ++ (crlf ++ lines)) = .error e :=
    remark.numbered _ lines
  have hheader : Nom.alt [Nom.map Parser.listStats some, Nom.map Parser.messageParser fun _ => none]
      (remark.text ++ (crlf ++ lines)) = .ok lines none := by
    simp [Nom.alt, Nom.map, hstats, Parser.messageParser_line remark.isLine]
  simp only [Parser.listResponse, Nom.bind_apply, hheader, Nom.IResult.bind_ok, hlines,
    Nom.pure_apply]

end Remark

namespace Announced

theorem read (a : Announced) (z : Bytes) :
    Parser.capability (a.line ++ (crlf ++ z)) = .ok z a.capability := by
  have hread := Parser.capability_stable.ok a.accepted z
  rwa [List.append_assoc, List.nil_append] at hread

/-- The line is not the one that ends the listing. -/
theorem ne_dot (a : Announced) : a.line ≠ ascii "." := by
  obtain ⟨c, hline, -⟩ | ⟨-, e, herror⟩ := Parser.capability_line a.isLine []
  · exact (hline.isTextLine (.inr rfl) : Parser.IsTextLine (a.line, crlf)).2.1
  · rw [List.append_nil, a.accepted] at herror
    cases herror

theorem not_end (a : Announced) (z : Bytes) :
    ∃ e, Parser.endOfMultiline (a.line ++ (crlf ++ z)) = .error e := by
  have hne := a.ne_dot
  have hisLine := a.isLine
  cases hline : a.line with
  | nil => exact Parser.endOfMultiline_head (c := Nom.cr) (by decide) _
  | cons c l =>
    rw [hline] at hne hisLine
    by_cases hc : c = 0x2e
    · subst hc
      cases l with
      | nil => exact absurd rfl hne
      | cons d l =>
        obtain ⟨hcr, hlf⟩ := hisLine.ne (c := d) (by simp)
        refine ⟨⟨d :: (l ++ (crlf ++ z)), .crLf⟩, ?_⟩
        simp [Parser.endOfMultiline, Nom.pair, Nom.tag, Nom.takeTag, ascii, Nom.lineEnding,
          Nom.compare, Nom.compareBy, hcr, hlf, crlf]
    · exact Parser.endOfMultiline_head hc _

end Announced

/-! ## Reading the replies -/

namespace Reply

theorem capabilityResponse (remark : Remark) (announced : List Announced) (z : Bytes) :
    Parser.capabilityResponse (remark.text ++ (crlf ++
      ((announced.map Announced.line).flatMap (· ++ crlf) ++ (ascii "." ++ (crlf ++ z))))) =
        .ok z (.capability (announced.map Announced.capability)) := by
  have hitems : Nom.Items Parser.capability Parser.endOfMultiline
      (announced.map fun a => (a.line ++ crlf, a.capability)) := by
    refine ⟨List.forall_mem_map.mpr fun a _ z => ?_, List.forall_mem_map.mpr fun a _ z => ?_,
      List.forall_mem_map.mpr fun a _ => by simp [crlf]⟩
    · rw [List.append_assoc]
      exact a.read z
    · rw [List.append_assoc]
      exact a.not_end z
  have hmany := hitems.manyTill (Parser.endOfMultiline_terminator z)
  simp only [List.flatMap_map, List.map_map, Function.comp_def] at hmany ⊢
  simp only [Parser.capabilityResponse, Nom.bind_apply, Parser.messageParser_line remark.isLine,
    Nom.IResult.bind_ok, hmany, Nom.pure_apply]

variable [Host]

/-- Behind the status the answer is read, under every command. -/
theorem parse_status (success : Bool) (command : Command) {text : Bytes}
    (hhead : ∀ c ∈ text.head?, isSpace c = false) (z : Bytes) :
    Parser.parse ((if success then okTag else errTag) ++ (0x20 :: (text ++ (crlf ++ z)))) command =
      (if success then Parser.okResponse command else Parser.errorResponse) (text ++ (crlf ++ z)) := by
  have hne : (if success then okTag else errTag) ++ (0x20 :: (text ++ (crlf ++ z))) ≠ [] := by
    simp
  have hauth : ∃ e, Parser.auth ((if success then okTag else errTag) ++
      (0x20 :: (text ++ (crlf ++ z)))) = .error e := by
    cases success <;> exact ⟨_, rfl⟩
  have hstatus : Parser.status ((if success then okTag else errTag) ++
      (0x20 :: (text ++ (crlf ++ z)))) = .ok (text ++ (crlf ++ z)) ⟨success⟩ :=
    Parser.status_ok_iff.mpr ⟨[0x20], rfl, by simp [Parser.Blank, isSpace],
      Parser.ended_text hhead (.inr rfl) z⟩
  obtain ⟨e, hauth⟩ := hauth
  rw [Parser.parse_eq, if_neg hne, hauth]
  simp only [Parser.statusResponse, Nom.bind_apply, hstatus, Nom.IResult.bind_ok, ite_self]

theorem parse_ok {command : Command} {text : Bytes} (hhead : ∀ c ∈ text.head?, isSpace c = false)
    (z : Bytes) : Parser.parse (okTag ++ (0x20 :: (text ++ (crlf ++ z)))) command =
      Parser.okResponse command (text ++ (crlf ++ z)) := parse_status true command hhead z

theorem parse_err (command : Command) {text : Bytes} (hhead : ∀ c ∈ text.head?, isSpace c = false)
    (z : Bytes) : Parser.parse (errTag ++ (0x20 :: (text ++ (crlf ++ z)))) command =
      Parser.errorResponse (text ++ (crlf ++ z)) := parse_status false command hhead z

omit [Host] in
theorem okResponse_counts {command : Command} (entry : ScanEntry)
    (h : command = .stat ∨ command = .list) (z : Bytes) :
    Parser.okResponse command (entry.line ++ (crlf ++ z)) = .ok z (.stat entry.stat) := by
  have hstat := entry.statLine.parse entry.line_isLine z
  rcases h with rfl | rfl <;> simp [Parser.okResponse, Nom.alt, Parser.statResponse, hstat]

omit [Host] in
theorem okResponse_scans (remark : Remark) (entries : List ScanEntry) (z : Bytes) :
    Parser.okResponse .list (remark.text ++ (crlf ++
      ((entries.map ScanEntry.line).flatMap (· ++ crlf) ++ (ascii "." ++ (crlf ++ z))))) =
        .ok z (.list ⟨none, entries.map ScanEntry.stat⟩) := by
  obtain ⟨e, hstat⟩ : ∃ e, Parser.stat (remark.text ++ (crlf ++
      ((entries.map ScanEntry.line).flatMap (· ++ crlf) ++ (ascii "." ++ (crlf ++ z))))) = .error e :=
    remark.numbered _ _
  simp only [Parser.okResponse, Nom.alt, Parser.statResponse, Nom.bind_apply, hstat,
    Nom.IResult.bind_error, remark.listResponse]

omit [Host] in
theorem okResponse_uid (entry : IdEntry) (z : Bytes) :
    Parser.okResponse .uidl (entry.line ++ (crlf ++ z)) = .ok z (.uidl (.single entry.uniqueId)) := by
  simp [Parser.okResponse, Nom.alt, Parser.uidlResponse, entry.uidlLine.parse]

omit [Host] in
theorem okResponse_uids (remark : Remark) (entries : List IdEntry) (z : Bytes) :
    Parser.okResponse .uidl (remark.text ++ (crlf ++
      ((entries.map IdEntry.line).flatMap (· ++ crlf) ++ (ascii "." ++ (crlf ++ z))))) =
        .ok z (.uidl (.multiple ⟨some ⟨remark.text⟩, entries.map IdEntry.uniqueId⟩)) := by
  obtain ⟨e, huidl⟩ : ∃ e, Parser.uidl (remark.text ++ (crlf ++
      ((entries.map IdEntry.line).flatMap (· ++ crlf) ++ (ascii "." ++ (crlf ++ z))))) = .error e :=
    remark.numbered _ _
  simp only [Parser.okResponse, Nom.alt, Parser.uidlResponse, Nom.bind_apply, huidl,
    Nom.IResult.bind_error, Parser.uidlListResponse_listing remark.isLine]

omit [Host] in
theorem okResponse_body {command : Command} (remark : Remark) (letter : Letter)
    (h : command = .retr ∨ command = .top) (z : Bytes) :
    Parser.okResponse command (remark.text ++ (crlf ++ (Parser.wire letter.lines ++ z))) =
      .ok z (.bytes (Parser.message (letter.lines.map Parser.stuff))) := by
  obtain ⟨l, ls, hlines⟩ := List.exists_cons_of_ne_nil letter.ne_nil
  have hmessage := Parser.rfc822Response_message remark.isLine (hlines ▸ letter.isLine) z
  rw [hlines]
  rcases h with rfl | rfl <;> exact hmessage

/-- A reply is read, whole and under each command that it answers, as what it stands for. -/
theorem parse_bytes {reply : Reply} {command : Command} (h : reply.Answers command) (rest : Bytes) :
    Parser.parse (reply.bytes ++ rest) command = .ok rest reply.response := by
  have hremark (remark : Remark) : ∀ c ∈ remark.text.head?, isSpace c = false :=
    fun c hc => (remark.head c hc).2
  have hnumber {digits : Bytes} (hdigits : Nom.Run isDigit digits) (more : Bytes) :
      ∀ c ∈ (digits ++ more).head?, isSpace c = false := by
    obtain ⟨d, tail, hcons, hd⟩ := hdigits.head more
    simpa [hcons] using Parser.isSpace_of_isDigit d hd
  cases reply with
  | ok remark =>
    have hstring : Parser.okResponse command = Parser.stringResponse := by
      cases command <;> first | rfl | simp [Answers] at h
    simp only [bytes, statusLine, List.append_assoc, List.cons_append]
    rw [parse_ok (hremark remark), hstring]
    simp only [Parser.stringResponse, Nom.bind_apply, Parser.messageParser_line remark.isLine,
      Nom.IResult.bind_ok, Nom.pure_apply]
    rfl
  | err remark =>
    simp only [bytes, statusLine, List.append_assoc, List.cons_append]
    rw [parse_err command (hremark remark)]
    simp only [Parser.errorResponse, Nom.bind_apply, Parser.messageParser_line remark.isLine,
      Nom.IResult.bind_ok, Nom.pure_apply]
    rfl
  | counts entry =>
    have hhead : ∀ c ∈ entry.line.head?, isSpace c = false := hnumber entry.number_run _
    simp only [bytes, statusLine, List.append_assoc, List.cons_append]
    rw [parse_ok hhead]
    exact okResponse_counts entry h rest
  | scans remark entries =>
    obtain rfl : command = .list := h
    simp only [bytes, Parser.listing, List.append_assoc, List.cons_append]
    rw [parse_ok (hremark remark)]
    exact okResponse_scans remark entries rest
  | uid entry =>
    obtain rfl : command = .uidl := h
    have hhead : ∀ c ∈ entry.line.head?, isSpace c = false := hnumber entry.index_run _
    simp only [bytes, statusLine, List.append_assoc, List.cons_append]
    rw [parse_ok hhead]
    exact okResponse_uid entry rest
  | uids remark entries =>
    obtain rfl : command = .uidl := h
    simp only [bytes, Parser.listing, List.append_assoc, List.cons_append]
    rw [parse_ok (hremark remark)]
    exact okResponse_uids remark entries rest
  | body remark letter =>
    simp only [bytes, statusLine, List.append_assoc, List.cons_append]
    rw [parse_ok (hremark remark)]
    exact okResponse_body remark letter h rest
  | capabilities remark announced =>
    obtain rfl : command = .capa := h
    simp only [bytes, Parser.listing, List.append_assoc, List.cons_append]
    rw [parse_ok (hremark remark)]
    exact capabilityResponse remark announced rest

end Reply

/-- A header, an empty line, and a line that is stuffed -/
def oneLetter : Letter := ⟨[ascii "Subject: one", [], ascii ".hidden"], by decide, by decide⟩

theorem parse_bytes_oneLetter :
    @Parser.parse (.bare false) ((Reply.body .empty oneLetter).bytes ++ ascii "+OK") .retr =
      .ok (ascii "+OK") (.bytes (Parser.message (oneLetter.lines.map Parser.stuff))) :=
  @Reply.parse_bytes (.bare false) (.body _ _) .retr (.inl rfl) (ascii "+OK")

end Pop
