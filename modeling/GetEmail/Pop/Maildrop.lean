-- SUMMARY: A maildrop, and the sessions in which a server of RFC 1939 serves it.
import GetEmail.Pop.Orders
import GetEmail.Pop.Reply
import GetEmail.Pop.Transcript

/-!
# Maildrop

The server that the client is written for. In the AUTHORIZATION state it takes a name and
a password, or both at once in the PLAIN mechanism; in the TRANSACTION state it serves the
messages that are not marked; when the client quits there, it removes the marked ones.
-/

namespace Pop

open Nom (Bytes)
open Pop.Parser (ScanEntry IdEntry)

/-! ## Messages -/

/-- A message with its unique-id -/
structure Stored where
  letter : Letter
  id : Bytes
  id_run : Nom.Run Parser.isValidChar id
  id_length : id.length ≤ 70

namespace Stored

/-- The octets of the message, with an ending for each line -/
def size (m : Stored) : Nat := (m.letter.lines.map fun l => l.length + 2).sum

def scanEntry (m : Stored) (number : Nat) : ScanEntry :=
  ⟨Display.display number, Display.display m.size, none, display_run _, display_run _, by simp⟩

def idEntry (m : Stored) (number : Nat) : IdEntry :=
  ⟨Display.display number, m.id, display_run _, m.id_run, m.id_length⟩

end Stored

/-- The headers of a message, the empty line behind them, and the first lines of its body -/
def Letter.top (letter : Letter) (count : Nat) : Letter where
  lines := letter.lines.takeWhile (· ≠ []) ++ (letter.lines.dropWhile (· ≠ [])).take (count + 1)
  ne_nil := by
    obtain ⟨l, ls, hlines⟩ := List.exists_cons_of_ne_nil letter.ne_nil
    rw [hlines]
    by_cases hl : l = []
    · simp [hl]
    · simp [hl]
  isLine l hl := by
    rcases List.mem_append.mp hl with hl | hl
    · exact letter.isLine l ((List.takeWhile_prefix _).subset hl)
    · exact letter.isLine l ((List.dropWhile_suffix _).subset (List.mem_of_mem_take hl))

inductive Phase where
  /-- The name that was given, if one was -/
  | authorization (name : Option Bytes)
  | transaction (marked : List Nat)
  | update
  deriving DecidableEq, Repr

/-- A mailbox on the server, with the credentials that open it -/
structure Maildrop where
  user : Bytes
  password : Bytes
  /-- What the server says in its greeting -/
  welcome : Remark
  /-- What it says behind the status when it answers an order -/
  remark : Phase → Order → Remark
  announced : List Announced
  messages : List Stored

namespace Maildrop

/-- The message of this number, if it is not marked -/
def message? (drop : Maildrop) (marked : List Nat) (number : Nat) : Option Stored :=
  if number = 0 ∨ number ∈ marked then none else drop.messages[number - 1]?

/-- The messages that are not marked, with their numbers -/
def remaining (drop : Maildrop) (marked : List Nat) : List (Nat × Stored) :=
  (List.range' 1 drop.messages.length).filterMap fun number =>
    (drop.message? marked number).map fun m => (number, m)

/-- How many messages are not marked, and their size -/
def count (drop : Maildrop) (marked : List Nat) : ScanEntry where
  number := Display.display (drop.remaining marked).length
  size := Display.display ((drop.remaining marked).map fun (_, m) => m.size).sum
  more := none
  number_run := display_run _
  size_run := display_run _
  more_line := by simp

/-- What is left without the marked messages -/
def remove (drop : Maildrop) (marked : List Nat) : Maildrop :=
  { drop with messages := (drop.remaining marked).map Prod.snd }

/-- The PLAIN mechanism's response for the credentials -/
def plainResponse (drop : Maildrop) : Bytes := [0] ++ drop.user ++ [0] ++ drop.password

end Maildrop

/-! ## Sessions -/

structure Session where
  maildrop : Maildrop
  phase : Phase

namespace Session

variable (s : Session)

def remark (order : Order) : Remark := s.maildrop.remark s.phase order

/-- The order is carried out. -/
def accept (order : Order) (phase : Phase) : Reply × Session :=
  (.ok (s.remark order), { s with phase := phase })

/-- The order is refused, and nothing changes. -/
def refuse (order : Order) : Reply × Session := (.err (s.remark order), s)

/-- What concerns one message -/
def concerning (order : Order) (marked : List Nat) (number : Nat) (reply : Stored → Reply × Session) :
    Reply × Session :=
  match s.maildrop.message? marked number with
  | some m => reply m
  | none => s.refuse order

def transact (marked : List Nat) (order : Order) : Reply × Session :=
  match order with
  | .noop => s.accept order (.transaction marked)
  | .rset => s.accept order (.transaction [])
  | .stat => (.counts (s.maildrop.count marked), s)
  | .list none =>
    (.scans (s.remark order) ((s.maildrop.remaining marked).map fun (n, m) => m.scanEntry n), s)
  | .list (some number) =>
    s.concerning order marked number fun m => (.counts (m.scanEntry number), s)
  | .uidl none =>
    (.uids (s.remark order) ((s.maildrop.remaining marked).map fun (n, m) => m.idEntry n), s)
  | .uidl (some number) => s.concerning order marked number fun m => (.uid (m.idEntry number), s)
  | .retr number =>
    s.concerning order marked number fun m => (.body (s.remark order) m.letter, s)
  | .top number lines =>
    s.concerning order marked number fun m => (.body (s.remark order) (m.letter.top lines), s)
  | .dele number =>
    s.concerning order marked number fun _ => s.accept order (.transaction (number :: marked))
  | .quit => (.ok (s.remark order), ⟨s.maildrop.remove marked, .update⟩)
  | _ => s.refuse order

variable [Host]

def authorize (name : Option Bytes) (order : Order) : Reply × Session :=
  match order with
  | .user name => s.accept order (.authorization (some name))
  | .pass password =>
    if name = some s.maildrop.user ∧ password = s.maildrop.password then
      s.accept order (.transaction [])
    else (.err (s.remark order), { s with phase := .authorization none })
  | .authPlain response =>
    if Host.base64Decode response = some s.maildrop.plainResponse then
      s.accept order (.transaction [])
    else s.refuse order
  | .quit => s.accept order .update
  | _ => s.refuse order

def answer (order : Order) : Reply × Session :=
  match s.phase with
  | .update => s.refuse order
  | .authorization name =>
    if order = .capa then (.capabilities (s.remark order) s.maildrop.announced, s)
    else s.authorize name order
  | .transaction marked =>
    if order = .capa then (.capabilities (s.remark order) s.maildrop.announced, s)
    else s.transact marked order

/-- The exchanges that these lines make, one after the other -/
def dialogue (s : Session) : List Bytes → List Exchange
  | [] => []
  | line :: lines =>
    ⟨line, (s.answer (.ofLine line)).1.bytes⟩ :: (s.answer (.ofLine line)).2.dialogue lines

/-- The session behind these lines -/
def after (s : Session) : List Bytes → Session
  | [] => s
  | line :: lines => (s.answer (.ofLine line)).2.after lines

end Session

/-! ## Replies and commands -/

/-- The command that an order is given with -/
def Order.command? : Order → Option Command
  | .noop => some .noop
  | .rset => some .rset
  | .quit => some .quit
  | .stat => some .stat
  | .capa => some .capa
  | .uidl _ => some .uidl
  | .list _ => some .list
  | .top _ _ => some .top
  | .dele _ => some .dele
  | .retr _ => some .retr
  | .user _ => some .user
  | .pass _ => some .pass
  | .authPlain _ => some .auth
  | .unknown => none

theorem Order.ofKeyword_command (keyword : Command) (argument : Option Bytes) :
    ∀ command ∈ (ofKeyword keyword argument).command?, command = keyword := by
  have hnumbered (order : Nat → Order) (hcommand : ∀ n, (order n).command? = some keyword)
      (argument : Bytes) : ∀ command ∈ (numbered order argument).command?, command = keyword := by
    intro command hcommand'
    unfold numbered at hcommand'
    cases hnumber : number? argument with
    | none => simp [hnumber, command?] at hcommand'
    | some n => simpa [hnumber, hcommand, eq_comm] using hcommand'
  have htop (argument : Bytes) : ∀ command ∈ (ofTop argument).command?, command = .top := by
    unfold ofTop
    split
    · split <;> simp [command?]
    · simp [command?]
  have hauth (argument : Bytes) : ∀ command ∈ (ofAuth argument).command?, command = .auth := by
    unfold ofAuth
    split
    · split <;> simp [command?]
    · simp [command?]
  unfold ofKeyword
  split
  case h_8 argument => exact hnumbered _ (fun _ => rfl) argument
  case h_9 argument => exact hnumbered _ (fun _ => rfl) argument
  case h_10 argument => exact hnumbered _ (fun _ => rfl) argument
  case h_11 argument => exact hnumbered _ (fun _ => rfl) argument
  case h_12 argument => exact htop argument
  case h_15 argument => exact hauth argument
  all_goals simp [command?]

namespace Session

variable {s : Session} {order : Order} {command : Command}

theorem concerning_answers {marked : List Nat} {number : Nat} {reply : Stored → Reply × Session}
    (h : ∀ m, (reply m).1.Answers command) :
    (s.concerning order marked number reply).1.Answers command := by
  unfold concerning
  split
  · exact h _
  · trivial

theorem transact_answers (h : ∀ command' ∈ order.command?, command' = command) (marked : List Nat) :
    (s.transact marked order).1.Answers command := by
  cases order with
  | uidl number =>
    obtain rfl := h _ rfl
    cases number with
    | none => rfl
    | some number => exact concerning_answers fun _ => rfl
  | list number =>
    obtain rfl := h _ rfl
    cases number with
    | none => rfl
    | some number => exact concerning_answers fun _ => .inr rfl
  | top number lines =>
    obtain rfl := h _ rfl
    exact concerning_answers fun _ => .inr rfl
  | retr number =>
    obtain rfl := h _ rfl
    exact concerning_answers fun _ => .inl rfl
  | dele number =>
    obtain rfl := h _ rfl
    exact concerning_answers fun _ => by simp [accept, Reply.Answers]
  | noop =>
    obtain rfl := h _ rfl
    simp [transact, accept, Reply.Answers]
  | rset =>
    obtain rfl := h _ rfl
    simp [transact, accept, Reply.Answers]
  | quit =>
    obtain rfl := h _ rfl
    simp [transact, Reply.Answers]
  | stat =>
    obtain rfl := h _ rfl
    exact .inl rfl
  | _ => trivial

variable [Host]

theorem authorize_answers (h : ∀ command' ∈ order.command?, command' = command)
    (name : Option Bytes) : (s.authorize name order).1.Answers command := by
  cases order with
  | user name =>
    obtain rfl := h _ rfl
    simp [authorize, accept, Reply.Answers]
  | pass password =>
    obtain rfl := h _ rfl
    simp only [authorize]
    split <;> simp [accept, Reply.Answers]
  | authPlain response =>
    obtain rfl := h _ rfl
    simp only [authorize]
    split <;> simp [accept, refuse, Reply.Answers]
  | quit =>
    obtain rfl := h _ rfl
    simp [authorize, accept, Reply.Answers]
  | _ => trivial

/-- A reply answers the command of its order. -/
theorem answer_answers (h : ∀ command' ∈ order.command?, command' = command) :
    (s.answer order).1.Answers command := by
  unfold answer
  split
  · trivial
  · split
    · next horder =>
      subst horder
      exact (h _ rfl).symm
    · exact authorize_answers h _
  · split
    · next horder =>
      subst horder
      exact (h _ rfl).symm
    · exact transact_answers h _

end Session

end Pop
