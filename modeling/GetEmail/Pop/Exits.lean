-- SUMMARY: The kinds of errors that the operations of the stream end with.
import GetEmail.Pop.Sasl
import GetEmail.Pop.StreamSteps

/-!
# Kinds of errors

The stream fails for reasons of its own: the transport, the size of a response, a
response that is rejected, a call without a request, or an error of the server. The
other kinds are the client's.
-/

namespace Pop

open Exec
open Nom (Bytes)

namespace ErrorKind

/-- While bytes are read. -/
inductive OfReading : ErrorKind → Prop where
  | io (e : IoError) : OfReading (.io e)
  | responseTooLarge : OfReading .responseTooLarge

/-- While a request is written and its response is read. -/
inductive OfStream : ErrorKind → Prop where
  | reading {kind : ErrorKind} (h : OfReading kind) : OfStream kind
  | invalidResponse : OfStream .invalidResponse
  | missingRequest : OfStream .missingRequest
  | serverError (text : Bytes) : OfStream (.serverError text)

end ErrorKind

/-- If the exit is an error, its kind is one of `kinds`. -/
def OfKind (kinds : ErrorKind → Prop) (x : Exit Error) : Prop := ∀ e, x = .error e → kinds e.kind

theorem ofKind_error {kinds : ErrorKind → Prop} {e : Error} (h : kinds e.kind) :
    OfKind kinds (.error e) := by
  rintro _ ⟨⟩
  exact h

theorem OfKind.mono {kinds kinds' : ErrorKind → Prop} {x : Exit Error} (h : OfKind kinds x)
    (hkinds : ∀ kind, kinds kind → kinds' kind) : OfKind kinds' x :=
  fun e hx => hkinds _ (h e hx)

open ErrorKind

theorem Buffer.grow_exits (amount : Nat) : Exits (grow amount) fun x _ => OfKind OfReading x :=
  .bind .get fun _ => .ite (.fail fun _ => ofKind_error .responseTooLarge) .modify

theorem Buffer.ensureCapacity_exits (toEnsure : Nat) :
    Exits (ensureCapacity toEnsure) fun x _ => OfKind OfReading x := by
  refine .bind .get fun _ => .ite (.bind (.crash fun _ => nofun) fun _ => ?_) ?_
  all_goals exact .ite (grow_exits _) (.pure _)

theorem Buffer.unused_exits : Exits unused fun x _ => OfKind OfReading x :=
  .bind .get fun _ => .ite (.crash fun _ => nofun) (.pure _)

theorem Transport.pollRead_exits (room : Nat) :
    Exits (pollRead room) fun x _ => OfKind OfReading x := by
  intro t _
  have hpoll := pollRead_cases t room
  generalize pollRead room t = polled at hpoll
  cases hpoll with
  | blocked => exact nofun
  | failed => exact ofKind_error (.io _)
  | woken => trivial
  | ready => trivial

namespace PopStream

theorem receive_exits : Exits receive fun x _ => OfKind OfReading x := by
  refine .bind .get fun s => .bind (.zoom fun _ => Buffer.ensureCapacity_exits _) fun _ =>
    .bind (.zoom fun _ => Buffer.unused_exits) fun buf =>
      .bind (.zoom fun _ => Transport.pollRead_exits _) fun polled => ?_
  cases polled with
  | none => exact .pure _
  | some bytes =>
    exact .bind .modify fun _ => .bind (.zoom fun _ => .modify) fun _ => .zoom fun _ => .modify

theorem Sends.exits {m : Exec Error PopStream Unit} {bytes : Bytes} (hm : Sends m bytes) :
    Exits m fun x _ => OfKind OfStream x := by
  refine .of_pre fun s _ => (hm s).consequence (fun _ h => h) (fun _ _ _ => trivial) ?_
  rintro _ s' ⟨-, hx⟩ e rfl
  obtain ⟨io, rfl, -⟩ := hx
  exact .reading (.io io)

variable [Host]

theorem decode_exits : Exits decode fun x _ => OfKind OfStream x := by
  intro s _
  cases h : decode s with
  | ok response s' => trivial
  | error x s' =>
    rcases decode_eq_error h with ⟨-, rfl, -⟩ | ⟨command, queue, -, -, hdecoded⟩
    · exact ofKind_error .missingRequest
    · cases hdecoded with
      | rejected => exact ofKind_error .invalidResponse
      | _ => exact nofun

theorem next_exits : Exits next fun x _ => OfKind OfStream x := by
  have hreceive : Exits receive fun x _ => OfKind OfStream x :=
    receive_exits.mono fun x _ h => h.mono fun _ => .reading
  have hturn : ∀ u, Exits (readTurn u) fun x _ => OfKind OfStream x := fun _ =>
    .bind hreceive fun _ => .bind decode_exits fun response => by cases response <;> exact .pure _
  refine .bind decode_exits fun response => ?_
  cases response with
  | some response => exact .pure _
  | none => exact .bind .get fun s => .loop hturn (fun _ => nofun) _ _

theorem readResponse_exits (command : Command) :
    Exits (readResponse command) fun x _ => OfKind OfStream x := by
  refine .bind (.zoom fun _ => .modify) fun _ => .bind next_exits fun response => ?_
  cases response with
  | err text => exact .fail fun _ => ofKind_error (.serverError _)
  | _ => exact .pure _

theorem encode_exits (request : Request) :
    Exits (Connection.encode request : Exec Error PopStream Unit) fun x _ => OfKind OfStream x :=
  .bind (encode_sends request).exits fun _ => .modify

theorem exchange_exits (request : Request) :
    Exits (Connection.exchange request : Exec Error PopStream Response) fun x _ =>
      OfKind OfStream x :=
  .bind (encode_exits request) fun _ => readResponse_exits _

end PopStream

end Pop
