-- SUMMARY: The session behind a log, and what a mailbox has lost at its end.
import GetEmail.Pop.Served

/-!
# Acknowledged calls

What a server of a maildrop has been brought to by a client can be read off the log of its
calls: off those that log in, delete, reset and quit, and have come to a success.
-/

namespace Pop

open Exec
open Nom (Bytes ascii)

/-! ## Reading a log -/

/-- The call has logged in. -/
def logsIn : ClientOp × Except (Exit Error) Value → Bool
  | (.login _ _, .ok _) => true
  | _ => false

namespace Maildrop

/-- The messages that are not marked, among all messages with their numbers -/
theorem remaining_eq (drop : Maildrop) (marked : List Nat) :
    drop.remaining marked =
      ((drop.messages.zipIdx 1).filter fun (_, number) => number ∉ marked).map Prod.swap := by
  have hfrom (before messages : List Stored) (hall : drop.messages = before ++ messages) :
      (List.range' (before.length + 1) messages.length).filterMap
        (fun number => (drop.message? marked number).map fun m => (number, m)) =
      ((messages.zipIdx (before.length + 1)).filter fun (_, number) => number ∉ marked).map
        Prod.swap := by
    induction messages generalizing before with
    | nil => rfl
    | cons m messages ih =>
      have hrest := ih (before ++ [m]) (by rw [hall, List.append_assoc, List.singleton_append])
      rw [List.length_append, List.length_singleton] at hrest
      have hfirst : drop.message? marked (before.length + 1) =
          if before.length + 1 ∈ marked then none else some m := by
        simp [message?, hall]
      rw [List.length_cons, List.range'_succ, List.zipIdx_cons, List.filterMap_cons, hrest, hfirst,
        List.filter_cons]
      by_cases hmarked : before.length + 1 ∈ marked <;> simp [hmarked]
  exact hfrom [] drop.messages rfl

/-- Without marks nothing is lost. -/
theorem remove_nil (drop : Maildrop) : drop.remove [] = drop := by
  have hmessages : ((drop.remaining []).map Prod.snd) = drop.messages := by
    rw [remaining_eq, List.map_map, List.filter_eq_self.mpr (by simp)]
    exact List.zipIdx_map_fst 1 drop.messages
  rw [remove, hmessages]

end Maildrop

/-! ## Calls that leave the session as it is -/

/-- The calls that neither log in nor out, nor mark messages -/
def Looks : ClientOp → Prop
  | .login _ _ | .quit | .dele _ | .rset => False
  | _ => True

variable [Host]

namespace Session

omit [Host] in
theorem concerning_same {s : Session} {order : Order} {marked : List Nat} {number : Nat}
    {reply : Stored → Reply × Session} (hreply : ∀ m, (reply m).2 = s) :
    (s.concerning order marked number reply).2 = s := by
  unfold concerning
  split
  · exact hreply _
  · rfl

theorem answer_looks {s : Session} {op : ClientOp} (h : Looks op) : (s.answer (order op)).2 = s := by
  obtain ⟨drop, phase⟩ := s
  cases phase with
  | update => rfl
  | authorization name => cases op <;> first | rfl | exact absurd h id
  | transaction marked =>
    cases op with
    | uidl msgNumber =>
      cases msgNumber with
      | none => rfl
      | some number => exact concerning_same fun _ => rfl
    | list msgNumber =>
      cases msgNumber with
      | none => rfl
      | some number => exact concerning_same fun _ => rfl
    | top msgNumber lines => exact concerning_same fun _ => rfl
    | retr msgNumber => exact concerning_same fun _ => rfl
    | _ => first | rfl | exact absurd h id

end Session

/-! ## The session behind a log -/

namespace Maildrop

/-- The entry of a call in a log -/
def entry (s : Session) (op : ClientOp) : ClientOp × Except (Exit Error) Value :=
  (op, (s.perform op).1.mapError .error)

end Maildrop

/-! ## A served mailbox -/

end Pop
