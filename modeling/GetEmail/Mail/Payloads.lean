-- SUMMARY: What the mechanisms of both protocols send, and what a server can read off it.
import GetEmail.Mail.Connect

/-!
# Payloads

Over IMAP and over POP3, a mailbox is authenticated with the same bytes. A server splits
them at a separator, and so gets the name that was given, if the separator is not in it.
-/

namespace Mail

open Nom (Bytes ascii)

theorem utf8_append (s t : String) : utf8 (s ++ t) = utf8 s ++ utf8 t := by
  simp [utf8, String.toList_append, List.flatMap_append]

theorem plain_payload (login password : String) (challenge : Bytes) :
    (Pop.Authenticator.plain (utf8 login) (utf8 password)).auth =
      some (utf8 (PlainAuth.process login password challenge)) := by
  have hzero : utf8 "\x00" = [0] := by decide +kernel
  rw [PlainAuth.process, utf8_append, utf8_append, utf8_append, hzero]
  rfl

theorem oauth2_payload (login token : String) (challenge : Bytes) :
    (Pop.Authenticator.oauth2 (utf8 login) (utf8 token)).auth =
      some (utf8 (OAuth2.process login token challenge)) := by
  have huser : utf8 "user=" = ascii "user=" := by decide +kernel
  have hbearer : utf8 "\x01auth=Bearer " = [1] ++ ascii "auth=Bearer " := by decide +kernel
  have hend : utf8 "\x01\x01" = [1, 1] := by decide +kernel
  rw [OAuth2.process, utf8_append, utf8_append, utf8_append, utf8_append, huser, hbearer, hend]
  simp only [Pop.Authenticator.oauth2, List.append_assoc]

/-! ## Separators -/

/-- Where a separator is in neither of the first parts, it splits both in the same way. -/
theorem append_separator_inj {α : Type} {x : α} {a b s t : List α} (ha : x ∉ a) (hb : x ∉ b) :
    a ++ x :: s = b ++ x :: t ↔ a = b ∧ s = t := by
  induction a generalizing b with
  | nil =>
    cases b with
    | nil => simp
    | cons c b => simp [Ne.symm (List.ne_of_not_mem_cons hb).symm, eq_comm]
  | cons c a ih =>
    obtain ⟨hc, ha⟩ := not_or.mp (mt List.mem_cons.mpr ha)
    cases b with
    | nil => simp [Ne.symm hc]
    | cons c' b =>
      obtain ⟨hc', hb⟩ := not_or.mp (mt List.mem_cons.mpr hb)
      simp [ih ha hb, and_assoc]

theorem process_plain {login login' : String} (password password' : String)
    (challenge challenge' : Bytes) (h : '\x00' ∉ login.toList) (h' : '\x00' ∉ login'.toList) :
    PlainAuth.process login password challenge = PlainAuth.process login' password' challenge' ↔
      login = login' ∧ password = password' := by
  have hchars (login password : String) (challenge : Bytes) :
      (PlainAuth.process login password challenge).toList =
        '\x00' :: (login.toList ++ '\x00' :: password.toList) := by
    simp [PlainAuth.process, String.toList_append]
  rw [← String.toList_inj, hchars, hchars, List.cons_inj_right, append_separator_inj h h',
    String.toList_inj, String.toList_inj]

theorem process_oauth2 {login login' : String} (token token' : String)
    (challenge challenge' : Bytes) (h : '\x01' ∉ login.toList) (h' : '\x01' ∉ login'.toList) :
    OAuth2.process login token challenge = OAuth2.process login' token' challenge' ↔
      login = login' ∧ token = token' := by
  have hchars (login token : String) (challenge : Bytes) :
      (OAuth2.process login token challenge).toList = "user=".toList ++
        (login.toList ++ '\x01' :: ("auth=Bearer ".toList ++ (token.toList ++ ['\x01', '\x01']))) := by
    simp [OAuth2.process, String.toList_append]
  rw [← String.toList_inj, hchars, hchars, List.append_cancel_left_eq, append_separator_inj h h',
    List.append_cancel_left_eq, List.append_cancel_right_eq, String.toList_inj, String.toList_inj]

/-- Both protocols send the same bytes for a mechanism, and these tell the credentials that
they were made from, where a name does not hold the separator. -/
theorem payloads_exact (login login' secret secret' : String) (challenge challenge' : Bytes) :
    (Pop.Authenticator.plain (utf8 login) (utf8 secret)).auth =
        some (utf8 (PlainAuth.process login secret challenge)) ∧
      (Pop.Authenticator.oauth2 (utf8 login) (utf8 secret)).auth =
        some (utf8 (OAuth2.process login secret challenge)) ∧
      ('\x00' ∉ login.toList → '\x00' ∉ login'.toList →
        (PlainAuth.process login secret challenge = PlainAuth.process login' secret' challenge' ↔
          login = login' ∧ secret = secret')) ∧
      ('\x01' ∉ login.toList → '\x01' ∉ login'.toList →
        (OAuth2.process login secret challenge = OAuth2.process login' secret' challenge' ↔
          login = login' ∧ secret = secret')) :=
  ⟨plain_payload login secret challenge, oauth2_payload login secret challenge,
    process_plain secret secret' challenge challenge', process_oauth2 secret secret' challenge challenge'⟩

end Mail
