-- SUMMARY: Operations on a settled connection get the answers to their own lines, whatever was dropped before.
import GetEmail.Pop.Pairing

/-!
# Cancellation

A future that is dropped leaves the client as it is at that point. What matters
later is whether that point is settled: with each line that was begun complete, and
answered.
-/

namespace Pop

open Exec
open Nom (Bytes ascii lf)

/-! ## Line by line -/

section

variable {κ : Type} {C C' : Connection κ} {counts : Exit Error → Prop}
  {oneLine : Bytes → Prop} {D : Option Command → κ → Prop}

/-- The steps of the client's exchanges. `D` says which answer is awaited. The lines of a
handshake are single lines. -/
structure LineByLine [Host] (C C' : Connection κ) (counts : Exit Error → Prop)
    (oneLine : Bytes → Prop) (D : Option Command → κ → Prop) : Prop where
  secret (secret : Bytes) : oneLine (Request.ofCommand (.base64 secret)).display
  cancel : oneLine (ascii "*")
  encode (request : Request) : oneLine request.display →
    Agree (D none) (C.encode request) (C'.encode request) (fun _ => D (some request.command))
      fun x s => counts x → D none s
  sendBytes (buf : Bytes) : oneLine buf →
    Agree (D none) (C.sendBytes buf) (C'.sendBytes buf) (fun _ => D (some .auth))
      fun x s => counts x → D none s
  readResponse (command awaited : Command) : ReadsAs command awaited →
    Agree (D (some awaited)) (C.readResponse command) (C'.readResponse command)
      (fun _ => D none) fun x s => counts x → D none s

/-- A command of a handshake, or none. -/
def Awaiting (D : Option Command → κ → Prop) : Bool → κ → Prop
  | true => fun s => ∃ line, Parser.takesChallenge line ∧ D (some line) s
  | false => D none

/-- The requests of the communicator are lines of the handshake. -/
def Speaking (P : κ → Prop) (communicator : Communicator κ) : Prop :=
  P communicator.stream ∧
    ∀ request ∈ communicator.requests, Parser.takesChallenge request.command

theorem Communicator.onStream_agree {α : Type} {m m' : Exec Error κ α} {P Q R : κ → Prop}
    (hm : Agree P m m' (fun _ => Q) fun x s => counts x → R s) :
    Agree (Speaking P) (onStream m) (onStream m') (fun _ => Speaking Q)
      fun x c => counts x → Speaking R c := by
  refine .zoom fun c hc => hm.consequence ?_ ?_ ?_
  · rintro _ rfl
    exact hc.1
  · exact fun _ s hs => ⟨hs, hc.2⟩
  · exact fun x s hs hx => ⟨hs hx, hc.2⟩

/-- What is caught of a step. -/
theorem Agree.caught {σ α : Type} {m m' : Exec Error σ α} {P Q R : σ → Prop}
    (hcounts : ∀ e, counts (.error e)) (hm : Agree P m m' (fun _ => Q) fun x s => counts x → R s) :
    Agree P (attempt m) (attempt m')
      (fun result s => match result with
        | .ok _ => Q s
        | .error _ => R s)
      fun x s => counts x → R s := by
  refine .attempt (hm.consequence (fun _ h => h) (fun _ _ h => h) fun x s h => ?_)
  cases x with
  | error e => exact h (hcounts e)
  | pending => exact h
  | panicked => exact h

theorem Communicator.popFront_speaking {P : κ → Prop} {E : Exit Error → Communicator κ → Prop} :
    Triple (Speaking P) popFront
      (fun command c => Speaking P c ∧ Parser.takesChallenge command) E := by
  rintro c ⟨hc, hrequests⟩
  simp only [popFront, bind_apply, get_apply]
  cases hlines : c.requests with
  | nil => exact ⟨⟨hc, hrequests⟩, rfl⟩
  | cons request requests =>
    rw [hlines] at hrequests
    exact ⟨⟨hc, fun r hr => hrequests r (List.mem_cons_of_mem _ hr)⟩,
      hrequests request List.mem_cons_self⟩

namespace LineByLine

variable [Host] (hD : LineByLine C C' counts oneLine D)

include hD

theorem exchange {request : Request} (hrequest : oneLine request.display) :
    Agrees counts (D none) (C.exchange request) (C'.exchange request) :=
  Agree.bind (hD.encode request hrequest) fun _ => hD.readResponse _ _ (.inl rfl)

/-- Any command of a handshake will do to read the answer to a line of it. -/
theorem readChallenge {command : Command} (hcommand : Parser.takesChallenge command) :
    Agree (Awaiting D true) (C.readResponse command) (C'.readResponse command)
      (fun _ => D none) fun x s => counts x → D none s := by
  refine .of_pre fun s ⟨line, hline, hs⟩ => ?_
  refine (hD.readResponse command line (.inr ⟨hcommand, hline⟩)).consequence ?_ ?_ ?_
  · rintro _ rfl
    exact hs
  · exact fun _ _ h => h
  · exact fun _ _ h => h

theorem send (secret : Bytes) :
    Agree (Speaking (D none)) (@Communicator.send κ C secret) (@Communicator.send κ C' secret)
      (fun _ => Speaking (Awaiting D true)) fun x c => counts x → Speaking (D none) c := by
  refine .bind (Communicator.onStream_agree (hD.encode _ (hD.secret secret))) fun _ => .refl (.modify ?_)
  rintro c ⟨hc, hrequests⟩
  refine ⟨⟨_, rfl, hc⟩, fun request hrequest => ?_⟩
  rcases List.mem_append.mp hrequest with hrequest | hrequest
  · exact hrequests request hrequest
  · rw [List.mem_singleton.mp hrequest]
    rfl

theorem nextChallenge :
    Agree (Speaking (Awaiting D true)) (@Communicator.nextChallenge κ C)
      (@Communicator.nextChallenge κ C') (fun _ => Speaking (D none))
      fun x c => counts x → Speaking (D none) c := by
  refine .bind (.refl Communicator.popFront_speaking) fun command => .of_pre fun c ⟨hc, hline⟩ => ?_
  refine .bind ((Communicator.onStream_agree (hD.readChallenge hline)).consequence
    (by rintro _ rfl; exact hc) (fun _ _ h => h) fun _ _ h => h) fun response => .refl ?_
  cases response with
  | challenge challenge => exact .pure fun _ h => h
  | _ => exact .fail fun _ h _ => h

theorem stop :
    Agree (Speaking (D none)) (@Communicator.stop κ C) (@Communicator.stop κ C')
      (fun _ => Speaking (Awaiting D true)) fun x c => counts x → Speaking (D none) c :=
  (Communicator.onStream_agree (hD.sendBytes _ hD.cancel)).consequence (fun _ h => h)
    (fun _ _ h => ⟨⟨.auth, rfl, h.1⟩, h.2⟩) fun _ _ h => h

/-- A handshake in step leaves its last answer to be read. -/
theorem handshake (hcounts : ∀ e, counts (.error e)) (handshake : Handshake) {awaited : Bool}
    (hstep : handshake.InStep awaited) :
    Agree (Speaking (Awaiting D awaited)) (@Handshake.run κ C handshake)
      (@Handshake.run κ C' handshake) (fun _ => Speaking (Awaiting D true))
      fun x c => counts x → Speaking (D none) c := by
  induction handshake generalizing awaited with
  | finish result =>
    cases result with
    | ok u =>
      cases hstep
      exact .refl (.pure fun _ h => h)
    | error e =>
      cases hstep
      exact .refl (.fail fun _ h _ => h)
  | send secret next ih =>
    obtain ⟨rfl, hok, herror⟩ := hstep
    refine .bind (Agree.caught hcounts (hD.send secret)) fun result => ?_
    cases result with
    | ok u => exact ih _ hok
    | error e => exact ih _ (herror e)
  | nextChallenge next ih =>
    obtain ⟨rfl, hnext⟩ := hstep
    refine .bind (Agree.caught hcounts hD.nextChallenge) fun result => ?_
    cases result with
    | ok challenge => exact ih _ (hnext _)
    | error e => exact ih _ (hnext _)
  | stop next ih =>
    obtain ⟨rfl, hok, herror⟩ := hstep
    refine .bind (Agree.caught hcounts hD.stop) fun result => ?_
    cases result with
    | ok u => exact ih _ hok
    | error e => exact ih _ (herror e)

/-- With authenticators in step the client makes its exchanges line by line. -/
theorem upholds (hcounts : ∀ e, counts (.error e)) :
    Client.Upholds C C' counts (fun request => oneLine request.display) Authenticator.InStep
      (D none) where
  exchange _ := hD.exchange
  dialog authenticator hstep hrequest := by
    have hline : Parser.takesChallenge (Client.authRequest authenticator).command :=
      Client.authRequest_command authenticator ▸ rfl
    refine Agree.bind (hD.encode _ hrequest) fun _ => .bind (R := fun _ => Awaiting D true)
      (.zoom fun s hs => ?_) fun _ => hD.readChallenge hline
    refine (hD.handshake hcounts authenticator.handle hstep).consequence ?_ ?_ ?_
    · rintro _ rfl
      exact ⟨⟨_, hline, hs⟩, nofun⟩
    · exact fun _ _ h => h.1
    · exact fun _ _ h hx => (h hx).1

end LineByLine

end

/-! ## The stream -/

variable [Host]

namespace PopStream

variable (server : Server)

/-- Whatever was dropped: in turn, or behind for good. -/
theorem turnOrBehind_lineByLine :
    LineByLine instConnectionPopStreamOfHost instConnectionPopStreamOfHost (fun _ => True)
      (fun _ => True) fun awaited s => Turn server awaited s ∨ Behind awaited s where
  secret _ := trivial
  cancel := trivial
  encode request _ := .refl (((line_turn (encode_sends request) _ _).or
    (line_behind (encode_sends request) _ _)).consequence (fun _ h => h) (fun _ _ h => h)
      fun _ _ h _ => h)
  sendBytes buf _ := .refl (((line_turn (sendBytes_sends buf) _ _).or
    (line_behind (sendBytes_sends buf) _ _)).consequence (fun _ h => h) (fun _ _ h => h)
      fun _ _ h _ => h)
  readResponse command awaited hreads := .refl (((readResponse_turn command).or
    (readResponse_behind command awaited)).consequence (fun _ h => h.imp_left (·.reads hreads))
      (fun _ _ h => h.elim id .inr) fun _ _ h _ => h.elim id .inr)

/-- On time, the connection does what the paired one does. -/
theorem paired_lineByLine (hbase64 : ∀ bytes, lf ∉ Host.base64Encode bytes) :
    LineByLine instConnectionPopStreamOfHost (paired server) Exit.IsError (lf ∉ ·)
      (OnTime server) where
  secret secret := by
    rw [Request.display, Request.ofCommand, List.flatMap_nil, List.append_nil]
    exact hbase64 secret
  cancel := by decide
  encode _ hrequest := .refl (line_onTime hrequest _)
  sendBytes _ hbuf := .refl (line_onTime hbuf _)
  readResponse command _ hreads := (readResponse_agree command).consequence
    (fun _ h => h.reads hreads) (fun _ _ h => h) fun _ _ h => h

theorem Settled.onTime {s : PopStream} (h : Settled s) (hfit : Fit s)
    (hs : Turn server none s ∨ Behind none s) : OnTime server none s := by
  refine ⟨hfit, .inl ⟨hs.resolve_right fun hbehind => ?_, h.1⟩⟩
  have hle : (answersOf s.history).length ≤ (linesOf s.history).length := hbehind
  have hanswered := h.2
  omega

end PopStream

open PopStream

/-- Whatever was dropped before, an operation that is called while the connection is
settled gets the answers to its own lines. -/
theorem pairing_survives_cancellation (hbase64 : ∀ bytes, lf ∉ Host.base64Encode bytes)
    {stream : Transport} {log : Log} {c : Client PopStream} (hrun : Run stream log c)
    (hsticky : stream.sticky = true)
    (hlog : ∀ entry ∈ log, ∀ authenticator ∈ entry.1.authenticator?, authenticator.InStep)
    (hsettled : ∀ s ∈ c.inner, Settled s) (op : ClientOp)
    (hop : ∀ authenticator ∈ op.authenticator?, authenticator.InStep)
    (hrequests : ∀ request ∈ op.requests, lf ∉ request.display) (server : Server)
    (reads : List ReadEvent) (writes : List WriteEvent) (hwrites : .ready 0 ∉ writes) :
    @ClientOp.run _ _ (paired server) op (c.supply reads writes) =
      op.run (c.supply reads writes) := by
  have hbefore : c.Keeping fun s => Turn server none s ∨ Behind none s := by
    have hgreet : Triple (Turn server (some .greet)) (Connection.readResponse .greet)
        (fun _ s => Turn server none s ∨ Behind none s) fun _ _ => True :=
      (readResponse_turn .greet).consequence (fun _ h => h) (fun _ _ h => h) fun _ _ _ => trivial
    have hnew : Turn server (some .greet) (.new stream) :=
      ⟨new_inTurn stream, by rintro _ ⟨⟩; exact .inl rfl⟩
    exact hrun.keeping (fun _ => trivial) hgreet
      ((turnOrBehind_lineByLine server).upholds fun _ => trivial)
      (fun s reads writes hs => hs.imp_left fun hs => ⟨hs.1.supply reads writes, hs.2⟩) hnew
      (fun _ _ _ _ => trivial) hlog
  have hkeep : Connection.Keep (fun _ => True) fun s : PopStream => s.stream.sticky = true :=
    (framed_sticky true).keep
  have hsocket := hrun.keeping_of_keep (fun _ => trivial) hkeep (fun _ _ _ hs => hs) hsticky
    fun _ _ _ _ => trivial
  have hnow : (c.supply reads writes).Keeping (OnTime server none) := by
    refine ⟨fun s' hs' => ?_, hsocket.2⟩
    obtain ⟨s, hs, rfl⟩ := Option.map_eq_some_iff.mp hs'
    exact (hsettled s hs).onTime server (s := s.supply reads writes) ⟨hsocket.1 s hs, hwrites⟩
      ((hbefore.1 s hs).imp_left fun hs => ⟨hs.1.supply reads writes, hs.2⟩)
  exact (ClientOp.run_agrees (fun _ => trivial) ((paired_lineByLine server hbase64).upholds
    fun _ => trivial) op hrequests hop).eq _ hnow

omit [Host] in
/-- A call that was dropped before it wrote anything. The next one returns its message. -/
theorem pairing_survives_cancellation_noop :
    ∃ (stream : Transport) (log : Log) (c : Client PopStream), @Run (.bare false) stream log c ∧
      (∃ s ∈ c.inner, Settled s) ∧
      (∀ (server : Server) (reads : List ReadEvent),
        @ClientOp.run (.bare false) _ (@paired (.bare false) server) (.retr 1)
          (c.supply reads [.ready 9, .ready 9, .ready 9]) =
        @ClientOp.run (.bare false) _ (@instConnectionPopStreamOfHost (.bare false)) (.retr 1)
          (c.supply reads [.ready 9, .ready 9, .ready 9])) ∧
      value? (@ClientOp.run (.bare false) _ (@instConnectionPopStreamOfHost (.bare false)) (.retr 1)
        (c.supply (answering [ascii "+OK\r\none\r\n.\r\n"]).reads [.ready 9, .ready 9, .ready 9])) =
        some (.bytes (ascii "one")) := by
  let host : Host := .bare false
  let stream := { answering [ascii "+OK\r\n", ascii "-ERR\r\n"] with sticky := true }
  obtain ⟨c₀, hnew, hc₀, hretr⟩ : ∃ c, newClient stream = .ok () c ∧
      (∃ s, (stateOf (ClientOp.noop.run (c.supply [] []))).inner = some s ∧ Settled s) ∧
      value? (ClientOp.run (.retr 1) ((stateOf (ClientOp.noop.run (c.supply [] []))).supply
        (answering [ascii "+OK\r\none\r\n.\r\n"]).reads [.ready 9, .ready 9, .ready 9])) =
        some (.bytes (ascii "one")) :=
    ⟨_, eq_ok_of_value? (by decide +kernel), ⟨_, Option.eq_some_of_isSome (by decide +kernel),
      by decide +kernel⟩, by decide +kernel⟩
  obtain ⟨s, hinner, hsettled⟩ := hc₀
  have hrun : Run stream _ _ := ⟨c₀, hnew, .call .nil .noop [] []⟩
  refine ⟨stream, _, _, hrun, ⟨s, hinner, hsettled⟩, fun server reads => ?_, hretr⟩
  refine pairing_survives_cancellation (fun _ => List.not_mem_nil) hrun rfl ?_ ?_ (.retr 1) nofun
    (by decide) server reads _ (by decide)
  · intro entry hentry
    rw [List.mem_singleton.mp hentry]
    exact nofun
  · intro s' hs'
    obtain rfl : s = s' := Option.some.inj (hinner.symm.trans hs')
    exact hsettled

/-- A server with two messages. -/
def twoMessages : Server := fun texts =>
  if texts.getLast? = some (ascii "RETR 1") then ascii "+OK\r\none\r\n.\r\n"
  else if texts.getLast? = some (ascii "RETR 2") then ascii "+OK\r\ntwo\r\n.\r\n"
  else if texts.getLast? = some (ascii "CAPA") then ascii "-ERR\r\n"
  else ascii "+OK\r\n"

omit [Host] in
/-- The call for message 1 is dropped after its line was written, and the call for
message 2 returns message 1. -/
theorem retr_mispaired :
    ∃ (stream : Transport) (log : Log) (c c' : Client PopStream) (reads : List ReadEvent),
      @Run (.bare false) stream (log ++ [(.retr 1, .error .pending)]) c ∧ stream.sticky = true ∧
      @ClientOp.run (.bare false) _ (@instConnectionPopStreamOfHost (.bare false)) (.retr 2)
        (c.supply reads (answering []).writes) = .ok (.bytes (ascii "one")) c' ∧
      (∀ s ∈ c'.inner, @Server.Behaves (.bare false) twoMessages s.history) ∧
      value? (@ClientOp.run (.bare false) _ (@paired (.bare false) twoMessages) (.retr 2)
        (c.supply reads (answering []).writes)) = some (.bytes (ascii "two")) := by
  have hlogin := fun c => @Calls.answered (.bare false) c c [] (@Calls.nil (.bare false) c)
    (.login (ascii "user") (ascii "secret")) [ascii "+OK\r\n", ascii "+OK\r\n", ascii "-ERR\r\n"]
  exact ⟨{ answering [ascii "+OK\r\n", ascii "-ERR\r\n"] with sticky := true }, _, _, _,
    (answering [ascii "+OK\r\none\r\n.\r\n", ascii "+OK\r\ntwo\r\n.\r\n"]).reads,
    ⟨_, eq_ok_of_value? (by decide +kernel), @Calls.exited (.bare false) _ _ _ (hlogin _) (.retr 1)
      [] (answering []).writes _ (by decide +kernel)⟩,
    rfl, eq_ok_of_value? (by decide +kernel), by decide +kernel, by decide +kernel⟩

end Pop
