-- SUMMARY: The connections of `common.rs`, and whom `connect_any` contacts.
import GetEmail.Exec.Output
import GetEmail.Mail.Connect

/-!
# Dialling

A connection is made through the proxy, if there is one, and else to an address that the
name of the server resolves to. Either way it is secured before anything is sent. What the
crates for sockets, proxies and TLS do is a parameter; which of their functions are called
is recorded, and what a lookup returns.
-/

namespace Mail

open Exec

/-- The functions of `proxied`, `tokio::net` and `tokio_rustls` in a world `ν`, with
proxies `π`, socket addresses `α` and tunnels `τ` -/
class Network (ν : Type) (π α τ : outParam Type) where
  connectTcp (proxy : π) (domain : String) (port : UInt16) : Exec Unit ν τ
  lookupHost (domain : String) (port : UInt16) : Exec Pop.IoError ν (List α)
  setPort (port : UInt16) (address : α) : α
  connect (address : α) : Exec Pop.IoError ν τ
  setNodelay (stream : τ) : Exec Pop.IoError ν Unit
  setLinger (stream : τ) : Exec Pop.IoError ν Unit
  /-- `ServerName::try_from` succeeds. -/
  isServerName (domain : String) : Bool
  tls (domain : String) (tunnel : τ) : Exec Pop.IoError ν Pop.Transport

/-- Calls that contact others -/
inductive Action (π α : Type) where
  | proxied (proxy : π) (domain : String) (port : UInt16)
  | lookup (domain : String) (port : UInt16)
  /-- The lookup has returned these addresses. -/
  | resolved (addresses : List α)
  | direct (address : α)
  | tls (domain : String)
  deriving DecidableEq, Repr

structure World (ν π α : Type) where
  net : ν
  actions : List (Action π α)

variable {ν π α τ ε γ σ β : Type} [Network ν π α τ]

namespace World

/-- A call that contacts nobody -/
def onNet {ε : Type} (m : Exec ε ν β) : Exec ε (World ν π α) β :=
  zoom net (fun net world => { world with net := net }) m

def record {ε : Type} (action : Action π α) : Exec ε (World ν π α) Unit :=
  modify fun world => { world with actions := world.actions ++ [action] }

/-- A call that contacts others -/
def act {ε : Type} (action : Action π α) (m : Exec ε ν β) : Exec ε (World ν π α) β := do
  record action
  onNet m

def lookupHost (domain : String) (port : UInt16) : Exec Pop.IoError (World ν π α) (List α) := do
  let addresses ← act (.lookup domain port) (Network.lookupHost domain port)
  record (.resolved addresses)
  return addresses

end World

open World

/-- The value of `tunnel` -/
def connectTunnel (domain : String) (port : UInt16) :
    Option π → Exec (CrateError ε) (World ν π α) τ
  | some proxy =>
    mapError (fun _ => .proxy)
      (act (.proxied proxy domain port) (Network.connectTcp proxy domain port))
  | none => do
    match ← mapError .socket (lookupHost domain port) with
    | [] => fail .resolveDns
    | mailSocket :: _ =>
      let mailSocket := Network.setPort ν port mailSocket
      let stream ← mapError .socket (act (.direct mailSocket) (Network.connect mailSocket))
      mapError .socket (onNet (Network.setNodelay stream))
      mapError .socket (onNet (Network.setLinger stream))
      return stream

def connectMaybeProxiedStreamTls (domain : String) (port : UInt16) (proxy : Option π) :
    Exec (CrateError ε) (World ν π α) Pop.Transport := do
  let tunnel ← connectTunnel domain port proxy
  if Network.isServerName ν domain then
    mapError .socket (act (.tls domain) (Network.tls domain tunnel))
  else crash

variable (ν π α ε) in
@[reducible] def dialer : Dialer (World ν π α) π ε := ⟨connectMaybeProxiedStreamTls⟩

/-! ## Routes -/

/-- The calls with which a connection is made: to the proxy, or to the first address that the
lookup returned -/
inductive Route (ν : Type) [Network ν π α τ] (domain : String) (port : UInt16) :
    Option π → List (Action π α) → Prop where
  | proxied (proxy : π) : Route ν domain port (some proxy) [.proxied proxy domain port, .tls domain]
  | direct (first : α) (others : List α) : Route ν domain port none
      [.lookup domain port, .resolved (first :: others), .direct (Network.setPort ν port first),
        .tls domain]

variable {domain : String} {port : UInt16} {proxy : Option π} {world : World ν π α}

/-- A route, or a lookup that returns no address -/
def Plan (ν : Type) [Network ν π α τ] (domain : String) (port : UInt16) (proxy : Option π)
    (calls : List (Action π α)) : Prop :=
  Route ν domain port proxy calls ∨ proxy = none ∧ calls = [.lookup domain port, .resolved []]

theorem onNet_silent {ε : Type} (m : Exec ε ν β) :
    Silent World.actions (onNet m : Exec ε (World ν π α) β) := by
  refine Silent.zoom ?_ m
  exact fun _ _ => rfl

theorem act_emitted {ε : Type} (action : Action π α) (m : Exec ε ν β) (world : World ν π α) :
    Emitted World.actions world.actions [action] (act action m world) := by
  have hactions := onNet_silent m { world with actions := world.actions ++ [action] }
  simp only [act, record, bind_apply, modify_apply]
  cases h : onNet m { world with actions := world.actions ++ [action] } with
  | ok a world' => rwa [h] at hactions
  | error x world' =>
    rw [h] at hactions
    exact .error List.prefix_rfl hactions

/-- A lookup has some result, which is recorded. -/
theorem lookupHost_emitted (domain : String) (port : UInt16) (world : World ν π α) :
    ∃ addresses, Emitted World.actions world.actions [.lookup domain port, .resolved addresses]
        (lookupHost domain port world) ∧
      ∀ resolved world', lookupHost domain port world = .ok resolved world' →
        resolved = addresses := by
  have hlookup := act_emitted (.lookup domain port)
    (Network.lookupHost domain port : Exec Pop.IoError ν (List α)) world
  simp only [lookupHost, record, bind_apply]
  cases h : act (.lookup domain port)
      (Network.lookupHost domain port : Exec Pop.IoError ν (List α)) world with
  | ok addresses world' =>
    rw [h] at hlookup
    refine ⟨addresses, ?_, ?_⟩
    · change world'.actions ++ [.resolved addresses] = _
      rw [show world'.actions = world.actions ++ [.lookup domain port] from hlookup,
        List.append_assoc]
      rfl
    · rintro _ _ ⟨⟩
      rfl
  | error x world' =>
    rw [h] at hlookup
    obtain ⟨part, hpart, hactions⟩ := hlookup
    exact ⟨[], .error (hpart.trans (List.prefix_append ..)) hactions, fun _ _ h => by cases h⟩

/-- A tunnel is made along one route, at least to the beginning of it, or there is no
address. -/
theorem connectTunnel_emitted (domain : String) (port : UInt16) (proxy : Option π)
    (world : World ν π α) : ∃ route, Emitted World.actions world.actions route
        ((connectTunnel domain port proxy : Exec (CrateError ε) (World ν π α) τ) world) ∧
      (Route ν domain port proxy (route ++ [.tls domain]) ∨
        (proxy = none ∧ route = [.lookup domain port, .resolved []]) ∧
          value? ((connectTunnel domain port proxy : Exec (CrateError ε) (World ν π α) τ) world) =
            none) := by
  cases proxy with
  | some proxy => exact ⟨[_], (act_emitted ..).mapError _, .inl (.proxied proxy)⟩
  | none =>
    obtain ⟨addresses, hlookup, hresolved⟩ := lookupHost_emitted domain port world
    have hlookup := hlookup.mapError (CrateError.socket (ε := ε))
    have hresolved (resolved : List α) (world' : World ν π α)
        (h : mapError (CrateError.socket (ε := ε)) (lookupHost domain port) world =
          .ok resolved world') : resolved = addresses := by
      refine hresolved resolved world' ?_
      simp only [mapError] at h
      split at h <;> cases h
      assumption
    cases addresses with
    | nil =>
      refine ⟨_ ++ [], hlookup.bind fun resolved world' h => ?_, .inr ⟨⟨rfl, rfl⟩, ?_⟩⟩
      · obtain rfl := hresolved resolved world' h
        exact .error List.nil_prefix (List.append_nil _).symm
      · rw [connectTunnel, bind_apply]
        cases h : mapError (CrateError.socket (ε := ε)) (lookupHost domain port) world with
        | ok resolved world' =>
          obtain rfl := hresolved resolved world' h
          rfl
        | error x world' => rfl
    | cons first others =>
      refine ⟨_ ++ [_], hlookup.bind fun resolved world' h => ?_, .inl (.direct first others)⟩
      obtain rfl := hresolved resolved world' h
      exact ((act_emitted ..).mapError _).bind_silent fun stream =>
        .bind ((onNet_silent _).mapError _) fun _ => .bind ((onNet_silent _).mapError _) fun _ => .pure _

/-- A connection is made along one route, at least to the beginning of it, and to its end if
it comes about. -/
theorem dial_emitted (domain : String) (port : UInt16) (proxy : Option π) (world : World ν π α) :
    ∃ plan, Emitted World.actions world.actions plan
        ((connectMaybeProxiedStreamTls domain port proxy :
          Exec (CrateError ε) (World ν π α) Pop.Transport) world) ∧
      Plan ν domain port proxy plan ∧
      (value? ((connectMaybeProxiedStreamTls domain port proxy :
          Exec (CrateError ε) (World ν π α) Pop.Transport) world) ≠ none →
        Route ν domain port proxy plan) := by
  obtain ⟨route, htunnel, hroute | ⟨hplan, hnone⟩⟩ :=
    connectTunnel_emitted (ε := ε) domain port proxy world
  · refine ⟨_, htunnel.bind fun tunnel world' _ => ?_, .inl hroute, fun _ => hroute⟩
    rw [if_apply]
    split
    · exact (act_emitted ..).mapError _
    · exact .error List.nil_prefix (List.append_nil _).symm
  · cases h : (connectTunnel domain port proxy : Exec (CrateError ε) (World ν π α) τ) world with
    | ok tunnel world' =>
      rw [h] at hnone
      cases hnone
    | error x world' =>
      rw [h] at htunnel
      rw [connectMaybeProxiedStreamTls, bind_apply, h]
      exact ⟨route, htunnel, .inr hplan, fun h => absurd rfl h⟩

omit [Network ν π α τ] in
theorem spawn_silent {ω κ δ : Type} {out : ω → List δ} (m : Exec ε κ β) (t : κ) :
    Silent out (spawn m t : Exec ε ω (β × κ)) := by
  intro world
  unfold spawn
  cases m t <;> rfl

/-! ## Contacts -/

/-- The calls contact the server of an endpoint along a route, as far as they go. -/
def Contacts (ν : Type) [Network ν π α τ] (proxy : Option π) (endpoint : Endpoint)
    (calls : List (Action π α)) : Prop :=
  ∃ plan, Plan ν endpoint.domain endpoint.port proxy plan ∧ calls <+: plan

/-- What a computation contacts that makes a connection, and then contacts nobody -/
theorem dial_contacts (endpoint : Endpoint) (proxy : Option π) (world : World ν π α)
    {f : Pop.Transport → Exec (CrateError ε) (World ν π α) β}
    (hf : ∀ stream, Silent World.actions (f stream)) :
    ∃ calls, Contacts ν proxy endpoint calls ∧
      (stateOf ((connectMaybeProxiedStreamTls endpoint.domain endpoint.port proxy >>= f) world)).actions =
        world.actions ++ calls ∧
      ∀ a world', (connectMaybeProxiedStreamTls endpoint.domain endpoint.port proxy >>= f) world =
        .ok a world' → Route ν endpoint.domain endpoint.port proxy calls := by
  obtain ⟨plan, hdial, hplan, hroute⟩ :=
    dial_emitted (ε := ε) endpoint.domain endpoint.port proxy world
  obtain ⟨calls, hcalls, hactions, hwhole⟩ := (hdial.bind_silent hf).part
  refine ⟨calls, ⟨plan, hplan, hcalls⟩, hactions, fun a world' h => ?_⟩
  rw [hwhole a world' h]
  obtain ⟨stream, world₁, hstream, -⟩ := bind_eq_ok.mp h
  exact hroute (by rw [hstream]; exact Option.some_ne_none _)

/-- The call goes to the proxy, or secures a tunnel through it. -/
def Action.Through (proxy : π) : Action π α → Prop
  | .proxied proxy' _ _ => proxy' = proxy
  | .tls _ => True
  | _ => False

theorem Contacts.through {proxy : π} {endpoint : Endpoint} {calls : List (Action π α)}
    (h : Contacts ν (some proxy) endpoint calls) : ∀ call ∈ calls, call.Through proxy := by
  obtain ⟨plan, hroute | ⟨⟨⟩, -⟩, hcalls⟩ := h
  cases hroute
  intro call hcall
  rcases List.mem_cons.mp (hcalls.subset hcall) with rfl | hcall
  · rfl
  · rw [List.mem_singleton.mp hcall]
    trivial

/-! ## Connectors -/

section

variable (mailbox : Credentials) (proxy : Option π) (world : World ν π α)

theorem pop3Connect_contacts [Pop.Host] (pop3 : Pop3) :
    ∃ calls, Contacts ν proxy pop3.endpoint calls ∧
      (stateOf (@Pop3Connector.connect _ _ ε _ (dialer ν π α ε) mailbox pop3 proxy world)).actions =
        world.actions ++ calls ∧
      ∀ reader world', @Pop3Connector.connect _ _ ε _ (dialer ν π α ε) mailbox pop3 proxy world =
        .ok reader world' → Route ν pop3.endpoint.domain pop3.endpoint.port proxy calls :=
  dial_contacts pop3.endpoint proxy world fun _ => .bind (spawn_silent _ _) fun _ => .pure _

theorem imapConnect_contacts [ImapClient γ σ ε] (imap : Imap) :
    ∃ calls, Contacts ν proxy imap.endpoint calls ∧
      (stateOf (@ImapConnector.connect _ _ ε γ σ (dialer ν π α ε) _ mailbox imap proxy world)).actions =
        world.actions ++ calls ∧
      ∀ reader world', @ImapConnector.connect _ _ ε γ σ (dialer ν π α ε) _ mailbox imap proxy world =
        .ok reader world' → Route ν imap.endpoint.domain imap.endpoint.port proxy calls :=
  dial_contacts imap.endpoint proxy world fun _ => .bind (spawn_silent _ _) fun _ =>
    .bind (spawn_silent _ _) fun _ => .pure _

end

/-- The entry of the server map for the domain of the mailbox -/
def Credentials.entry (mailbox : Credentials) (added : List Server) : Option Endpoints :=
  mailbox.getDomain.bind fun domain => ServerMap.lastWith domain added

/-- What a connection has contacted: the server for IMAP, and then that for POP3. A reader
comes from a server that was contacted to the end of the route. -/
structure Contacted (entry : Option Endpoints) (proxy : Option π) (world : World ν π α)
    (r : EStateM.Result (Exit (CrateError ε)) (World ν π α) (Reader σ Pop.PopStream))
    (first second : List (Action π α)) : Prop where
  actions : (stateOf r).actions = world.actions ++ first ++ second
  imap : first = [] ∨ ∃ imap ∈ entry.bind Endpoints.getImap, Contacts ν proxy imap.endpoint first
  pop3 : second = [] ∨ ∃ pop3 ∈ entry.bind Endpoints.getPop3, Contacts ν proxy pop3.endpoint second
  imapReader (reader : ImapProtocol σ) (world' : World ν π α) : r = .ok (.imap reader) world' →
    second = [] ∧ ∃ imap ∈ entry.bind Endpoints.getImap,
      Route ν imap.endpoint.domain imap.endpoint.port proxy first
  pop3Reader (reader : Pop3Protocol Pop.PopStream) (world' : World ν π α) :
    r = .ok (.pop3 reader) world' → ∃ pop3 ∈ entry.bind Endpoints.getPop3,
      Route ν pop3.endpoint.domain pop3.endpoint.port proxy second

theorem Contacted.nobody {entry : Option Endpoints} {e : CrateError ε} :
    Contacted entry proxy world (.error (.error e) world :
      EStateM.Result _ _ (Reader σ Pop.PopStream)) [] [] where
  actions := by simp [stateOf]
  imap := .inl rfl
  pop3 := .inl rfl
  imapReader _ _ h := by cases h
  pop3Reader _ _ h := by cases h

/-- Behind what was contacted for IMAP, the server for POP3 is contacted. -/
theorem Contacted.pop3_connect [Pop.Host] {entry : Option Endpoints} {pop3 : Pop3}
    (hpop3 : entry.bind Endpoints.getPop3 = some pop3) (mailbox : Credentials)
    {world' : World ν π α} {first : List (Action π α)}
    (hactions : world'.actions = world.actions ++ first)
    (himap : first = [] ∨ ∃ imap ∈ entry.bind Endpoints.getImap, Contacts ν proxy imap.endpoint first) :
    ∃ second, Contacted (σ := σ) entry proxy world ((Reader.pop3 <$>
      @Pop3Connector.connect _ _ ε _ (dialer ν π α ε) mailbox pop3 proxy) world') first second := by
  obtain ⟨second, hcontacts, hsecond, hroute⟩ := pop3Connect_contacts (ε := ε) mailbox proxy world' pop3
  refine ⟨second, ?_, himap, .inr ⟨pop3, hpop3, hcontacts⟩, ?_, ?_⟩
  · rw [stateOf_map, hsecond, hactions]
  · intro reader world'' h
    obtain ⟨reader', -, hreader⟩ := map_eq_ok.mp h
    cases hreader
  · intro reader world'' h
    obtain ⟨reader', hconnect, hreader⟩ := map_eq_ok.mp h
    cases hreader
    exact ⟨pop3, hpop3, hroute reader world'' hconnect⟩

theorem Contacted.imap_connect [ImapClient γ σ ε] {entry : Option Endpoints}
    {imap : Imap} (himap : entry.bind Endpoints.getImap = some imap) (mailbox : Credentials)
    (proxy : Option π) (world : World ν π α) :
    ∃ first, Contacted entry proxy world ((Reader.imap <$>
      @ImapConnector.connect _ _ ε γ σ (dialer ν π α ε) _ mailbox imap proxy) world) first [] := by
  obtain ⟨first, hcontacts, hfirst, hroute⟩ :=
    imapConnect_contacts (ε := ε) (σ := σ) mailbox proxy world imap
  refine ⟨first, ?_, .inr ⟨imap, himap, hcontacts⟩, .inl rfl, ?_, ?_⟩
  · rw [stateOf_map, hfirst, List.append_nil]
  · intro reader world' h
    obtain ⟨reader', hconnect, hreader⟩ := map_eq_ok.mp h
    cases hreader
    exact ⟨rfl, imap, himap, hroute reader world' hconnect⟩
  · intro reader world' h
    obtain ⟨reader', -, hreader⟩ := map_eq_ok.mp h
    cases hreader

theorem Contacted.through {entry : Option Endpoints} {proxy : π}
    {r : EStateM.Result (Exit (CrateError ε)) (World ν π α) (Reader σ Pop.PopStream)}
    {first second : List (Action π α)} (h : Contacted entry (some proxy) world r first second) :
    ∀ call ∈ first ++ second, call.Through proxy := by
  intro call hcall
  rcases List.mem_append.mp hcall with hcall | hcall
  · rcases h.imap with rfl | ⟨imap, -, hcontacts⟩
    · cases hcall
    · exact hcontacts.through call hcall
  · rcases h.pop3 with rfl | ⟨pop3, -, hcontacts⟩
    · cases hcall
    · exact hcontacts.through call hcall

theorem connectAny_contacted [Pop.Host] [ImapClient γ σ ε] (added : List Server)
    (mailbox : Credentials) (proxy : Option π) (world : World ν π α) :
    ∃ first second, Contacted (ε := ε) (σ := σ) (mailbox.entry added) proxy world
      (@connectAny _ _ ε γ σ _ (dialer ν π α ε) _ mailbox proxy (ServerMap.ofServers added) world)
      first second := by
  let _ := dialer ν π α ε
  have hentry : mailbox.entry added = (splitOnce '@' mailbox.email.toList).bind fun parts =>
      ServerMap.lastWith (String.ofList parts.2) added := by
    rw [Credentials.entry, getDomain_eq]
    cases splitOnce '@' mailbox.email.toList <;> rfl
  rw [connectAny_servers, hentry]
  cases splitOnce '@' mailbox.email.toList with
  | none => exact ⟨[], [], .nobody⟩
  | some parts =>
    dsimp only [Option.bind_some]
    cases ServerMap.lastWith (String.ofList parts.2) added with
    | none => exact ⟨[], [], .nobody⟩
    | some endpoints =>
      cases endpoints with
      | pop3 pop3 =>
        have hpop3 : (some (Endpoints.pop3 pop3)).bind Endpoints.getPop3 = some pop3 := rfl
        obtain ⟨second, h⟩ := Contacted.pop3_connect (ε := ε) (σ := σ) hpop3 mailbox
          (show world.actions = world.actions ++ [] from (List.append_nil _).symm) (.inl rfl)
        exact ⟨[], second, h⟩
      | imap imap =>
        have himap : (some (Endpoints.imap imap)).bind Endpoints.getImap = some imap := rfl
        obtain ⟨first, h⟩ :=
          Contacted.imap_connect (ε := ε) (σ := σ) himap mailbox proxy world
        exact ⟨first, [], h⟩
      | full pop3 imap =>
        have himap : (some (Endpoints.full pop3 imap)).bind Endpoints.getImap = some imap := rfl
        have hpop3 : (some (Endpoints.full pop3 imap)).bind Endpoints.getPop3 = some pop3 := rfl
        obtain ⟨first, h⟩ :=
          Contacted.imap_connect (ε := ε) (σ := σ) himap mailbox proxy world
        rw [map_apply] at h
        dsimp only
        cases himapConnect : (ImapConnector.connect mailbox imap proxy :
            Exec (CrateError ε) (World ν π α) (ImapProtocol σ)) world with
        | ok reader world' =>
          rw [himapConnect] at h
          exact ⟨first, [], h⟩
        | error x world' =>
          rw [himapConnect] at h
          cases x with
          | error e =>
            obtain ⟨second, h'⟩ := Contacted.pop3_connect (ε := ε) (σ := σ) hpop3 mailbox
              (h.actions.trans (List.append_nil _)) h.imap
            exact ⟨first, second, h'⟩
          | pending => exact ⟨first, [], h⟩
          | panicked => exact ⟨first, [], h⟩

/-- Only servers of the domain are contacted: first that for IMAP, if there is one, and then,
unless it was successful, that for POP3. With a proxy, nobody is contacted but through it. -/
theorem connectAny_contacts [Pop.Host] [ImapClient γ σ ε] (added : List Server)
    (mailbox : Credentials) (proxy : Option π) (world : World ν π α) :
    ∃ first second, Contacted (ε := ε) (σ := σ) (mailbox.entry added) proxy world
        (@connectAny _ _ ε γ σ _ (dialer ν π α ε) _ mailbox proxy (ServerMap.ofServers added) world)
        first second ∧
      ∀ through ∈ proxy, ∀ call ∈ first ++ second, call.Through through := by
  obtain ⟨first, second, h⟩ := connectAny_contacted (ε := ε) (σ := σ) added mailbox proxy world
  refine ⟨first, second, h, ?_⟩
  rintro through ⟨⟩
  exact h.through

end Mail
