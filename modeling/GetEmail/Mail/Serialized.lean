-- SUMMARY: Servers written out and read back, by the derived code of `server_map.rs`.
import GetEmail.Collections.Serde
import GetEmail.Mail.ServerMap

/-!
# Serialized servers

`Endpoints` is untagged and declares `Pop3` first, which ignores the key `imap`. So
endpoints with both are read back without IMAP.
-/

namespace Mail

open Serde (Value Deserializer field struct untagged unclaimed)

/-! ## Derived code -/

namespace Endpoint

def serialize (endpoint : Endpoint) : Value :=
  .map [("domain", .string endpoint.domain), ("port", .number endpoint.port.toNat)]

def deserialize : Deserializer Endpoint := struct fun entries => do
  return ⟨← field "domain" Serde.string entries, ← field "port" Serde.u16 entries⟩

@[simp] theorem deserialize_serialize (endpoint : Endpoint) :
    deserialize endpoint.serialize = some endpoint := by
  simp [deserialize, serialize, field]

end Endpoint

/-- Transparent. -/
def Imap.serialize (imap : Imap) : Value := imap.endpoint.serialize

def Imap.deserialize : Deserializer Imap := fun value => Imap.mk <$> Endpoint.deserialize value

/-- Transparent. -/
def Pop3.serialize (pop3 : Pop3) : Value := pop3.endpoint.serialize

def Pop3.deserialize : Deserializer Pop3 := fun value => Pop3.mk <$> Endpoint.deserialize value

@[simp] theorem Imap.deserialize_serialize (imap : Imap) : deserialize imap.serialize = some imap := by
  simp [deserialize, serialize]

@[simp] theorem Pop3.deserialize_serialize (pop3 : Pop3) : deserialize pop3.serialize = some pop3 := by
  simp [deserialize, serialize]

namespace Endpoints

def entries : Endpoints → List (String × Value)
  | .pop3 endpoint => [("pop3", endpoint.serialize)]
  | .imap endpoint => [("imap", endpoint.serialize)]
  | .full endpoint endpoint' => [("pop3", endpoint.serialize), ("imap", endpoint'.serialize)]

def serialize (endpoints : Endpoints) : Value := .map endpoints.entries

/-- The variants, as they are declared. -/
def deserialize : Deserializer Endpoints := untagged [
  struct fun entries => return .pop3 (← field "pop3" Pop3.deserialize entries),
  struct fun entries => return .imap (← field "imap" Imap.deserialize entries),
  struct fun entries =>
    return .full (← field "pop3" Pop3.deserialize entries) (← field "imap" Imap.deserialize entries)]

/-- What is read back. -/
def reread : Endpoints → Endpoints
  | .full endpoint _ => .pop3 endpoint
  | endpoints => endpoints

@[simp] theorem deserialize_serialize (endpoints : Endpoints) :
    deserialize endpoints.serialize = some endpoints.reread := by
  cases endpoints <;> simp [deserialize, serialize, entries, untagged, field, reread]

/-- Both protocols. -/
def IsFull (endpoints : Endpoints) : Prop := ∃ pop3 imap, endpoints = .full pop3 imap

theorem reread_eq_iff {endpoints : Endpoints} : endpoints.reread = endpoints ↔ ¬ endpoints.IsFull := by
  cases endpoints <;> simp [reread, IsFull]

end Endpoints

namespace Server

/-- With the field `endpoint` flattened. -/
def serialize (server : Server) : Value :=
  .map (("domains", .seq (server.domains.map .string)) :: server.endpoint.entries)

def deserialize : Deserializer Server := struct fun entries => do
  return ⟨← field "domains" (Serde.seq Serde.string) entries,
    ← Endpoints.deserialize (.map (unclaimed ["domains"] entries))⟩

/-- What is read back. -/
def reread (server : Server) : Server := { server with endpoint := server.endpoint.reread }

theorem deserialize_serialize (server : Server) :
    deserialize server.serialize = some server.reread := by
  have hdomains : field "domains" (Serde.seq Serde.string)
      (("domains", .seq (server.domains.map .string)) :: server.endpoint.entries) =
        some server.domains := by
    cases hendpoint : server.endpoint <;>
      simp [field, Endpoints.entries, Serde.seq_map Serde.string_string]
  have hendpoint : unclaimed ["domains"]
      (("domains", .seq (server.domains.map .string)) :: server.endpoint.entries) =
        server.endpoint.entries := by
    cases hendpoint : server.endpoint <;> simp [unclaimed, Endpoints.entries]
  have hread : Endpoints.deserialize (.map server.endpoint.entries) = some server.endpoint.reread :=
    server.endpoint.deserialize_serialize
  rw [serialize, deserialize, Serde.struct_map, hdomains, hendpoint]
  simp [hread, reread]

theorem deserialize_serialize_iff (server : Server) :
    deserialize server.serialize = some server ↔ ¬ server.endpoint.IsFull := by
  rw [deserialize_serialize, ← Endpoints.reread_eq_iff, Option.some_inj, reread]
  obtain ⟨domains, endpoint⟩ := server
  simp

end Server

/-! ## Maps -/

namespace ServerMap

/-- The servers, written out and read back. -/
def reload (servers : List Server) : Option (List Server) :=
  servers.mapM fun server => Server.deserialize server.serialize

theorem reload_eq (servers : List Server) : reload servers = some (servers.map Server.reread) := by
  have h : (servers.map Server.serialize).mapM Server.deserialize = _ :=
    Serde.mapM_map Server.deserialize_serialize servers
  rwa [List.mapM_map] at h

theorem lastWith_reread (domain : String) (added : List Server) :
    lastWith domain (added.map Server.reread) = (lastWith domain added).map Endpoints.reread := by
  unfold lastWith
  rw [← List.map_reverse, List.find?_map, Option.map_map, Option.map_map]
  rfl

/-- The map that is built from what was read back. -/
theorem getByDomain_reread {servers : ServerMap} {result : List Server}
    (h : servers.Servers result) (domain : String) :
    (ofServers (result.map Server.reread)).getByDomain domain =
      (servers.getByDomain domain).map Endpoints.reread := by
  rw [getByDomain_ofServers, lastWith_reread, ← getByDomain_ofServers,
    h.grouped.rebuilt result (List.Perm.refl _)]

end ServerMap

open ServerMap

/-- A server survives serialization if and only if it does not have both protocols, and
a map survives it if and only if none of its servers has. -/
theorem server_survives_iff (server : Server) {servers : ServerMap} {result : List Server}
    (h : servers.Servers result) :
    (Server.deserialize server.serialize = some server ↔ ¬ server.endpoint.IsFull) ∧
      ((∃ read, reload result = some read ∧
        ∀ domain, (ofServers read).getByDomain domain = servers.getByDomain domain) ↔
      ∀ domain endpoints, servers.getByDomain domain = some endpoints → ¬ endpoints.IsFull) := by
  refine ⟨server.deserialize_serialize_iff, ?_⟩
  have hread := getByDomain_reread h
  constructor
  · rintro ⟨read, hreload, hsame⟩ domain endpoints hdomain
    obtain rfl := Option.some.inj ((reload_eq result).symm.trans hreload)
    have heq := (hread domain).symm.trans (hsame domain)
    rw [hdomain, Option.map_some, Option.some_inj] at heq
    exact Endpoints.reread_eq_iff.mp heq
  · intro hnone
    refine ⟨_, reload_eq result, fun domain => (hread domain).trans ?_⟩
    cases hdomain : servers.getByDomain domain with
    | none => rfl
    | some endpoints =>
      rw [Option.map_some, Endpoints.reread_eq_iff.mpr (hnone domain endpoints hdomain)]

/-- A map with POP3 and IMAP servers. -/
theorem server_survives_separate :
    let added : List Server := [⟨["a", "b"], .pop3 ⟨⟨"pop.a", 995⟩⟩⟩, ⟨["c"], .imap ⟨⟨"imap.c", 993⟩⟩⟩]
    ∃ result read, (ofServers added).Servers result ∧ reload result = some read ∧
      ∀ domain, (ofServers read).getByDomain domain = (ofServers added).getByDomain domain := by
  have hresult := Servers.intro (Collections.HashMap.iterates_entries (ofServers
    [⟨["a", "b"], .pop3 ⟨⟨"pop.a", 995⟩⟩⟩, ⟨["c"], .imap ⟨⟨"imap.c", 993⟩⟩⟩]).map)
    (Collections.HashMap.iterates_entries _)
  have hsurvives := server_survives_iff ⟨["c"], .imap ⟨⟨"imap.c", 993⟩⟩⟩ hresult
  obtain ⟨read, hread⟩ := hsurvives.2.mpr fun domain endpoints hdomain => by
    rw [getByDomain_ofServers] at hdomain
    obtain ⟨server, hserver, rfl⟩ := Option.map_eq_some_iff.mp hdomain
    have hmem := List.mem_reverse.mp (List.mem_of_find?_eq_some hserver)
    simp only [List.mem_cons, List.not_mem_nil, or_false] at hmem
    rcases hmem with rfl | rfl <;> rintro ⟨pop3, imap, ⟨⟩⟩
  exact ⟨_, read, hresult, hread⟩

/-- A server with both protocols is read back without IMAP. -/
theorem full_loses_imap :
    let full : Server := ⟨["a"], .full ⟨⟨"pop.a", 995⟩⟩ ⟨⟨"imap.a", 993⟩⟩⟩
    Server.deserialize full.serialize = some ⟨["a"], .pop3 ⟨⟨"pop.a", 995⟩⟩⟩ ∧
      Server.deserialize full.serialize ≠ some full ∧
      ∃ result read, (ofServers [full]).Servers result ∧ reload result = some read ∧
        ((ofServers [full]).getByDomain "a").bind Endpoints.getImap = some ⟨⟨"imap.a", 993⟩⟩ ∧
        ((ofServers read).getByDomain "a").bind Endpoints.getImap = none := by
  refine ⟨rfl, by decide, _, _, Servers.intro (Collections.HashMap.iterates_entries _)
    (Collections.HashMap.iterates_entries _), reload_eq _, by decide, by decide⟩

end Mail
