-- SUMMARY: The server map of `server_map.rs`, and how `servers()` groups it.
import Mathlib.Data.List.Induction
import GetEmail.Collections.HashMap

/-!
# Server map

The map sends a domain to the endpoints of its servers. `servers()` inverts it: it
collects the domains of each endpoint, in whatever order the maps are iterated.
-/

namespace Mail

open Collections

/-- `ProtocolEndpoint` -/
structure Endpoint where
  domain : String
  port : UInt16
  deriving DecidableEq, Repr

structure Imap where
  endpoint : Endpoint
  deriving DecidableEq, Repr

structure Pop3 where
  endpoint : Endpoint
  deriving DecidableEq, Repr

inductive Endpoints where
  | pop3 (pop3 : Pop3)
  | imap (imap : Imap)
  | full (pop3 : Pop3) (imap : Imap)
  deriving DecidableEq, Repr

namespace Endpoints

def getPop3 : Endpoints → Option Pop3
  | .pop3 endpoint => some endpoint
  | .imap _ => none
  | .full endpoint _ => some endpoint

def getImap : Endpoints → Option Imap
  | .imap endpoint => some endpoint
  | .full _ endpoint => some endpoint
  | .pop3 _ => none

end Endpoints

structure Server where
  domains : List String
  endpoint : Endpoints
  deriving DecidableEq, Repr

structure ServerMap where
  map : HashMap String Endpoints

namespace ServerMap

def new : ServerMap := ⟨∅⟩

def addServer (servers : ServerMap) (server : Server) : ServerMap :=
  ⟨servers.map.insertAll server.domains server.endpoint⟩

def getByDomain (servers : ServerMap) (domain : String) : Option Endpoints :=
  servers.map.lookup domain

/-- The map `reversed_map` of `servers`, after the loop over the entries of the map. -/
def reversed (entries : List (String × Endpoints)) : HashMap Endpoints Server :=
  entries.foldl (fun reversed (domain, endpoint) =>
    reversed.modifyOrInsert endpoint
      (fun server => { server with domains := server.domains ++ [domain] }) ⟨[domain], endpoint⟩) ∅

/-- `servers()` may return `result`: both maps are iterated in any order. -/
inductive Servers (servers : ServerMap) : List Server → Prop where
  | intro {entries : List (String × Endpoints)} {groups : List (Endpoints × Server)}
      (hentries : servers.map.Iterates entries) (hgroups : (reversed entries).Iterates groups) :
      Servers servers (groups.map (·.2))

/-- The map after these servers were added to an empty one. -/
def ofServers (added : List Server) : ServerMap := added.foldl addServer new

theorem ofServers_append (added : List Server) (server : Server) :
    ofServers (added ++ [server]) = (ofServers added).addServer server := List.foldl_concat ..

theorem getByDomain_addServer (servers : ServerMap) (server : Server) (domain : String) :
    (servers.addServer server).getByDomain domain =
      if domain ∈ server.domains then some server.endpoint else servers.getByDomain domain :=
  HashMap.lookup_insertAll ..

/-- The endpoint of the last server that lists the domain. -/
def lastWith (domain : String) (added : List Server) : Option Endpoints :=
  (added.reverse.find? (domain ∈ ·.domains)).map (·.endpoint)

theorem getByDomain_ofServers (added : List Server) (domain : String) :
    (ofServers added).getByDomain domain = lastWith domain added := by
  induction added using List.reverseRecOn with
  | nil => rfl
  | append_singleton added server ih =>
    rw [ofServers_append, getByDomain_addServer, ih]
    by_cases hmem : domain ∈ server.domains <;> simp [lastWith, hmem]

/-! ## Grouping -/

/-- The domains with this endpoint. -/
def domainsOf (endpoint : Endpoints) (entries : List (String × Endpoints)) : List String :=
  (entries.filter (·.2 = endpoint)).map (·.1)

theorem mem_domainsOf {endpoint : Endpoints} {entries : List (String × Endpoints)} {domain : String} :
    domain ∈ domainsOf endpoint entries ↔ (domain, endpoint) ∈ entries := by
  simp [domainsOf]

/-- Each endpoint has one group, with its domains. -/
theorem lookup_reversed (entries : List (String × Endpoints)) (endpoint : Endpoints) :
    (reversed entries).lookup endpoint =
      if domainsOf endpoint entries = [] then none
      else some ⟨domainsOf endpoint entries, endpoint⟩ := by
  induction entries using List.reverseRecOn with
  | nil => rfl
  | append_singleton entries entry ih =>
    obtain ⟨domain, endpoint'⟩ := entry
    have hstep : reversed (entries ++ [(domain, endpoint')]) =
        (reversed entries).modifyOrInsert endpoint'
          (fun server => { server with domains := server.domains ++ [domain] })
          ⟨[domain], endpoint'⟩ := List.foldl_concat ..
    rw [hstep, HashMap.lookup_modifyOrInsert]
    by_cases heq : endpoint = endpoint'
    · subst heq
      have hdomains : domainsOf endpoint (entries ++ [(domain, endpoint)]) =
          domainsOf endpoint entries ++ [domain] := by simp [domainsOf]
      rw [if_pos rfl, ih, hdomains]
      by_cases hnil : domainsOf endpoint entries = [] <;> simp [hnil]
    · have hdomains : domainsOf endpoint (entries ++ [(domain, endpoint')]) =
          domainsOf endpoint entries := by simp [domainsOf, Ne.symm heq]
      rw [if_neg heq, ih, hdomains]

variable {servers : ServerMap} {result : List Server}

/-- A group lists exactly the domains that have its endpoint, each once. -/
structure IsGroup (servers : ServerMap) (server : Server) : Prop where
  nonempty : server.domains ≠ []
  nodup : server.domains.Nodup
  mem : ∀ domain, domain ∈ server.domains ↔ servers.getByDomain domain = some server.endpoint

theorem Servers.isGroup (h : servers.Servers result) : ∀ server ∈ result, servers.IsGroup server := by
  obtain @⟨entries, groups, hentries, hgroups⟩ := h
  intro server hserver
  obtain ⟨⟨endpoint, server⟩, hmem, rfl⟩ := List.mem_map.mp hserver
  have hlookup := hgroups.mem.mp hmem
  rw [lookup_reversed] at hlookup
  split at hlookup
  · cases hlookup
  · next hne =>
    cases hlookup
    refine ⟨hne, (hentries.keys).sublist (List.filter_sublist.map _), fun domain => ?_⟩
    rw [mem_domainsOf]
    exact hentries.mem

/-- There is one group for each endpoint. -/
theorem Servers.endpoints (h : servers.Servers result) : (result.map (·.endpoint)).Nodup := by
  obtain @⟨entries, groups, hentries, hgroups⟩ := h
  have hkey : ∀ group ∈ groups, group.2.endpoint = group.1 := by
    rintro ⟨endpoint, server⟩ hmem
    have hlookup := hgroups.mem.mp hmem
    rw [lookup_reversed] at hlookup
    split at hlookup <;> cases hlookup
    rfl
  have heq : (groups.map (·.2)).map (·.endpoint) = groups.map (·.1) := by
    rw [List.map_map]
    exact List.map_congr_left hkey
  rw [heq]
  exact hgroups.keys

/-- Every domain of the map is in a group. -/
theorem Servers.exists_group (h : servers.Servers result) {domain : String} {endpoint : Endpoints}
    (hdomain : servers.getByDomain domain = some endpoint) :
    ∃ server ∈ result, server.endpoint = endpoint ∧ domain ∈ server.domains := by
  obtain @⟨entries, groups, hentries, hgroups⟩ := h
  have hmem : domain ∈ domainsOf endpoint entries := mem_domainsOf.mpr (hentries.mem.mpr hdomain)
  have hlookup := lookup_reversed entries endpoint
  rw [if_neg (List.ne_nil_of_mem hmem)] at hlookup
  exact ⟨_, List.mem_map.mpr ⟨_, hgroups.mem.mpr hlookup, rfl⟩, rfl, hmem⟩

/-! ## Faithful grouping -/

/-- `result` is the map, grouped. -/
structure Grouped (servers : ServerMap) (result : List Server) : Prop where
  once : ∀ domain endpoint, servers.getByDomain domain = some endpoint →
    (result.flatMap (·.domains)).count domain = 1 ∧
      ∃ server ∈ result, server.endpoint = endpoint ∧ domain ∈ server.domains
  none : ∀ domain, servers.getByDomain domain = none → domain ∉ result.flatMap (·.domains)
  endpoints : (result.map (·.endpoint)).Nodup
  nonempty : ∀ server ∈ result, server.domains ≠ []
  rebuilt : ∀ result' : List Server, result'.Perm result →
    ∀ domain, (ofServers result').getByDomain domain = servers.getByDomain domain

theorem Servers.nodup (h : servers.Servers result) : (result.flatMap (·.domains)).Nodup := by
  refine List.nodup_flatMap.mpr ⟨fun server hserver => (h.isGroup server hserver).nodup, ?_⟩
  refine (List.pairwise_map.mp h.endpoints).imp_of_mem fun hserver hserver' hne domain hmem hmem' => ?_
  have hlookup := ((h.isGroup _ hserver).mem domain).mp hmem
  rw [((h.isGroup _ hserver').mem domain).mp hmem'] at hlookup
  exact hne (Option.some.inj hlookup).symm

/-- Servers that agree with the map on the domains they list rebuild it, in any order. -/
theorem getByDomain_rebuilt {result : List Server} (domain : String)
    (hmem : ∀ server ∈ result, domain ∈ server.domains →
      servers.getByDomain domain = some server.endpoint)
    (hall : ∀ endpoint, servers.getByDomain domain = some endpoint →
      ∃ server ∈ result, domain ∈ server.domains) :
    (ofServers result).getByDomain domain = servers.getByDomain domain := by
  rw [getByDomain_ofServers, lastWith]
  cases hfind : result.reverse.find? (domain ∈ ·.domains) with
  | some server =>
    have hserver := List.mem_reverse.mp (List.mem_of_find?_eq_some hfind)
    have hdomain : domain ∈ server.domains := by simpa using List.find?_some hfind
    exact (hmem server hserver hdomain).symm
  | none =>
    cases hlookup : servers.getByDomain domain with
    | none => rfl
    | some endpoint =>
      obtain ⟨server, hserver, hdomain⟩ := hall endpoint hlookup
      have hnot := List.find?_eq_none.mp hfind server (List.mem_reverse.mpr hserver)
      exact absurd hdomain (by simpa using hnot)

theorem Servers.grouped (h : servers.Servers result) : servers.Grouped result where
  once domain endpoint hdomain := by
    obtain ⟨server, hserver, hendpoint, hmem⟩ := h.exists_group hdomain
    exact ⟨List.count_eq_one_of_mem h.nodup (List.mem_flatMap.mpr ⟨server, hserver, hmem⟩),
      server, hserver, hendpoint, hmem⟩
  none domain hdomain hmem := by
    obtain ⟨server, hserver, hmem⟩ := List.mem_flatMap.mp hmem
    rw [((h.isGroup server hserver).mem domain).mp hmem] at hdomain
    cases hdomain
  endpoints := h.endpoints
  nonempty server hserver := (h.isGroup server hserver).nonempty
  rebuilt result' hperm domain := by
    refine getByDomain_rebuilt domain (fun server hserver hmem => ?_) fun endpoint hdomain => ?_
    · exact ((h.isGroup server (hperm.mem_iff.mp hserver)).mem domain).mp hmem
    · obtain ⟨server, hserver, -, hmem⟩ := h.exists_group hdomain
      exact ⟨server, hperm.mem_iff.mpr hserver, hmem⟩

end ServerMap

open ServerMap

/-- `servers()` is a faithful grouping of what was added. -/
theorem servers_grouping (added : List Server) :
    (∀ domain, (ofServers added).getByDomain domain = lastWith domain added) ∧
      ∀ result, (ofServers added).Servers result → (ofServers added).Grouped result :=
  ⟨getByDomain_ofServers added, fun _ => Servers.grouped⟩

/-- A domain that was taken over, and an endpoint that came twice. -/
theorem servers_grouping_taken_over :
    let pop3 : Endpoints := .pop3 ⟨⟨"pop.a", 995⟩⟩
    let imap : Endpoints := .imap ⟨⟨"imap.a", 993⟩⟩
    let added : List Server := [⟨["a", "b"], pop3⟩, ⟨["c", "b"], imap⟩, ⟨["d"], pop3⟩]
    ∃ result, (ofServers added).Servers result ∧ (ofServers added).Grouped result ∧
      result = [⟨["d", "a"], pop3⟩, ⟨["b", "c"], imap⟩] := by
  have hresult := Servers.intro (HashMap.iterates_entries (ofServers
    [⟨["a", "b"], .pop3 ⟨⟨"pop.a", 995⟩⟩⟩, ⟨["c", "b"], .imap ⟨⟨"imap.a", 993⟩⟩⟩,
      ⟨["d"], .pop3 ⟨⟨"pop.a", 995⟩⟩⟩]).map) (HashMap.iterates_entries _)
  exact ⟨_, hresult, (servers_grouping _).2 _ hresult, by decide⟩

end Mail
