import TlsProbe.Correlator.Theorems.Kept

open Std

namespace TlsProbe

-- What the documentation says about the groups that a negotiation reports.
structure Negotiation.ReportsSupported (negotiation : Negotiation) (hello : ParsedClientHello) :
    Prop where
  ids : negotiation.clientOfferedGroups.map (·.id) = hello.supportedGroups.filter (!isGrease ·)
  selected : ∀ group ∈ negotiation.selectedGroup, group.id ∈ hello.supportedGroups →
    isGrease group.id = false → group.id ∈ negotiation.clientOfferedGroups.map (·.id)

-- The client sends no key shares, or one for each group that it supports, in the same order.
def ParsedClientHello.SharesSupported (hello : ParsedClientHello) : Prop :=
  hello.keyShareGroups = [] ∨
  hello.keyShareGroups.filter (!isGrease ·) = hello.supportedGroups.filter (!isGrease ·)

theorem Negotiation.Carries.ids {negotiation : Negotiation} {facts : HelloFacts}
    (h : negotiation.Carries facts) :
    negotiation.clientOfferedGroups.map (·.id) = facts.offeredGroups.filter (!isGrease ·) := by
  rw [h.clientOfferedGroups, List.map_map]
  exact List.map_id _

theorem Negotiation.Carries.reportsSupported_iff {negotiation : Negotiation}
    {hello : ParsedClientHello} (h : negotiation.Carries hello.facts) :
    negotiation.ReportsSupported hello ↔ hello.SharesSupported := by
  have hids : negotiation.clientOfferedGroups.map (·.id) =
      hello.supportedGroups.filter (!isGrease ·) ↔ hello.SharesSupported := by
    rw [h.ids, ParsedClientHello.facts, ParsedClientHello.offeredGroups,
      ParsedClientHello.SharesSupported]
    by_cases hk : hello.keyShareGroups = [] <;> simp [hk]
  constructor
  case mp => exact fun hr => hids.mp hr.ids
  case mpr =>
    intro hs
    refine ⟨hids.mpr hs, fun group _ hm hg => ?_⟩
    rw [hids.mpr hs]
    exact List.mem_filter.mpr ⟨hm, by simp [hg]⟩

namespace Correlator

variable {c : Correlator} {k : ConnKey} {ev record : Event} {before after : List Event}
variable {facts : HelloFacts} {hello : ParsedClientHello} {negotiation : Negotiation}

theorem records_facts (h : Records k hello record) :
    (machine.step c record).1.HasFacts k hello.facts := by
  obtain ⟨nowNs, hp⟩ := pending_of_records (c := c) h
  exact ⟨_, hp, rfl⟩

theorem join_facts (hr : Records k hello record)
    (hk : machine.AllSteps (Keeps k) (machine.state new (before ++ [record])) after) :
    (machine.state new (before ++ record :: after)).HasFacts k hello.facts := by
  rw [List.append_cons, Machine.state_append]
  have hf : (machine.state new (before ++ [record])).HasFacts k hello.facts := by
    rw [Machine.state_append]
    exact records_facts hr
  obtain ⟨entry, he, hf⟩ := hf
  obtain ⟨entry', he', hk⟩ := state_of_keeps hk he
  exact ⟨entry', he', hk.facts.trans hf⟩

-- A join reports the supported groups of its ClientHello just when the client's key shares do not
-- leave any of these out.
theorem join_reports_supported_iff (hr : Records k hello record)
    (hk : machine.AllSteps (Keeps k) (machine.state new (before ++ [record])) after)
    (hn : (k, negotiation) ∈
      (machine.step (machine.state new (before ++ record :: after)) ev).2) :
    negotiation.ReportsSupported hello ↔ hello.SharesSupported := by
  have ⟨entry, he, hf⟩ := join_facts hr hk
  have ⟨_, ⟨entry', he', hf'⟩, hc⟩ := step_carries state_consistent hn
  cases he.symm.trans he'
  exact Negotiation.Carries.reportsSupported_iff <| hf ▸ hf'.symm ▸ hc

section Example

def exampleKey : ConnKey where
  srcAddr := .replicate 16 0
  dstAddr := .replicate 16 0
  srcPort := 12345
  dstPort := 443

-- A client that supports two groups and sends a key share for the first of them.
def exampleHello : ParsedClientHello where
  legacyVersion              := 0x0303
  random                     := List.replicate 32 0
  sessionId                  := []
  cipherSuites               := [0x1301]
  compressionMethods         := [0]
  extensions                 := []
  extensionIds               := []
  supportedVersions          := [0x0304]
  supportedGroups            := [0x001d, 0x0017]
  signatureAlgorithms        := [0x0403]
  signatureAlgorithmsCert    := []
  keyShareGroups             := [0x001d]
  sni                        := some "example.com"
  alpn                       := []
  pskOffered                 := false
  earlyDataOffered           := false
  pskKeyExchangeModesOffered := false
  sessionTicketOffered       := false

-- A server that selects the second group.
def exampleServerHello : ParsedServerHello where
  legacyVersion     := 0x0303
  random            := List.replicate 32 0
  sessionId         := []
  cipherSuite       := 0x1301
  compressionMethod := 0
  extensions        := []
  negotiatedVersion := some 0x0304
  keyShareGroup     := some 0x0017
  pskSelected       := false

def exampleRecord : Event :=
  .clientHello exampleKey (.clientHello 0x0303 exampleHello) 0 .sorted

def exampleJoin : Event :=
  .serverHello exampleKey (.serverHello 0x0303 exampleServerHello)

def exampleNegotiation : Negotiation :=
  (exampleHello.summary 0).buildNegotiation exampleServerHello

theorem mem_exampleJoin :
    (exampleKey, exampleNegotiation) ∈
      (machine.step (machine.state new [exampleRecord]) exampleJoin).2 := by
  decide +kernel

theorem join_reports_supported_iff_example :
    exampleNegotiation.ReportsSupported exampleHello ↔ exampleHello.SharesSupported :=
  have hk : machine.AllSteps (Keeps exampleKey) (machine.state new ([] ++ [exampleRecord])) [] := by
    simp [Machine.AllSteps]
  join_reports_supported_iff ⟨_, _, _, rfl⟩ hk mem_exampleJoin

theorem join_not_reports_supported : ¬∀ before record after k hello ev negotiation,
    Records k hello record →
    machine.AllSteps (Keeps k) (machine.state new (before ++ [record])) after →
    (k, negotiation) ∈ (machine.step (machine.state new (before ++ record :: after)) ev).2 →
    negotiation.ReportsSupported hello := by
  intro h
  have := h [] exampleRecord [] exampleKey exampleHello exampleJoin exampleNegotiation
    ⟨_, _, _, rfl⟩ (by simp [Machine.AllSteps]) mem_exampleJoin
  exact absurd this.ids (by decide +kernel)

end Example

end Correlator
end TlsProbe
