import TlsProbe.Correlator.Theorems.Projection

open Std

namespace TlsProbe

-- What a negotiation reports of the ClientHello that it belongs to.
structure HelloFacts where
  maxVersion       : UInt16
  offeredGroups    : List UInt16
  sni              : Option String
  earlyDataOffered : Bool

def ParsedClientHello.facts (hello : ParsedClientHello) : HelloFacts where
  maxVersion       := hello.maxVersion
  offeredGroups    := hello.offeredGroups
  sni              := hello.sni
  earlyDataOffered := hello.earlyDataOffered

def ClientHelloSummary.facts (summary : ClientHelloSummary) : HelloFacts where
  maxVersion       := summary.maxVersion
  offeredGroups    := summary.offeredGroups
  sni              := summary.sni
  earlyDataOffered := summary.earlyDataOffered

structure Negotiation.Carries (negotiation : Negotiation) (facts : HelloFacts) : Prop where
  clientMaxVersion    : negotiation.clientMaxVersion = tlsVersionName facts.maxVersion
  clientOfferedGroups : negotiation.clientOfferedGroups =
    (facts.offeredGroups.filter (!isGrease ·)).map fun g => ⟨g, keyExchangeName g⟩
  clientSni           : negotiation.clientSni = facts.sni
  earlyDataOffered    : negotiation.earlyDataOffered = facts.earlyDataOffered

namespace Conn

variable {ttlNs : UInt64} {e : Option PendingEntry} {entry : PendingEntry} {ce : Event}
variable {negotiation : Negotiation}

def Event.Renews : Event → Prop
  | .clientHello .. => True
  | _               => False

-- The event takes the entry away from its connection.
def Event.Consumes (ttlNs : UInt64) (entry : PendingEntry) : Event → Prop
  | .serverHello _      => entry.1.mtlsRequested = false
  | .clientCertificate  => entry.1.postShNegotiation.isSome
  | .sweep nowNs        => ttlNs ≤ nowNs - entry.2
  | .alert | .evict     => True
  | .clientHello ..     => False
  | .certificateRequest => False

-- The event leaves the connection with an entry for the same ClientHello.
def Event.Keeps (ttlNs : UInt64) (e : Option PendingEntry) (ce : Event) : Prop :=
  ¬ce.Renews ∧ ∀ entry ∈ e, ¬ce.Consumes ttlNs entry

-- The negotiation that an entry keeps for the client certificate belongs to its ClientHello.
def Consistent (entry : PendingEntry) : Prop :=
  ∀ negotiation ∈ entry.1.postShNegotiation, negotiation.Carries entry.1.facts

-- An entry that is not new is for the same ClientHello as before.
theorem step_kept (h : entry ∈ (step ttlNs e ce).1) :
    (∃ hello nowNs, ce = .clientHello hello nowNs ∧ entry = (hello.summary nowNs, nowNs)) ∨
    ∃ entry' ∈ e, entry.1.facts = entry'.1.facts ∧ (Consistent entry' → Consistent entry) ∧
      ce.Keeps ttlNs e := by
  obtain hn | ⟨entry', he, hb⟩ := step_cases h
  case inl => exact .inl hn
  case inr =>
    right
    cases he
    cases hb
    case joined hm =>
      refine ⟨_, rfl, rfl, ?_, id, by simp [Event.Consumes, hm]⟩
      intro _ _ hn
      cases hn
      exact ⟨rfl, rfl, rfl, rfl⟩
    case requested    => exact ⟨_, rfl, rfl, id, id, fun _ _ => id⟩
    case certified hp => exact ⟨_, rfl, rfl, id, id, by simp [Event.Consumes, hp]⟩
    case swept ht     => exact ⟨_, rfl, rfl, id, id, by simpa [Event.Consumes] using ht⟩

-- What a result tells of an entry belongs to its ClientHello.
theorem Tells.carries (h : Tells entry ce negotiation) (hc : Consistent entry) :
    negotiation.Carries entry.1.facts := by
  cases h
  case serverHello          => exact ⟨rfl, rfl, rfl, rfl⟩
  case alert                => exact ⟨rfl, rfl, rfl, rfl⟩
  case clientCertificate hp =>
    have hc := hc _ hp
    exact ⟨hc.1, hc.2, hc.3, hc.4⟩

end Conn

namespace Correlator

variable {c : Correlator} {k : ConnKey} {ev : Event} {events : List Event}
variable {negotiation : Negotiation} {facts : HelloFacts} {entry : PendingEntry}

-- The call leaves `k` with an entry for the same ClientHello, if it has one.
def Keeps (k : ConnKey) (c : Correlator) (ev : Event) : Prop :=
  ∀ ce ∈ connEvents k c ev, ce.Keeps c.ttlNs c.pending[k]?

-- The call passes a ClientHello for `k` to the correlator.
def Records (k : ConnKey) (hello : ParsedClientHello) (ev : Event) : Prop :=
  ∃ version nowNs iter, ev = .clientHello k (.clientHello version hello) nowNs iter

-- The calls that are an event of the connection `k`.
def Stands (k : ConnKey) (ev : Event) : Conn.Event → Prop
  | .clientHello hello nowNs =>
    ∃ version iter, ev = .clientHello k (.clientHello version hello) nowNs iter
  | .serverHello hello       => ∃ version, ev = .serverHello k (.serverHello version hello)
  | .alert                   => ∃ level description, ev = .alert k level description
  | .certificateRequest      => ev = .certificateRequest k
  | .clientCertificate       => ev = .clientCertificate k
  | .sweep nowNs             => ev = .sweep nowNs
  | .evict                   => False

theorem ownEvent_eq_some {ce : Conn.Event} : ownEvent k ev = some ce ↔ Stands k ev ce := by
  cases ev
  case clientHello key analysis nowNs iter =>
    cases analysis <;> cases ce <;> simp [ownEvent, Stands, and_assoc]
  case serverHello key analysis =>
    cases analysis <;> cases ce <;> simp [ownEvent, Stands]
  all_goals
    cases ce <;> simp [ownEvent, Stands]

theorem records_of_ownEvent {hello : ParsedClientHello} {nowNs : UInt64}
    (h : ownEvent k ev = some (.clientHello hello nowNs)) : Records k hello ev := by
  obtain ⟨version, iter, rfl⟩ := ownEvent_eq_some.mp h
  exact ⟨version, nowNs, iter, rfl⟩

theorem step_kept (h : (machine.step c ev).1.pending[k]? = some entry) :
    (∃ hello nowNs, Records k hello ev ∧ entry = (hello.summary nowNs, nowNs)) ∨
    ∃ entry', c.pending[k]? = some entry' ∧ entry.1.facts = entry'.1.facts ∧
      (Conn.Consistent entry' → Conn.Consistent entry) ∧ c.Keeps k ev := by
  have hs {entry : PendingEntry} (he : c.survivor k ev = some entry) :
      c.evictedBy ev ≠ some k ∧ c.pending[k]? = some entry := Option.ite_none_left_eq_some.mp he
  rw [step_projected.1, projected] at h
  cases ho : ownEvent k ev <;> simp only [ho] at h
  case none =>
    obtain ⟨he, hp⟩ := hs h
    exact .inr ⟨entry, hp, rfl, id, by simp [Keeps, connEvents, he, ho]⟩
  case some ce =>
    obtain ⟨hello, nowNs, hce, he⟩ | ⟨entry', he', hf, hc, hk⟩ := Conn.step_kept h
    case inl => exact .inl ⟨hello, nowNs, records_of_ownEvent (hce ▸ ho), he⟩
    case inr =>
      obtain ⟨he, hp⟩ := hs he'
      refine .inr ⟨entry', hp, hf, hc, ?_⟩
      rw [Option.mem_def.mp he'] at hk
      simpa [Keeps, connEvents, he, ho, hp] using hk

def Consistent (c : Correlator) : Prop :=
  ∀ (k : ConnKey) entry, c.pending[k]? = some entry → Conn.Consistent entry

theorem step_consistent (h : c.Consistent) : (machine.step c ev).1.Consistent := by
  intro k entry he
  obtain ⟨hello, nowNs, _, rfl⟩ | ⟨entry', hp, _, hc, _⟩ := step_kept he
  case inl => simp [Conn.Consistent, ParsedClientHello.summary]
  case inr => exact hc <| h k entry' hp

theorem state_consistent : (machine.state new events).Consistent :=
  Machine.inv_reachable (fun _ _ => step_consistent) (by simp [Consistent, new])

def HasFacts (k : ConnKey) (c : Correlator) (facts : HelloFacts) : Prop :=
  ∃ entry ∈ c.pending[k]?, entry.1.facts = facts

-- What a result for a key tells of its entry.
theorem tells_of_output (h : (k, negotiation) ∈ (machine.step c ev).2) :
    ∃ entry ce, c.pending[k]? = some entry ∧ ownEvent k ev = some ce ∧
      Conn.Tells entry ce negotiation := by
  have hn : negotiation ∈ resultsOf k (machine.step c ev).2 :=
    List.mem_filterMap.mpr ⟨_, h, by simp⟩
  rw [step_projected.2, projected] at hn
  cases ho : ownEvent k ev <;> simp only [ho] at hn
  case none    => contradiction
  case some ce =>
    obtain ⟨entry, he, ht⟩ := Conn.output_cases hn
    exact ⟨entry, ce, (Option.ite_none_left_eq_some.mp he).2, rfl, ht⟩

-- Every result for a key carries the facts of the entry that the key has when the call is made.
theorem step_carries (h : c.Consistent) (hn : (k, negotiation) ∈ (machine.step c ev).2) :
    ∃ facts, c.HasFacts k facts ∧ negotiation.Carries facts := by
  obtain ⟨entry, ce, he, -, ht⟩ := tells_of_output hn
  exact ⟨entry.1.facts, ⟨entry, he, rfl⟩, ht.carries (h k entry he)⟩

theorem hasFacts_origin (h : (machine.state new events).HasFacts k facts) :
    ∃ before ev after hello, events = before ++ ev :: after ∧ Records k hello ev ∧
      facts = hello.facts ∧
      machine.AllSteps (Keeps k) (machine.state new (before ++ [ev])) after := by
  have ⟨before, ev, after, he, ⟨hello, hr, hf⟩, hk⟩ := Machine.origin (m := machine)
    (Q := HasFacts k) (B := fun ev facts => ∃ hello, Records k hello ev ∧ facts = hello.facts)
    (L := Keeps k) (fun c ev facts ⟨entry, he, hf⟩ => by
      obtain ⟨hello, nowNs, hr, rfl⟩ | ⟨entry', hp, hf', _, hk⟩ := step_kept he
      case inl => exact .inl ⟨hello, hr, hf.symm⟩
      case inr => exact .inr ⟨⟨entry', hp, hf'.symm.trans hf⟩, hk⟩)
    (by simp [HasFacts, new]) h
  exact ⟨before, ev, after, hello, he, hr, hf, hk⟩

-- Every result for a key carries the facts of the last ClientHello that was recorded for this key
-- and has not been consumed since. Calls for other keys only matter for it by evicting its entry.
theorem refines_last_hello (k : ConnKey) :
    (∀ events ev negotiation, (k, negotiation) ∈ (machine.step (machine.state new events) ev).2 →
      ∃ before record after hello, events = before ++ record :: after ∧ Records k hello record ∧
        machine.AllSteps (Keeps k) (machine.state new (before ++ [record])) after ∧
        negotiation.Carries hello.facts) ∧
    (∀ events₁ events₂, Machine.Projects.inputs machine (connEvents k) new events₁ =
        Machine.Projects.inputs machine (connEvents k) new events₂ →
      resultsOf k (machine.output new events₁) = resultsOf k (machine.output new events₂)) := by
  constructor
  case left =>
    intro events ev negotiation hn
    have ⟨facts, hf, hc⟩ := step_carries state_consistent hn
    have ⟨before, record, after, hello, he, hr, hf, hk⟩ := hasFacts_origin hf
    exact ⟨before, record, after, hello, he, hr, hk, hf ▸ hc⟩
  case right =>
    intro events₁ events₂ he
    have ho events : resultsOf k (machine.output new events) = _ :=
      (projects k new.ttlNs).output_run rfl rfl fun _ _ => List.filterMap_append ..
    rw [ho, ho, he]

end Correlator
end TlsProbe
