import TlsProbe.Correlator.Conn

namespace TlsProbe.Conn

variable {ttlNs : UInt64} {e : Option PendingEntry} {entry : PendingEntry} {ce : Event}
variable {negotiation : Negotiation}

-- What an event makes of an entry that it leaves in place.
inductive Becomes (ttlNs : UInt64) : PendingEntry → Event → PendingEntry → Prop
  | joined {summary : ClientHelloSummary} {insertionNs : UInt64} {hello : ParsedServerHello}
      (requested : summary.mtlsRequested) :
      Becomes ttlNs (summary, insertionNs) (.serverHello hello)
        ({ summary with postShNegotiation := some (summary.buildNegotiation hello) }, insertionNs)
  | requested {summary : ClientHelloSummary} {insertionNs : UInt64} :
      Becomes ttlNs (summary, insertionNs) .certificateRequest
        ({ summary with mtlsRequested := true }, insertionNs)
  | certified {summary : ClientHelloSummary} {insertionNs : UInt64}
      (unjoined : summary.postShNegotiation = none) :
      Becomes ttlNs (summary, insertionNs) .clientCertificate
        ({ summary with mtls := true }, insertionNs)
  | swept {nowNs : UInt64} {entry : PendingEntry} (young : nowNs - entry.2 < ttlNs) :
      Becomes ttlNs entry (.sweep nowNs) entry

-- What is told of an entry on an event.
inductive Tells (entry : PendingEntry) : Event → Negotiation → Prop
  | serverHello {hello : ParsedServerHello} :
      Tells entry (.serverHello hello) (entry.1.buildNegotiation hello)
  | alert : Tells entry .alert entry.1.failedNegotiation
  | clientCertificate {stored : Negotiation} (joined : entry.1.postShNegotiation = some stored) :
      Tells entry .clientCertificate { stored with mtls := true }

-- Where the entry of a connection comes from.
theorem step_cases (h : entry ∈ (step ttlNs e ce).1) :
    (∃ hello nowNs, ce = .clientHello hello nowNs ∧ entry = (hello.summary nowNs, nowNs)) ∨
    ∃ entry' ∈ e, Becomes ttlNs entry' ce entry := by
  cases ce <;> simp only [step] at h
  case clientHello hello nowNs =>
    cases h
    exact .inl ⟨hello, nowNs, rfl, rfl⟩
  all_goals
    right
    cases e
    case none => simp at h
  case serverHello.some hello entry' =>
    obtain ⟨summary, insertionNs⟩ := entry'
    simp only at h
    split at h
    case isFalse   => contradiction
    case isTrue hm =>
      cases h
      exact ⟨_, rfl, .joined hm⟩
  case alert.some => contradiction
  case certificateRequest.some entry' =>
    cases h
    exact ⟨entry', rfl, .requested⟩
  case clientCertificate.some entry' =>
    obtain ⟨summary, insertionNs⟩ := entry'
    simp only at h
    split at h
    case h_1    => contradiction
    case h_2 hp =>
      cases h
      exact ⟨_, rfl, .certified hp⟩
  case sweep.some nowNs entry' =>
    obtain ⟨he, ht⟩ := Option.filter_eq_some_iff.mp h
    cases he
    exact ⟨entry, rfl, .swept (of_decide_eq_true ht)⟩
  case evict.some => contradiction

theorem serverHello_output {hello : ParsedServerHello} :
    (step ttlNs (some entry) (.serverHello hello)).2 = [entry.1.buildNegotiation hello] := by
  simp only [step]
  split <;> rfl

-- Where a negotiation comes from.
theorem output_cases (h : negotiation ∈ (step ttlNs e ce).2) :
    ∃ entry ∈ e, Tells entry ce negotiation := by
  cases ce
  case clientHello | certificateRequest | sweep | evict => simp [step] at h
  all_goals
    cases e
    case none => simp [step] at h
  case serverHello.some entry =>
    rw [serverHello_output, List.mem_singleton] at h
    exact ⟨entry, rfl, h ▸ .serverHello⟩
  case alert.some entry =>
    cases List.mem_singleton.mp h
    exact ⟨entry, rfl, .alert⟩
  case clientCertificate.some entry =>
    simp only [step] at h
    cases hp : entry.1.postShNegotiation <;> simp only [hp] at h
    case none => contradiction
    case some =>
      cases List.mem_singleton.mp h
      exact ⟨entry, rfl, .clientCertificate hp⟩

end TlsProbe.Conn
