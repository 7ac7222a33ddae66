import TlsProbe.Correlator.Theorems.OfferedGroups

open Std

namespace TlsProbe.Correlator

variable {c : Correlator} {k : ConnKey} {ev : Event} {calls events after : List Event}
variable {entry : PendingEntry} {negotiation : Negotiation}

-- Mutual TLS is only reported of connections on which it was requested.
def MtlsRequested (events : List Event) : Prop :=
  ∀ result ∈ machine.output new events, result.2.mtls → result.2.mtlsRequested

-- When the outcome of a connection is reported after a client certificate, a request for it has
-- come as well, in whichever order, since the ClientHello.
def CertificatesRequested (events : List Event) : Prop :=
  ∀ k calls ev rest after, events = calls ++ ev :: rest → Joins k ev → Since k calls after →
    .clientCertificate k ∈ after → .certificateRequest k ∈ after

-- Only negotiations of connections with a request are kept for the client certificate.
def StoredRequested (entry : PendingEntry) : Prop :=
  ∀ negotiation ∈ entry.1.postShNegotiation, negotiation.mtlsRequested

theorem conn_storedRequested {ttlNs : UInt64} {e : Option PendingEntry} {ce : Conn.Event}
    (h : ∀ entry ∈ e, StoredRequested entry) (entry : PendingEntry)
    (he : entry ∈ (Conn.step ttlNs e ce).1) : StoredRequested entry := by
  obtain ⟨hello, nowNs, rfl, rfl⟩ | ⟨entry', he', hb⟩ := Conn.step_cases he
  case inl => simp [StoredRequested, ParsedClientHello.summary]
  case inr =>
    have hs := h entry' he'
    cases hb
    case joined hm =>
      rintro _ ⟨⟩
      exact hm
    case requested => exact hs
    case certified => exact hs
    case swept     => exact hs

theorem state_storedRequested (he : (machine.state new calls).pending[k]? = some entry) :
    StoredRequested entry := by
  refine Machine.inv_reachable (P := fun c : Correlator =>
    ∀ (k : ConnKey) entry, c.pending[k]? = some entry → StoredRequested entry) (fun _ _ h => ?_)
    (by simp [new]) k entry he
  exact step_entries (Q := fun _ => True) (fun _ _ _ _ => conn_storedRequested)
    (fun _ _ _ => trivial) h

theorem requested_of_output (h : CertificatesRequested (calls ++ ev :: after))
    (hn : (k, negotiation) ∈ (machine.step (machine.state new calls) ev).2)
    (hm : negotiation.mtls) : negotiation.mtlsRequested := by
  obtain ⟨entry, ce, he, ho, ht⟩ := tells_of_output hn
  obtain ⟨since, hs⟩ := since_of_pending he
  obtain ⟨entry', he', hr, hc⟩ := hs.pending
  obtain rfl := Option.some.inj (he.symm.trans he')
  have flags (hj : Joins k ev) (hm : entry.1.mtls) : entry.1.mtlsRequested :=
    hr.mpr <| h k calls ev after since rfl hj hs (hc.mp hm)
  cases ht
  case serverHello hello    => exact flags (joins_of_ownEvent ho (.inl ⟨hello, rfl⟩)) hm
  case alert                => exact flags (joins_of_ownEvent ho (.inr rfl)) hm
  case clientCertificate hp =>
    have hs := state_storedRequested he _ hp
    exact hs

theorem mtls_requested_iff : MtlsRequested events ↔ CertificatesRequested events := by
  constructor
  case mp =>
    rintro h k calls ev rest after rfl hj hs hc
    obtain ⟨entry, he, hr, hm⟩ := hs.pending
    obtain ⟨negotiation, hn, hnr, hnm⟩ := output_of_joins hj he
    have ho : (k, negotiation) ∈ machine.output new (calls ++ ev :: rest) :=
      Machine.mem_output_iff.mpr ⟨calls, ev, rest, rfl, hn⟩
    have hnq := h _ ho (hnm.trans (hm.mpr hc))
    exact hr.mp (hnr.symm.trans hnq)
  case mpr =>
    rintro h ⟨k, negotiation⟩ hn hm
    obtain ⟨calls, ev, rest, rfl, ho⟩ := Machine.mem_output_iff.mp hn
    exact requested_of_output h ho hm

-- The client certificate comes before the ServerHello, and no request is seen.
theorem unrequested_not_mtlsRequested :
    ¬MtlsRequested [exampleRecord, .clientCertificate exampleKey, exampleJoin] := by
  intro h
  have hn : (exampleKey, { exampleNegotiation with mtls := true }) ∈
      machine.output new [exampleRecord, .clientCertificate exampleKey, exampleJoin] := by
    decide +kernel
  exact absurd (h _ hn rfl) (by decide +kernel)

end TlsProbe.Correlator
