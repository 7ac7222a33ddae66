import TlsProbe.Correlator.Theorems.OfferedGroups

open Std

namespace TlsProbe.Correlator

variable {c : Correlator} {k : ConnKey} {ev : Event} {calls events : List Event}
variable {entry : PendingEntry} {version : UInt16} {hello : ParsedServerHello}

def Reports (c : Correlator) (ev : Event) : Prop :=
  (machine.step c ev).2 ≠ []

-- The call reports the connection `k` as negotiated.
def Negotiates (k : ConnKey) (c : Correlator) (ev : Event) : Prop :=
  (∃ analysis, ev = .serverHello k analysis) ∧ c.Reports ev

-- The call reports the connection `k` as failed.
def Fails (k : ConnKey) (c : Correlator) (ev : Event) : Prop :=
  (∃ level description, ev = .alert k level description) ∧ c.Reports ev

-- A connection that has been reported as negotiated is not reported again, in either way, before
-- there is another ClientHello for it.
def OneOutcome (events : List Event) : Prop :=
  ∀ k calls ev between ev' rest, events = calls ++ ev :: (between ++ ev' :: rest) →
    Negotiates k (machine.state new calls) ev →
    Negotiates k (machine.state new (calls ++ ev :: between)) ev' ∨
      Fails k (machine.state new (calls ++ ev :: between)) ev' →
    ∃ record ∈ between, ∃ hello, Records k hello record

-- After a ServerHello has joined a connection with a request for a client certificate, there is
-- no ServerHello or alert for it as long as the entry is kept for the certificate.
def NotJoinedAgain (events : List Event) : Prop :=
  ∀ k calls after version hello between ev rest,
    events = calls ++ .serverHello k (.serverHello version hello) :: (between ++ ev :: rest) →
    Since k calls after → .certificateRequest k ∈ after →
    machine.AllSteps (Keeps k)
      (machine.state new (calls ++ [.serverHello k (.serverHello version hello)])) between →
    ¬Joins k ev

theorem Joins.reports_iff (h : Joins k ev) : c.Reports ev ↔ (c.pending[k]?).isSome := by
  obtain ⟨version, hello, rfl⟩ | ⟨level, description, rfl⟩ := h
  case inl =>
    rw [Reports, acts_serverHello.results]
    cases c.pending[k]?
    case none => simp [Conn.step]
    case some => simp [Conn.serverHello_output]
  case inr =>
    rw [Reports, acts_alert.results]
    cases c.pending[k]? <;> simp [Conn.step]

theorem Negotiates.serverHello (h : Negotiates k c ev) :
    ∃ version hello, ev = .serverHello k (.serverHello version hello) := by
  obtain ⟨⟨analysis, rfl⟩, hr⟩ := h
  cases analysis
  case clientHello => exact absurd rfl hr
  case serverHello => exact ⟨_, _, rfl⟩

theorem joins_of_reported (h : Negotiates k c ev ∨ Fails k c ev) :
    Joins k ev ∧ (c.pending[k]?).isSome := by
  have hj : Joins k ev := by
    obtain hn | ⟨⟨level, description, rfl⟩, _⟩ := h
    case inl => exact .inl hn.serverHello
    case inr => exact .inr ⟨_, _, rfl⟩
  exact ⟨hj, hj.reports_iff.mp <| h.elim (·.2) (·.2)⟩

theorem reported_of_joins (h : Joins k ev) (hp : (c.pending[k]?).isSome) :
    Negotiates k c ev ∨ Fails k c ev := by
  have hr := h.reports_iff.mpr hp
  obtain ⟨version, hello, rfl⟩ | ⟨level, description, rfl⟩ := h
  case inl => exact .inl ⟨⟨_, rfl⟩, hr⟩
  case inr => exact .inr ⟨⟨_, _, rfl⟩, hr⟩

-- A join leaves the entry for a client certificate that was requested.
theorem serverHello_pending (he : c.pending[k]? = some entry) :
    ((machine.step c (.serverHello k (.serverHello version hello))).1.pending[k]?).isSome ↔
      entry.1.mtlsRequested := by
  rw [acts_serverHello.pending, if_pos rfl, he]
  cases hm : entry.1.mtlsRequested <;> simp [Conn.step, hm]

theorem not_records_of_keeps (h : machine.AllSteps (Keeps k) c calls) {record : Event}
    (hr : record ∈ calls) {hello : ParsedClientHello} : ¬Records k hello record := by
  obtain ⟨before, after, rfl⟩ := List.append_of_mem hr
  exact (Machine.allSteps_append.mp h).2.head.not_records

theorem one_outcome_iff : OneOutcome events ↔ NotJoinedAgain events := by
  constructor
  case mp =>
    rintro h k calls after version hello between ev rest rfl hs hr hk hj
    obtain ⟨entry, he, hreq, _⟩ := hs.pending
    have hn : Negotiates k (machine.state new calls)
        (.serverHello k (.serverHello version hello)) :=
      ⟨⟨_, rfl⟩, (Joins.reports_iff (.inl ⟨_, _, rfl⟩)).mpr (by simp [he])⟩
    have hp := (@serverHello_pending _ k entry version hello he).mpr (hreq.mpr hr)
    obtain ⟨entry₁, he₁⟩ := Option.isSome_iff_exists.mp hp
    rw [Machine.state_append] at hk
    obtain ⟨entry₂, he₂, _⟩ := state_of_keeps hk he₁
    have hf := reported_of_joins hj (c := machine.state new
      (calls ++ .serverHello k (.serverHello version hello) :: between)) <| by
        rw [Machine.state_append]
        exact Option.isSome_of_mem he₂
    obtain ⟨record, hb, hello', hrec⟩ := h k calls _ between ev rest rfl hn hf
    exact not_records_of_keeps hk hb hrec
  case mpr =>
    rintro h k calls ev between ev' rest rfl hn hf
    obtain ⟨version, hello, rfl⟩ := hn.serverHello
    obtain ⟨hj, hp⟩ := joins_of_reported hf
    obtain ⟨entry, he⟩ := Option.isSome_iff_exists.mp (joins_of_reported (.inl hn)).2
    by_contra hr
    obtain ⟨entry', he'⟩ := Option.isSome_iff_exists.mp hp
    rw [List.append_cons, Machine.state_append] at he'
    obtain ⟨hk, ha⟩ := kept_of_pending he' fun record hb hello hrec =>
      hr ⟨record, hb, hello, hrec⟩
    obtain ⟨after, hs⟩ := since_of_pending he
    obtain ⟨entry₁, he₁, hreq, _⟩ := hs.pending
    obtain rfl := Option.some.inj (he.symm.trans he₁)
    rw [Machine.state_append] at hk
    have hm := hreq.mp <| (serverHello_pending he).mp hk
    exact h k calls after version hello between ev' rest rfl hs hm ha hj

-- A ServerHello is sent again on a connection whose client certificate is pending.
theorem resent_not_oneOutcome : ¬OneOutcome
    [exampleRecord, .certificateRequest exampleKey, exampleJoin, exampleJoin] := by
  intro h
  have hj : Joins exampleKey exampleJoin := .inl ⟨_, _, rfl⟩
  have hp (calls : List Event)
      (hp : ((machine.state new calls).pending[exampleKey]?).isSome) :
      Negotiates exampleKey (machine.state new calls) exampleJoin :=
    ⟨⟨_, rfl⟩, hj.reports_iff.mpr hp⟩
  obtain ⟨record, hr, _⟩ := h exampleKey [exampleRecord, .certificateRequest exampleKey] exampleJoin
    [] exampleJoin [] rfl (hp _ (by decide +kernel)) (.inl <| hp _ (by decide +kernel))
  contradiction

end TlsProbe.Correlator
