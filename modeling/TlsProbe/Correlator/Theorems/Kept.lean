import TlsProbe.Correlator.Theorems.LastHello

open Std

namespace TlsProbe
namespace Conn

variable {ttlNs : UInt64} {entry : PendingEntry} {ce : Event}

-- What an event that leaves an entry for the same ClientHello makes of it.
structure Keeps (entry : PendingEntry) (ce : Event) (entry' : PendingEntry) : Prop where
  facts     : entry'.1.facts = entry.1.facts
  requested : entry'.1.mtlsRequested ↔ entry.1.mtlsRequested ∨ ce = .certificateRequest
  mtls      : entry'.1.mtls ↔ entry.1.mtls ∨ ce = .clientCertificate

theorem step_of_keeps (h : ce.Keeps ttlNs (some entry)) :
    ∃ entry' ∈ (step ttlNs (some entry) ce).1, Keeps entry ce entry' := by
  obtain ⟨hr, hc⟩ := h
  have hc := hc entry rfl
  cases ce <;> simp only [Event.Consumes, Event.Renews, not_true_eq_false, step] at hr hc ⊢
  case serverHello =>
    have hm : entry.1.mtlsRequested = true := by simpa using hc
    simp only [hm, if_true]
    exact ⟨_, rfl, rfl, by simp [hm], by simp⟩
  case certificateRequest => exact ⟨_, rfl, rfl, by simp, by simp⟩
  case clientCertificate =>
    have hp : entry.1.postShNegotiation = none := by simpa using hc
    simp only [hp]
    exact ⟨_, rfl, rfl, by simp, by simp⟩
  case sweep => exact ⟨entry, by simpa using hc, rfl, by simp, by simp⟩

end Conn

namespace Correlator

variable {c : Correlator} {k : ConnKey} {ev : Event} {calls : List Event} {entry : PendingEntry}

-- What a call that keeps the entry of `k` makes of it.
structure KeepsEntry (k : ConnKey) (entry : PendingEntry) (calls : List Event)
    (entry' : PendingEntry) : Prop where
  facts     : entry'.1.facts = entry.1.facts
  requested : entry'.1.mtlsRequested ↔ entry.1.mtlsRequested ∨ .certificateRequest k ∈ calls
  mtls      : entry'.1.mtls ↔ entry.1.mtls ∨ .clientCertificate k ∈ calls

theorem Keeps.survivor (h : c.Keeps k ev) (he : c.pending[k]? = some entry) :
    c.survivor k ev = some entry := by
  have hn : c.evictedBy ev ≠ some k := by
    intro hev
    exact (h .evict (by simp [connEvents, hev])).2 entry he trivial
  simpa [Correlator.survivor, hn] using he

theorem Keeps.not_records (h : c.Keeps k ev) {hello : ParsedClientHello} : ¬Records k hello ev := by
  rintro ⟨version, nowNs, iter, rfl⟩
  exact (h (.clientHello hello nowNs) (by simp [connEvents, ownEvent])).1 trivial

theorem step_of_keeps (h : c.Keeps k ev) (he : c.pending[k]? = some entry) :
    ∃ entry', (machine.step c ev).1.pending[k]? = some entry' ∧
      KeepsEntry k entry [ev] entry' := by
  rw [step_projected.1, projected, h.survivor he]
  cases ho : ownEvent k ev <;> simp only
  case none =>
    have hr : .certificateRequest k ≠ ev := by
      rintro rfl
      simp [ownEvent] at ho
    have hc : .clientCertificate k ≠ ev := by
      rintro rfl
      simp [ownEvent] at ho
    exact ⟨entry, rfl, rfl, by simp [hr], by simp [hc]⟩
  case some ce =>
    have hk := h ce (by simp [connEvents, ho])
    rw [he] at hk
    obtain ⟨entry', hs, hf, hr, hm⟩ := Conn.step_of_keeps hk
    refine ⟨entry', hs, hf, ?_, ?_⟩
    · have hs : ce = .certificateRequest ↔ ev = .certificateRequest k := by
        rw [←Option.some.injEq, ←ho]
        exact ownEvent_eq_some
      rw [hr, hs, List.mem_singleton, eq_comm (b := ev)]
    · have hs : ce = .clientCertificate ↔ ev = .clientCertificate k := by
        rw [←Option.some.injEq, ←ho]
        exact ownEvent_eq_some
      rw [hm, hs, List.mem_singleton, eq_comm (b := ev)]

theorem pending_of_records {hello : ParsedClientHello} (h : Records k hello ev) :
    ∃ nowNs, (machine.step c ev).1.pending[k]? = some (hello.summary nowNs, nowNs) := by
  obtain ⟨version, nowNs, iter, rfl⟩ := h
  exact ⟨nowNs, by simp [machine, onClientHello]⟩

-- The flags of an entry tell what has come since its ClientHello.
theorem state_of_keeps (h : machine.AllSteps (Keeps k) c calls) (he : c.pending[k]? = some entry) :
    ∃ entry', (machine.state c calls).pending[k]? = some entry' ∧
      KeepsEntry k entry calls entry' := by
  induction calls generalizing c entry
  case nil => exact ⟨entry, he, rfl, by simp, by simp⟩
  case cons ev calls hi =>
    obtain ⟨entry₁, he₁, hk₁⟩ := step_of_keeps h.head he
    obtain ⟨entry₂, he₂, hk₂⟩ := hi h.tail he₁
    refine ⟨entry₂, he₂, hk₂.facts.trans hk₁.facts, ?_, ?_⟩
    · rw [hk₂.requested, hk₁.requested, List.mem_singleton, List.mem_cons, or_assoc]
    · rw [hk₂.mtls, hk₁.mtls, List.mem_singleton, List.mem_cons, or_assoc]

-- An entry has been there all along when no ClientHello has come for it.
theorem kept_of_pending (he : (machine.state c calls).pending[k]? = some entry)
    (hn : ∀ ev ∈ calls, ∀ hello, ¬Records k hello ev) :
    (c.pending[k]?).isSome ∧ machine.AllSteps (Keeps k) c calls := by
  induction calls using List.reverseRecOn generalizing entry
  case nil => exact ⟨Option.isSome_of_mem he, fun t ht => by simp at ht⟩
  case append_singleton calls ev hi =>
    rw [Machine.state_append] at he
    obtain ⟨hello, _, hr, _⟩ | ⟨entry', he', _, _, hk⟩ := step_kept he
    case inl => exact absurd hr (hn ev (by simp) hello)
    case inr =>
      obtain ⟨hp, ha⟩ := hi he' fun ev hev => hn ev (by simp [hev])
      refine ⟨hp, Machine.allSteps_append.mpr ⟨ha, Machine.allSteps_cons.mpr ⟨hk, ?_⟩⟩⟩
      exact fun t ht => by simp at ht

section Since

variable {after : List Event}

-- These are the calls since the last ClientHello for `k`, whose entry is still there.
def Since (k : ConnKey) (calls after : List Event) : Prop :=
  ∃ before record hello, calls = before ++ record :: after ∧ Records k hello record ∧
    machine.AllSteps (Keeps k) (machine.state new (before ++ [record])) after

theorem since_of_pending (he : (machine.state new calls).pending[k]? = some entry) :
    ∃ after, Since k calls after := by
  obtain ⟨before, record, after, hello, he, hr, _, hk⟩ := hasFacts_origin ⟨entry, he, rfl⟩
  exact ⟨after, before, record, hello, he, hr, hk⟩

theorem Since.pending (h : Since k calls after) :
    ∃ entry, (machine.state new calls).pending[k]? = some entry ∧
      (entry.1.mtlsRequested ↔ .certificateRequest k ∈ after) ∧
      (entry.1.mtls ↔ .clientCertificate k ∈ after) := by
  obtain ⟨before, record, hello, rfl, hr, hk⟩ := h
  obtain ⟨nowNs, hp⟩ := pending_of_records (c := machine.state new before) hr
  have hp : (machine.state new (before ++ [record])).pending[k]? =
      some (hello.summary nowNs, nowNs) := by rw [Machine.state_append]; exact hp
  obtain ⟨entry, he, hk⟩ := state_of_keeps hk hp
  rw [List.append_cons, Machine.state_append]
  refine ⟨entry, he, ?_, ?_⟩
  · simpa [ParsedClientHello.summary] using hk.requested
  · simpa [ParsedClientHello.summary] using hk.mtls

end Since

section Joins

variable {negotiation : Negotiation}

-- The call is a ServerHello or an alert for `k`, which reports the outcome of what is pending.
def Joins (k : ConnKey) (ev : Event) : Prop :=
  (∃ version hello, ev = .serverHello k (.serverHello version hello)) ∨
    ∃ level description, ev = .alert k level description

theorem output_of_joins (h : Joins k ev) (he : c.pending[k]? = some entry) :
    ∃ negotiation, (k, negotiation) ∈ (machine.step c ev).2 ∧
      negotiation.mtlsRequested = entry.1.mtlsRequested ∧ negotiation.mtls = entry.1.mtls := by
  obtain ⟨version, hello, rfl⟩ | ⟨level, description, rfl⟩ := h
  case inl =>
    refine ⟨entry.1.buildNegotiation hello, ?_, rfl, rfl⟩
    rw [acts_serverHello.results, he, Conn.serverHello_output]
    simp
  case inr =>
    refine ⟨entry.1.failedNegotiation, ?_, rfl, rfl⟩
    rw [acts_alert.results, he]
    simp [Conn.step]

theorem joins_of_ownEvent {ce : Conn.Event} (ho : ownEvent k ev = some ce)
    (hc : (∃ hello, ce = .serverHello hello) ∨ ce = .alert) : Joins k ev := by
  have hs := ownEvent_eq_some.mp ho
  obtain ⟨hello, rfl⟩ | rfl := hc
  case inl =>
    obtain ⟨version, rfl⟩ := hs
    exact .inl ⟨version, hello, rfl⟩
  case inr => exact .inr hs

end Joins

end Correlator
end TlsProbe
