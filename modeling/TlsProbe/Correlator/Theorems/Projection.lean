import TlsProbe.Correlator.Theorems.Conn

open Std

namespace TlsProbe
namespace Correlator

variable {c : Correlator} {k key : ConnKey} {ev : Event} {iter : IterOrder} {nowNs : UInt64}
variable {results : List Negotiation}

theorem evictOldest_pending : (c.evictOldest iter).pending[k]? =
    if c.keyToEvict iter = some k then none else c.pending[k]? := by
  simp only [evictOldest]
  cases c.keyToEvict iter <;> simp [ExtTreeMap.getElem?_erase]

theorem evictOldest_bounds : (c.evictOldest iter).maxEntries = c.maxEntries ∧
    (c.evictOldest iter).ttlNs = c.ttlNs := by
  simp only [evictOldest]
  split <;> exact ⟨rfl, rfl⟩

theorem sweepExpired_pending : (c.sweepExpired nowNs).1.pending[k]? =
    c.pending[k]?.filter fun (_, insertionNs) => nowNs - insertionNs < c.ttlNs := by
  simp [sweepExpired, ExtTreeMap.getElem?_filter]

theorem resultsOf_map :
    resultsOf k (results.map (key, ·)) = if key = k then results else [] := by
  by_cases h : key = k <;> simp [resultsOf, h, List.filterMap_map]

theorem step_bounds : (machine.step c ev).1.maxEntries = c.maxEntries ∧
    (machine.step c ev).1.ttlNs = c.ttlNs := by
  cases ev <;> simp only [machine]
  case clientHello key analysis nowNs iter =>
    cases analysis
    case clientHello => exact evictOldest_bounds
    case serverHello => exact ⟨rfl, rfl⟩
  case serverHello        => simp only [onServerHello]; (repeat' split) <;> exact ⟨rfl, rfl⟩
  case alert              => simp only [onAlert]; split <;> exact ⟨rfl, rfl⟩
  case certificateRequest => simp only [onCertificateRequest]; split <;> exact ⟨rfl, rfl⟩
  case clientCertificate  =>
    simp only [onClientCertificate]; (repeat' split) <;> exact ⟨rfl, rfl⟩
  case sweep              => exact ⟨rfl, rfl⟩

theorem step_ttlNs : (machine.step c ev).1.ttlNs = c.ttlNs :=
  step_bounds.2

theorem state_ttlNs {calls : List Event} : (machine.state c calls).ttlNs = c.ttlNs :=
  Machine.inv_reachable (P := fun c' : Correlator => c'.ttlNs = c.ttlNs)
    (fun _ _ h => step_ttlNs.trans h) rfl

-- A call that does to its own entry what `ce` does, and nothing to others.
structure Acts (c : Correlator) (key : ConnKey) (ce : Conn.Event)
    (s : Correlator × List (ConnKey × Negotiation)) : Prop where
  pending : ∀ k : ConnKey, s.1.pending[k]? =
    if key = k then (Conn.step c.ttlNs c.pending[key]? ce).1 else c.pending[k]?
  results : s.2 = (Conn.step c.ttlNs c.pending[key]? ce).2.map (key, ·)

theorem acts_serverHello {version : UInt16} {hello : ParsedServerHello} :
    c.Acts key (.serverHello hello)
      (machine.step c (.serverHello key (.serverHello version hello))) := by
  simp only [machine, onServerHello]
  cases h : c.pending[key]?
  case none => constructor <;> simp [Conn.step, h]; grind
  case some entry =>
    by_cases hm : entry.1.mtlsRequested
    all_goals
      constructor <;>
        simp [Conn.step, h, hm, ExtTreeMap.getElem?_insert, ExtTreeMap.getElem?_erase]

theorem acts_alert {level description : UInt8} :
    c.Acts key .alert (machine.step c (.alert key level description)) := by
  simp only [machine, onAlert]
  cases h : c.pending[key]?
  case none => constructor <;> simp [Conn.step, h]; grind
  case some => constructor <;> simp [Conn.step, h, ExtTreeMap.getElem?_erase]

theorem acts_certificateRequest :
    c.Acts key .certificateRequest (machine.step c (.certificateRequest key)) := by
  simp only [machine, onCertificateRequest]
  cases h : c.pending[key]?
  case none => constructor <;> simp [Conn.step, h]; grind
  case some => constructor <;> simp [Conn.step, h, ExtTreeMap.getElem?_insert]

theorem acts_clientCertificate :
    c.Acts key .clientCertificate (machine.step c (.clientCertificate key)) := by
  simp only [machine, onClientCertificate]
  cases h : c.pending[key]?
  case none => constructor <;> simp [Conn.step, h]; grind
  case some entry =>
    cases hp : entry.1.postShNegotiation
    all_goals
      constructor <;>
        simp [Conn.step, h, hp, ExtTreeMap.getElem?_insert, ExtTreeMap.getElem?_erase]

section Step

variable {ce : Conn.Event}

def projected (k : ConnKey) (c : Correlator) (ev : Event) :
    Option PendingEntry × List Negotiation :=
  match ownEvent k ev with
  | some ce => Conn.step c.ttlNs (c.survivor k ev) ce
  | none    => (c.survivor k ev, [])

theorem Acts.projected (h : c.Acts key ce (machine.step c ev)) (he : c.evictedBy ev = none)
    (ho : ownEvent k ev = if key = k then some ce else none) :
    (machine.step c ev).1.pending[k]? = (c.projected k ev).1 ∧
    resultsOf k (machine.step c ev).2 = (c.projected k ev).2 := by
  have hs : c.survivor k ev = c.pending[k]? := by simp [survivor, he]
  rw [h.pending, h.results, resultsOf_map, Correlator.projected, ho, hs]
  by_cases hk : key = k <;> simp [hk]

-- The step lemma: a correlator does to each connection what the connection on its own does.
theorem step_projected : (machine.step c ev).1.pending[k]? = (c.projected k ev).1 ∧
    resultsOf k (machine.step c ev).2 = (c.projected k ev).2 := by
  cases ev
  case clientHello key analysis nowNs iter =>
    cases analysis
    case serverHello => exact ⟨rfl, rfl⟩
    case clientHello version hello =>
      have hs : c.survivor k (.clientHello key (.clientHello version hello) nowNs iter) =
          (c.evictOldest iter).pending[k]? := evictOldest_pending.symm
      by_cases hk : key = k <;>
        simp [machine, onClientHello, projected, ownEvent, Conn.step, resultsOf, hk, hs,
          ExtTreeMap.getElem?_insert]
  case serverHello key analysis =>
    cases analysis
    case clientHello => exact ⟨rfl, rfl⟩
    case serverHello => exact acts_serverHello.projected rfl rfl
  case alert              => exact acts_alert.projected rfl rfl
  case certificateRequest => exact acts_certificateRequest.projected rfl rfl
  case clientCertificate  => exact acts_clientCertificate.projected rfl rfl
  case sweep              => exact ⟨sweepExpired_pending, rfl⟩

-- What the events of a call preserve for a connection on its own, the call preserves for all
-- entries of a correlator.
theorem step_entries {P : PendingEntry → Prop} {Q : Conn.Event → Prop}
    (hp : ∀ ttlNs e ce, Q ce → (∀ entry ∈ e, P entry) →
      ∀ entry ∈ (Conn.step ttlNs e ce).1, P entry)
    (hq : ∀ k, ∀ ce ∈ ownEvent k ev, Q ce)
    (h : ∀ (k : ConnKey) entry, c.pending[k]? = some entry → P entry) :
    ∀ (k : ConnKey) entry, (machine.step c ev).1.pending[k]? = some entry → P entry := by
  intro k entry he
  have hs : ∀ entry ∈ c.survivor k ev, P entry :=
    fun entry he => h k entry (Option.ite_none_left_eq_some.mp he).2
  rw [step_projected.1, projected] at he
  cases ho : ownEvent k ev <;> simp only [ho] at he
  case none    => exact hs entry he
  case some ce => exact hp _ _ ce (hq k ce ho) hs entry he

theorem conn_run {ttlNs : UInt64} (h : c.ttlNs = ttlNs) :
    (Conn.machine ttlNs).state c.pending[k]? (connEvents k c ev) = (c.projected k ev).1 ∧
    (Conn.machine ttlNs).output c.pending[k]? (connEvents k c ev) = (c.projected k ev).2 := by
  simp only [projected, connEvents, survivor, h]
  cases ownEvent k ev <;> by_cases he : c.evictedBy ev = some k
  all_goals simp [he, Conn.machine, Conn.step]

theorem projects (k : ConnKey) (ttlNs : UInt64) : machine.Projects (Conn.machine ttlNs)
    (fun c => c.pending[k]?) (connEvents k) (resultsOf k) (·.ttlNs = ttlNs) where
  inv _ _ h    := step_ttlNs.trans h
  state _ _ h  := step_projected.1.trans (conn_run h).1.symm
  output _ _ h := step_projected.2.trans (conn_run h).2.symm

end Step

end Correlator
end TlsProbe
