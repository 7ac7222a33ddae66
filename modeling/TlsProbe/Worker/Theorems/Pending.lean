import TlsProbe.Worker.Theorems.Events

open Std

namespace TlsProbe

namespace Correlator

variable {c : Correlator} {k : ConnKey} {calls : List Event}

-- Calls for other connections only matter for the entry of `k` by evicting it.
theorem pending_of_foreign (h : ∀ ev ∈ calls, ownEvent k ev = none)
    (he : ∀ ev ∈ calls, ∀ c : Correlator, c.evictedBy ev = none) :
    (machine.state c calls).pending[k]? = c.pending[k]? := by
  induction calls generalizing c
  case nil => rfl
  case cons ev calls hi =>
    rw [Machine.state_cons, hi (fun ev hev => h ev (by simp [hev]))
      (fun ev hev => he ev (by simp [hev])), step_projected.1, projected, h ev (by simp)]
    simp [survivor, he ev (by simp) c]

end Correlator

namespace Record

variable {record : Record} {pass : Pass} {k : ConnKey}

-- Only ClientHellos evict entries, and they are passed to the correlator by a single call.
theorem calls_cases (record : Record) (pass : Pass) :
    (∃ analysis, record.calls pass = [.clientHello record.key analysis pass.nowNs pass.iter]) ∨
    ∀ ev ∈ record.calls pass, (∀ c : Correlator, c.evictedBy ev = none) ∧
      ∀ k, record.key ≠ k → Correlator.ownEvent k ev = none := by
  simp only [calls]
  cases record.message <;> simp only
  case clientHello =>
    cases parseTlsPayload record.payload true <;> simp only
    case ok analysis => exact .inl ⟨analysis, rfl⟩
    case error       => simp
  case serverHello =>
    right
    cases parseTlsPayload record.payload false <;> simp only
    case error => simp
    case ok analysis =>
      intro ev hev
      obtain hev | hev := List.mem_append.mp hev
      case inl =>
        obtain ⟨_, _, rfl⟩ := List.mem_map.mp hev
        exact ⟨fun _ => rfl, fun k hk => by simp [Correlator.ownEvent, hk]⟩
      case inr =>
        obtain rfl := List.mem_singleton.mp hev
        refine ⟨fun _ => rfl, fun k hk => ?_⟩
        cases analysis <;> simp [Correlator.ownEvent, hk]
  all_goals right
  case alert =>
    cases parseAlert record.payload <;>
      simp +contextual [Correlator.ownEvent, Correlator.evictedBy]
  case certificate =>
    cases record.head.isIngress <;>
      simp +contextual [Correlator.ownEvent, Correlator.evictedBy]
  case certificateRequest => simp +contextual [Correlator.ownEvent, Correlator.evictedBy]
  case other              => simp

end Record

namespace Worker

variable {k : ConnKey} {w : Worker} {pass : Pass} {record : Record}

-- The entry of the connection `k`.
def entry (k : ConnKey) (w : Worker) : Option PendingEntry :=
  w.tracking.correlator.pending[k]?

-- The step makes room for another connection at the expense of `k`.
def Evicts (k : ConnKey) (w : Worker) (pass : Pass) : Prop :=
  ∃ record ∈ w.received pass, ∃ ev ∈ record.calls pass,
    w.tracking.correlator.evictedBy ev = some k

-- The step ends with a sweep that finds the entry of `k` too old.
def Expires (k : ConnKey) (w : Worker) (pass : Pass) : Prop :=
  w.Sweeps pass ∧ ∃ entry ∈ (w.tracked pass).correlator.pending[k]?,
    w.tracking.correlator.ttlNs ≤ pass.sweepNs - entry.2

structure Lasts (k : ConnKey) (w : Worker) (pass : Pass) : Prop where
  evicts  : ¬w.Evicts k pass
  expires : ¬w.Expires k pass

theorem tracked_ttlNs : (w.tracked pass).correlator.ttlNs = w.tracking.correlator.ttlNs := by
  rw [tracked_correlator]
  exact Correlator.state_ttlNs

theorem entry_step : entry k (w.step pass).1 = if w.Sweeps pass then
    (w.tracked pass).correlator.pending[k]?.filter fun entry =>
      pass.sweepNs - entry.2 < w.tracking.correlator.ttlNs
  else
    (w.tracked pass).correlator.pending[k]? := by
  rw [entry, step_correlator, calls, Machine.state_append, ←tracked_correlator]
  split
  case isFalse => rfl
  case isTrue  => exact Correlator.sweepExpired_pending.trans (by rw [tracked_ttlNs])

theorem entry_of_expires (h : w.Expires k pass) : entry k (w.step pass).1 = none := by
  obtain ⟨hs, entry, he, ht⟩ := h
  rw [entry_step, if_pos hs, Option.mem_def.mp he]
  simpa [Option.filter] using ht

theorem entry_of_not_expires (h : ¬w.Expires k pass) :
    entry k (w.step pass).1 = (w.tracked pass).correlator.pending[k]? := by
  rw [entry_step]
  split
  case isFalse => rfl
  case isTrue hs =>
    cases he : (w.tracked pass).correlator.pending[k]?
    case none => rfl
    case some entry =>
      rw [Option.filter_eq_some_iff]
      refine ⟨rfl, decide_eq_true <| not_le.mp fun ht => h ⟨hs, entry, he, ht⟩⟩

-- The step does not handle a record that concerns the connection `k`.
def Idle (k : ConnKey) (w : Worker) (pass : Pass) : Prop :=
  ∀ record ∈ w.received pass, record.key = k → record.calls pass = []

theorem tracked_of_idle (hi : w.Idle k pass) : (w.Evicts k pass →
      (w.tracked pass).correlator.pending[k]? = none) ∧
    (¬w.Evicts k pass → (w.tracked pass).correlator.pending[k]? = entry k w) := by
  rw [tracked_correlator, entry, Evicts]
  cases hr : w.received pass
  case none => simp
  case some record =>
    simp only [Option.toList_some, List.flatMap_singleton, Option.mem_some_iff, exists_eq_left']
    by_cases hk : record.key = k
    case pos => simp [hi record hr hk]
    case neg =>
      obtain ⟨analysis, hc⟩ | hc := record.calls_cases pass
      case inl =>
        have ho : Correlator.ownEvent k
            (.clientHello record.key analysis pass.nowNs pass.iter) = none := by
          cases analysis <;> simp [Correlator.ownEvent, hk]
        have hs : (Correlator.machine.step w.tracking.correlator
            (.clientHello record.key analysis pass.nowNs pass.iter)).1.pending[k]? = _ :=
          Correlator.step_projected.1
        simp only [Correlator.projected, ho, Correlator.survivor] at hs
        rw [hc, Machine.state_cons, Machine.state_nil, hs]
        simp +contextual
      case inr =>
        have hf := Correlator.pending_of_foreign (c := w.tracking.correlator)
          (fun ev hev => (hc ev hev).2 k hk) (fun ev hev => (hc ev hev).1)
        refine ⟨?_, fun _ => hf⟩
        rintro ⟨ev, hev, he⟩
        simp [(hc ev hev).1] at he

-- An idle step leaves the entry as it is, or takes it away.
theorem entry_of_idle (hi : w.Idle k pass) (hl : w.Lasts k pass) :
    entry k (w.step pass).1 = entry k w := by
  rw [entry_of_not_expires hl.expires, (tracked_of_idle hi).2 hl.evicts]

theorem lasts_of_idle (hi : w.Idle k pass) (h : entry k (w.step pass).1 ≠ none) :
    w.Lasts k pass := by
  have he : ¬w.Expires k pass := fun he => h <| entry_of_expires he
  refine ⟨fun hv => h ?_, he⟩
  rw [entry_of_not_expires he, (tracked_of_idle hi).1 hv]

-- The entry that a ServerHello joins: the walked records come first.
def askedBy (walked : List ExtractedRecord) (e : Option PendingEntry) : Option PendingEntry :=
  if walked.any (·.handshakeType = 0x0d) then e.map Tracking.requested else e

end Worker

-- What the handling of a record does to the entry of its own connection.
namespace Tracking

variable {t : Tracking} {record : Record} {pass : Pass} {version : UInt16}
variable {walked : List ExtractedRecord}

theorem negotiation_of_output {negotiations : List Negotiation}
    (h : Correlator.machine.output t.correlator (record.calls pass) =
      negotiations.map (record.key, ·)) :
    (t.handle pass record).negotiation.toList = negotiations :=
  List.map_injective_iff.mpr (Prod.mk_right_injective record.key) <|
    (t.handle_calls pass record).2.trans h

theorem handle_clientHello (pass : Pass) {hello : ParsedClientHello}
    (hm : record.message = .clientHello)
    (hp : parseTlsPayload record.payload true = .ok (.clientHello version hello)) :
    (t.handle pass record).tracking.correlator.pending[record.key]? =
      some (hello.summary pass.nowNs, pass.nowNs) := by
  rw [(t.handle_calls pass record).1]
  simp [Record.calls, hm, hp, Correlator.machine, Correlator.onClientHello]

theorem handle_serverHello (pass : Pass) {hello : ParsedServerHello}
    (hm : record.message = .serverHello)
    (hp : parseTlsPayload record.payload false = .ok (.serverHello version hello)) :
    let s := Conn.step t.correlator.ttlNs
      (Worker.askedBy record.walked t.correlator.pending[record.key]?) (.serverHello hello)
    (t.handle pass record).tracking.correlator.pending[record.key]? = s.1 ∧
    (t.handle pass record).negotiation.toList = s.2 := by
  have hc : record.calls pass = requests record.key record.walked ++
      [.serverHello record.key (.serverHello version hello)] := by
    simp [Record.calls, Record.walked, hm, hp]
  obtain ⟨c, hs⟩ : ∃ c, Correlator.machine.state t.correlator
    (requests record.key record.walked) = c := ⟨_, rfl⟩
  have hq : Worker.askedBy record.walked t.correlator.pending[record.key]? =
      c.pending[record.key]? := by
    rw [←hs, requests_pending, Worker.askedBy]
    simp
  have ht : t.correlator.ttlNs = c.ttlNs := by rw [←hs, Correlator.state_ttlNs]
  have ha : c.Acts record.key (.serverHello hello) (Correlator.machine.step c
      (.serverHello record.key (.serverHello version hello))) := Correlator.acts_serverHello
  rw [hq, ht]
  constructor
  case left =>
    rw [(t.handle_calls pass record).1, hc, Machine.state_append, hs]
    exact (ha.pending record.key).trans (if_pos rfl)
  case right =>
    refine negotiation_of_output ?_
    rw [hc, Machine.output_append, requests_output, hs]
    simpa using ha.results

theorem handle_certificateRequest (hm : record.message = .certificateRequest) :
    (t.handle pass record).tracking.correlator.pending[record.key]? =
      t.correlator.pending[record.key]?.map requested := by
  have ha : t.correlator.Acts record.key .certificateRequest _ :=
    Correlator.acts_certificateRequest
  have hc : record.calls pass = [.certificateRequest record.key] := by simp [Record.calls, hm]
  rw [(t.handle_calls pass record).1, hc]
  exact (ha.pending record.key).trans (if_pos rfl)

theorem handle_clientCertificate (hm : record.message = .certificate)
    (hi : record.head.isIngress) : (t.handle pass record).negotiation.toList =
      (Conn.step t.correlator.ttlNs t.correlator.pending[record.key]? .clientCertificate).2 := by
  have ha : t.correlator.Acts record.key .clientCertificate _ :=
    Correlator.acts_clientCertificate
  refine negotiation_of_output ?_
  simpa [Record.calls, hm, hi] using ha.results

end Tracking
end TlsProbe
