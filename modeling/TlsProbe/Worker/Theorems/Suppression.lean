import TlsProbe.Worker.Theorems.Expiry
import TlsProbe.Worker.Theorems.Tls13Filter

namespace TlsProbe
namespace Worker

variable {w : Worker} {pass : Pass} {record : Record} {passes : List Pass}

-- The step leaves the correlator as it is up to the sweep, does not drop a negotiation of it, and is
-- counted, so that it sweeps when it is its turn.
structure LeavesNoTrace (w : Worker) (pass : Pass) (record : Record) : Prop where
  correlator  : (w.tracked pass).correlator = w.tracking.correlator
  negotiation : (w.tracking.handle pass record).negotiation = none
  counter     : (w.step pass).1.timeoutCounter = w.timeoutCounter + 1
  sweeps      : (w.timeoutCounter + 1) % 500 = 0 → w.Sweeps pass

-- The correlator has nothing to learn from the record.
def Known (w : Worker) (record : Record) : Prop :=
  match record.message with
  | .certificate        => record.head.isIngress →
    ∀ e ∈ w.tracking.correlator.pending[record.key]?, e.1.postShNegotiation = none ∧ e.1.mtls
  | .certificateRequest => ∀ e ∈ w.tracking.correlator.pending[record.key]?, e.1.mtlsRequested
  | _                   => True

theorem untouched_iff (h : record ∈ w.received pass) (hf : record.IsFiltered) :
    (w.tracked pass).correlator = w.tracking.correlator ∧
      (w.tracking.handle pass record).negotiation = none ↔ w.Known record := by
  rw [tracked_of_received h, Known]
  obtain hm | hm := hf
  case inl =>
    simp only [Tracking.handle, hm, Tracking.handleCertificate, Tracking.filterTls13_correlator,
      Tracking.filterTls13_negotiation]
    by_cases hi : record.head.isIngress
    case neg => simp [hi]
    case pos =>
      simp only [hi, if_true, forall_const]
      rw [←Correlator.clientCertificate_eq_self_iff, Prod.ext_iff]
  case inr =>
    simp only [Tracking.handle, hm, Tracking.handleCertificateRequest,
      Tracking.filterTls13_correlator, Tracking.filterTls13_negotiation, and_true]
    exact Correlator.certificateRequest_eq_self_iff

theorem timeoutCounter_of_suppressed (h : record ∈ w.received pass) (hs : record.suppressed) :
    (w.step pass).1.timeoutCounter = w.timeoutCounter := by
  rw [step_timeoutCounter, Option.mem_def.mp h, Option.any_some, if_pos hs]

-- The counter advances over the steps of a run that are not cut short.
theorem state_timeoutCounter : (machine.state w passes).timeoutCounter = w.timeoutCounter +
    .ofNat ((machine.trace w passes).countP
      fun (w, pass) => !(w.received pass).any (·.suppressed)) := by
  induction passes generalizing w
  case nil => simp
  case cons pass passes hi =>
    rw [Machine.state_cons, hi, Machine.trace_cons, List.countP_cons]
    change (w.step pass).1.timeoutCounter + _ = _
    rw [step_timeoutCounter]
    cases hs : (w.received pass).any (·.suppressed)
    case true  => simp [machine, hs]
    case false =>
      rw [if_neg Bool.false_ne_true, if_pos (by simp [hs]), UInt32.ofNat_add, add_assoc, add_comm 1]
      rfl

-- A record that the filter drops is never counted.
theorem suppressed_traces (h : record ∈ w.received pass) (hs : record.suppressed) :
    ¬w.LeavesNoTrace pass record := by
  intro hl
  have hc := hl.counter
  rw [timeoutCounter_of_suppressed h hs] at hc
  simp at hc

theorem forged_traces :
    ¬new.LeavesNoTrace (.still forgedCapture) (.own forgedCapture) :=
  suppressed_traces rfl (by decide +kernel)

theorem forged_not_counted : ¬∀ w pass record, record ∈ received w pass → record.suppressed →
    w.LeavesNoTrace pass record := by
  intro h
  have hc := (h new (.still forgedCapture) (.own forgedCapture) rfl (by decide +kernel)).counter
  exact absurd hc (by decide +kernel)

end Worker
end TlsProbe
