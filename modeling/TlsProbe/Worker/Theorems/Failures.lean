import TlsProbe.Worker.Theorems.Alerts
import TlsProbe.Worker.Theorems.Pending

open Std

namespace TlsProbe

-- A whole record of a plaintext alert with level fatal.
def isFatalAlert : List UInt8 → Bool
  | 0x15 :: _ :: _ :: 0x00 :: 0x02 :: 0x02 :: _ :: _ => true
  | _                                               => false

namespace Conn

variable {ttlNs : UInt64} {e : Option PendingEntry} {ce : Event}

-- The negotiation that an entry keeps for the client certificate has been negotiated.
def Joined (entry : PendingEntry) : Prop :=
  ∀ negotiation ∈ entry.1.postShNegotiation, negotiation.outcome = "negotiated"

theorem step_joined (h : ∀ entry ∈ e, Joined entry) : ∀ entry ∈ (step ttlNs e ce).1, Joined entry := by
  intro entry he
  obtain ⟨hello, nowNs, rfl, rfl⟩ | ⟨entry', he', hb⟩ := step_cases he
  case inl => simp [Joined, ParsedClientHello.summary]
  case inr =>
    have hj := h entry' he'
    cases hb
    case joined =>
      intro negotiation hn
      cases hn
      rfl
    case requested => exact hj
    case certified => exact hj
    case swept     => exact hj

end Conn

namespace Correlator

def Joined (c : Correlator) : Prop :=
  ∀ (k : ConnKey) entry, c.pending[k]? = some entry → Conn.Joined entry

theorem step_joined (c : Correlator) (ev : Event) (h : c.Joined) : (machine.step c ev).1.Joined :=
  step_entries (Q := fun _ => True) (fun _ _ _ _ => Conn.step_joined) (fun _ _ _ => trivial) h

theorem onClientCertificate_outcome {c : Correlator} {key : ConnKey} {negotiation : Negotiation}
    (h : c.Joined) (hn : negotiation ∈ (c.onClientCertificate key).2) :
    negotiation.outcome = "negotiated" := by
  simp only [onClientCertificate] at hn
  cases hp : c.pending[key]? <;> simp only [hp] at hn
  case none => contradiction
  case some entry =>
    cases hs : entry.1.postShNegotiation <;> simp only [hs] at hn
    case none => contradiction
    case some stored =>
      cases hn
      exact h key entry hp stored hs

end Correlator

namespace Tracking

variable {t : Tracking} {pass : Pass} {record : Record} {negotiation : Negotiation}

theorem handle_failed (h : t.correlator.Joined)
    (hn : (t.handle pass record).negotiation = some negotiation)
    (ho : negotiation.outcome = "failed") :
    record.message = .alert ∧ t.alertJoin record = some negotiation := by
  obtain h' | ⟨-, hj⟩ | ⟨-, hj⟩ := handle_negotiation_cases hn
  case inl     => exact h'
  case inr.inl => simp [hj] at ho
  case inr.inr => simp [Correlator.onClientCertificate_outcome h hj] at ho

theorem handleAlert_pending : (t.handleAlert record).tracking.correlator.pending[record.key]? =
    if (parseAlert record.payload).isSome then none
    else t.correlator.pending[record.key]? := by
  simp only [handleAlert]
  cases parseAlert record.payload <;> simp only [Option.isSome_none, Option.isSome_some]
  case none => simp
  case some alert =>
    simp only [Correlator.onAlert]
    cases hp : t.correlator.pending[record.key]? <;> simp [hp]

-- A ServerHello joins the ClientHello that is pending on its connection.
theorem negotiated_of_pending (hm : record.message = .serverHello) {version : UInt16}
    {hello : ParsedServerHello}
    (hp : parseTlsPayload record.payload false = .ok (.serverHello version hello))
    {entry : PendingEntry} (he : t.correlator.pending[record.key]? = some entry) :
    ∃ negotiation, (t.handle pass record).negotiation = some negotiation ∧
      negotiation.outcome = "negotiated" := by
  obtain ⟨entry', he'⟩ : ∃ entry', Worker.askedBy record.walked (some entry) = some entry' := by
    simp only [Worker.askedBy]
    split <;> exact ⟨_, rfl⟩
  have hn := (handle_serverHello (t := t) pass hm hp).2
  rw [he, he', Conn.serverHello_output] at hn
  exact ⟨_, by simpa using hn, rfl⟩

end Tracking

namespace Worker

variable {w : Worker} {pass : Pass}

-- What the documentation says of failures: a failed outcome comes from a fatal plaintext alert, and
-- other alerts leave the pending ClientHello in place for its ServerHello.
structure FailsHard (w : Worker) (pass : Pass) : Prop where
  failed : ∀ event ∈ (w.step pass).2, ∀ negotiation ∈ event.negotiation,
    negotiation.outcome = "failed" →
      ∃ record ∈ w.received pass, record.message = .alert ∧ isFatalAlert record.payload
  kept : ∀ record ∈ w.received pass, record.message = .alert →
    isFatalAlert record.payload = false →
      (w.tracked pass).correlator.pending[record.key]? =
        w.tracking.correlator.pending[record.key]?
  joined : ∀ record ∈ w.received pass, record.message = .alert →
    isFatalAlert record.payload = false → record.key ∈ w.tracking.correlator.pending →
      ∀ pass' (hello : Record) version parsed, hello.key = record.key →
        hello.message = .serverHello →
        parseTlsPayload hello.payload false = .ok (.serverHello version parsed) →
          ∃ negotiation, ((w.tracked pass).handle pass' hello).negotiation = some negotiation ∧
            negotiation.outcome = "negotiated"

-- An alert that finds a pending ClientHello is a fatal one in plaintext.
def AlertsFatal (w : Worker) (pass : Pass) : Prop :=
  ∀ record ∈ w.received pass, record.message = .alert → (parseAlert record.payload).isSome →
    record.key ∈ w.tracking.correlator.pending → isFatalAlert record.payload

theorem tracked_alert {record : Record} (hr : record ∈ w.received pass)
    (hm : record.message = .alert) : w.tracked pass = (w.tracking.handleAlert record).tracking := by
  rw [tracked_of_received hr]
  simp [Tracking.handle, hm]

theorem kept_of_fatal (h : w.AlertsFatal pass) {record : Record} (hr : record ∈ w.received pass)
    (hm : record.message = .alert) (hf : isFatalAlert record.payload = false) :
    (w.tracked pass).correlator.pending[record.key]? =
      w.tracking.correlator.pending[record.key]? := by
  rw [tracked_alert hr hm, Tracking.handleAlert_pending]
  split
  case isFalse   => rfl
  case isTrue hp =>
    have hk : record.key ∉ w.tracking.correlator.pending :=
      fun hk => by simp [h record hr hm hp hk] at hf
    exact (ExtTreeMap.getElem?_eq_none hk).symm

theorem failsHard_of_fatal (hj : w.tracking.correlator.Joined) (h : w.AlertsFatal pass) :
    w.FailsHard pass := by
  refine ⟨?_, fun record hr hm hf => kept_of_fatal h hr hm hf, ?_⟩
  case refine_1 =>
    intro event he negotiation hn ho
    have hn : negotiation ∈ w.negotiations pass := List.mem_filterMap.mpr ⟨event, he, hn⟩
    rw [negotiations_eq] at hn
    cases hr : w.received pass <;> simp only [hr] at hn
    case none => contradiction
    case some record =>
      split at hn
      case isTrue  => contradiction
      case isFalse =>
        obtain ⟨hm, ha⟩ := Tracking.handle_failed hj (Option.mem_toList.mp hn) ho
        obtain ⟨hp, hk⟩ := Tracking.alertJoin_isSome.mp (Option.isSome_of_mem ha)
        exact ⟨record, rfl, hm, h record hr hm hp hk⟩
  case refine_2 =>
    intro record hr hm hf hk pass' hello version parsed he hs hp
    have hk := (kept_of_fatal h hr hm hf).trans (ExtTreeMap.getElem?_eq_some_getElem hk)
    exact Tracking.negotiated_of_pending hs hp (by rwa [he])

theorem failsHard_iff (hj : w.tracking.correlator.Joined) :
    w.FailsHard pass ↔ w.AlertsFatal pass := by
  refine ⟨fun h record hr hm hp hk => ?_, failsHard_of_fatal hj⟩
  by_contra hf
  have he := h.kept record hr hm (Bool.eq_false_iff.mpr hf)
  rw [tracked_alert hr hm, Tracking.handleAlert_pending, if_pos hp] at he
  simp [ExtTreeMap.getElem?_eq_some_getElem hk] at he

theorem joined_of_trace {passes : List Pass} {t : Worker × Pass}
    (ht : t ∈ machine.trace new passes) : t.1.tracking.correlator.Joined :=
  correlator_inv Correlator.step_joined
    (by simp [Correlator.Joined, new, Tracking.new, Correlator.new]) ht

-- In every run, failures are hard just when the alerts that join are fatal.
theorem failures_hard_iff (passes : List Pass) :
    machine.AllSteps FailsHard new passes ↔ machine.AllSteps AlertsFatal new passes :=
  forall₂_congr fun _ ht => failsHard_iff (joined_of_trace ht)

-- The warning unrecognized_name.
def warningAlert : RawTlsCapture :=
  { makeCapture 0 [0x15, 0x03, 0x03, 0x00, 0x02, 0x01, 0x70] flagAlert with contentType := 0x15 }

theorem warning_fails :
    ¬machine.AllSteps FailsHard new [.still clientHelloCapture, .still warningAlert] := by
  intro h
  have ht : ((machine.step new (.still clientHelloCapture)).1, .still warningAlert) ∈
      machine.trace new [.still clientHelloCapture, .still warningAlert] := by simp
  have hf := (failsHard_iff (joined_of_trace ht)).mp (h _ ht) (.own warningAlert) rfl
    (by decide +kernel) (by decide +kernel) (by decide +kernel)
  exact absurd hf (by decide +kernel)

end Worker
end TlsProbe
