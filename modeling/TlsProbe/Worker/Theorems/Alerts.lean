import TlsProbe.Classifier.Theorems.Capture
import TlsProbe.Worker.Theorems.Events

open Std

namespace TlsProbe

namespace Correlator

variable {c : Correlator} {key : ConnKey} {negotiation : Negotiation}

theorem onAlert_eq {level description : UInt8} : (c.onAlert key level description).2 =
    c.pending[key]?.map (·.1.failedNegotiation) := by
  simp only [onAlert]
  cases c.pending[key]? <;> rfl

theorem onServerHello_outcome {analysis : TlsAnalysis}
    (h : negotiation ∈ (c.onServerHello key analysis).2) : negotiation.outcome = "negotiated" := by
  cases analysis
  case clientHello => simp [onServerHello] at h
  case serverHello version hello =>
    simp only [onServerHello] at h
    cases hp : c.pending[key]? <;> simp only [hp] at h
    case none => contradiction
    case some entry =>
      split at h
      all_goals
        cases h
        rfl

end Correlator

namespace Record

variable {record : Record} {env : Env}

theorem isAlert_of_message (h : record.message = .alert) : record.head.isAlert := by
  simp only [message] at h
  grind

theorem message_of_isAlert (h : record.head.isAlert) :
    record.message = .clientHello ∨ record.message = .serverHello ∨ record.message = .alert := by
  simp only [message, h, if_true]
  grind

theorem handshakeTypeName_ne_alert (handshakeType : UInt8) :
    TlsProbe.handshakeTypeName handshakeType ≠ "Alert" := by
  simp only [TlsProbe.handshakeTypeName]
  repeat' split
  all_goals decide

theorem event_alert (h : (record.event env).handshakeType = "Alert") :
    record.head.contentType = 0x15 := by
  by_contra hc
  have he (cap : RawTlsCapture) (payload : List UInt8) (hc : cap.contentType ≠ 0x15) :
      (analyzeCaptureWithPayload env cap payload).handshakeType =
        TlsProbe.handshakeTypeName cap.handshakeType := by
    rw [analyzeCaptureWithPayload, if_neg hc]
    split <;> rfl
  cases record
  case own       => exact handshakeTypeName_ne_alert _ <| (he _ _ hc).symm.trans h
  case assembled => exact handshakeTypeName_ne_alert _ <| (he _ _ hc).symm.trans h

theorem event_of_alert (hc : record.head.contentType = 0x15)
    (hp : (parseAlert record.payload).isSome) : (record.event env).handshakeType = "Alert" := by
  obtain ⟨alert, hp⟩ := Option.isSome_iff_exists.mp hp
  have he (cap : RawTlsCapture) (payload : List UInt8) (hc : cap.contentType = 0x15)
      (hp : parseAlert payload = some alert) :
      (analyzeCaptureWithPayload env cap payload).handshakeType = "Alert" := by
    rw [analyzeCaptureWithPayload, if_pos hc, hp]
    rfl
  cases record
  case own       => exact he _ _ hc hp
  case assembled => exact he _ _ hc hp

end Record

namespace Tracking

variable {t : Tracking} {record : Record} {pass : Pass} {negotiation : Negotiation}

-- The negotiation with which an alert joins the pending ClientHello of its connection.
def alertJoin (t : Tracking) (record : Record) : Option Negotiation :=
  (parseAlert record.payload).bind fun (level, description) =>
    (t.correlator.onAlert record.key level description).2

theorem alertJoin_eq : t.alertJoin record = if (parseAlert record.payload).isSome then
    t.correlator.pending[record.key]?.map (·.1.failedNegotiation) else none := by
  rw [alertJoin]
  cases parseAlert record.payload <;> simp [Correlator.onAlert_eq]

theorem alertJoin_isSome : (t.alertJoin record).isSome ↔
    (parseAlert record.payload).isSome ∧ record.key ∈ t.correlator.pending := by
  rw [alertJoin_eq]
  split
  case isTrue h  => simp [h]
  case isFalse h => simp [h]

theorem alertJoin_outcome (h : t.alertJoin record = some negotiation) :
    negotiation.outcome = "failed" := by
  rw [alertJoin_eq] at h
  split at h
  case isTrue =>
    obtain ⟨entry, _, rfl⟩ := Option.map_eq_some_iff.mp h
    rfl
  case isFalse => contradiction

theorem handleAlert_eq : (t.handleAlert record).negotiation = t.alertJoin record ∧
    (t.handleAlert record).tracking.alertsDropped =
      if (t.alertJoin record).isSome then t.alertsDropped else t.alertsDropped + 1 := by
  simp only [handleAlert, alertJoin]
  cases parseAlert record.payload <;> simp only [Option.bind_none, Option.bind_some]
  case none => simp
  case some alert =>
    obtain ⟨c, negotiation, h⟩ : ∃ c negotiation,
        t.correlator.onAlert record.key alert.1 alert.2 = (c, negotiation) := ⟨_, _, rfl⟩
    cases negotiation <;> simp [h]

theorem onServerHello_alertsDropped {key : ConnKey} {analysis : TlsAnalysis} :
    (t.onServerHello key analysis).1.alertsDropped = t.alertsDropped := by
  simp only [onServerHello]
  split <;> rfl

theorem handle_alertsDropped : (t.handle pass record).tracking.alertsDropped =
    if record.message = .alert ∧ t.alertJoin record = none then t.alertsDropped + 1
    else t.alertsDropped := by
  simp only [handle]
  cases record.message <;> simp only [reduceCtorEq, false_and, true_and, if_false]
  case clientHello =>
    simp only [handleClientHello]
    split <;> rfl
  case serverHello =>
    simp only [handleServerHello]
    cases parseTlsPayload record.payload false <;> simp only
    simp [onServerHello_alertsDropped, requestCertificates_eq]
  case alert =>
    rw [handleAlert_eq.2]
    cases t.alertJoin record <;> simp
  case certificate =>
    cases h : record.head.isIngress <;> simp [handleCertificate, h]
  case certificateRequest =>
    simp [handleCertificateRequest, onCertificateRequest]

-- Where the negotiation of an event comes from.
theorem handle_negotiation_cases (hn : (t.handle pass record).negotiation = some negotiation) :
    record.message = .alert ∧ t.alertJoin record = some negotiation ∨
    record.message = .serverHello ∧ negotiation.outcome = "negotiated" ∨
    record.message = .certificate ∧
      negotiation ∈ (t.correlator.onClientCertificate record.key).2 := by
  simp only [handle] at hn
  cases hm : record.message <;> simp only [hm] at hn
  case clientHello => simp [handleClientHello] at hn
  case serverHello =>
    simp only [handleServerHello] at hn
    cases hp : parseTlsPayload record.payload false <;> simp only [hp] at hn
    case error => contradiction
    case ok analysis =>
      rw [onServerHello_negotiation] at hn
      exact .inr <| .inl ⟨rfl, Correlator.onServerHello_outcome hn⟩
  case alert => exact .inl ⟨rfl, handleAlert_eq.1 ▸ hn⟩
  case certificate =>
    cases hi : record.head.isIngress <;> simp [handleCertificate, hi] at hn
    exact .inr <| .inr ⟨rfl, hn⟩
  case certificateRequest => simp [handleCertificateRequest] at hn
  case other => contradiction

theorem handle_negotiation_of_isAlert (h : record.head.isAlert)
    (hn : (t.handle pass record).negotiation = some negotiation) :
    if record.message = .alert then t.alertJoin record = some negotiation
    else negotiation.outcome = "negotiated" := by
  obtain ⟨hm, hj⟩ | ⟨hm, ho⟩ | ⟨hm, -⟩ := handle_negotiation_cases hn
  case inl     => rwa [if_pos hm]
  case inr.inl => simpa [hm] using ho
  case inr.inr => simpa [hm] using Record.message_of_isAlert h

end Tracking

-- What the documentation says of the events of an alert.
def Reports (join : Option Negotiation) (events : List CaptureEvent) : Prop :=
  match join with
  | some negotiation => ∃ event, events = [event] ∧ event.handshakeType = "Alert" ∧
      event.negotiation = some negotiation
  | none => events = []

namespace Worker

variable {w : Worker} {pass : Pass}

-- The number of alerts in a step that do not join, among the record that is handled and those that
-- leave by timeout.
def unjoined (w : Worker) (pass : Pass) : Nat :=
  ((w.received pass).toList.countP fun record =>
    record.head.isAlert && (w.tracking.alertJoin record).isNone) +
  (w.expired pass).countP fun record =>
    record.headCapture.isAlert &&
      ((w.step pass).1.tracking.alertJoin (.assembled record)).isNone

-- The alerts of a step are reported just when they join, and counted when they do not.
structure AlertsExact (w : Worker) (pass : Pass) : Prop where
  handled : ∀ record ∈ w.received pass, record.head.isAlert →
    Reports (w.tracking.alertJoin record) (w.recordEvents pass)
  expired : ∀ record ∈ w.expired pass, record.headCapture.isAlert →
    Reports ((w.step pass).1.tracking.alertJoin (.assembled record)) [expiredEvent pass.env record]
  counted : (w.step pass).1.tracking.alertsDropped =
    w.tracking.alertsDropped + UInt64.ofNat (w.unjoined pass)

-- The alert of a step, if it has one, finds a pending ClientHello, and none leaves by timeout.
structure AlertsJoin (w : Worker) (pass : Pass) : Prop where
  message : ∀ record ∈ w.received pass, record.head.isAlert →
    record.message = .alert ∧ record.head.contentType = 0x15
  pending : ∀ record ∈ w.received pass, record.head.isAlert →
    (parseAlert record.payload).isSome ∧ record.key ∈ w.tracking.correlator.pending
  expired : ∀ record ∈ w.expired pass, ¬record.headCapture.isAlert

theorem unjoined_eq_zero (h : w.AlertsJoin pass) : w.unjoined pass = 0 := by
  rw [unjoined, Nat.add_eq_zero_iff, List.countP_eq_zero, List.countP_eq_zero]
  constructor
  case left =>
    intro record hr
    rw [Option.mem_toList] at hr
    cases ha : record.head.isAlert
    case false => simp
    case true  =>
      simp [Option.ne_none_iff_isSome.mpr <| Tracking.alertJoin_isSome.mpr <| h.pending _ hr ha]
  case right =>
    intro record hr
    simp [h.expired record hr]

-- The only event of an alert that joins is the alert's own.
theorem reports_of_join (h : w.AlertsJoin pass) {record : Record}
    (hr : record ∈ w.received pass) (ha : record.head.isAlert) :
    Reports (w.tracking.alertJoin record) (w.recordEvents pass) := by
  obtain ⟨hm, hc⟩ := h.message record hr ha
  have hp := h.pending record hr ha
  obtain ⟨negotiation, hj⟩ := Option.isSome_iff_exists.mp <| Tracking.alertJoin_isSome.mpr hp
  have hs : record.suppressed = false := by simp [Record.suppressed, hm]
  have hw : record.walked = [] := by simp [Record.walked, hm]
  refine hj ▸ ⟨(w.tracking.handle pass record).event pass.env record, ?_, ?_, ?_⟩
  · rw [recordEvents, Option.mem_def.mp hr]
    simp [Handled.events_eq, Tracking.handle_suppressed, Tracking.handle_walked, hs, hw]
  · rw [Handled.event_handshakeType, Record.event_of_alert hc hp.1]
  · simp [Tracking.handle, hm, Tracking.handleAlert_eq.1, hj]

theorem alertsDropped_of_join (h : w.AlertsJoin pass) :
    (w.step pass).1.tracking.alertsDropped = w.tracking.alertsDropped := by
  rw [step_alertsDropped, tracked]
  cases hr : w.received pass <;> simp only
  case some record =>
    rw [Tracking.handle_alertsDropped, if_neg]
    rintro ⟨hm, hj⟩
    have hp := Tracking.alertJoin_isSome.mpr <| h.pending _ hr <| Record.isAlert_of_message hm
    simp [hj] at hp

theorem alertsExact_of_join (h : w.AlertsJoin pass) : w.AlertsExact pass where
  handled _ hr ha      := reports_of_join h hr ha
  expired record hr ha := absurd ha (h.expired record hr)
  counted              := by rw [alertsDropped_of_join h, unjoined_eq_zero h]; simp

-- The converse, for the record that is handled: in all other cases it has an event.
theorem handled_of_exact (h : w.AlertsExact pass) {record : Record}
    (hr : record ∈ w.received pass) (ha : record.head.isAlert) :
    record.message = .alert ∧ record.head.contentType = 0x15 ∧
      (w.tracking.alertJoin record).isSome := by
  have hs : record.suppressed = false := by
    obtain hm | hm | hm := Record.message_of_isAlert ha <;> simp [Record.suppressed, hm]
  have he : w.recordEvents pass = record.walked.map (walkedEvent pass.env record.head) ++
      [(w.tracking.handle pass record).event pass.env record] := by
    rw [recordEvents, Option.mem_def.mp hr]
    simp [Handled.events_eq, Tracking.handle_suppressed, Tracking.handle_walked, hs]
  have hh := h.handled record hr ha
  rw [he] at hh
  cases hj : w.tracking.alertJoin record <;> simp only [hj, Reports] at hh
  case none => simp at hh
  case some negotiation =>
    obtain ⟨event, hl, ht, hn⟩ := hh
    have hl : (w.tracking.handle pass record).event pass.env record = event := by
      simpa using congrArg List.getLast? hl
    subst hl
    rw [Handled.event_negotiation] at hn
    have hj' := Tracking.handle_negotiation_of_isAlert ha hn
    refine ⟨?_, Record.event_alert (Handled.event_handshakeType ▸ ht), rfl⟩
    by_contra hm
    rw [if_neg hm, Tracking.alertJoin_outcome hj] at hj'
    exact absurd hj' (by decide)

theorem alertsExact_iff : w.AlertsExact pass ↔ w.AlertsJoin pass := by
  refine ⟨fun h => ?_, alertsExact_of_join⟩
  refine ⟨fun record hr ha => ?_, fun record hr ha => ?_, fun record hr ha => ?_⟩
  · obtain ⟨hm, hc, -⟩ := handled_of_exact h hr ha
    exact ⟨hm, hc⟩
  · obtain ⟨-, -, hj⟩ := handled_of_exact h hr ha
    exact Tracking.alertJoin_isSome.mp hj
  · have he := h.expired record hr ha
    cases hj : (w.step pass).1.tracking.alertJoin (.assembled record) <;>
      simp [hj, Reports] at he

-- In every run, the alerts are reported as documented just when all of them join.
theorem alerts_exact_iff (passes : List Pass) :
    machine.AllSteps AlertsExact new passes ↔ machine.AllSteps AlertsJoin new passes :=
  forall₂_congr fun _ _ => alertsExact_iff

-- An alert without a ClientHello.
def loneAlert : RawTlsCapture :=
  { makeCapture 0 [0x15, 0x03, 0x03, 0x00, 0x02, 0x02, 0x28] flagAlert with contentType := 0x15 }

theorem lone_alert_emitted : ¬machine.AllSteps AlertsExact new [.still loneAlert] := by
  intro h
  have hj := alertsExact_iff.mp <| h (new, .still loneAlert) (by simp)
  exact absurd (hj.pending (.own loneAlert) rfl (by decide +kernel)).2 (by decide +kernel)

end Worker

namespace Classifier

variable {reasmMap reasmMap' : ReasmMap} {kernel : Kernel} {pkt : Packet} {isEgress : Bool}
variable {ev : RawTlsCapture}

theorem eventFlags_alert : ∀ isEgress isAlert isContinuation isFragmented,
    (eventFlags isEgress isAlert isContinuation isFragmented &&& flagAlert != 0) = isAlert := by
  decide

-- The alerts that the classifier captures are all taken for alerts.
theorem message_of_captured
    (h : tryCaptureTls reasmMap kernel pkt isEgress = (reasmMap', some ev)) (ha : ev.isAlert)
    {record : Record} (hr : record.head = ev) :
    record.message = .alert ∧ record.head.contentType = 0x15 := by
  obtain ⟨seg, rec, -, -, -, rfl⟩ := tryCaptureTls_eq_some h
  have hc : rec[0] = tlsContentAlert := by
    simpa [RawTlsCapture.isAlert, captureEvent, eventFlags_alert] using ha
  have ht : record.head.handshakeType = 0 := by
    rw [hr]
    simp [captureEvent, hc]
  rw [←hr] at ha
  refine ⟨?_, hr ▸ hc⟩
  simp [Record.message, RawTlsCapture.isClientHello, RawTlsCapture.isServerHello, ht, ha]

end Classifier
end TlsProbe
