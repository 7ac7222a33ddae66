import TlsProbe.Event.Schema
import TlsProbe.Worker.Theorems.Alerts
import TlsProbe.Worker.Theorems.Pending

namespace TlsProbe

section Builders

variable {env : Env} {cap : RawTlsCapture} {payload : List UInt8} {event : CaptureEvent}

-- A ClientHello does not signal resumption by its PSK modes alone.
def SignalsResumption (cap : RawTlsCapture) (payload : List UInt8) : Prop :=
  cap.contentType ≠ 0x15 → ∀ version hello,
    parseTlsPayload payload cap.isClientHello = .ok (.clientHello version hello) →
    hello.pskKeyExchangeModesOffered →
      hello.pskOffered || hello.earlyDataOffered || hello.sessionTicketOffered

theorem resumption_anyFlag_iff {parsed : TlsAnalysis} :
    (∀ resumption ∈ TlsProbe.resumption parsed, resumption.anyFlag) ↔
      ∀ version hello, parsed = .clientHello version hello → hello.pskKeyExchangeModesOffered →
        hello.pskOffered || hello.earlyDataOffered || hello.sessionTicketOffered := by
  cases parsed
  case clientHello version hello =>
    simp only [resumption]
    split
    case isTrue h =>
      simp only [Resumption.anyFlag, Option.mem_some_iff, forall_eq', TlsAnalysis.clientHello.injEq,
        and_imp, forall_apply_eq_imp_iff]
      grind
    case isFalse h => simp_all
  case serverHello version hello =>
    simp only [resumption]
    split <;> simp_all [Resumption.anyFlag]

theorem analyze_resumption :
    (∀ resumption ∈ (analyzeCaptureWithPayload env cap payload).resumption, resumption.anyFlag) ↔
      SignalsResumption cap payload := by
  simp only [analyzeCaptureWithPayload, SignalsResumption]
  by_cases hc : cap.contentType = 0x15
  case pos =>
    rw [if_pos hc]
    cases parseAlert payload <;> simp [hc, buildAlertEvent, buildFallbackAnalysis, baseEvent]
  case neg =>
    rw [if_neg hc]
    cases parseTlsPayload payload cap.isClientHello
    case error => simp [buildFallbackAnalysis, baseEvent]
    case ok analysis => simpa [hc, buildAnalysis] using resumption_anyFlag_iff

-- The rules that all builders keep.
theorem analyze_rules :
    ((analyzeCaptureWithPayload env cap payload).alertLevel.isSome ∨
      (analyzeCaptureWithPayload env cap payload).alertDescription.isSome →
        (analyzeCaptureWithPayload env cap payload).handshakeType = "Alert") ∧
    ((analyzeCaptureWithPayload env cap payload).ja4.isSome →
      (analyzeCaptureWithPayload env cap payload).handshakeType = "ClientHello") := by
  simp only [analyzeCaptureWithPayload]
  split
  case isTrue =>
    cases parseAlert payload <;> simp [buildAlertEvent, buildFallbackAnalysis, baseEvent]
  case isFalse =>
    cases hp : parseTlsPayload payload cap.isClientHello
    case error => simp [buildFallbackAnalysis, baseEvent]
    case ok analysis =>
      cases analysis
      case serverHello => simp [buildAnalysis, baseEvent]
      case clientHello =>
        have hc : cap.isClientHello := by
          by_contra hn
          obtain ⟨_, _, ha⟩ := parsed_server (Bool.eq_false_of_not_eq_true hn ▸ hp)
          contradiction
        have ht : cap.handshakeType = 0x01 := of_decide_eq_true hc
        simp [buildAnalysis, baseEvent, handshakeTypeName, ht]

theorem enrichWithCgroup_wellFormed :
    (enrichWithCgroup env event cap).WellFormed ↔ event.WellFormed := by
  simp only [enrichWithCgroup]
  split
  case isTrue  => rfl
  case isFalse => exact ⟨fun h => ⟨h.1, h.2, h.3, h.4, h.5⟩, fun h => ⟨h.1, h.2, h.3, h.4, h.5⟩⟩

theorem walkedEvent_wellFormed {extracted : ExtractedRecord} :
    (walkedEvent env cap extracted).WellFormed := by
  rw [walkedEvent, enrichWithCgroup_wellFormed]
  constructor
  case certificate =>
    by_cases ht : extracted.handshakeType = 0x0b <;>
      simp [ht, synthesizeEventFromWalkedRecord, baseEvent, ExtractedRecord.handshakeTypeName]
  all_goals simp [CaptureEvent.attach, synthesizeEventFromWalkedRecord, baseEvent]

end Builders

namespace Record

variable {record : Record} {env : Env}

-- The certificate of the record would be that of an alert.
def CertifiesAlert (env : Env) (record : Record) : Prop :=
  record.message = .certificate ∧ record.head.contentType = 0x15 ∧
    (parseAlert record.payload).isSome ∧ (messageCertificate env record.payload).isSome

theorem event_certificate_iff (hm : record.message = .certificate) :
    (record.event env).handshakeType = "Certificate" ↔
      ¬(record.head.contentType = 0x15 ∧ (parseAlert record.payload).isSome) := by
  have ht : record.head.handshakeType = 0x0b := by
    simp only [message] at hm
    grind
  have he (cap : RawTlsCapture) (payload : List UInt8) (ht : cap.handshakeType = 0x0b) :
      (analyzeCaptureWithPayload env cap payload).handshakeType = "Certificate" ↔
        ¬(cap.contentType = 0x15 ∧ (parseAlert payload).isSome) := by
    have hn : handshakeTypeName cap.handshakeType = "Certificate" := by
      rw [ht]
      rfl
    simp only [analyzeCaptureWithPayload]
    by_cases hc : cap.contentType = 0x15
    case pos =>
      rw [if_pos hc]
      cases parseAlert payload <;>
        simp [hc, hn, buildAlertEvent, buildFallbackAnalysis, baseEvent]
    case neg =>
      rw [if_neg hc]
      cases parseTlsPayload payload cap.isClientHello <;>
        simp [hc, hn, buildAnalysis, buildFallbackAnalysis, baseEvent]
  cases record <;> exact he _ _ ht

-- The event of a record as such is well formed unless the resumption signals are all false.
theorem event_wellFormed : (record.event env).WellFormed ↔
    SignalsResumption record.head record.payload := by
  have hr : (∀ resumption ∈ (record.event env).resumption, resumption.anyFlag) ↔
      SignalsResumption record.head record.payload := by
    cases record <;> exact analyze_resumption
  have ha : ((record.event env).alertLevel.isSome ∨ (record.event env).alertDescription.isSome →
      (record.event env).handshakeType = "Alert") ∧
      ((record.event env).ja4.isSome → (record.event env).handshakeType = "ClientHello") := by
    cases record <;> exact analyze_rules
  exact ⟨fun h => hr.mp h.2, fun h => ⟨by simp, hr.mpr h, ha.1, ha.2, by simp⟩⟩

end Record

theorem expiredEvent_wellFormed {env : Env} {record : AssembledRecord} :
    (expiredEvent env record).WellFormed ↔
      SignalsResumption record.headCapture record.buffer := by
  have he : ((Record.assembled record).event env).WellFormed ↔ _ := Record.event_wellFormed
  exact enrichWithCgroup_wellFormed.trans he

namespace Handled

variable {handled : Handled} {env : Env} {record : Record}

theorem event_wellFormed : (handled.event env record).WellFormed ↔
    (∀ negotiation ∈ handled.negotiation, negotiation.clientOfferedGroups ≠ []) ∧
    SignalsResumption record.head record.payload ∧
    (handled.certificate.isSome → (record.event env).handshakeType = "Certificate") := by
  have he : (record.event env).WellFormed ↔ _ := Record.event_wellFormed
  rw [event, enrichWithCgroup_wellFormed, ←he]
  constructor
  case mp =>
    intro h
    refine ⟨?_, ⟨by simp, h.2, h.3, h.4, by simp⟩, ?_⟩
    · simpa using h.groups
    · simpa using h.certificate
  case mpr =>
    rintro ⟨hg, hr, hc⟩
    exact ⟨by simpa using hg, hr.2, hr.3, hr.4, by simpa using hc⟩

end Handled
-- The ClientHello offers a group besides GREASE.
def ClientHelloSummary.OffersGroup (summary : ClientHelloSummary) : Prop :=
  ∃ g ∈ summary.offeredGroups, ¬isGrease g

theorem ClientHelloSummary.clientOfferedGroups_ne_nil {summary : ClientHelloSummary} :
    summary.clientOfferedGroups ≠ [] ↔ summary.OffersGroup := by
  simp [clientOfferedGroups, OffersGroup]

-- If the record joins a ClientHello, then one that offers a group.
def Tracking.JoinsGroups (t : Tracking) (record : Record) : Prop :=
  ∀ entry ∈ t.correlator.pending[record.key]?,
    match record.message with
    | .serverHello => (parseTlsPayload record.payload false).isOk → entry.1.OffersGroup
    | .alert       => (parseAlert record.payload).isSome → entry.1.OffersGroup
    | .certificate => record.head.isIngress →
      ∀ stored ∈ entry.1.postShNegotiation, stored.clientOfferedGroups ≠ []
    | _ => True

namespace Worker

variable {w : Worker} {pass : Pass} {record : Record}

theorem serverHello_groups {ttlNs : UInt64} {walked : List ExtractedRecord}
    {e : Option PendingEntry} {hello : ParsedServerHello} :
    (∀ negotiation ∈ (Conn.step ttlNs (askedBy walked e) (.serverHello hello)).2,
      negotiation.clientOfferedGroups ≠ []) ↔ ∀ entry ∈ e, entry.1.OffersGroup := by
  simp only [←ClientHelloSummary.clientOfferedGroups_ne_nil]
  cases e
  case none => simp [askedBy, Conn.step]
  case some entry =>
    obtain ⟨e', he, hg⟩ : ∃ e', askedBy walked (some entry) = some e' ∧
        e'.1.clientOfferedGroups = entry.1.clientOfferedGroups := by
      simp only [askedBy]
      split <;> exact ⟨_, rfl, rfl⟩
    rw [he, Conn.serverHello_output]
    simp [ClientHelloSummary.buildNegotiation, hg]

theorem clientCertificate_groups {ttlNs : UInt64} {e : Option PendingEntry} :
    (∀ negotiation ∈ (Conn.step ttlNs e .clientCertificate).2,
      negotiation.clientOfferedGroups ≠ []) ↔
    ∀ entry ∈ e, ∀ stored ∈ entry.1.postShNegotiation, stored.clientOfferedGroups ≠ [] := by
  cases e
  case none       => simp [Conn.step]
  case some entry => cases hp : entry.1.postShNegotiation <;> simp [Conn.step, hp]

theorem groups_iff {t : Tracking} (pass : Pass) :
    (∀ negotiation ∈ (t.handle pass record).negotiation.toList,
      negotiation.clientOfferedGroups ≠ []) ↔ t.JoinsGroups record := by
  simp only [Tracking.JoinsGroups]
  cases hm : record.message <;> simp only
  case clientHello => simp [Tracking.handle, hm, Tracking.handleClientHello]
  case serverHello =>
    cases hp : parseTlsPayload record.payload false
    case error =>
      simp [Tracking.handle, hm, Tracking.handleServerHello, hp, Except.isOk, Except.toBool]
    case ok analysis =>
      obtain ⟨version, hello, rfl⟩ := parsed_server hp
      rw [(Tracking.handle_serverHello pass hm hp).2, serverHello_groups]
      simp [Except.isOk, Except.toBool]
  case alert =>
    have hn : (t.handle pass record).negotiation = t.alertJoin record := by
      simp [Tracking.handle, hm, Tracking.handleAlert_eq.1]
    rw [hn, Tracking.alertJoin_eq]
    simp only [←ClientHelloSummary.clientOfferedGroups_ne_nil]
    split
    case isFalse h => simp [h]
    case isTrue h =>
      cases t.correlator.pending[record.key]? <;>
        simp [h, ClientHelloSummary.failedNegotiation]
  case certificate =>
    by_cases hi : record.head.isIngress
    case pos =>
      rw [Tracking.handle_clientCertificate hm hi, clientCertificate_groups]
      simp [hi]
    case neg => simp [Tracking.handle, hm, Tracking.handleCertificate, hi]
  case certificateRequest => simp [Tracking.handle, hm, Tracking.handleCertificateRequest]
  case other              => simp [Tracking.handle, hm]

-- The condition under which the events of a step conform to the schema.
structure Conforming (w : Worker) (pass : Pass) : Prop where
  groups      : ∀ record ∈ w.received pass, record.suppressed = false →
    w.tracking.JoinsGroups record
  resumption  : ∀ record ∈ w.received pass, record.suppressed = false →
    SignalsResumption record.head record.payload
  certificate : ∀ record ∈ w.received pass, record.suppressed = false →
    ¬record.CertifiesAlert pass.env
  expired     : ∀ record ∈ w.expired pass, SignalsResumption record.headCapture record.buffer

theorem recordEvents_wellFormed (hr : record ∈ w.received pass) :
    (∀ event ∈ w.recordEvents pass, event.WellFormed) ↔
      (record.suppressed = false → w.tracking.JoinsGroups record ∧
        SignalsResumption record.head record.payload ∧ ¬record.CertifiesAlert pass.env) := by
  have hc : ((w.tracking.handle pass record).certificate.isSome →
      (record.event pass.env).handshakeType = "Certificate") ↔
      ¬record.CertifiesAlert pass.env := by
    rw [Tracking.handle_certificate, Record.CertifiesAlert]
    by_cases hm : record.message = .certificate
    case neg => simp [hm]
    case pos =>
      rw [if_pos hm, Record.event_certificate_iff hm]
      tauto
  have hg : (∀ negotiation ∈ (w.tracking.handle pass record).negotiation,
      negotiation.clientOfferedGroups ≠ []) ↔ w.tracking.JoinsGroups record := by
    simp only [←groups_iff pass, Option.mem_toList, Option.mem_def]
  have he : ((w.tracking.handle pass record).event pass.env record).WellFormed ↔ _ :=
    Handled.event_wellFormed
  rw [hg, hc] at he
  rw [recordEvents, Option.mem_def.mp hr]
  simp only [Handled.events_eq, Tracking.handle_suppressed, List.forall_mem_append,
    List.forall_mem_map, walkedEvent_wellFormed, implies_true, true_and]
  cases record.suppressed <;> simp [he]

-- The events of a step conform to the schema just when the joins are with ClientHellos that offer a
-- group, no ClientHello signals resumption by its PSK modes alone, and no certificate comes as an
-- alert.
theorem events_conform_iff (w : Worker) (pass : Pass) :
    (∀ event ∈ (w.step pass).2, Conforms event.toJson) ↔ w.Conforming pass := by
  simp only [CaptureEvent.conforms_iff, step_events, List.forall_mem_append, List.forall_mem_map,
    expiredEvent_wellFormed]
  have hr : (∀ event ∈ w.recordEvents pass, event.WellFormed) ↔
      ∀ record ∈ w.received pass, record.suppressed = false → w.tracking.JoinsGroups record ∧
        SignalsResumption record.head record.payload ∧ ¬record.CertifiesAlert pass.env := by
    cases hr : w.received pass
    case none        => simp [recordEvents, hr]
    case some record => simp [recordEvents_wellFormed (Option.mem_def.mpr hr)]
  rw [hr]
  constructor
  case mp =>
    rintro ⟨h, he⟩
    exact ⟨fun r hr hs => (h r hr hs).1, fun r hr hs => (h r hr hs).2.1,
      fun r hr hs => (h r hr hs).2.2, he⟩
  case mpr =>
    intro h
    exact ⟨fun r hr hs => ⟨h.groups r hr hs, h.resumption r hr hs, h.certificate r hr hs⟩,
      h.expired⟩

-- A ClientHello without extensions.
def plainHelloCapture : RawTlsCapture :=
  { makeCapture 0 (tlsRecord 0x16 0x0301 <| handshakeMessage 0x01 <|
      [0x03, 0x03] ++ List.replicate 32 0 ++ [0x00] ++ [0x00, 0x02, 0x00, 0x2f] ++ [0x01, 0x00])
      flagIngress with
    handshakeType := 0x01, contentType := 0x16 }

theorem plain_not_conform :
    ¬∀ event ∈ ((machine.state new [.still plainHelloCapture]).step
      (.still serverHelloCapture)).2, Conforms event.toJson := by
  intro h
  have he : ((machine.state new [.still plainHelloCapture]).step
      (.still serverHelloCapture)).2.any fun event =>
        event.negotiation.any (·.clientOfferedGroups = []) := by decide +kernel
  obtain ⟨event, he, hn⟩ := List.any_eq_true.mp he
  obtain ⟨negotiation, hn, hg⟩ := (Option.any_eq_true _ _).mp hn
  exact (CaptureEvent.conforms_iff.mp (h event he)).groups negotiation hn (of_decide_eq_true hg)

end Worker
end TlsProbe
