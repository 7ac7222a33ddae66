import TlsProbe.Correlator.Theorems.Capacity
import TlsProbe.Worker.Theorems.Alerts

open Std

namespace TlsProbe

namespace Conn

variable {ttlNs : UInt64} {e : Option PendingEntry}

theorem certificateRequest_eq_self_iff : (step ttlNs e .certificateRequest).1 = e ↔
    ∀ entry ∈ e, entry.1.mtlsRequested := by
  cases e
  case none       => simp [step]
  case some entry =>
    obtain ⟨summary, insertionNs⟩ := entry
    cases summary
    simp [step]

theorem clientCertificate_eq_self_iff : step ttlNs e .clientCertificate = (e, []) ↔
    ∀ entry ∈ e, entry.1.postShNegotiation = none ∧ entry.1.mtls := by
  cases e
  case none       => simp [step]
  case some entry =>
    obtain ⟨summary, insertionNs⟩ := entry
    cases summary
    case mk stored => cases stored <;> simp [step]

end Conn

namespace Correlator

variable {c : Correlator} {key k : ConnKey} {iter : IterOrder} {ev : Event} {ce : Conn.Event}
variable {s : Correlator × List (ConnKey × Negotiation)}

theorem step_eq_self_iff : (machine.step c ev).1 = c ↔
    ∀ k : ConnKey, (machine.step c ev).1.pending[k]? = c.pending[k]? := by
  refine ⟨fun h k => by rw [h], fun h => ?_⟩
  have hp := ExtTreeMap.ext_getElem? (h ·)
  have hb : (machine.step c ev).1.maxEntries = c.maxEntries ∧ _ := step_bounds
  generalize (machine.step c ev).1 = c' at hp hb
  cases c'
  cases c
  simp_all

theorem Acts.eq_self_iff (h : c.Acts key ce (machine.step c ev)) :
    (machine.step c ev).1 = c ↔ (Conn.step c.ttlNs c.pending[key]? ce).1 = c.pending[key]? := by
  rw [step_eq_self_iff]
  simp only [h.pending]
  refine ⟨fun hs => by simpa using hs key, fun hs k => ?_⟩
  by_cases hk : key = k
  case pos => rw [if_pos hk, hs, hk]
  case neg => rw [if_neg hk]

-- A ClientHello changes nothing just when its entry is already there and no other one is evicted.
theorem clientHello_eq_self_iff {version : UInt16} {hello : ParsedClientHello} {nowNs : UInt64} :
    (c.onClientHello key (.clientHello version hello) nowNs iter).1 = c ↔
      c.pending[key]? = some (hello.summary nowNs, nowNs) ∧
      ∀ k ∈ c.keyToEvict iter, k = key := by
  have hs (k : ConnKey) : (machine.step c
      (.clientHello key (.clientHello version hello) nowNs iter)).1.pending[k]? =
        if key = k then some (hello.summary nowNs, nowNs)
        else (c.evictOldest iter).pending[k]? := by
    simp [machine, onClientHello, ExtTreeMap.getElem?_insert]
  change (machine.step c (.clientHello key (.clientHello version hello) nowNs iter)).1 = c ↔ _
  rw [step_eq_self_iff]
  constructor
  case mp =>
    intro h
    refine ⟨(h key).symm.trans <| (hs key).trans (if_pos rfl), fun k hk => ?_⟩
    by_contra hn
    have hk' := h k
    rw [hs, if_neg (Ne.symm hn), evictOldest_pending, if_pos (Option.mem_def.mp hk)] at hk'
    exact mem_of_keyToEvict hk hk'.symm
  case mpr =>
    rintro ⟨he, hv⟩ k
    rw [hs]
    by_cases hk : key = k
    case pos => rw [if_pos hk, ←hk, he]
    case neg =>
      have hn : c.keyToEvict iter ≠ some k := fun h => hk (hv k h).symm
      rw [if_neg hk, evictOldest_pending, if_neg hn]

theorem certificateRequest_eq_self_iff :
    c.onCertificateRequest key = c ↔ ∀ entry ∈ c.pending[key]?, entry.1.mtlsRequested :=
  acts_certificateRequest.eq_self_iff.trans Conn.certificateRequest_eq_self_iff

theorem clientCertificate_eq_self_iff : c.onClientCertificate key = (c, none) ↔
    ∀ entry ∈ c.pending[key]?, entry.1.postShNegotiation = none ∧ entry.1.mtls := by
  have ha : c.Acts key .clientCertificate (machine.step c (.clientCertificate key)) :=
    acts_clientCertificate
  have hr : (c.onClientCertificate key).2.toList.map (key, ·) =
      (Conn.step c.ttlNs c.pending[key]? .clientCertificate).2.map (key, ·) := ha.results
  have hn : (c.onClientCertificate key).2 = none ↔
      (Conn.step c.ttlNs c.pending[key]? .clientCertificate).2 = [] := by
    rw [←List.map_eq_nil_iff (f := (key, ·)), ←hr, List.map_eq_nil_iff, Option.toList_eq_nil_iff]
  have hs : Conn.step c.ttlNs c.pending[key]? .clientCertificate = (c.pending[key]?, []) ↔ _ :=
    Conn.clientCertificate_eq_self_iff
  rw [Prod.ext_iff, hn, ←hs, Prod.ext_iff]
  exact and_congr_left' ha.eq_self_iff

end Correlator

-- What a record amounts to: the state in which it leaves the worker, and its events.
structure Effect where
  tracking : Tracking
  events   : List CaptureEvent

namespace Tracking

variable {t : Tracking} {pass : Pass} {record : AssembledRecord} {record' : Record}

-- The effect of a record that the reassembler returns for a capture.
def onInsert (t : Tracking) (pass : Pass) (record : AssembledRecord) : Effect :=
  let handled := t.handle pass (.assembled record)
  ⟨handled.tracking, handled.events pass.env (.assembled record)⟩

-- The effect of a record that leaves the reassembler in a sweep.
def onSweep (t : Tracking) (pass : Pass) (record : AssembledRecord) : Effect :=
  ⟨t, [expiredEvent pass.env record]⟩

def TreatedAlike (t : Tracking) (pass : Pass) (record : AssembledRecord) : Prop :=
  t.onInsert pass record = t.onSweep pass record

-- The record has nothing to tell the worker.
def Inert (t : Tracking) (pass : Pass) (record : AssembledRecord) : Prop :=
  let key := record.headCapture.connKey
  let isClient := record.headCapture.isIngress
  let entry := t.correlator.pending[key]?
  match (Record.assembled record).message with
  | .clientHello =>
    ∀ version hello, parseTlsPayload record.buffer true = .ok (.clientHello version hello) →
      entry = some (hello.summary pass.nowNs, pass.nowNs) ∧
      ∀ k ∈ t.correlator.keyToEvict pass.iter, k = key
  | .serverHello => ¬(parseTlsPayload record.buffer false).isOk
  | .alert       => False
  | .certificate =>
    messageCertificate pass.env record.buffer = none ∧ ¬isTls13 record.buffer isClient ∧
      (isClient → ∀ e ∈ entry, e.1.postShNegotiation = none ∧ e.1.mtls)
  | .certificateRequest => ¬isTls13 record.buffer false ∧ ∀ e ∈ entry, e.1.mtlsRequested
  | .other              => True

theorem event_eq_expired_iff {handled : Handled} {env : Env} :
    handled.event env (.assembled record) = expiredEvent env record ↔
      handled.negotiation = none ∧ handled.certificate = none := by
  constructor
  case mp =>
    intro h
    have hn := congrArg CaptureEvent.negotiation h
    have hc := congrArg CaptureEvent.certificate h
    rw [Handled.event_negotiation, expiredEvent_negotiation] at hn
    rw [Handled.event_certificate, expiredEvent, enrichWithCgroup_certificate] at hc
    have he : ((Record.assembled record).event env).certificate = none := Record.event_certificate
    exact ⟨hn, hc.trans he⟩
  case mpr =>
    rintro ⟨hn, hc⟩
    rw [Handled.event, hn, hc]
    rfl

theorem treatedAlike_iff : t.TreatedAlike pass record ↔
    let handled := t.handle pass (.assembled record)
    handled.tracking = t ∧ handled.suppressed = false ∧ handled.negotiation = none ∧
      handled.certificate = none := by
  have hw : (t.handle pass (.assembled record)).walked = [] := by
    rw [handle_walked, Record.walked]
    repeat' split
    all_goals rfl
  simp only [TreatedAlike, onInsert, onSweep, Effect.mk.injEq, Handled.events_eq, hw]
  refine and_congr_right' ?_
  cases (t.handle pass (.assembled record)).suppressed
  case true  => simp
  case false => simpa using event_eq_expired_iff

theorem setCorrelator_eq_self_iff {c : Correlator} :
    { t with correlator := c } = t ↔ c = t.correlator := by
  cases t
  simp

theorem clientHello_inert_iff : (t.handleClientHello pass (.assembled record)).tracking = t ↔
    ∀ version hello, parseTlsPayload record.buffer true = .ok (.clientHello version hello) →
      t.correlator.pending[record.headCapture.connKey]? =
        some (hello.summary pass.nowNs, pass.nowNs) ∧
      ∀ k ∈ t.correlator.keyToEvict pass.iter, k = record.headCapture.connKey := by
  simp only [handleClientHello, Record.payload]
  cases hp : parseTlsPayload record.buffer true
  case error => simp
  case ok analysis =>
    obtain ⟨version, hello, rfl⟩ := parsed_client hp
    rw [setCorrelator_eq_self_iff, Correlator.clientHello_eq_self_iff]
    simp [Record.key, Record.head]

theorem serverHello_inert_iff : (t.handleServerHello (.assembled record)).tracking = t ∧
    (t.handleServerHello (.assembled record)).negotiation = none ↔
      ¬(parseTlsPayload record.buffer false).isOk := by
  simp only [handleServerHello, Record.payload]
  cases parseTlsPayload record.buffer false
  case error => simp [Except.isOk, Except.toBool]
  case ok analysis =>
    simp only [Record.trailing, requestCertificates, List.foldl_nil, onServerHello, Except.isOk,
      Except.toBool, not_true_eq_false, iff_false, not_and]
    split
    case h_1 => simp
    case h_2 =>
      intro ht
      have hc := congrArg Tracking.correlatorShWithoutCh ht
      simp at hc

theorem not_alert_inert : ¬((t.handleAlert record').tracking = t ∧
    (t.handleAlert record').negotiation = none) := by
  rintro ⟨ht, hn⟩
  have hd := congrArg Tracking.alertsDropped ht
  rw [handleAlert_eq.1] at hn
  simp [handleAlert_eq.2, hn] at hd

theorem filterTls13_inert_iff {handled : Handled} {payload : List UInt8} {isClient : Bool}
    (h : handled.suppressed = false) :
    (filterTls13 handled payload isClient).suppressed = false ∧
      (filterTls13 handled payload isClient).tracking = t ↔
      ¬isTls13 payload isClient ∧ handled.tracking = t := by
  rw [filterTls13_suppressed h, Bool.not_eq_true]
  refine and_congr_right fun hf => ?_
  rw [filterTls13, hf, if_neg Bool.false_ne_true]

theorem certificate_inert_iff :
    let handled := t.handleCertificate pass (.assembled record)
    handled.tracking = t ∧ handled.suppressed = false ∧ handled.negotiation = none ↔
      ¬isTls13 record.buffer record.headCapture.isIngress ∧
      (record.headCapture.isIngress →
        ∀ e ∈ t.correlator.pending[record.headCapture.connKey]?,
          e.1.postShNegotiation = none ∧ e.1.mtls) := by
  simp only [handleCertificate, filterTls13_negotiation]
  rw [←and_assoc, and_comm (a := _ = t), filterTls13_inert_iff rfl, and_assoc]
  refine and_congr_right' ?_
  by_cases hi : record.headCapture.isIngress
  case neg => simp [Record.head, hi]
  case pos =>
    simp only [Record.head, hi, if_true, forall_const, setCorrelator_eq_self_iff]
    rw [←Correlator.clientCertificate_eq_self_iff, Prod.ext_iff]
    rfl

theorem certificateRequest_inert_iff :
    let handled := t.handleCertificateRequest (.assembled record)
    handled.tracking = t ∧ handled.suppressed = false ↔
      ¬isTls13 record.buffer false ∧
      ∀ e ∈ t.correlator.pending[record.headCapture.connKey]?, e.1.mtlsRequested := by
  simp only [handleCertificateRequest]
  rw [and_comm, filterTls13_inert_iff rfl]
  refine and_congr_right' ?_
  simp only [onCertificateRequest, setCorrelator_eq_self_iff]
  exact Correlator.certificateRequest_eq_self_iff

-- An assembled record is treated alike on both ways out of the reassembler just when it is inert.
theorem treated_alike_iff (t : Tracking) (pass : Pass) (record : AssembledRecord) :
    t.TreatedAlike pass record ↔ t.Inert pass record := by
  rw [treatedAlike_iff, Inert]
  simp only [handle_certificate]
  cases hm : (Record.assembled record).message <;>
    simp only [handle, hm, reduceCtorEq, if_true, if_false, and_true, iff_false]
  case clientHello => simpa [handleClientHello] using clientHello_inert_iff
  case serverHello =>
    simp only [handleServerHello_rest.2, true_and]
    exact serverHello_inert_iff
  case alert =>
    simp only [handleAlert_rest.2.2, true_and]
    exact not_alert_inert
  case certificate =>
    rw [←and_assoc, ←and_assoc, and_comm, and_assoc]
    exact and_congr_right' certificate_inert_iff
  case certificateRequest =>
    simpa [handleCertificateRequest] using certificateRequest_inert_iff
-- A ClientHello of which the end is lost.
def cutCapture : RawTlsCapture :=
  { makeCapture 0 clientHelloPayload.dropLast (flagIngress ||| flagFragment) with
    handshakeType := 0x01, contentType := 0x16 }

def cutRecord : AssembledRecord where
  headCapture := cutCapture
  buffer      := clientHelloPayload.dropLast
  truncated   := true

-- The sweep lets the record go, but the ServerHello that follows does not find it.
theorem cut_not_alike :
    ((Reassembler.machine.output .new
      [.capture .still cutCapture, .sweep ⟨0, fun _ => 3 * 10 ^ 9⟩]).map
        fun record => (record.buffer, record.truncated)) =
      [(cutRecord.buffer, cutRecord.truncated)] ∧
    ¬new.TreatedAlike (.still cutCapture) cutRecord ∧
    ((new.onInsert (.still cutCapture) cutRecord).tracking.handleServerHello
      (.own serverHelloCapture)).tracking.correlatorShWithoutCh = 0 ∧
    ((new.onSweep (.still cutCapture) cutRecord).tracking.handleServerHello
      (.own serverHelloCapture)).tracking.correlatorShWithoutCh = 1 := by
  refine ⟨by decide +kernel, ?_, by decide +kernel, by decide +kernel⟩
  intro h
  have hc := congrArg (·.tracking.correlator.pending.size) h
  exact absurd hc (by decide +kernel)

end Tracking

namespace Worker

variable {w : Worker} {pass : Pass} {record : AssembledRecord}

-- The two ways on which a step gets to assembled records.
theorem step_onInsert (h : .assembled record ∈ w.received pass) :
    w.tracked pass = (w.tracking.onInsert pass record).tracking ∧
    w.recordEvents pass = (w.tracking.onInsert pass record).events := by
  rw [tracked, recordEvents, Option.mem_def.mp h]
  exact ⟨rfl, rfl⟩

theorem step_onSweep :
    let t := if w.Sweeps pass then
      { w.tracked pass with
        correlator := ((w.tracked pass).correlator.sweepExpired pass.sweepNs).1
      }
    else
      w.tracked pass
    (w.step pass).1.tracking =
      (w.expired pass).foldl (fun t record => (t.onSweep pass record).tracking) t ∧
    (w.step pass).2 = w.recordEvents pass ++
      (w.expired pass).flatMap fun record => (t.onSweep pass record).events := by
  refine ⟨step_tracking.trans (List.foldl_fixed _).symm, ?_⟩
  rw [step_events, List.map_eq_flatMap]
  rfl

end Worker
end TlsProbe
