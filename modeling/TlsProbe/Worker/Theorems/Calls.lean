import TlsProbe.Correlator.Theorems.Projection
import TlsProbe.Worker.Basic

namespace TlsProbe

theorem parsed_client {payload : List UInt8} {analysis : TlsAnalysis}
    (h : parseTlsPayload payload true = .ok analysis) :
    ∃ version hello, analysis = .clientHello version hello := by
  simp only [parseTlsPayload] at h
  split at h
  case isTrue  => contradiction
  case isFalse =>
    cases hp : parseClientHello payload <;> simp [hp, Except.map] at h
    exact ⟨_, _, h.symm⟩

theorem parsed_server {payload : List UInt8} {analysis : TlsAnalysis}
    (h : parseTlsPayload payload false = .ok analysis) :
    ∃ version hello, analysis = .serverHello version hello := by
  simp only [parseTlsPayload] at h
  split at h
  case isTrue  => contradiction
  case isFalse =>
    cases hp : parseServerHello payload <;> simp [hp, Except.map] at h
    exact ⟨_, _, h.symm⟩

-- The calls that the first loop over the walked records makes.
def requests (key : ConnKey) (walked : List ExtractedRecord) : List Correlator.Event :=
  (walked.filter (·.handshakeType = 0x0d)).map fun _ => .certificateRequest key

namespace Record

-- The calls on the correlator that the handling of a record makes.
def calls (pass : Pass) (record : Record) : List Correlator.Event :=
  match record.message with
  | .clientHello =>
    match parseTlsPayload record.payload true with
    | .ok analysis => [.clientHello record.key analysis pass.nowNs pass.iter]
    | .error _     => []
  | .serverHello =>
    match parseTlsPayload record.payload false with
    | .ok analysis =>
      requests record.key (record.trailing analysis) ++ [.serverHello record.key analysis]
    | .error _ => []
  | .alert =>
    match parseAlert record.payload with
    | some (level, description) => [.alert record.key level description]
    | none                      => []
  | .certificate        => if record.head.isIngress then [.clientCertificate record.key] else []
  | .certificateRequest => [.certificateRequest record.key]
  | .other              => []

-- The records behind a ServerHello for which events are emitted.
def walked (record : Record) : List ExtractedRecord :=
  match record.message with
  | .serverHello =>
    match parseTlsPayload record.payload false with
    | .ok analysis => record.trailing analysis
    | .error _     => []
  | _ => []

-- The record is one that the worker drops as part of a TLS 1.3 handshake.
def suppressed (record : Record) : Bool :=
  match record.message with
  | .certificate        => isTls13 record.payload record.head.isIngress
  | .certificateRequest => isTls13 record.payload false
  | _                   => false

end Record

namespace Tracking

variable {t : Tracking} {pass : Pass} {record : Record} {key : ConnKey} {handled : Handled}
variable {payload : List UInt8} {isClient : Bool}

@[simp]
theorem filterTls13_correlator :
    (filterTls13 handled payload isClient).tracking.correlator = handled.tracking.correlator := by
  simp only [filterTls13]
  split <;> rfl

@[simp]
theorem filterTls13_negotiation :
    (filterTls13 handled payload isClient).negotiation = handled.negotiation := by
  simp only [filterTls13]
  split <;> rfl

@[simp]
theorem filterTls13_walked :
    (filterTls13 handled payload isClient).walked = handled.walked := by
  simp only [filterTls13]
  split <;> rfl

@[simp]
theorem filterTls13_certificate :
    (filterTls13 handled payload isClient).certificate = handled.certificate := by
  simp only [filterTls13]
  split <;> rfl

@[simp]
theorem filterTls13_alertsDropped : (filterTls13 handled payload isClient).tracking.alertsDropped =
    handled.tracking.alertsDropped := by
  simp only [filterTls13]
  split <;> rfl

@[simp]
theorem filterTls13_suppressed (h : handled.suppressed = false) :
    (filterTls13 handled payload isClient).suppressed = isTls13 payload isClient := by
  simp only [filterTls13]
  split <;> simp_all

theorem requestCertificates_eq (walked : List ExtractedRecord) :
    t.requestCertificates key walked = { t with
      correlator := Correlator.machine.state t.correlator (requests key walked)
    } := by
  induction walked generalizing t
  case nil => rfl
  case cons record walked hi =>
    rw [requestCertificates, List.foldl_cons, ←requestCertificates, hi]
    by_cases h : record.handshakeType = 0x0d
    all_goals simp [requests, h, onCertificateRequest, Correlator.machine]

theorem requests_output {c : Correlator} {walked : List ExtractedRecord} :
    Correlator.machine.output c (requests key walked) = [] := by
  induction walked generalizing c
  case nil => rfl
  case cons record walked hi =>
    by_cases h : record.handshakeType = 0x0d
    all_goals simp_all [requests, Correlator.machine]

-- The entry of a connection whose server asks for a certificate.
def requested (entry : PendingEntry) : PendingEntry :=
  ({ entry.1 with mtlsRequested := true }, entry.2)

theorem requests_pending {c : Correlator} {k : ConnKey} (walked : List ExtractedRecord) :
    (Correlator.machine.state c (requests key walked)).pending[k]? =
      if key = k ∧ walked.any (·.handshakeType = 0x0d) then
        c.pending[k]?.map requested
      else
        c.pending[k]? := by
  have hs (c : Correlator) : (c.onCertificateRequest key).pending[k]? =
      if key = k then c.pending[k]?.map requested else c.pending[k]? := by
    have := (Correlator.acts_certificateRequest : c.Acts key _ _).pending k
    grind [Correlator.machine, Conn.step, requested]
  induction walked generalizing c
  case nil => simp [requests]
  case cons record walked hi =>
    by_cases hr : record.handshakeType = 0x0d
    case neg => simpa [requests, hr] using hi
    case pos =>
      have he : requests key (record :: walked) = .certificateRequest key :: requests key walked := by
        simp [requests, hr]
      rw [he, Machine.state_cons, hi]
      simp only [Correlator.machine, hs]
      by_cases hk : key = k <;> simp [hk, hr]
      cases c.pending[k]? <;> simp [requested]

theorem onServerHello_correlator {analysis : TlsAnalysis} :
    (t.onServerHello key analysis).1.correlator = (t.correlator.onServerHello key analysis).1 := by
  simp only [onServerHello]
  split <;> simp_all

theorem onServerHello_negotiation {analysis : TlsAnalysis} :
    (t.onServerHello key analysis).2 = (t.correlator.onServerHello key analysis).2 := by
  simp only [onServerHello]
  split <;> simp_all

theorem onClientHello_negotiation {c : Correlator} {analysis : TlsAnalysis} {nowNs : UInt64}
    {iter : IterOrder} : (c.onClientHello key analysis nowNs iter).2 = none := by
  cases analysis <;> rfl

-- The handling of a record is a run of the correlator, and its negotiation is what the run returns.
theorem handle_calls (t : Tracking) (pass : Pass) (record : Record) :
    (t.handle pass record).tracking.correlator =
      Correlator.machine.state t.correlator (record.calls pass) ∧
    (t.handle pass record).negotiation.toList.map (record.key, ·) =
      Correlator.machine.output t.correlator (record.calls pass) := by
  simp only [handle, Record.calls]
  cases record.message <;> simp only
  case clientHello =>
    simp only [handleClientHello]
    cases parseTlsPayload record.payload true <;>
      simp [Correlator.machine, onClientHello_negotiation]
  case serverHello =>
    simp only [handleServerHello]
    cases parseTlsPayload record.payload false <;> simp only
    case error => simp
    case ok analysis =>
      rw [Machine.state_append, Machine.output_append, requests_output, requestCertificates_eq,
        onServerHello_correlator, onServerHello_negotiation]
      simp [Correlator.machine]
  case alert =>
    simp only [handleAlert]
    cases parseAlert record.payload <;> simp only
    case none => simp
    case some alert =>
      cases h : t.correlator.onAlert record.key alert.1 alert.2 with
      | mk c negotiation => cases negotiation <;> simp [h, Correlator.machine]
  case certificate =>
    cases h : record.head.isIngress <;> simp [handleCertificate, h, Correlator.machine]
  case certificateRequest =>
    simp [handleCertificateRequest, onCertificateRequest, Correlator.machine]
  case other => simp

theorem handleServerHello_rest : (t.handleServerHello record).certificate = none ∧
    (t.handleServerHello record).suppressed = false := by
  simp only [handleServerHello]
  split <;> exact ⟨rfl, rfl⟩

theorem handleAlert_rest : (t.handleAlert record).walked = [] ∧
    (t.handleAlert record).certificate = none ∧ (t.handleAlert record).suppressed = false := by
  simp only [handleAlert]
  repeat' split
  all_goals exact ⟨rfl, rfl, rfl⟩

theorem handle_suppressed : (t.handle pass record).suppressed = record.suppressed := by
  simp only [handle, Record.suppressed]
  cases record.message <;> simp only
  case clientHello        => rfl
  case serverHello        => exact handleServerHello_rest.2
  case alert              => exact handleAlert_rest.2.2
  case certificate        => simp [handleCertificate]
  case certificateRequest => simp [handleCertificateRequest]

theorem handle_walked : (t.handle pass record).walked = record.walked := by
  simp only [handle, Record.walked]
  cases record.message <;> simp only
  case clientHello        => rfl
  case serverHello        =>
    simp only [handleServerHello]
    cases parseTlsPayload record.payload false <;> rfl
  case alert              => exact handleAlert_rest.1
  case certificate        => simp [handleCertificate]
  case certificateRequest => simp [handleCertificateRequest]

theorem handle_certificate : (t.handle pass record).certificate =
    if record.message = .certificate then messageCertificate pass.env record.payload else none := by
  simp only [handle]
  cases record.message <;> simp only [reduceCtorEq, if_true, if_false]
  case clientHello        => rfl
  case serverHello        => exact handleServerHello_rest.1
  case alert              => exact handleAlert_rest.2.1
  case certificate        => simp [handleCertificate]
  case certificateRequest => simp [handleCertificateRequest]

end Tracking

namespace Worker

variable {w : Worker} {pass : Pass}

-- The record that a step handles, if any.
def received (w : Worker) (pass : Pass) : Option Record :=
  (w.receive pass).2

-- The step gets to its end and finds that it is time for a sweep.
def Sweeps (w : Worker) (pass : Pass) : Prop :=
  (∀ record ∈ w.received pass, record.suppressed = false) ∧ (w.timeoutCounter + 1) % 500 = 0

instance : Decidable (w.Sweeps pass) :=
  inferInstanceAs <| Decidable (_ ∧ _)

-- What a step does before it gets to the sweep.
def tracked (w : Worker) (pass : Pass) : Tracking :=
  match w.received pass with
  | some record => (w.tracking.handle pass record).tracking
  | none        => w.tracking

def recordEvents (w : Worker) (pass : Pass) : List CaptureEvent :=
  match w.received pass with
  | some record => (w.tracking.handle pass record).events pass.env record
  | none        => []

-- The records that leave the reassembler by timeout.
def expired (w : Worker) (pass : Pass) : List AssembledRecord :=
  if w.Sweeps pass then
    ((w.receive pass).1.reassembler.sweepExpired pass.sweepClock).2
  else
    []

def calls (w : Worker) (pass : Pass) : List Correlator.Event :=
  (w.received pass).toList.flatMap (·.calls pass) ++
    if w.Sweeps pass then [.sweep pass.sweepNs] else []

def reassemblerCalls (w : Worker) (pass : Pass) : List Reassembler.Event :=
  .capture pass.insertClock pass.capture ::
    if w.Sweeps pass then [.sweep pass.sweepClock] else []

@[simp]
theorem receive_tracking : (w.receive pass).1.tracking = w.tracking := by
  simp only [receive]
  split <;> rfl

@[simp]
theorem receive_timeoutCounter : (w.receive pass).1.timeoutCounter = w.timeoutCounter := by
  simp only [receive]
  split <;> rfl

theorem insert_of_whole {r : Reassembler} {clk : Clock} {cap : RawTlsCapture}
    (h : cap.flags &&& (flagFragment ||| flagContinuation) = 0) : r.insert clk cap = (r, none) := by
  simp [Reassembler.insert, h]

theorem receive_reassembler : (w.receive pass).1.reassembler =
    (w.reassembler.insert pass.insertClock pass.capture).1 := by
  simp only [receive]
  split
  case isTrue    => rfl
  case isFalse h => rw [insert_of_whole (not_not.mp h)]

theorem tracked_of_received {record : Record} (hr : record ∈ w.received pass) :
    w.tracked pass = (w.tracking.handle pass record).tracking := by
  rw [tracked, Option.mem_def.mp hr]

theorem tracked_correlator : (w.tracked pass).correlator =
    Correlator.machine.state w.tracking.correlator
      ((w.received pass).toList.flatMap (·.calls pass)) := by
  simp only [tracked]
  cases w.received pass
  case none        => rfl
  case some record => simp [(w.tracking.handle_calls pass record).1]

-- The spec of a step, by its parts.
theorem step_eq : w.step pass =
    let w' := { (w.receive pass).1 with tracking := w.tracked pass }
    if (w.received pass).any (·.suppressed) then
      (w', w.recordEvents pass)
    else
      ((w'.sweep pass).1, w.recordEvents pass ++ (w'.sweep pass).2.map (expiredEvent pass.env)) := by
  simp only [step, tracked, recordEvents, received]
  have ht : (w.receive pass).1.tracking = w.tracking := receive_tracking
  obtain ⟨w', received, h⟩ : ∃ w' received, w.receive pass = (w', received) := ⟨_, _, rfl⟩
  simp only [h] at ht ⊢
  cases received
  case none        => simp [finish, ←ht]
  case some record =>
    cases hs : record.suppressed <;> simp [Tracking.handle_suppressed, hs, finish, ht]

theorem not_sweeps_of_suppressed (h : (w.received pass).any (·.suppressed)) : ¬w.Sweeps pass := by
  intro hs
  cases hr : w.received pass <;> simp_all [Sweeps]

theorem sweeps_iff (h : (w.received pass).any (·.suppressed) = false) :
    w.Sweeps pass ↔ (w.timeoutCounter + 1) % 500 = 0 := by
  cases hr : w.received pass <;> simp_all [Sweeps]

theorem step_tracking : (w.step pass).1.tracking = if w.Sweeps pass then
    { w.tracked pass with correlator := ((w.tracked pass).correlator.sweepExpired pass.sweepNs).1 }
  else
    w.tracked pass := by
  rw [step_eq]
  cases hs : (w.received pass).any (·.suppressed)
  case true => simp [not_sweeps_of_suppressed hs]
  case false =>
    simp only [Bool.false_eq_true, if_false, sweep, receive_timeoutCounter, sweeps_iff hs]
    split <;> rfl

theorem step_correlator : (w.step pass).1.tracking.correlator =
    Correlator.machine.state w.tracking.correlator (w.calls pass) := by
  rw [calls, Machine.state_append, ←tracked_correlator, step_tracking]
  split <;> rfl

theorem step_certsDropped13 : (w.step pass).1.tracking.certsDropped13 =
    (w.tracked pass).certsDropped13 := by
  rw [step_tracking]
  split <;> rfl

theorem step_alertsDropped : (w.step pass).1.tracking.alertsDropped =
    (w.tracked pass).alertsDropped := by
  rw [step_tracking]
  split <;> rfl

theorem step_timeoutCounter : (w.step pass).1.timeoutCounter =
    if (w.received pass).any (·.suppressed) then w.timeoutCounter else w.timeoutCounter + 1 := by
  rw [step_eq]
  split
  case isTrue  => exact receive_timeoutCounter
  case isFalse =>
    simp only [sweep, receive_timeoutCounter]
    split <;> rfl

-- What the calls on the correlator preserve holds at every step of a run.
theorem correlator_inv {P : Correlator → Prop}
    (hp : ∀ c ev, P c → P (Correlator.machine.step c ev).1) (hs : P w.tracking.correlator)
    {passes : List Pass} {t : Worker × Pass} (ht : t ∈ machine.trace w passes) :
    P t.1.tracking.correlator := by
  refine Machine.inv_trace (P := fun w => P w.tracking.correlator) (C := fun _ _ => True)
    (fun w pass h _ => ?_) hs (Machine.allSteps_of_forall fun _ _ => trivial) ht
  change P (w.step pass).1.tracking.correlator
  rw [step_correlator]
  exact Machine.inv_reachable hp h

theorem step_reassembler : (w.step pass).1.reassembler =
    Reassembler.machine.state w.reassembler (w.reassemblerCalls pass) := by
  rw [reassemblerCalls, Machine.state_cons, step_eq]
  cases hs : (w.received pass).any (·.suppressed)
  case true => simp [not_sweeps_of_suppressed hs, receive_reassembler, Reassembler.machine]
  case false =>
    simp only [Bool.false_eq_true, if_false, sweep, receive_timeoutCounter, sweeps_iff hs]
    split <;> simp [receive_reassembler, Reassembler.machine]

theorem step_events : (w.step pass).2 =
    w.recordEvents pass ++ (w.expired pass).map (expiredEvent pass.env) := by
  rw [step_eq, expired]
  cases hs : (w.received pass).any (·.suppressed)
  case true => simp [not_sweeps_of_suppressed hs]
  case false =>
    simp only [Bool.false_eq_true, if_false, sweep, receive_timeoutCounter, sweeps_iff hs]
    split <;> simp

end Worker
end TlsProbe
