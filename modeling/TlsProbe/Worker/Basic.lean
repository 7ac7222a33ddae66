import TlsProbe.Correlator.Basic
import TlsProbe.Reassembler.Basic
import TlsProbe.Worker.RecordWalk

namespace TlsProbe

-- The state that the worker keeps about the connections.
structure Tracking where
  correlator            : Correlator
  correlatorShWithoutCh : UInt64
  alertsDropped         : UInt64
  certsDropped13        : UInt64

-- What the worker reads in one turn of its loop, besides its own state. The clocks are taken not to
-- advance between two readings for the same purpose in one turn.
structure Pass where
  capture     : RawTlsCapture
  env         : Env
  nowNs       : UInt64
  iter        : IterOrder
  insertClock : Clock
  sweepNs     : UInt64
  sweepClock  : Clock

-- A turn in which the clocks stand still, without a library for digests or certificates.
def Pass.still (capture : RawTlsCapture) : Pass where
  capture     := capture
  env         := {
    timestamp           := ""
    sha256              := id
    parseDerCertificate := fun _ => none
    resolveCgroupId     := fun _ => (none, none)
  }
  nowNs       := 0
  iter        := .sorted
  insertClock := .still
  sweepNs     := 0
  sweepClock  := .still

-- A ClientHello of TLS 1.2 that offers one group.
def clientHelloPayload : List UInt8 :=
  tlsRecord 0x16 0x0301 <| handshakeMessage 0x01 <|
    [0x03, 0x03] ++ List.replicate 32 0 ++ [0x00] ++ [0x00, 0x02, 0xc0, 0x2f] ++ [0x01, 0x00] ++
      [0x00, 0x08] ++ [0x00, 0x0a, 0x00, 0x04, 0x00, 0x02, 0x00, 0x1d]

def clientHelloCapture : RawTlsCapture :=
  { makeCapture 0 clientHelloPayload flagIngress with handshakeType := 0x01, contentType := 0x16 }

-- A ServerHello of TLS 1.2 without extensions.
def serverHelloPayload : List UInt8 :=
  tlsRecord 0x16 0x0303 <| handshakeMessage 0x02 <|
    [0x03, 0x03] ++ List.replicate 32 0 ++ [0x00, 0xc0, 0x2f, 0x00]

def serverHelloCapture : RawTlsCapture :=
  { makeCapture 0 serverHelloPayload 0 with handshakeType := 0x02, contentType := 0x16 }

def certificateRequestCapture : RawTlsCapture :=
  { makeCapture 0 (tlsRecord 0x16 0x0303 <| handshakeMessage 0x0d [0x01, 0x01, 0x00, 0x00]) 0 with
    handshakeType := 0x0d, contentType := 0x16 }

def clientCertificateCapture : RawTlsCapture :=
  { makeCapture 0 (tlsRecord 0x16 0x0303 <| handshakeMessage 0x0b <| vector24 <| vector24
      [0x30, 0x00]) flagIngress with
    handshakeType := 0x0b, contentType := 0x16 }

-- A record that the worker handles: a capture of its own, or one that the reassembler returned.
inductive Record
  | own (capture : RawTlsCapture)
  | assembled (record : AssembledRecord)

-- The message that the worker takes a record for.
inductive Message
  | clientHello
  | serverHello
  | alert
  | certificate
  | certificateRequest
  | other
  deriving DecidableEq, Repr

-- What the handling of a record leads to. A suppressed record has no event of its own.
structure Handled where
  tracking    : Tracking
  walked      : List ExtractedRecord
  negotiation : Option Negotiation
  certificate : Option Certificate
  suppressed  : Bool

structure Worker where
  reassembler    : Reassembler
  tracking       : Tracking
  timeoutCounter : UInt32

-- The bytes that the worker hands on to `parse_certificate`, less a handshake header.
def certPayload (message : List UInt8) : Option (List UInt8) :=
  if 4 < message.length then some (message.drop 4) else none

def messageCertificate (env : Env) (message : List UInt8) : Option Certificate :=
  (certPayload message).bind (parseCertificate env.parseDerCertificate)

-- The bytes of a message that are handed to `parse_der_certificate`.
def leafOf (message : List UInt8) : Option (List UInt8) :=
  (certPayload message).bind leafDer

theorem messageCertificate_eq (env : Env) (message : List UInt8) :
    messageCertificate env message = (leafOf message).bind env.parseDerCertificate := by
  simp only [messageCertificate, leafOf, Option.bind_assoc]
  rfl

def isTls13 (payload : List UInt8) (isClient : Bool) : Bool :=
  match parseTlsPayload payload isClient with
  | .ok analysis => analysis.effectiveVersion = 0x0304
  | .error _     => false

-- `if let Some(..)` leaves the event as it is when there is nothing to set.
def CaptureEvent.attach (event : CaptureEvent) (negotiation : Option Negotiation)
    (certificate : Option Certificate) : CaptureEvent :=
  { event with
    negotiation := negotiation.or event.negotiation
    certificate := certificate.or event.certificate
  }

namespace AssembledRecord

-- The event of a record that has left the reassembler.
def event (env : Env) (record : AssembledRecord) : CaptureEvent :=
  { analyzeCaptureWithPayload env record.headCapture record.buffer with
    reassembled := some true
    truncated   := some record.truncated
  }

end AssembledRecord

namespace Record

def head : Record → RawTlsCapture
  | own capture      => capture
  | assembled record => record.headCapture

def payload : Record → List UInt8
  | own capture      => capture.payloadSlice
  | assembled record => record.buffer

def key (record : Record) : ConnKey :=
  record.head.connKey

def message (record : Record) : Message :=
  if record.head.isClientHello then .clientHello
  else if record.head.isServerHello then .serverHello
  else if record.head.isAlert then .alert
  else if record.head.handshakeType = 0x0b then .certificate
  else if record.head.handshakeType = 0x0d then .certificateRequest
  else .other

def event (env : Env) : Record → CaptureEvent
  | own capture      => analyzeCapture env capture
  | assembled record => record.event env

-- The records that are extracted behind a ServerHello. Only captures of their own are walked.
def trailing (record : Record) (analysis : TlsAnalysis) : List ExtractedRecord :=
  match record with
  | own capture =>
    if analysis.effectiveVersion ≤ 0x0303 then walkRecords capture.payloadSlice else []
  | assembled _ => []

end Record

namespace Tracking

def new : Tracking where
  correlator            := .new
  correlatorShWithoutCh := 0
  alertsDropped         := 0
  certsDropped13        := 0

def onCertificateRequest (t : Tracking) (key : ConnKey) : Tracking :=
  { t with correlator := t.correlator.onCertificateRequest key }

-- The first loop over the walked records.
def requestCertificates (t : Tracking) (key : ConnKey) (walked : List ExtractedRecord) : Tracking :=
  walked.foldl
    (fun t record => if record.handshakeType = 0x0d then t.onCertificateRequest key else t) t

def onServerHello (t : Tracking) (key : ConnKey) (analysis : TlsAnalysis) :
    Tracking × Option Negotiation :=
  match t.correlator.onServerHello key analysis with
  | (correlator, some negotiation) => ({ t with correlator := correlator }, some negotiation)
  | (correlator, none) =>
    ({ t with
      correlator            := correlator
      correlatorShWithoutCh := t.correlatorShWithoutCh + 1
    }, none)

def handleClientHello (t : Tracking) (pass : Pass) (record : Record) : Handled where
  tracking    :=
    match parseTlsPayload record.payload true with
    | .ok analysis =>
      let (correlator, _) := t.correlator.onClientHello record.key analysis pass.nowNs pass.iter
      { t with correlator := correlator }
    | .error _ => t
  walked      := []
  negotiation := none
  certificate := none
  suppressed  := false

def handleServerHello (t : Tracking) (record : Record) : Handled :=
  match parseTlsPayload record.payload false with
  | .ok analysis =>
    let walked := record.trailing analysis
    let (t, negotiation) :=
      (t.requestCertificates record.key walked).onServerHello record.key analysis
    ⟨t, walked, negotiation, none, false⟩
  | .error _ => ⟨t, [], none, none, false⟩

def handleAlert (t : Tracking) (record : Record) : Handled :=
  match parseAlert record.payload with
  | some (level, description) =>
    match t.correlator.onAlert record.key level description with
    | (correlator, some negotiation) =>
      ⟨{ t with correlator := correlator }, [], some negotiation, none, false⟩
    | (correlator, none) =>
      ⟨{ t with correlator := correlator, alertsDropped := t.alertsDropped + 1 }, [], none, none,
        false⟩
  | none => ⟨{ t with alertsDropped := t.alertsDropped + 1 }, [], none, none, false⟩

-- TLS 1.3 records of these types are dropped: the rest of the turn does not take place.
def filterTls13 (handled : Handled) (payload : List UInt8) (isClient : Bool) : Handled :=
  if isTls13 payload isClient then
    { handled with
      tracking.certsDropped13 := handled.tracking.certsDropped13 + 1
      suppressed              := true
    }
  else
    handled

def handleCertificate (t : Tracking) (pass : Pass) (record : Record) : Handled :=
  let isClient := record.head.isIngress
  let certificate := messageCertificate pass.env record.payload
  let (t, negotiation) :=
    if isClient then
      let (correlator, negotiation) := t.correlator.onClientCertificate record.key
      ({ t with correlator := correlator }, negotiation)
    else
      (t, none)
  filterTls13 ⟨t, [], negotiation, certificate, false⟩ record.payload isClient

def handleCertificateRequest (t : Tracking) (record : Record) : Handled :=
  filterTls13 ⟨t.onCertificateRequest record.key, [], none, none, false⟩ record.payload false

-- The two branches of the loop, for records of their own and for assembled ones, treat the messages
-- alike up to the walk of a ServerHello's trailing records.
def handle (t : Tracking) (pass : Pass) (record : Record) : Handled :=
  match record.message with
  | .clientHello        => t.handleClientHello pass record
  | .serverHello        => t.handleServerHello record
  | .alert              => t.handleAlert record
  | .certificate        => t.handleCertificate pass record
  | .certificateRequest => t.handleCertificateRequest record
  | .other              => ⟨t, [], none, none, false⟩

end Tracking

def walkedEvent (env : Env) (capture : RawTlsCapture) (record : ExtractedRecord) : CaptureEvent :=
  let event := synthesizeEventFromWalkedRecord env capture record
  let certificate :=
    if record.handshakeType = 0x0b then messageCertificate env record.body else none
  enrichWithCgroup env (event.attach none certificate) capture

-- The events of the walked records come before the one of the record itself.
def Handled.events (handled : Handled) (env : Env) (record : Record) : List CaptureEvent :=
  handled.walked.map (walkedEvent env record.head) ++
    if handled.suppressed then
      []
    else
      [enrichWithCgroup env
        ((record.event env).attach handled.negotiation handled.certificate) record.head]

def expiredEvent (env : Env) (record : AssembledRecord) : CaptureEvent :=
  enrichWithCgroup env (record.event env) record.headCapture

namespace Worker

def new : Worker where
  reassembler    := .new
  tracking       := .new
  timeoutCounter := 0

-- A capture that is part of a record is passed to the reassembler, which may complete the record.
def receive (w : Worker) (pass : Pass) : Worker × Option Record :=
  if pass.capture.flags &&& (flagFragment ||| flagContinuation) ≠ 0 then
    let (reassembler, record) := w.reassembler.insert pass.insertClock pass.capture
    ({ w with reassembler := reassembler }, record.map .assembled)
  else
    (w, some (.own pass.capture))

def sweep (w : Worker) (pass : Pass) : Worker × List AssembledRecord :=
  let w := { w with timeoutCounter := w.timeoutCounter + 1 }
  if w.timeoutCounter % 500 = 0 then
    let (correlator, _) := w.tracking.correlator.sweepExpired pass.sweepNs
    let (reassembler, expired) := w.reassembler.sweepExpired pass.sweepClock
    ({ w with tracking.correlator := correlator, reassembler := reassembler }, expired)
  else
    (w, [])

-- The end of a turn that has not been cut short.
def finish (w : Worker) (pass : Pass) : Worker × List CaptureEvent :=
  let (w, expired) := w.sweep pass
  (w, expired.map (expiredEvent pass.env))

def step (w : Worker) (pass : Pass) : Worker × List CaptureEvent :=
  match w.receive pass with
  | (w, some record) =>
    let handled := w.tracking.handle pass record
    let events := handled.events pass.env record
    let w := { w with tracking := handled.tracking }
    if handled.suppressed then
      (w, events)
    else
      let (w, expired) := w.finish pass
      (w, events ++ expired)
  | (w, none) => w.finish pass -- The record waits for more.

def machine : Machine Worker Pass CaptureEvent where
  step := step

end Worker
end TlsProbe
