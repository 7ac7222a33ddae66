import TlsProbe.Worker.Theorems.Calls

namespace TlsProbe

section Builders

variable {env : Env} {event : CaptureEvent} {cap : RawTlsCapture} {payload : List UInt8}
variable {record : Record} {extracted : ExtractedRecord}

@[simp]
theorem enrichWithCgroup_negotiation :
    (enrichWithCgroup env event cap).negotiation = event.negotiation := by
  simp only [enrichWithCgroup]
  split <;> rfl

@[simp]
theorem enrichWithCgroup_certificate :
    (enrichWithCgroup env event cap).certificate = event.certificate := by
  simp only [enrichWithCgroup]
  split <;> rfl

@[simp]
theorem enrichWithCgroup_handshakeType :
    (enrichWithCgroup env event cap).handshakeType = event.handshakeType := by
  simp only [enrichWithCgroup]
  split <;> rfl

theorem analyze_unset : (analyzeCaptureWithPayload env cap payload).negotiation = none ∧
    (analyzeCaptureWithPayload env cap payload).certificate = none := by
  simp only [analyzeCaptureWithPayload]
  repeat' split
  all_goals exact ⟨rfl, rfl⟩

@[simp]
theorem Record.event_negotiation : (record.event env).negotiation = none := by
  cases record <;> exact analyze_unset.1

@[simp]
theorem Record.event_certificate : (record.event env).certificate = none := by
  cases record <;> exact analyze_unset.2

@[simp]
theorem attach_negotiation {negotiation : Option Negotiation} {certificate : Option Certificate} :
    (event.attach negotiation certificate).negotiation = negotiation.or event.negotiation :=
  rfl

@[simp]
theorem attach_certificate {negotiation : Option Negotiation} {certificate : Option Certificate} :
    (event.attach negotiation certificate).certificate = certificate.or event.certificate :=
  rfl

@[simp]
theorem attach_handshakeType {negotiation : Option Negotiation} {certificate : Option Certificate} :
    (event.attach negotiation certificate).handshakeType = event.handshakeType :=
  rfl

@[simp]
theorem walkedEvent_negotiation : (walkedEvent env cap extracted).negotiation = none := by
  simp [walkedEvent, synthesizeEventFromWalkedRecord, baseEvent]

@[simp]
theorem expiredEvent_negotiation {record : AssembledRecord} :
    (expiredEvent env record).negotiation = none := by
  rw [expiredEvent, enrichWithCgroup_negotiation]
  exact analyze_unset.1

end Builders

section Handled

variable {handled : Handled} {env : Env} {record : Record}

-- The event of the record itself.
def Handled.event (handled : Handled) (env : Env) (record : Record) : CaptureEvent :=
  enrichWithCgroup env
    ((record.event env).attach handled.negotiation handled.certificate) record.head

namespace Handled

@[simp]
theorem event_negotiation : (handled.event env record).negotiation = handled.negotiation := by
  simp [event]

@[simp]
theorem event_certificate : (handled.event env record).certificate = handled.certificate := by
  simp [event]

@[simp]
theorem event_handshakeType :
    (handled.event env record).handshakeType = (record.event env).handshakeType := by
  rw [event, enrichWithCgroup_handshakeType]
  rfl

theorem events_eq : handled.events env record =
    handled.walked.map (walkedEvent env record.head) ++
      if handled.suppressed then [] else [handled.event env record] :=
  rfl

end Handled
end Handled

namespace Worker

variable {w : Worker} {pass : Pass} {handled : Handled} {env : Env} {record : Record}

theorem events_negotiations :
    (handled.events env record).filterMap (·.negotiation) =
      if handled.suppressed then [] else handled.negotiation.toList := by
  have hw : (handled.walked.map (walkedEvent env record.head)).filterMap (·.negotiation) = [] := by
    simp
  rw [Handled.events_eq, List.filterMap_append, hw]
  cases handled.suppressed <;> cases h : handled.negotiation <;> simp [h]

-- The negotiations of a step, in the order in which they are emitted: one at most.
def negotiations (w : Worker) (pass : Pass) : List Negotiation :=
  (w.step pass).2.filterMap (·.negotiation)

theorem negotiations_eq : w.negotiations pass =
    match w.received pass with
    | some record =>
      if record.suppressed then [] else (w.tracking.handle pass record).negotiation.toList
    | none => [] := by
  have he : ((w.expired pass).map (expiredEvent pass.env)).filterMap (·.negotiation) = [] := by
    simp
  rw [negotiations, step_events, List.filterMap_append, he, List.append_nil, recordEvents]
  cases w.received pass
  case none => rfl
  case some record => simp only [events_negotiations, Tracking.handle_suppressed]

end Worker
end TlsProbe
