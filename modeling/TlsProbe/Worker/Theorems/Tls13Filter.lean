import TlsProbe.Worker.Theorems.Leaf

namespace TlsProbe

namespace Record

variable {record : Record} {t : Tracking} {pass : Pass}

-- The record belongs to the part of a handshake that TLS 1.3 encrypts.
def IsFiltered (record : Record) : Prop :=
  record.message = .certificate ∨ record.message = .certificateRequest

-- The version that a record negotiates for the connection `k`.
def negotiatedVersion (k : ConnKey) (record : Record) : Option UInt16 :=
  if record.key = k ∧ record.message = .serverHello then
    match parseTlsPayload record.payload false with
    | .ok analysis => some analysis.effectiveVersion
    | .error _     => none
  else
    none

-- The version that the last ServerHello among the records has negotiated.
def lastVersion (k : ConnKey) (records : List Record) : Option UInt16 :=
  (records.filterMap (·.negotiatedVersion k)).getLast?

theorem handle_certsDropped13 (h : record.IsFiltered) :
    (t.handle pass record).tracking.certsDropped13 =
      if record.suppressed then t.certsDropped13 + 1 else t.certsDropped13 := by
  obtain hm | hm := h
  case inl =>
    simp only [Tracking.handle, suppressed, hm, Tracking.handleCertificate, Tracking.filterTls13]
    cases isTls13 record.payload record.head.isIngress <;> cases record.head.isIngress <;> simp
  case inr =>
    simp only [Tracking.handle, suppressed, hm, Tracking.handleCertificateRequest,
      Tracking.filterTls13]
    cases isTls13 record.payload false <;> simp [Tracking.onCertificateRequest]

theorem events_ne_nil_iff (h : record.IsFiltered) :
    (t.handle pass record).events pass.env record ≠ [] ↔ record.suppressed = false := by
  have hw : record.walked = [] := by
    obtain hm | hm := h <;> simp [walked, hm]
  rw [Handled.events, Tracking.handle_walked, Tracking.handle_suppressed, hw]
  cases record.suppressed <;> simp

end Record

namespace Worker

variable {w : Worker} {pass : Pass} {record : Record} {seen : List Record}

-- The records that a step captures: the one it handles, and those that leave by timeout.
def records (w : Worker) (pass : Pass) : List Record :=
  (w.received pass).toList ++ (w.expired pass).map .assembled

def captured (w : Worker) (passes : List Pass) : List Record :=
  Machine.Projects.inputs machine records w passes

-- The step emits the record that it handles, unless the last ServerHello that has been seen on its
-- connection has negotiated TLS 1.3.
def EmitsTls12 (seen : List Record) (w : Worker) (pass : Pass) : Prop :=
  ∀ record ∈ w.received pass, record.IsFiltered →
    Record.lastVersion record.key seen ≠ some 0x0304 →
      w.recordEvents pass ≠ [] ∧
      (w.step pass).1.tracking.certsDropped13 = w.tracking.certsDropped13

-- Unless the last ServerHello has negotiated TLS 1.3, the bytes of the record do not happen to parse
-- as a hello of this version.
def NotTakenForTls13 (seen : List Record) (w : Worker) (pass : Pass) : Prop :=
  ∀ record ∈ w.received pass, record.IsFiltered →
    Record.lastVersion record.key seen ≠ some 0x0304 →
      isTls13 record.payload (record.message = .certificate && record.head.isIngress) = false

theorem suppressed_eq (h : record.IsFiltered) : record.suppressed =
    isTls13 record.payload (record.message = .certificate && record.head.isIngress) := by
  obtain hm | hm := h <;> simp [Record.suppressed, hm]

theorem emitsTls12_iff : w.EmitsTls12 seen pass ↔ w.NotTakenForTls13 seen pass := by
  refine forall₂_congr fun record hr => forall₂_congr fun hf _ => ?_
  rw [Option.mem_def] at hr
  have he : (w.tracking.handle pass record).events pass.env record ≠ [] ↔
      record.suppressed = false := Record.events_ne_nil_iff hf
  rw [←suppressed_eq hf, step_certsDropped13, tracked, recordEvents, hr]
  simp only [he, Record.handle_certsDropped13 hf, and_iff_left_iff_imp]
  intro hs
  simp [hs]

-- In every run, the certificates of TLS 1.2 flows are all emitted just when none of them can be
-- taken for a hello of TLS 1.3.
theorem tls12_emitted_iff (passes : List Pass) :
    (∀ before pass after, passes = before ++ pass :: after →
      (machine.state new before).EmitsTls12 (captured new before) pass) ↔
    (∀ before pass after, passes = before ++ pass :: after →
      (machine.state new before).NotTakenForTls13 (captured new before) pass) :=
  forall₃_congr fun _ _ _ => imp_congr_right fun _ => emitsTls12_iff

-- A certificate whose octets hold what a ServerHello parser takes for the extension
-- supported_versions with TLS 1.3.
def forgedCertificate : CertificateRecord where
  version := 0x0303
  leaf    := [0x30, 0x26, 0x04, 0x24] ++ List.replicate 28 0 ++ [0x00, 0x06] ++
    [0x00, 0x2b, 0x00, 0x02, 0x03, 0x04]
  issuers := []
  fits    := by decide

def forgedCapture : RawTlsCapture :=
  { makeCapture 0 forgedCertificate.encode 0 with handshakeType := 0x0b, contentType := 0x16 }

theorem forged_not_emitted :
    ¬(machine.state new [.still serverHelloCapture]).EmitsTls12
      (captured new [.still serverHelloCapture]) (.still forgedCapture) := by
  intro h
  have hf := emitsTls12_iff.mp h (.own forgedCapture) rfl (.inl <| by decide +kernel)
    (by decide +kernel)
  exact absurd hf (by decide +kernel)

end Worker
end TlsProbe
