import TlsProbe.Worker.Theorems.Calls

namespace TlsProbe

variable {env : Env} {capture capture' : RawTlsCapture} {payload payload' : List UInt8}

-- The captures differ at most in their payloads.
def RawTlsCapture.SameHeader (capture capture' : RawTlsCapture) : Prop :=
  capture' = { capture with payloadLen := capture'.payloadLen, payload := capture'.payload }

-- The fields of an event that tell what a hello says.
structure HelloFields where
  tlsVersion          : String
  cipherSuites        : List CipherSuiteInfo
  keyExchangeGroups   : List KeyExchangeInfo
  keyShareGroup       : Option KeyExchangeInfo
  signatureAlgorithms : List SignatureAlgorithmInfo
  sni                 : Option String
  resumption          : Option Resumption
  ja4                 : Option String
  deriving DecidableEq

def CaptureEvent.helloFields (event : CaptureEvent) : HelloFields where
  tlsVersion          := event.tlsVersion
  cipherSuites        := event.cipherSuites
  keyExchangeGroups   := event.keyExchangeGroups
  keyShareGroup       := event.keyShareGroup
  signatureAlgorithms := event.signatureAlgorithms
  sni                 := event.sni
  resumption          := event.resumption
  ja4                 := event.ja4

-- The payloads make no difference for these fields, and the version is the one that the walker gives
-- to a record with the same header.
structure HelloFree (env : Env) (capture capture' : RawTlsCapture) (payload payload' : List UInt8) :
    Prop where
  agree   : (analyzeCaptureWithPayload env capture payload).helloFields =
    (analyzeCaptureWithPayload env capture' payload').helloFields
  version : ∀ record : ExtractedRecord, record.version = capture.recordVersion →
    (analyzeCaptureWithPayload env capture payload).tlsVersion =
      (synthesizeEventFromWalkedRecord env capture record).tlsVersion

-- What the payload of a handshake record is read as when it is taken for a ServerHello.
def takenFor (capture : RawTlsCapture) (payload : List UInt8) : Option TlsAnalysis :=
  if capture.contentType = 0x15 then none else (parseTlsPayload payload false).toOption

-- Neither payload is taken for a ServerHello, or both are for ones that happen to say the same and to
-- select a version of the same name as the record's.
def TakenAlike (capture : RawTlsCapture) (payload payload' : List UInt8) : Prop :=
  match takenFor capture payload, takenFor capture payload' with
  | none, none => True
  | some analysis, some analysis' =>
    analysis.cipherSuites = analysis'.cipherSuites ∧
    analysis.keyExchangeGroups = analysis'.keyExchangeGroups ∧
    resumption analysis = resumption analysis' ∧
    tlsVersionName analysis.effectiveVersion = tlsVersionName capture.recordVersion ∧
    tlsVersionName analysis'.effectiveVersion = tlsVersionName capture.recordVersion
  | _, _ => False

-- The hello fields of an event.
def fieldsOf (capture : RawTlsCapture) : Option TlsAnalysis → HelloFields
  | none => ⟨tlsVersionName capture.recordVersion, [], [], none, [], none, none, none⟩
  | some analysis => {
      tlsVersion          := tlsVersionName analysis.effectiveVersion
      cipherSuites        := analysis.cipherSuites.map fun id => ⟨id, cipherSuiteName id⟩
      keyExchangeGroups   := analysis.keyExchangeGroups.map keyExchangeInfo
      keyShareGroup       := analysis.keyExchangeGroups.head?.map keyExchangeInfo
      signatureAlgorithms := []
      sni                 := none
      resumption          := resumption analysis
      ja4                 := none
    }

theorem takenFor_serverHello {analysis : TlsAnalysis} (h : takenFor capture payload = some analysis) :
    ∃ version hello, analysis = .serverHello version hello := by
  rw [takenFor, Option.ite_none_left_eq_some] at h
  cases hp : parseTlsPayload payload false <;> simp only [hp, Except.toOption] at h
  case error => simp at h
  case ok    =>
    obtain rfl := Option.some.inj h.2
    exact parsed_server hp

theorem helloFields_eq (h : ¬capture.isClientHello) :
    (analyzeCaptureWithPayload env capture payload).helloFields =
      fieldsOf capture (takenFor capture payload) := by
  rw [analyzeCaptureWithPayload, takenFor]
  by_cases hc : capture.contentType = 0x15
  case pos =>
    rw [if_pos hc, if_pos hc]
    cases parseAlert payload <;> rfl
  case neg =>
    rw [if_neg hc, if_neg hc, eq_false_of_ne_true h]
    cases hp : parseTlsPayload payload false
    case error => rfl
    case ok analysis =>
      obtain ⟨version, hello, rfl⟩ := parsed_server hp
      simp only [CaptureEvent.helloFields, buildAnalysis, fieldsOf, Except.toOption, baseEvent]
      congr 1
      simp only [TlsAnalysis.keyExchangeGroups]
      cases hello.keyShareGroup <;> rfl

theorem keyExchangeInfo_injective : Function.Injective keyExchangeInfo :=
  fun _ _ h => congrArg KeyExchangeInfo.id h

theorem cipherSuiteInfo_injective :
    Function.Injective fun id => (⟨id, cipherSuiteName id⟩ : CipherSuiteInfo) :=
  fun _ _ h => congrArg CipherSuiteInfo.id h

theorem fieldsOf_some_iff {analysis analysis' : TlsAnalysis} :
    fieldsOf capture (some analysis) = fieldsOf capture (some analysis') ∧
      (fieldsOf capture (some analysis)).tlsVersion = tlsVersionName capture.recordVersion ↔
    analysis.cipherSuites = analysis'.cipherSuites ∧
      analysis.keyExchangeGroups = analysis'.keyExchangeGroups ∧
      resumption analysis = resumption analysis' ∧
      tlsVersionName analysis.effectiveVersion = tlsVersionName capture.recordVersion ∧
      tlsVersionName analysis'.effectiveVersion = tlsVersionName capture.recordVersion := by
  constructor
  case mp =>
    rintro ⟨hf, hv⟩
    refine ⟨?_, ?_, congrArg HelloFields.resumption hf, hv, ?_⟩
    · exact cipherSuiteInfo_injective.list_map (congrArg HelloFields.cipherSuites hf)
    · exact keyExchangeInfo_injective.list_map (congrArg HelloFields.keyExchangeGroups hf)
    · exact (congrArg HelloFields.tlsVersion hf).symm.trans hv
  case mpr =>
    rintro ⟨hc, hg, hr, hv, hv'⟩
    exact ⟨by simp [fieldsOf, hc, hg, hr, hv, hv'], hv⟩

theorem fieldsOf_none_ne {version : UInt16} {hello : ParsedServerHello} :
    fieldsOf capture none ≠ fieldsOf capture (some (.serverHello version hello)) := by
  intro h
  have hc := congrArg HelloFields.cipherSuites h
  simp [fieldsOf, TlsAnalysis.cipherSuites] at hc

theorem fieldsOf_iff : fieldsOf capture (takenFor capture payload) =
      fieldsOf capture (takenFor capture payload') ∧
    (fieldsOf capture (takenFor capture payload)).tlsVersion =
      tlsVersionName capture.recordVersion ↔ TakenAlike capture payload payload' := by
  rw [TakenAlike]
  cases ht : takenFor capture payload <;> cases ht' : takenFor capture payload'
  case none.none => exact iff_of_true ⟨rfl, rfl⟩ trivial
  case none.some =>
    obtain ⟨version, hello, rfl⟩ := takenFor_serverHello ht'
    exact iff_of_false (fun h => fieldsOf_none_ne h.1) id
  case some.none =>
    obtain ⟨version, hello, rfl⟩ := takenFor_serverHello ht
    exact iff_of_false (fun h => fieldsOf_none_ne h.1.symm) id
  case some.some => exact fieldsOf_some_iff

-- The bodies of certificates and of requests for them make no difference just when they are taken
-- alike by the parser for ServerHellos.
theorem hello_free_iff (ht : capture.handshakeType = 0x0b ∨ capture.handshakeType = 0x0d)
    (hh : capture.SameHeader capture') :
    HelloFree env capture capture' payload payload' ↔ TakenAlike capture payload payload' := by
  have hc : ¬capture.isClientHello := by
    obtain ht | ht := ht <;> simp [RawTlsCapture.isClientHello, ht]
  have hs : (analyzeCaptureWithPayload env capture' payload').helloFields =
      fieldsOf capture (takenFor capture payload') := by
    rw [hh]
    exact helloFields_eq hc
  have hf : (analyzeCaptureWithPayload env capture payload).helloFields =
      fieldsOf capture (takenFor capture payload) := helloFields_eq hc
  rw [←fieldsOf_iff, ←hf, ←hs]
  constructor
  case mp  => exact fun h => ⟨h.agree, h.version ⟨capture.recordVersion, [], false⟩ rfl⟩
  case mpr =>
    rintro ⟨ha, hv⟩
    refine ⟨ha, fun record hr => hv.trans ?_⟩
    rw [synthesizeEventFromWalkedRecord, ←hr]
    rfl

-- A body that is long enough for a ServerHello, with a session id of `sessionIdLen` bytes.
def certificateBytes (sessionIdLen : UInt8) : List UInt8 :=
  [0x16, 0x03, 0x03, 0x00, 0x2a, 0x0b, 0x00, 0x00, 0x26, 0x03, 0x03] ++ List.replicate 32 0 ++
    [sessionIdLen, 0x13, 0x01, 0x00]

def certificateCapture (sessionIdLen : UInt8) : RawTlsCapture :=
  { makeCapture 0 (certificateBytes sessionIdLen) 0 with
    handshakeType := 0x0b, contentType := 0x16, recordVersion := 0x0303 }

theorem certificate_helloFree : HelloFree (Pass.still clientHelloCapture).env
    (certificateCapture 0xff) (certificateCapture 0xfe) (certificateBytes 0xff)
    (certificateBytes 0xfe) := by
  have hh : (certificateCapture 0xff).SameHeader (certificateCapture 0xfe) := rfl
  refine (hello_free_iff (.inl rfl) hh).mpr ?_
  have ht (n : UInt8) (hn : n = 0xff ∨ n = 0xfe) :
      takenFor (certificateCapture 0xff) (certificateBytes n) = none := by
    obtain rfl | rfl := hn <;> decide +kernel
  rw [TakenAlike, ht _ (.inl rfl), ht _ (.inr rfl)]
  trivial

-- The second body is taken for a ServerHello with an empty session id.
theorem certificate_not_helloFree : ¬HelloFree (Pass.still clientHelloCapture).env
    (certificateCapture 0xff) (certificateCapture 0x00) (certificateBytes 0xff)
    (certificateBytes 0x00) := by
  intro h
  have hc := congrArg HelloFields.cipherSuites h.agree
  exact absurd hc (by decide +kernel)

end TlsProbe
