import TlsProbe.Common.Address
import TlsProbe.Event.Certificate
import TlsProbe.Event.Ja4
import TlsProbe.Event.Names
import TlsProbe.Parser.Hello

namespace TlsProbe

structure Resumption where
  pskOffered           : Bool
  earlyDataOffered     : Bool
  pskSelected          : Bool
  sessionTicketOffered : Bool
  deriving DecidableEq, Repr

structure CipherSuiteInfo where
  id   : UInt16
  name : String
  deriving DecidableEq, Repr

structure KeyExchangeInfo where
  id   : UInt16
  name : String
  deriving DecidableEq, Repr

structure SignatureAlgorithmInfo where
  id   : UInt16
  name : String
  deriving DecidableEq, Repr

structure CaptureEvent where
  schemaVersion           : String
  timestamp               : String
  timestampNs             : UInt64
  src                     : String
  dst                     : String
  tlsVersion              : String
  handshakeType           : String
  cipherSuites            : List CipherSuiteInfo
  keyExchangeGroups       : List KeyExchangeInfo
  signatureAlgorithms     : List SignatureAlgorithmInfo
  signatureAlgorithmsCert : Option (List SignatureAlgorithmInfo)
  keyShareGroup           : Option KeyExchangeInfo
  sni                     : Option String
  processName             : Option String
  pid                     : Option UInt32
  reassembled             : Option Bool
  truncated               : Option Bool
  alertLevel              : Option String
  alertDescription        : Option String
  negotiation             : Option Negotiation
  resumption              : Option Resumption
  cgroupId                : Option UInt64
  containerId             : Option String
  podUid                  : Option String
  ja4                     : Option String
  certificate             : Option Certificate
  deriving DecidableEq, Repr

-- What the events depend on besides the captures: the wall clock, the libraries for digests and for
-- certificates, and the container that the file system gives for a cgroup.
structure Env where
  timestamp           : String
  sha256              : String → String
  parseDerCertificate : List UInt8 → Option Certificate
  resolveCgroupId     : UInt64 → Option String × Option String

def parseAlert (payload : List UInt8) : Option (UInt8 × UInt8) :=
  match payload with
  | contentType :: _ :: _ :: _ :: _ :: level :: description :: _ =>
    if contentType = 0x15 then some (level, description) else none
  | _ => none

def processAttribution (capture : RawTlsCapture) : Option String × Option UInt32 :=
  if capture.pid = 0 then
    (none, none)
  else
    (some (fromUtf8Lossy (capture.comm.toList.takeWhile (· ≠ 0))), some capture.pid)

section Builders

variable (env : Env)

-- The fields that all builders fill in alike. The others are empty.
def baseEvent (capture : RawTlsCapture) (tlsVersion handshakeType : String) : CaptureEvent where
  schemaVersion           := "1"
  timestamp               := env.timestamp
  timestampNs             := capture.timestampNs
  src                     := capture.srcAddrStr ++ ":" ++ toString capture.srcPort.toNat
  dst                     := capture.dstAddrStr ++ ":" ++ toString capture.dstPort.toNat
  tlsVersion              := tlsVersion
  handshakeType           := handshakeType
  cipherSuites            := []
  keyExchangeGroups       := []
  signatureAlgorithms     := []
  signatureAlgorithmsCert := none
  keyShareGroup           := none
  sni                     := none
  processName             := (processAttribution capture).1
  pid                     := (processAttribution capture).2
  reassembled             := none
  truncated               := none
  alertLevel              := none
  alertDescription        := none
  negotiation             := none
  resumption              := none
  cgroupId                := none
  containerId             := none
  podUid                  := none
  ja4                     := none
  certificate             := none

def buildAlertEvent (capture : RawTlsCapture) (alertLevel alertDescription : UInt8) :
    CaptureEvent :=
  { baseEvent env capture (tlsVersionName capture.recordVersion) "Alert" with
    alertLevel       := some (alertLevelName alertLevel)
    alertDescription := some (alertDescriptionName alertDescription)
  }

def keyExchangeInfo (id : UInt16) : KeyExchangeInfo :=
  ⟨id, keyExchangeName id⟩

def signatureAlgorithmInfo (id : UInt16) : SignatureAlgorithmInfo :=
  ⟨id, signatureAlgorithmName id⟩

def resumption : TlsAnalysis → Option Resumption
  | .clientHello _ hello =>
    let anyFlag := hello.pskOffered || hello.earlyDataOffered ||
      hello.pskKeyExchangeModesOffered || hello.sessionTicketOffered
    if anyFlag then
      some {
        pskOffered           := hello.pskOffered
        earlyDataOffered     := hello.earlyDataOffered
        pskSelected          := false
        sessionTicketOffered := hello.sessionTicketOffered
      }
    else
      none
  | .serverHello _ hello =>
    if hello.pskSelected then
      some {
        pskOffered           := false
        earlyDataOffered     := false
        pskSelected          := hello.pskSelected
        sessionTicketOffered := false
      }
    else
      none

def buildAnalysis (capture : RawTlsCapture) (parsed : TlsAnalysis) : CaptureEvent :=
  { baseEvent env capture (tlsVersionName parsed.effectiveVersion)
      (handshakeTypeName capture.handshakeType) with
    cipherSuites            := parsed.cipherSuites.map fun id => ⟨id, cipherSuiteName id⟩
    keyExchangeGroups       := parsed.keyExchangeGroups.map keyExchangeInfo
    signatureAlgorithms     := parsed.signatureAlgorithms.map signatureAlgorithmInfo
    signatureAlgorithmsCert :=
      match parsed with
      | .clientHello _ hello =>
        if hello.signatureAlgorithmsCert ≠ [] then
          some (hello.signatureAlgorithmsCert.map signatureAlgorithmInfo)
        else
          none
      | .serverHello _ _ => none
    keyShareGroup           :=
      match parsed with
      | .clientHello _ hello => hello.keyShareGroups.head?.map keyExchangeInfo
      | .serverHello _ hello => hello.keyShareGroup.map keyExchangeInfo
    sni                     := parsed.sni
    resumption              := resumption parsed
    ja4                     :=
      match parsed with
      | .clientHello _ hello => some (Ja4.ja4 env.sha256 hello)
      | .serverHello _ _     => none
  }

def buildFallbackAnalysis (capture : RawTlsCapture) : CaptureEvent :=
  baseEvent env capture (tlsVersionName capture.recordVersion)
    (handshakeTypeName capture.handshakeType)

def analyzeCaptureWithPayload (capture : RawTlsCapture) (payload : List UInt8) : CaptureEvent :=
  if capture.contentType = 0x15 then
    match parseAlert payload with
    | some (level, description) => buildAlertEvent env capture level description
    | none                      => buildFallbackAnalysis env capture
  else
    match parseTlsPayload payload capture.isClientHello with
    | .ok analysis => buildAnalysis env capture analysis
    | .error _     => buildFallbackAnalysis env capture

def analyzeCapture (capture : RawTlsCapture) : CaptureEvent :=
  analyzeCaptureWithPayload env capture capture.payloadSlice

def enrichWithCgroup (event : CaptureEvent) (capture : RawTlsCapture) : CaptureEvent :=
  if capture.cgroupId = 0 then
    event
  else
    { event with
      cgroupId    := some capture.cgroupId
      containerId := (env.resolveCgroupId capture.cgroupId).1
      podUid      := (env.resolveCgroupId capture.cgroupId).2
    }

end Builders
end TlsProbe
