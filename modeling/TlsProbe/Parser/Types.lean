import Mathlib.Data.UInt

namespace TlsProbe

inductive ParseError
  | tooShort
  | invalidRecord
  | invalidHandshakeType
  | unexpectedEnd (offset : Nat)
  deriving DecidableEq, Repr

inductive ExtensionType
  | serverName
  | applicationLayerProtocolNegotiation
  | supportedGroups
  | signatureAlgorithms
  | supportedVersions
  | keyShare
  | signatureAlgorithmsCert
  | sessionTicket
  | earlyData
  | pskKeyExchangeModes
  | preSharedKey
  | unknown (id : UInt16)
  deriving DecidableEq, Repr

-- `ExtensionType::from(v)`
def ExtensionType.ofU16 (v : UInt16) : ExtensionType :=
  if v = 0x0000 then serverName
  else if v = 0x0010 then applicationLayerProtocolNegotiation
  else if v = 0x000a then supportedGroups
  else if v = 0x000d then signatureAlgorithms
  else if v = 0x0023 then sessionTicket
  else if v = 0x002a then earlyData
  else if v = 0x002b then supportedVersions
  else if v = 0x002d then pskKeyExchangeModes
  else if v = 0x0029 then preSharedKey
  else if v = 0x0032 then signatureAlgorithmsCert
  else if v = 0x0033 then keyShare
  else unknown v

structure Extension where
  extType : ExtensionType
  data    : List UInt8
  deriving DecidableEq, Repr

structure ParsedClientHello where
  legacyVersion              : UInt16
  random                     : List UInt8
  sessionId                  : List UInt8
  cipherSuites               : List UInt16
  compressionMethods         : List UInt8
  extensions                 : List Extension
  extensionIds               : List UInt16
  supportedVersions          : List UInt16
  supportedGroups            : List UInt16
  signatureAlgorithms        : List UInt16
  signatureAlgorithmsCert    : List UInt16
  keyShareGroups             : List UInt16
  sni                        : Option String
  alpn                       : List String
  pskOffered                 : Bool
  earlyDataOffered           : Bool
  pskKeyExchangeModesOffered : Bool
  sessionTicketOffered       : Bool
  deriving DecidableEq, Repr

structure ParsedServerHello where
  legacyVersion     : UInt16
  random            : List UInt8
  sessionId         : List UInt8
  cipherSuite       : UInt16
  compressionMethod : UInt8
  extensions        : List Extension
  negotiatedVersion : Option UInt16
  keyShareGroup     : Option UInt16
  pskSelected       : Bool
  deriving DecidableEq, Repr

inductive TlsAnalysis
  | clientHello (recordVersion : UInt16) (hello : ParsedClientHello)
  | serverHello (recordVersion : UInt16) (hello : ParsedServerHello)
  deriving DecidableEq, Repr

namespace TlsAnalysis

def effectiveVersion : TlsAnalysis → UInt16
  | clientHello _ hello => hello.supportedVersions.head?.getD hello.legacyVersion
  | serverHello _ hello => hello.negotiatedVersion.getD hello.legacyVersion

def cipherSuites : TlsAnalysis → List UInt16
  | clientHello _ hello => hello.cipherSuites
  | serverHello _ hello => [hello.cipherSuite]

def keyExchangeGroups : TlsAnalysis → List UInt16
  | clientHello _ hello => hello.supportedGroups
  | serverHello _ hello => hello.keyShareGroup.toList

def signatureAlgorithms : TlsAnalysis → List UInt16
  | clientHello _ hello => hello.signatureAlgorithms
  | serverHello _ _     => []

def sni : TlsAnalysis → Option String
  | clientHello _ hello => hello.sni
  | serverHello _ _     => none

end TlsAnalysis
end TlsProbe
