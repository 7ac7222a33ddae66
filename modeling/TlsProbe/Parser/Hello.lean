import TlsProbe.Lib.Reader
import TlsProbe.Parser.Extensions

namespace TlsProbe

def tlsRecordHdrLen : Nat := 5
def tlsHandshakeHdrLen : Nat := 4
def tlsRandomLen : Nat := 32

def helloStart : Nat := tlsRecordHdrLen + tlsHandshakeHdrLen

abbrev Parser := Reader ParseError UInt8

-- The reads of the hello parsers, each with the check that precedes it in the source.
namespace Parser

def u8 : Parser UInt8 :=
  .read .unexpectedEnd 1 fun bs => bs[0]

def u16 : Parser UInt16 :=
  .read .unexpectedEnd 2 fun bs => u16FromBeBytes bs[0] bs[1]

def bytes (k : Nat) : Parser (List UInt8) :=
  .read .unexpectedEnd k fun bs => bs.toList

end Parser

-- The loop of `parse_client_hello` over the cipher suites.
def cipherList : List UInt8 → List UInt16
  | hi :: lo :: rest => u16FromBeBytes hi lo :: cipherList rest
  | _                => []

-- The bytes that are parsed for extensions, of those that follow the fixed part of a hello.
def extensionBlock : List UInt8 → List UInt8
  | hi :: lo :: available => available.take (u16FromBeBytes hi lo).toNat
  | _                     => []

-- What the two hello parsers have in common: the length check, the fields up to the extensions and
-- then the extension block.
def parseHello {H : Type} (fields : Parser H) (withExtensions : H → List UInt8 → H)
    (payload : List UInt8) : Except ParseError H :=
  if payload.length < helloStart + 2 + tlsRandomLen + 1 then
    .error .tooShort
  else
    match fields payload helloStart with
    | .ok (hello, offset) => .ok <| withExtensions hello <| extensionBlock <| payload.drop offset
    | .error e            => .error e

namespace ParsedClientHello

-- The length check comes first, so the reads up to the length of the session id do not fail.
def fields : Parser ParsedClientHello := do
  let legacyVersion ← Parser.u16
  let random ← Parser.bytes tlsRandomLen
  let sessionIdLen ← Parser.u8
  let sessionId ← Parser.bytes sessionIdLen.toNat
  let cipherLen ← Parser.u16
  let ciphers ← Parser.bytes cipherLen.toNat
  let compLen ← Parser.u8
  let compressionMethods ← Parser.bytes compLen.toNat
  return {
    legacyVersion              := legacyVersion
    random                     := random
    sessionId                  := sessionId
    cipherSuites               := cipherList ciphers
    compressionMethods         := compressionMethods
    extensions                 := []
    extensionIds               := []
    supportedVersions          := []
    supportedGroups            := []
    signatureAlgorithms        := []
    signatureAlgorithmsCert    := []
    keyShareGroups             := []
    sni                        := none
    alpn                       := []
    pskOffered                 := false
    earlyDataOffered           := false
    pskKeyExchangeModesOffered := false
    sessionTicketOffered       := false
  }

def withExtension (hello : ParsedClientHello) (ext : Extension) : ParsedClientHello :=
  match ext.extType with
  | .supportedVersions       =>
    { hello with supportedVersions := extractSupportedVersions ext true }
  | .supportedGroups         =>
    { hello with supportedGroups := extractSupportedGroups ext }
  | .signatureAlgorithms     =>
    { hello with signatureAlgorithms := extractSignatureAlgorithms ext }
  | .signatureAlgorithmsCert =>
    { hello with signatureAlgorithmsCert := extractSignatureAlgorithmsCert ext }
  | .keyShare                =>
    { hello with keyShareGroups := extractKeyShareGroups ext true }
  | .serverName              =>
    { hello with sni := extractSni ext }
  | .preSharedKey            =>
    { hello with pskOffered := hasPreSharedKey ext }
  | .earlyData               =>
    { hello with earlyDataOffered := hasEarlyData ext }
  | .pskKeyExchangeModes     =>
    { hello with pskKeyExchangeModesOffered := hasPskKeyExchangeModes ext }
  | .sessionTicket           =>
    { hello with sessionTicketOffered := hasSessionTicket ext }
  | .applicationLayerProtocolNegotiation =>
    { hello with alpn := extractAlpn ext }
  | .unknown _               => hello

-- An extension that comes again overwrites what the earlier one has set.
def withExtensions (hello : ParsedClientHello) (block : List UInt8) : ParsedClientHello :=
  let hello := { hello with
    extensionIds := TlsProbe.extensionIds block
    extensions   := parseExtensions block
  }
  hello.extensions.foldl withExtension hello

end ParsedClientHello

def parseClientHello (payload : List UInt8) : Except ParseError ParsedClientHello :=
  parseHello ParsedClientHello.fields ParsedClientHello.withExtensions payload

namespace ParsedServerHello

def fields : Parser ParsedServerHello := do
  let legacyVersion ← Parser.u16
  let random ← Parser.bytes tlsRandomLen
  let sessionIdLen ← Parser.u8
  let sessionId ← Parser.bytes sessionIdLen.toNat
  let cipherSuite ← Parser.u16
  let compressionMethod ← Parser.u8
  return {
    legacyVersion     := legacyVersion
    random            := random
    sessionId         := sessionId
    cipherSuite       := cipherSuite
    compressionMethod := compressionMethod
    extensions        := []
    negotiatedVersion := none
    keyShareGroup     := none
    pskSelected       := false
  }

def withExtension (hello : ParsedServerHello) (ext : Extension) : ParsedServerHello :=
  match ext.extType with
  | .supportedVersions =>
    { hello with negotiatedVersion := (extractSupportedVersions ext false).head? }
  | .keyShare          =>
    { hello with keyShareGroup := (extractKeyShareGroups ext false).head? }
  | .preSharedKey      =>
    { hello with pskSelected := isPskSelected ext }
  | _                  => hello

def withExtensions (hello : ParsedServerHello) (block : List UInt8) : ParsedServerHello :=
  let hello := { hello with extensions := parseExtensions block }
  hello.extensions.foldl withExtension hello

end ParsedServerHello

def parseServerHello (payload : List UInt8) : Except ParseError ParsedServerHello :=
  parseHello ParsedServerHello.fields ParsedServerHello.withExtensions payload

def parseTlsPayload (payload : List UInt8) (isClientHello : Bool) :
    Except ParseError TlsAnalysis :=
  if h : payload.length < tlsRecordHdrLen + tlsHandshakeHdrLen then
    .error .tooShort
  else
    have : 9 ≤ payload.length := by simpa [tlsRecordHdrLen, tlsHandshakeHdrLen] using h
    let recordVersion := u16FromBeBytes payload[1] payload[2]
    if isClientHello then
      (parseClientHello payload).map (.clientHello recordVersion)
    else
      (parseServerHello payload).map (.serverHello recordVersion)

end TlsProbe
