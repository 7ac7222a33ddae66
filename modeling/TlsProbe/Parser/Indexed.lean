import TlsProbe.Lib.Checked
import TlsProbe.Parser.Hello

-- The parser as the source has it, with an offset that moves over the bytes: each index and each
-- slice is checked, and each loop may take `fuel` turns.
namespace TlsProbe.Indexed

open Checked

-- `data[i]`
def u8At (data : List UInt8) (i : Nat) : Checked UInt8 :=
  index data i

-- `u16::from_be_bytes([data[i], data[i + 1]])`
def u16At (data : List UInt8) (i : Nat) : Checked UInt16 := do
  return u16FromBeBytes (← u8At data i) (← u8At data (i + 1))

-- `copy_from_slice` into an array of `n` bytes
def copyFromSlice (n : Nat) (bytes : List UInt8) : Checked (List UInt8) :=
  if bytes.length = n then .ok bytes else .error .outOfBounds

section Extensions

variable (fuel : Nat)

def parseExtensions (data : List UInt8) : Checked (List Extension) :=
  loop body fuel (0, [])
where
  body : Nat × List Extension → Checked (Turn (Nat × List Extension) (List Extension))
    | (offset, extensions) => do
      if offset + 4 ≤ data.length then
        let extType ← u16At data offset
        let extLen := (← u16At data (offset + 2)).toNat
        let offset := offset + 4
        if data.length < offset + extLen then
          return .done extensions
        let extension := { extType := .ofU16 extType, data := ← slice data offset (offset + extLen) }
        return .next (offset + extLen, extensions ++ [extension])
      else
        return .done extensions

-- The loop over 16-bit codes, from `start` on.
def codesFrom (data : List UInt8) (start listLen : Nat) : Checked (List UInt16) :=
  loop body fuel (start, [])
where
  body : Nat × List UInt16 → Checked (Turn (Nat × List UInt16) (List UInt16))
    | (offset, codes) => do
      if offset + 2 ≤ data.length ∧ offset < start + listLen then
        return .next (offset + 2, codes ++ [← u16At data offset])
      else
        return .done codes

def extractSupportedVersions (ext : Extension) (isClient : Bool) : Checked (List UInt16) := do
  let data := ext.data
  if isClient then
    if data.isEmpty then
      return []
    let listLen := (← u8At data 0).toNat
    codesFrom fuel data 1 listLen
  else if 2 ≤ data.length then
    return [← u16At data 0]
  else
    return []

-- What the three extractors of codes with a length of two bytes do.
def extractCodes (ext : Extension) : Checked (List UInt16) := do
  let data := ext.data
  if data.length < 2 then
    return []
  let listLen := (← u16At data 0).toNat
  codesFrom fuel data 2 listLen

def extractSupportedGroups (ext : Extension) : Checked (List UInt16) :=
  extractCodes fuel ext

def extractSignatureAlgorithms (ext : Extension) : Checked (List UInt16) :=
  extractCodes fuel ext

def extractSignatureAlgorithmsCert (ext : Extension) : Checked (List UInt16) :=
  extractCodes fuel ext

def keySharesFrom (data : List UInt8) (listLen : Nat) : Checked (List UInt16) :=
  loop body fuel (2, [])
where
  body : Nat × List UInt16 → Checked (Turn (Nat × List UInt16) (List UInt16))
    | (offset, groups) => do
      if offset + 4 ≤ data.length ∧ offset < 2 + listLen then
        let group ← u16At data offset
        let keyLen := (← u16At data (offset + 2)).toNat
        return .next (offset + (4 + keyLen), groups ++ [group])
      else
        return .done groups

def extractKeyShareGroups (ext : Extension) (isClient : Bool) : Checked (List UInt16) := do
  let data := ext.data
  if isClient then
    if data.length < 2 then
      return []
    let listLen := (← u16At data 0).toNat
    keySharesFrom fuel data listLen
  else if 2 ≤ data.length then
    return [← u16At data 0]
  else
    return []

def extractSni (ext : Extension) : Checked (Option String) := do
  let data := ext.data
  if data.length < 5 then
    return none
  let _listLen := (← u16At data 0).toNat
  let nameType ← u8At data 2
  if nameType ≠ 0 then
    return none
  let nameLen := (← u16At data 3).toNat
  if data.length < 5 + nameLen then
    return none
  return fromUtf8 (← slice data 5 (5 + nameLen))

def alpnFrom (data : List UInt8) (listLen : Nat) : Checked (List String) :=
  loop body fuel (2, [])
where
  body : Nat × List String → Checked (Turn (Nat × List String) (List String))
    | (offset, protocols) => do
      if offset < data.length ∧ offset < 2 + listLen then
        if data.length ≤ offset then
          return .done protocols
        let protoLen := (← u8At data offset).toNat
        let offset := offset + 1
        if data.length < offset + protoLen then
          return .done protocols
        let protoBytes ← slice data offset (offset + protoLen)
        return .next (offset + protoLen, protocols ++ [fromUtf8Lossy protoBytes])
      else
        return .done protocols

def extractAlpn (ext : Extension) : Checked (List String) := do
  let data := ext.data
  if data.length < 2 then
    return []
  let listLen := (← u16At data 0).toNat
  alpnFrom fuel data listLen

end Extensions

section Hello

variable (fuel : Nat)

-- The loop of `parse_client_hello` over the cipher suites.
def cipherSuitesFrom (payload : List UInt8) (offset cipherEnd : Nat) : Checked (List UInt16) :=
  loop body fuel (offset, [])
where
  body : Nat × List UInt16 → Checked (Turn (Nat × List UInt16) (List UInt16))
    | (offset, cipherSuites) => do
      if offset + 2 ≤ cipherEnd then
        return .next (offset + 2, cipherSuites ++ [← u16At payload offset])
      else
        return .done cipherSuites

-- The loop of `parse_client_hello` over the types of the extensions.
def extensionIdsFrom (payload : List UInt8) (offset parseLen : Nat) : Checked (List UInt16) :=
  loop body fuel (offset, [])
where
  body : Nat × List UInt16 → Checked (Turn (Nat × List UInt16) (List UInt16))
    | (extOffset, extensionIds) => do
      if extOffset + 4 ≤ offset + parseLen then
        let extType ← u16At payload extOffset
        let extDataLen := (← u16At payload (extOffset + 2)).toNat
        return .next (extOffset + (4 + extDataLen), extensionIds ++ [extType])
      else
        return .done extensionIds

namespace ClientHello

-- The part of `parse_client_hello` up to the extensions, with the offset behind it.
def fields (payload : List UInt8) : ExceptT ParseError Checked (ParsedClientHello × Nat) := do
  let offset := helloStart
  let legacyVersion ← u16At payload offset
  let offset := offset + 2
  let random ← copyFromSlice 32 (← slice payload offset (offset + tlsRandomLen))
  let offset := offset + tlsRandomLen
  let sessionIdLen := (← u8At payload offset).toNat
  let offset := offset + 1
  if payload.length < offset + sessionIdLen then
    throw <| .unexpectedEnd offset
  let sessionId ← slice payload offset (offset + sessionIdLen)
  let offset := offset + sessionIdLen
  if payload.length < offset + 2 then
    throw <| .unexpectedEnd offset
  let cipherLen := (← u16At payload offset).toNat
  let offset := offset + 2
  if payload.length < offset + cipherLen then
    throw <| .unexpectedEnd offset
  let cipherEnd := offset + cipherLen
  let cipherSuites ← cipherSuitesFrom fuel payload offset cipherEnd
  let offset := cipherEnd
  if payload.length ≤ offset then
    throw <| .unexpectedEnd offset
  let compLen := (← u8At payload offset).toNat
  let offset := offset + 1
  if payload.length < offset + compLen then
    throw <| .unexpectedEnd offset
  let compressionMethods ← slice payload offset (offset + compLen)
  let offset := offset + compLen
  return ({
    legacyVersion              := legacyVersion
    random                     := random
    sessionId                  := sessionId
    cipherSuites               := cipherSuites
    compressionMethods         := compressionMethods
    extensions                 := []
    extensionIds               := []
    supportedVersions          := []
    supportedGroups            := []
    signatureAlgorithms        := []
    signatureAlgorithmsCert    := []
    keyShareGroups             := []
    sni                        := none
    alpn                       := []
    pskOffered                 := false
    earlyDataOffered           := false
    pskKeyExchangeModesOffered := false
    sessionTicketOffered       := false
  }, offset)

def withExtension (hello : ParsedClientHello) (ext : Extension) : Checked ParsedClientHello := do
  match ext.extType with
  | .supportedVersions       =>
    return { hello with supportedVersions := ← extractSupportedVersions fuel ext true }
  | .supportedGroups         =>
    return { hello with supportedGroups := ← extractSupportedGroups fuel ext }
  | .signatureAlgorithms     =>
    return { hello with signatureAlgorithms := ← extractSignatureAlgorithms fuel ext }
  | .signatureAlgorithmsCert =>
    return { hello with signatureAlgorithmsCert := ← extractSignatureAlgorithmsCert fuel ext }
  | .keyShare                =>
    return { hello with keyShareGroups := ← extractKeyShareGroups fuel ext true }
  | .serverName              =>
    return { hello with sni := ← extractSni ext }
  | .preSharedKey            =>
    return { hello with pskOffered := hasPreSharedKey ext }
  | .earlyData               =>
    return { hello with earlyDataOffered := hasEarlyData ext }
  | .pskKeyExchangeModes     =>
    return { hello with pskKeyExchangeModesOffered := hasPskKeyExchangeModes ext }
  | .sessionTicket           =>
    return { hello with sessionTicketOffered := hasSessionTicket ext }
  | .applicationLayerProtocolNegotiation =>
    return { hello with alpn := ← extractAlpn fuel ext }
  | .unknown _               => return hello

-- The part of `parse_client_hello` for the extensions.
def withExtensions (payload : List UInt8) (hello : ParsedClientHello) (offset : Nat) :
    Checked ParsedClientHello := do
  if offset + 2 ≤ payload.length then
    let extLen := (← u16At payload offset).toNat
    let offset := offset + 2
    let available := payload.length - offset
    let parseLen := min available extLen
    if 0 < parseLen then
      let extensionIds ← extensionIdsFrom fuel payload offset parseLen
      let extensions ← parseExtensions fuel (← slice payload offset (offset + parseLen))
      extensions.foldlM (withExtension fuel) { hello with
        extensionIds := extensionIds
        extensions   := extensions
      }
    else
      return hello
  else
    return hello

end ClientHello

namespace ServerHello

-- The part of `parse_server_hello` up to the extensions, with the offset behind it.
def fields (payload : List UInt8) : ExceptT ParseError Checked (ParsedServerHello × Nat) := do
  let offset := helloStart
  let legacyVersion ← u16At payload offset
  let offset := offset + 2
  let random ← copyFromSlice 32 (← slice payload offset (offset + tlsRandomLen))
  let offset := offset + tlsRandomLen
  let sessionIdLen := (← u8At payload offset).toNat
  let offset := offset + 1
  if payload.length < offset + sessionIdLen then
    throw <| .unexpectedEnd offset
  let sessionId ← slice payload offset (offset + sessionIdLen)
  let offset := offset + sessionIdLen
  if payload.length < offset + 2 then
    throw <| .unexpectedEnd offset
  let cipherSuite ← u16At payload offset
  let offset := offset + 2
  if payload.length ≤ offset then
    throw <| .unexpectedEnd offset
  let compressionMethod ← u8At payload offset
  let offset := offset + 1
  return ({
    legacyVersion     := legacyVersion
    random            := random
    sessionId         := sessionId
    cipherSuite       := cipherSuite
    compressionMethod := compressionMethod
    extensions        := []
    negotiatedVersion := none
    keyShareGroup     := none
    pskSelected       := false
  }, offset)

def withExtension (hello : ParsedServerHello) (ext : Extension) : Checked ParsedServerHello := do
  match ext.extType with
  | .supportedVersions =>
    let versions ← extractSupportedVersions fuel ext false
    return { hello with negotiatedVersion := versions.head? }
  | .keyShare          =>
    let groups ← extractKeyShareGroups fuel ext false
    return { hello with keyShareGroup := groups.head? }
  | .preSharedKey      =>
    return { hello with pskSelected := isPskSelected ext }
  | _                  => return hello

-- The part of `parse_server_hello` for the extensions.
def withExtensions (payload : List UInt8) (hello : ParsedServerHello) (offset : Nat) :
    Checked ParsedServerHello := do
  if offset + 2 ≤ payload.length then
    let extLen := (← u16At payload offset).toNat
    let offset := offset + 2
    let available := payload.length - offset
    let parseLen := min available extLen
    if 0 < parseLen then
      let extensions ← parseExtensions fuel (← slice payload offset (offset + parseLen))
      extensions.foldlM (withExtension fuel) { hello with extensions := extensions }
    else
      return hello
  else
    return hello

end ServerHello

def parseClientHello (payload : List UInt8) : ExceptT ParseError Checked ParsedClientHello := do
  if payload.length < helloStart + 2 + tlsRandomLen + 1 then
    throw .tooShort
  let (hello, offset) ← ClientHello.fields fuel payload
  ClientHello.withExtensions fuel payload hello offset

def parseServerHello (payload : List UInt8) : ExceptT ParseError Checked ParsedServerHello := do
  if payload.length < helloStart + 2 + tlsRandomLen + 1 then
    throw .tooShort
  let (hello, offset) ← ServerHello.fields payload
  ServerHello.withExtensions fuel payload hello offset

def parseTlsPayload (payload : List UInt8) (isClientHello : Bool) :
    ExceptT ParseError Checked TlsAnalysis := do
  if payload.length < tlsRecordHdrLen + tlsHandshakeHdrLen then
    throw .tooShort
  let recordVersion ← u16At payload 1
  if isClientHello then
    return .clientHello recordVersion (← parseClientHello fuel payload)
  else
    return .serverHello recordVersion (← parseServerHello fuel payload)

end Hello

end TlsProbe.Indexed
