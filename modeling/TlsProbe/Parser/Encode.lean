import TlsProbe.Common.Wire
import TlsProbe.Parser.Hello
import TlsProbe.Parser.Theorems.Utf8

namespace TlsProbe

-- The hello messages as values, and their encodings as TLS defines them.

def codes (values : List UInt16) : List UInt8 :=
  values.flatMap u16ToBeBytes

structure KeyShareEntry where
  group : UInt16
  key   : List UInt8
  deriving DecidableEq, Repr

def KeyShareEntry.encode (share : KeyShareEntry) : List UInt8 :=
  u16ToBeBytes share.group ++ vector16 share.key

inductive ClientExtension
  | serverName (host : String)
  | alpn (protocols : List String)
  | supportedGroups (groups : List UInt16)
  | signatureAlgorithms (algorithms : List UInt16)
  | signatureAlgorithmsCert (algorithms : List UInt16)
  | supportedVersions (versions : List UInt16)
  | keyShare (shares : List KeyShareEntry)
  | sessionTicket (ticket : List UInt8)
  | earlyData
  | pskKeyExchangeModes (modes : List UInt8)
  | preSharedKey (identities binders : List UInt8)
  | unknown (id : UInt16) (data : List UInt8)
  deriving DecidableEq, Repr

namespace ClientExtension

def id : ClientExtension → UInt16
  | serverName _              => 0x0000
  | alpn _                    => 0x0010
  | supportedGroups _         => 0x000a
  | signatureAlgorithms _     => 0x000d
  | signatureAlgorithmsCert _ => 0x0032
  | supportedVersions _       => 0x002b
  | keyShare _                => 0x0033
  | sessionTicket _           => 0x0023
  | earlyData                 => 0x002a
  | pskKeyExchangeModes _     => 0x002d
  | preSharedKey _ _          => 0x0029
  | unknown id _              => id

def extType : ClientExtension → ExtensionType
  | serverName _              => .serverName
  | alpn _                    => .applicationLayerProtocolNegotiation
  | supportedGroups _         => .supportedGroups
  | signatureAlgorithms _     => .signatureAlgorithms
  | signatureAlgorithmsCert _ => .signatureAlgorithmsCert
  | supportedVersions _       => .supportedVersions
  | keyShare _                => .keyShare
  | sessionTicket _           => .sessionTicket
  | earlyData                 => .earlyData
  | pskKeyExchangeModes _     => .pskKeyExchangeModes
  | preSharedKey _ _          => .preSharedKey
  | unknown id _              => .unknown id

def body : ClientExtension → List UInt8
  | serverName host                    => vector16 (0 :: vector16 (utf8Bytes host))
  | alpn protocols                     =>
    vector16 (protocols.flatMap fun protocol => vector8 (utf8Bytes protocol))
  | supportedGroups groups             => vector16 (codes groups)
  | signatureAlgorithms algorithms     => vector16 (codes algorithms)
  | signatureAlgorithmsCert algorithms => vector16 (codes algorithms)
  | supportedVersions versions         => vector8 (codes versions)
  | keyShare shares                    => vector16 (shares.flatMap (·.encode))
  | sessionTicket ticket               => ticket
  | earlyData                          => []
  | pskKeyExchangeModes modes          => vector8 modes
  | preSharedKey identities binders    => vector16 identities ++ vector16 binders
  | unknown _ data                     => data

-- The lengths that take one byte fit. Those that take two do so by the length of the message.
def WellFormed : ClientExtension → Prop
  | alpn protocols             => ∀ protocol ∈ protocols, (utf8Bytes protocol).length ≤ 255
  | supportedVersions versions => versions.length ≤ 127
  | pskKeyExchangeModes modes  => modes.length ≤ 255
  | unknown id _               => ExtensionType.ofU16 id = .unknown id
  | _                          => True

def extension (ext : ClientExtension) : Extension where
  extType := ext.extType
  data    := ext.body

def encode (ext : ClientExtension) : List UInt8 :=
  u16ToBeBytes ext.id ++ vector16 ext.body

end ClientExtension

inductive ServerExtension
  | supportedVersions (selected : UInt16)
  | keyShare (group : UInt16) (key : Option (List UInt8)) -- A HelloRetryRequest has no key.
  | preSharedKey (selectedIdentity : UInt16)
  | other (id : UInt16) (data : List UInt8)
  deriving DecidableEq, Repr

namespace ServerExtension

def id : ServerExtension → UInt16
  | supportedVersions _ => 0x002b
  | keyShare _ _        => 0x0033
  | preSharedKey _      => 0x0029
  | other id _          => id

def extType : ServerExtension → ExtensionType
  | supportedVersions _ => .supportedVersions
  | keyShare _ _        => .keyShare
  | preSharedKey _      => .preSharedKey
  | other id _          => .ofU16 id

def body : ServerExtension → List UInt8
  | supportedVersions selected    => u16ToBeBytes selected
  | keyShare group (some key)     => u16ToBeBytes group ++ vector16 key
  | keyShare group none           => u16ToBeBytes group
  | preSharedKey selectedIdentity => u16ToBeBytes selectedIdentity
  | other _ data                  => data

def WellFormed : ServerExtension → Prop
  | other id _ => id ≠ 0x002b ∧ id ≠ 0x0033 ∧ id ≠ 0x0029
  | _          => True

def extension (ext : ServerExtension) : Extension where
  extType := ext.extType
  data    := ext.body

def encode (ext : ServerExtension) : List UInt8 :=
  u16ToBeBytes ext.id ++ vector16 ext.body

end ServerExtension

-- The extension block may be left out.
def extensionField {E : Type} (encode : E → List UInt8) : Option (List E) → List UInt8
  | some exts => vector16 (exts.flatMap encode)
  | none      => []

-- What a parser is to set in a hello for one of its extensions.
def ClientExtension.set (hello : ParsedClientHello) : ClientExtension → ParsedClientHello
  | supportedVersions versions         => { hello with supportedVersions := versions }
  | supportedGroups groups             => { hello with supportedGroups := groups }
  | signatureAlgorithms algorithms     => { hello with signatureAlgorithms := algorithms }
  | signatureAlgorithmsCert algorithms => { hello with signatureAlgorithmsCert := algorithms }
  | keyShare shares                    => { hello with keyShareGroups := shares.map (·.group) }
  | serverName host                    => { hello with sni := some host }
  | preSharedKey _ _                   => { hello with pskOffered := true }
  | earlyData                          => { hello with earlyDataOffered := true }
  | pskKeyExchangeModes _              => { hello with pskKeyExchangeModesOffered := true }
  | sessionTicket _                    => { hello with sessionTicketOffered := true }
  | alpn protocols                     => { hello with alpn := protocols }
  | unknown _ _                        => hello

structure ClientHello where
  legacyVersion      : UInt16
  random             : Vector UInt8 tlsRandomLen
  sessionId          : List UInt8
  cipherSuites       : List UInt16
  compressionMethods : List UInt8
  extensions         : Option (List ClientExtension)
  deriving DecidableEq, Repr

namespace ClientHello

def exts (hello : ClientHello) : List ClientExtension :=
  hello.extensions.getD []

def fixedPart (hello : ClientHello) : List UInt8 :=
  u16ToBeBytes hello.legacyVersion ++ (hello.random.toList ++ (vector8 hello.sessionId ++
    (vector16 (codes hello.cipherSuites) ++ vector8 hello.compressionMethods)))

def message (hello : ClientHello) : List UInt8 :=
  handshakeMessage 0x01 <| hello.fixedPart ++ extensionField ClientExtension.encode hello.extensions

structure WellFormed (hello : ClientHello) : Prop where
  sessionId          : hello.sessionId.length ≤ 255
  cipherSuites       : hello.cipherSuites.length ≤ 32767
  compressionMethods : hello.compressionMethods.length ≤ 255
  extensions         : ∀ ext ∈ hello.exts, ext.WellFormed
  distinct           : (hello.exts.map (·.id)).Nodup
  message            : hello.message.length ≤ 65535

-- What a parser is to return for this hello.
def parsed (hello : ClientHello) : ParsedClientHello where
  legacyVersion              := hello.legacyVersion
  random                     := hello.random.toList
  sessionId                  := hello.sessionId
  cipherSuites               := hello.cipherSuites
  compressionMethods         := hello.compressionMethods
  extensions                 := hello.exts.map (·.extension)
  extensionIds               := hello.exts.map (·.id)
  supportedVersions          := (hello.exts.findSome? fun
    | .supportedVersions versions => some versions
    | _                           => none).getD []
  supportedGroups            := (hello.exts.findSome? fun
    | .supportedGroups groups => some groups
    | _                       => none).getD []
  signatureAlgorithms        := (hello.exts.findSome? fun
    | .signatureAlgorithms algorithms => some algorithms
    | _                               => none).getD []
  signatureAlgorithmsCert    := (hello.exts.findSome? fun
    | .signatureAlgorithmsCert algorithms => some algorithms
    | _                                   => none).getD []
  keyShareGroups             := (hello.exts.findSome? fun
    | .keyShare shares => some (shares.map (·.group))
    | _                => none).getD []
  sni                        := hello.exts.findSome? fun
    | .serverName host => some host
    | _                => none
  alpn                       := (hello.exts.findSome? fun
    | .alpn protocols => some protocols
    | _               => none).getD []
  pskOffered                 := hello.exts.any (·.extType = .preSharedKey)
  earlyDataOffered           := hello.exts.any (·.extType = .earlyData)
  pskKeyExchangeModesOffered := hello.exts.any (·.extType = .pskKeyExchangeModes)
  sessionTicketOffered       := hello.exts.any (·.extType = .sessionTicket)

-- The hello of the test helper `build_client_hello`.
example : (tlsRecord 0x16 0x0301 <| message {
    legacyVersion      := 0x0303
    random             := .replicate 32 0
    sessionId          := []
    cipherSuites       := [0x1301, 0x1302, 0x1303]
    compressionMethods := [0]
    extensions         := some [.supportedVersions [0x0304], .supportedGroups [0x001d]]
  }) = [0x16, 3, 1, 0, 66, 1, 0, 0, 62, 3, 3] ++ List.replicate 32 0 ++
    [0, 0, 6, 0x13, 1, 0x13, 2, 0x13, 3, 1, 0, 0, 15, 0, 0x2b, 0, 3, 2, 3, 4, 0, 0x0a, 0, 4, 0, 2, 0,
      0x1d] := by
  decide

end ClientHello

def ServerExtension.set (hello : ParsedServerHello) : ServerExtension → ParsedServerHello
  | supportedVersions selected => { hello with negotiatedVersion := some selected }
  | keyShare group _           => { hello with keyShareGroup := some group }
  | preSharedKey _             => { hello with pskSelected := true }
  | other _ _                  => hello

structure ServerHello where
  legacyVersion     : UInt16
  random            : Vector UInt8 tlsRandomLen
  sessionId         : List UInt8
  cipherSuite       : UInt16
  compressionMethod : UInt8
  extensions        : Option (List ServerExtension)
  deriving DecidableEq, Repr

namespace ServerHello

def exts (hello : ServerHello) : List ServerExtension :=
  hello.extensions.getD []

def fixedPart (hello : ServerHello) : List UInt8 :=
  u16ToBeBytes hello.legacyVersion ++ (hello.random.toList ++ (vector8 hello.sessionId ++
    (u16ToBeBytes hello.cipherSuite ++ [hello.compressionMethod])))

def message (hello : ServerHello) : List UInt8 :=
  handshakeMessage 0x02 <| hello.fixedPart ++ extensionField ServerExtension.encode hello.extensions

structure WellFormed (hello : ServerHello) : Prop where
  sessionId  : hello.sessionId.length ≤ 255
  extensions : ∀ ext ∈ hello.exts, ext.WellFormed
  distinct   : (hello.exts.map (·.id)).Nodup
  message    : hello.message.length ≤ 65535

def parsed (hello : ServerHello) : ParsedServerHello where
  legacyVersion     := hello.legacyVersion
  random            := hello.random.toList
  sessionId         := hello.sessionId
  cipherSuite       := hello.cipherSuite
  compressionMethod := hello.compressionMethod
  extensions        := hello.exts.map (·.extension)
  negotiatedVersion := hello.exts.findSome? fun
    | .supportedVersions selected => some selected
    | _                           => none
  keyShareGroup     := hello.exts.findSome? fun
    | .keyShare group _ => some group
    | _                 => none
  pskSelected       := hello.exts.any fun
    | .preSharedKey _ => true
    | _               => false

end ServerHello
end TlsProbe
