import TlsProbe.Common.Codes
import TlsProbe.Common.Process
import TlsProbe.Lib.Machine
import TlsProbe.Parser.Types

open Std

namespace TlsProbe

def tlsVersionName (version : UInt16) : String :=
  if version = 0x0304 then "TLS 1.3"
  else if version = 0x0303 then "TLS 1.2"
  else if version = 0x0302 then "TLS 1.1"
  else if version = 0x0301 then "TLS 1.0"
  else if version = 0x0300 then "SSL 3.0"
  else "Unknown"

-- The rows of the `match` in `key_exchange_name`.
def keyExchangeNames : List (UInt16 × String) := [
  (0x0017, "secp256r1"),
  (0x0018, "secp384r1"),
  (0x0019, "secp521r1"),
  (0x001d, "x25519"),
  (0x001e, "x448"),
  (0x0100, "ffdhe2048"),
  (0x0101, "ffdhe3072"),
  (0x0102, "ffdhe4096"),
  (0x0103, "ffdhe6144"),
  (0x0104, "ffdhe8192"),
  (0x0200, "MLKEM512"),
  (0x0201, "MLKEM768"),
  (0x0202, "MLKEM1024"),
  (0x11e9, "SecP256r1MLKEM512"),
  (0x11ea, "MLKEM512X25519"),
  (0x11eb, "SecP256r1MLKEM768"),
  (0x11ec, "X25519MLKEM768"),
  (0x11ed, "SecP384r1MLKEM1024"),
  (0x6399, "X25519Kyber768Draft00"),
  (0x639a, "SecP256r1Kyber768Draft00")
]

def keyExchangeName (id : UInt16) : String :=
  if isGrease id then "GREASE" else (keyExchangeNames.lookup id).getD "unknown"

structure SelectedGroup where
  id   : UInt16
  name : String
  deriving DecidableEq, Repr

structure OfferedGroup where
  id   : UInt16
  name : String
  deriving DecidableEq, Repr

structure Negotiation where
  outcome             : String
  clientMaxVersion    : String
  selectedGroup       : Option SelectedGroup
  clientOfferedGroups : List OfferedGroup
  clientSni           : Option String
  pskSelected         : Bool
  earlyDataOffered    : Bool
  mtlsRequested       : Bool
  mtls                : Bool
  deriving DecidableEq, Repr

structure ClientHelloSummary where
  maxVersion         : UInt16
  offeredGroups      : List UInt16
  sni                : Option String
  pskOffered         : Bool
  earlyDataOffered   : Bool
  timestampNs        : UInt64
  mtlsRequested      : Bool
  mtls               : Bool
  postShNegotiation  : Option Negotiation
  deriving DecidableEq, Repr

namespace ClientHelloSummary

-- The list of groups that `build_negotiation` and `on_alert` both build.
def clientOfferedGroups (summary : ClientHelloSummary) : List OfferedGroup :=
  (summary.offeredGroups.filter (!isGrease ·)).map fun g => ⟨g, keyExchangeName g⟩

def buildNegotiation (summary : ClientHelloSummary) (hello : ParsedServerHello) : Negotiation where
  outcome             := "negotiated"
  clientMaxVersion    := tlsVersionName summary.maxVersion
  selectedGroup       := hello.keyShareGroup.map fun groupId => ⟨groupId, keyExchangeName groupId⟩
  clientOfferedGroups := summary.clientOfferedGroups
  clientSni           := summary.sni
  pskSelected         := hello.pskSelected
  earlyDataOffered    := summary.earlyDataOffered
  mtlsRequested       := summary.mtlsRequested
  mtls                := summary.mtls

-- The negotiation that `on_alert` builds.
def failedNegotiation (summary : ClientHelloSummary) : Negotiation where
  outcome             := "failed"
  clientMaxVersion    := tlsVersionName summary.maxVersion
  selectedGroup       := none
  clientOfferedGroups := summary.clientOfferedGroups
  clientSni           := summary.sni
  pskSelected         := false
  earlyDataOffered    := summary.earlyDataOffered
  mtlsRequested       := summary.mtlsRequested
  mtls                := summary.mtls

end ClientHelloSummary

namespace ParsedClientHello

def maxVersion (hello : ParsedClientHello) : UInt16 :=
  (hello.supportedVersions.find? (!isGrease ·)).getD hello.legacyVersion

def offeredGroups (hello : ParsedClientHello) : List UInt16 :=
  if hello.keyShareGroups ≠ [] then hello.keyShareGroups else hello.supportedGroups

-- The summary that `on_client_hello` stores.
def summary (hello : ParsedClientHello) (nowNs : UInt64) : ClientHelloSummary where
  maxVersion        := hello.maxVersion
  offeredGroups     := hello.offeredGroups
  sni               := hello.sni
  pskOffered        := hello.pskOffered
  earlyDataOffered  := hello.earlyDataOffered
  timestampNs       := nowNs
  mtlsRequested     := false
  mtls              := false
  postShNegotiation := none

end ParsedClientHello

-- A summary with the time at which it was inserted.
abbrev PendingEntry := ClientHelloSummary × UInt64

structure Correlator where
  pending    : ExtTreeMap ConnKey PendingEntry
  maxEntries : Nat
  ttlNs      : UInt64

-- The order in which a hash map happens to be iterated over.
structure IterOrder where
  order : List (ConnKey × PendingEntry) → List (ConnKey × PendingEntry)
  perm  : ∀ entries, (order entries).Perm entries

def IterOrder.sorted : IterOrder where
  order := id
  perm  := List.Perm.refl

-- `min_by_key` over the insertion times: the first of the oldest entries.
def oldest : List (ConnKey × PendingEntry) → Option (ConnKey × PendingEntry)
  | []           => none
  | entry :: rest =>
    some <| rest.foldl (fun least entry => if entry.2.2 < least.2.2 then entry else least) entry

namespace Correlator

def new : Correlator where
  pending    := ∅
  maxEntries := 8192
  ttlNs      := 10 * 10 ^ 9

-- The key that `on_client_hello` evicts.
def keyToEvict (c : Correlator) (iter : IterOrder) : Option ConnKey :=
  if c.maxEntries ≤ c.pending.size then
    (oldest <| iter.order c.pending.toList).map (·.1)
  else
    none

def evictOldest (c : Correlator) (iter : IterOrder) : Correlator :=
  match c.keyToEvict iter with
  | some keyToEvict => { c with pending := c.pending.erase keyToEvict }
  | none            => c

def onClientHello (c : Correlator) (key : ConnKey) (analysis : TlsAnalysis) (nowNs : UInt64)
    (iter : IterOrder) : Correlator × Option Negotiation :=
  match analysis with
  | .clientHello _ hello =>
    let c := c.evictOldest iter
    ({ c with pending := c.pending.insert key (hello.summary nowNs, nowNs) }, none)
  | .serverHello _ _ => (c, none)

def onServerHello (c : Correlator) (key : ConnKey) (analysis : TlsAnalysis) :
    Correlator × Option Negotiation :=
  match analysis with
  | .serverHello _ hello =>
    match c.pending[key]? with
    | some (summary, insertionNs) =>
      let negotiation := summary.buildNegotiation hello
      if summary.mtlsRequested then
        let summary := { summary with postShNegotiation := some negotiation }
        ({ c with pending := c.pending.insert key (summary, insertionNs) }, some negotiation)
      else
        ({ c with pending := c.pending.erase key }, some negotiation)
    | none => (c, none)
  | .clientHello _ _ => (c, none)

def onAlert (c : Correlator) (key : ConnKey) (_alertLevel _alertDescription : UInt8) :
    Correlator × Option Negotiation :=
  match c.pending[key]? with
  | some (summary, _) => ({ c with pending := c.pending.erase key }, some summary.failedNegotiation)
  | none              => (c, none)

def onCertificateRequest (c : Correlator) (key : ConnKey) : Correlator :=
  match c.pending[key]? with
  | some (summary, insertionNs) =>
    let summary := { summary with mtlsRequested := true }
    { c with pending := c.pending.insert key (summary, insertionNs) }
  | none => c

def onClientCertificate (c : Correlator) (key : ConnKey) : Correlator × Option Negotiation :=
  match c.pending[key]? with
  | some (summary, insertionNs) =>
    match summary.postShNegotiation with
    | some negotiation =>
      ({ c with pending := c.pending.erase key }, some { negotiation with mtls := true })
    | none =>
      let summary := { summary with mtls := true }
      ({ c with pending := c.pending.insert key (summary, insertionNs) }, none)
  | none => (c, none)

-- The subtraction wraps around when the clock has been set back.
def sweepExpired (c : Correlator) (nowNs : UInt64) : Correlator × Nat :=
  let pending := c.pending.filter fun _ (_, insertionNs) => nowNs - insertionNs < c.ttlNs
  ({ c with pending := pending }, c.pending.size - pending.size)

inductive Event
  | clientHello (key : ConnKey) (analysis : TlsAnalysis) (nowNs : UInt64) (iter : IterOrder)
  | serverHello (key : ConnKey) (analysis : TlsAnalysis)
  | alert (key : ConnKey) (alertLevel alertDescription : UInt8)
  | certificateRequest (key : ConnKey)
  | clientCertificate (key : ConnKey)
  | sweep (nowNs : UInt64)

-- Every negotiation is returned for the key of the call.
def machine : Machine Correlator Event (ConnKey × Negotiation) where
  step
    | c, .clientHello key analysis nowNs iter =>
      let (c, negotiation) := c.onClientHello key analysis nowNs iter
      (c, negotiation.toList.map (key, ·))
    | c, .serverHello key analysis =>
      let (c, negotiation) := c.onServerHello key analysis
      (c, negotiation.toList.map (key, ·))
    | c, .alert key alertLevel alertDescription =>
      let (c, negotiation) := c.onAlert key alertLevel alertDescription
      (c, negotiation.toList.map (key, ·))
    | c, .certificateRequest key => (c.onCertificateRequest key, [])
    | c, .clientCertificate key =>
      let (c, negotiation) := c.onClientCertificate key
      (c, negotiation.toList.map (key, ·))
    | c, .sweep nowNs => ((c.sweepExpired nowNs).1, [])

end Correlator
end TlsProbe
