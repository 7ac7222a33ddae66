import TlsProbe.Common.Capture
import TlsProbe.Parser.Types

namespace TlsProbe

-- `String::from_utf8(bytes).ok()`
def fromUtf8 (bytes : List UInt8) : Option String :=
  String.fromUTF8? ⟨bytes.toArray⟩

-- How many bytes are to follow the byte `b` in UTF-8, and the bounds of the first one.
def utf8Lead (b : UInt8) : Nat × UInt8 × UInt8 :=
  if b < 0xc2 then (0, 0x80, 0xbf)
  else if b < 0xe0 then (1, 0x80, 0xbf)
  else if b = 0xe0 then (2, 0xa0, 0xbf)
  else if b = 0xed then (2, 0x80, 0x9f)
  else if b < 0xf0 then (2, 0x80, 0xbf)
  else if b = 0xf0 then (3, 0x90, 0xbf)
  else if b < 0xf4 then (3, 0x80, 0xbf)
  else if b = 0xf4 then (3, 0x80, 0x8f)
  else (0, 0x80, 0xbf)

-- The number of leading bytes that do follow, of `n` to come with the first one in `[lo, hi]`.
def utf8Tail (n : Nat) (lo hi : UInt8) : List UInt8 → Nat
  | []        => 0
  | b :: rest => if 0 < n ∧ lo ≤ b ∧ b ≤ hi then utf8Tail (n - 1) 0x80 0xbf rest + 1 else 0

-- `String::from_utf8_lossy`: each longest start of a character that is not completed, and each byte
-- that cannot start one, becomes one replacement character.
def fromUtf8Lossy : List UInt8 → String
  | []        => ""
  | b :: rest =>
    let (n, lo, hi) := utf8Lead b
    let k := utf8Tail n lo hi rest
    (fromUtf8 (b :: rest.take k)).getD "\uFFFD" ++ fromUtf8Lossy (rest.drop k)
termination_by bytes => bytes.length

-- The source returns a `Result`, which is always `Ok`.
def parseExtensions : List UInt8 → List Extension
  | t₁ :: t₂ :: l₁ :: l₂ :: rest =>
    let extLen := (u16FromBeBytes l₁ l₂).toNat
    if extLen ≤ rest.length then
      { extType := .ofU16 (u16FromBeBytes t₁ t₂), data := rest.take extLen } ::
        parseExtensions (rest.drop extLen)
    else
      []
  | _ => []
termination_by data => data.length
decreasing_by
  simp only [List.length_drop, List.length_cons]
  omega

-- The loop of `parse_client_hello` over the same bytes. An extension that is cut off ends it, too,
-- but its type is still listed.
def extensionIds : List UInt8 → List UInt16
  | t₁ :: t₂ :: l₁ :: l₂ :: rest =>
    u16FromBeBytes t₁ t₂ :: extensionIds (rest.drop (u16FromBeBytes l₁ l₂).toNat)
  | _ => []
termination_by data => data.length

-- The loop that the lists of 16-bit codes share: `n` is what remains of the declared length of the
-- list. The loop only tests that an element starts within it.
def codeList (n : Nat) : List UInt8 → List UInt16
  | hi :: lo :: rest => if 0 < n then u16FromBeBytes hi lo :: codeList (n - 2) rest else []
  | _                => []

def extractSupportedVersions (ext : Extension) (isClient : Bool) : List UInt16 :=
  if isClient then
    match ext.data with
    | listLen :: list => codeList listLen.toNat list
    | []              => []
  else
    match ext.data with
    | hi :: lo :: _ => [u16FromBeBytes hi lo]
    | _             => []

-- A list of 16-bit codes whose length takes two bytes.
def extractCodes (ext : Extension) : List UInt16 :=
  match ext.data with
  | hi :: lo :: list => codeList (u16FromBeBytes hi lo).toNat list
  | _                => []

def extractSupportedGroups (ext : Extension) : List UInt16 :=
  extractCodes ext

def extractSignatureAlgorithms (ext : Extension) : List UInt16 :=
  extractCodes ext

def extractSignatureAlgorithmsCert (ext : Extension) : List UInt16 :=
  extractCodes ext

-- The loop of `extract_key_share_groups`.
def keyShares (n : Nat) : List UInt8 → List UInt16
  | g₁ :: g₂ :: k₁ :: k₂ :: rest =>
    let keyLen := (u16FromBeBytes k₁ k₂).toNat
    if 0 < n then
      u16FromBeBytes g₁ g₂ :: keyShares (n - (4 + keyLen)) (rest.drop keyLen)
    else
      []
  | _ => []
termination_by data => data.length

def extractKeyShareGroups (ext : Extension) (isClient : Bool) : List UInt16 :=
  if isClient then
    match ext.data with
    | hi :: lo :: list => keyShares (u16FromBeBytes hi lo).toNat list
    | _                => []
  else
    match ext.data with
    | hi :: lo :: _ => [u16FromBeBytes hi lo]
    | _             => []

def extractSni (ext : Extension) : Option String :=
  match ext.data with
  | _ :: _ :: nameType :: hi :: lo :: rest =>
    let nameLen := (u16FromBeBytes hi lo).toNat
    if nameType ≠ 0 then
      none
    else if rest.length < nameLen then
      none
    else
      fromUtf8 (rest.take nameLen)
  | _ => none

def hasPreSharedKey (ext : Extension) : Bool :=
  ext.extType = .preSharedKey

def hasPskKeyExchangeModes (ext : Extension) : Bool :=
  ext.extType = .pskKeyExchangeModes

def hasEarlyData (ext : Extension) : Bool :=
  ext.extType = .earlyData

def hasSessionTicket (ext : Extension) : Bool :=
  ext.extType = .sessionTicket

def isPskSelected (ext : Extension) : Bool :=
  ext.extType = .preSharedKey && !ext.data.isEmpty

-- The loop of `extract_alpn`.
def alpnProtocols (n : Nat) : List UInt8 → List String
  | protoLen :: rest =>
    if 0 < n ∧ protoLen.toNat ≤ rest.length then
      fromUtf8Lossy (rest.take protoLen.toNat) ::
        alpnProtocols (n - (1 + protoLen.toNat)) (rest.drop protoLen.toNat)
    else
      []
  | [] => []
termination_by data => data.length
decreasing_by
  simp only [List.length_drop, List.length_cons]
  omega

def extractAlpn (ext : Extension) : List String :=
  match ext.data with
  | hi :: lo :: list => alpnProtocols (u16FromBeBytes hi lo).toNat list
  | _                => []

end TlsProbe
