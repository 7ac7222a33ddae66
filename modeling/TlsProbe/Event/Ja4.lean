import TlsProbe.Common.Codes
import TlsProbe.Parser.Types

namespace TlsProbe.Ja4

def ja4VersionString (hello : ParsedClientHello) : String :=
  let version :=
    if hello.supportedVersions = [] then
      hello.legacyVersion
    else
      ((hello.supportedVersions.filter (!isGrease ·)).max?).getD hello.legacyVersion
  if version = 0x0304 then "13"
  else if version = 0x0303 then "12"
  else if version = 0x0302 then "11"
  else if version = 0x0301 then "10"
  else "00"

def sniMarker (hello : ParsedClientHello) : String :=
  if hello.sni.isSome then "d" else "i"

def alpnChars (hello : ParsedClientHello) : String :=
  match hello.alpn with
  | []         => "00"
  | proto :: _ =>
    match proto.toList with
    | []              => "00"
    | firstChar :: cs =>
      let lastChar := cs.getLastD firstChar
      if !firstChar.isAlphanum || !lastChar.isAlphanum then
        "99"
      else
        String.ofList [firstChar, lastChar]

-- `{:04x}`
def hex4 (id : UInt16) : String :=
  let digits := Nat.toDigits 16 id.toNat
  String.ofList (List.replicate (4 - digits.length) '0' ++ digits)

-- `{:02}`
def dec2 (n : Nat) : String :=
  if n < 10 then "0" ++ toString n else toString n

def sortUnstable (ids : List UInt16) : List UInt16 :=
  ids.mergeSort (· ≤ ·)

def joinHex (ids : List UInt16) : String :=
  ",".intercalate (ids.map hex4)

-- `sha256` returns the digest in hexadecimal digits.
variable (sha256 : String → String)

def hash12 (input : String) : String :=
  String.ofList ((sha256 input).toList.take 12)

def cipherHash (hello : ParsedClientHello) : String :=
  let ciphers := hello.cipherSuites.filter (!isGrease ·)
  if ciphers = [] then "000000000000" else hash12 sha256 (joinHex (sortUnstable ciphers))

def extensionHashInput (hello : ParsedClientHello) : String :=
  let exts := hello.extensionIds.filter fun e => !isGrease e && e ≠ 0x0000 && e ≠ 0x0010
  let hashInput := joinHex (sortUnstable exts)
  if hello.signatureAlgorithms ≠ [] then
    hashInput ++ "_" ++ joinHex hello.signatureAlgorithms
  else
    hashInput

def extensionHash (hello : ParsedClientHello) : String :=
  let hashInput := extensionHashInput hello
  if hashInput = "" ∨ hashInput = "_" then "000000000000" else hash12 sha256 hashInput

def ja4 (hello : ParsedClientHello) : String :=
  let cipherCount := min ((hello.cipherSuites.filter (!isGrease ·)).length) 99
  let extensionCount := min ((hello.extensionIds.filter (!isGrease ·)).length) 99
  "t" ++ ja4VersionString hello ++ sniMarker hello ++ dec2 cipherCount ++ dec2 extensionCount ++
    alpnChars hello ++ "_" ++ cipherHash sha256 hello ++ "_" ++ extensionHash sha256 hello

end TlsProbe.Ja4
