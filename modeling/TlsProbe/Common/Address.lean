import TlsProbe.Common.Capture

namespace TlsProbe

-- `{:x}` of a `u16`
def lowerHex (n : UInt16) : String :=
  String.ofList (Nat.toDigits 16 n.toNat)

-- The 16-bit segments of an IPv6 address.
def segments : List UInt8 → List UInt16
  | hi :: lo :: rest => u16FromBeBytes hi lo :: segments rest
  | _                => []

-- The start and the length of a run of zero segments.
structure Span where
  start : Nat
  len   : Nat
  deriving DecidableEq

-- The first of the longest runs of zero segments, and the run that the segments end in.
def zeroSpans (segments : List UInt16) : Span × Span :=
  segments.zipIdx.foldl (fun (longest, current) (segment, i) =>
    if segment = 0 then
      let current : Span := ⟨if current.len = 0 then i else current.start, current.len + 1⟩
      (if longest.len < current.len then current else longest, current)
    else
      (longest, ⟨0, 0⟩)) (⟨0, 0⟩, ⟨0, 0⟩)

def formatIpv4 (bytes : List UInt8) : String :=
  ".".intercalate (bytes.map fun b => toString b.toNat)

-- `format!("{}", Ipv6Addr::from(addr))`
def formatIpv6 (bytes : List UInt8) : String :=
  let segments := segments bytes
  if segments.take 6 = [0, 0, 0, 0, 0, 0xffff] then
    "::ffff:" ++ formatIpv4 (bytes.drop 12)
  else
    let hex (segments : List UInt16) := ":".intercalate (segments.map lowerHex)
    let zeroes := (zeroSpans segments).1
    if 1 < zeroes.len then
      hex (segments.take zeroes.start) ++ "::" ++ hex (segments.drop (zeroes.start + zeroes.len))
    else
      hex segments

def formatAddr (addr : Addr) (isIpv6 : Bool) : String :=
  if isIpv6 then formatIpv6 addr.toList else formatIpv4 (addr.toList.take 4)

namespace RawTlsCapture

def srcAddrStr (cap : RawTlsCapture) : String :=
  formatAddr cap.srcAddr (cap.isIpv6 != 0)

def dstAddrStr (cap : RawTlsCapture) : String :=
  formatAddr cap.dstAddr (cap.isIpv6 != 0)

end RawTlsCapture

-- The addresses of the tests `ipv4_address_formatting` and `ipv6_address_formatting`.
example : formatIpv4 [192, 168, 1, 100] = "192.168.1.100" := by
  decide +kernel

example : formatIpv6 ([0x20, 0x01, 0x0d, 0xb8] ++ List.replicate 11 0 ++ [0x01]) =
    "2001:db8::1" := by
  decide +kernel

end TlsProbe
