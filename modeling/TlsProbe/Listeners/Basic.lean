import TlsProbe.Lib.Checked
import TlsProbe.Process.Basic

namespace TlsProbe.Listeners

open Process (Endian)

abbrev Text := List Char

-- `char::is_whitespace`
def isWhitespace (c : Char) : Bool :=
  ('\t' ≤ c ∧ c ≤ '\r') ∨ ('\u2000' ≤ c ∧ c ≤ '\u200a') ∨
    c ∈ [' ', '\u0085', '\u00a0', '\u1680', '\u2028', '\u2029', '\u202f', '\u205f', '\u3000']

-- `str::split_whitespace`
def splitWhitespace (line : Text) : List Text :=
  (line.splitOnP isWhitespace).filter fun part => !part.isEmpty

-- `char::to_digit(16)`
def toDigit (c : Char) : Option Nat :=
  if '0' ≤ c ∧ c ≤ '9' then
    some (c.toNat - '0'.toNat)
  else if 'a' ≤ c ∧ c ≤ 'f' then
    some (c.toNat - 'a'.toNat + 10)
  else if 'A' ≤ c ∧ c ≤ 'F' then
    some (c.toNat - 'A'.toNat + 10)
  else
    none

-- `from_str_radix(src, 16)` of an unsigned type of so many bits
def fromStrRadix (bits : Nat) (src : Text) : Option Nat :=
  match src with
  | [] | ['+']    => none
  | '+' :: digits => digits.foldlM step 0
  | digits        => digits.foldlM step 0
where
  step (value : Nat) (c : Char) : Option Nat := do
    let digit ← toDigit c
    let value := 16 * value + digit
    if value < 2 ^ bits then some value else none

-- The number of bytes of a text.
def byteLen (s : Text) : Nat :=
  (s.map Char.utf8Size).sum

-- The two parts of a text at a byte, which must not be one inside a character.
def splitAtByte : Text → Nat → Checked (Text × Text)
  | s,      0     => .ok ([], s)
  | [],     _ + 1 => .error .outOfBounds
  | c :: s, n + 1 => do
    if c.utf8Size ≤ n + 1 then
      let (front, back) ← splitAtByte s (n + 1 - c.utf8Size)
      return (c :: front, back)
    else
      .error .outOfBounds

-- `&s[i..j]`
def sliceStr (s : Text) (i j : Nat) : Checked Text := do
  let (front, _) ← splitAtByte s j
  let (_, part) ← splitAtByte front i
  return part

-- `u32::to_be_bytes`
def u32ToBeBytes (v : UInt32) : Vector UInt8 4 :=
  #v[.ofNat (v.toNat / 0x1000000), .ofNat (v.toNat / 0x10000), .ofNat (v.toNat / 0x100),
    .ofNat v.toNat]

-- The integer that the bytes are, the least one first.
def leValue (bytes : Vector UInt8 4) : Nat :=
  bytes.foldr (fun b value => b.toNat + 0x100 * value) 0

-- `u32::from_le`
def u32FromLe : Endian → UInt32 → UInt32
  | .little, v => v
  | .big,    v => .ofNat (leValue (u32ToBeBytes v))

inductive IpAddr
  | v4 (octets : Vector UInt8 4)
  | v6 (octets : Vector UInt8 16)
  deriving DecidableEq

structure ListenEntry where
  addr : IpAddr
  port : UInt16
  deriving DecidableEq

def stateListen : Nat := 0x0a

def parseHexPort (s : Text) : Except String UInt16 :=
  match fromStrRadix 16 s with
  | some port => .ok (.ofNat port)
  | none      => .error ("invalid port hex: " ++ .ofList s)

-- A parser of addresses may fail with a message, and it may panic.
abbrev ParseAddr := Text → ExceptT String Checked IpAddr

def parseIpv4Hex : ParseAddr := fun hex => do
  let hex := hex.dropWhile (· = '0')
  let full := if hex.isEmpty then ['0'] else hex
  match fromStrRadix 32 full with
  | some value => return .v4 (u32ToBeBytes (.ofNat value))
  | none       => throw ("invalid IPv4 hex: " ++ .ofList hex)

def parseIpv6Word (endian : Endian) (hex : Text) (word : Nat) :
    ExceptT String Checked (Vector UInt8 4) := do
  let chunk ← sliceStr hex (word * 8) ((word + 1) * 8)
  match fromStrRadix 32 chunk with
  | some val => return u32ToBeBytes (u32FromLe endian (.ofNat val))
  | none     => throw ("invalid IPv6 hex word: " ++ .ofList chunk)

def parseIpv6Hex (endian : Endian) : ParseAddr := fun hex => do
  if byteLen hex ≠ 32 then
    throw ("invalid IPv6 hex length: " ++ toString (byteLen hex))
  let word₀ ← parseIpv6Word endian hex 0
  let word₁ ← parseIpv6Word endian hex 1
  let word₂ ← parseIpv6Word endian hex 2
  let word₃ ← parseIpv6Word endian hex 3
  return .v6 (word₀ ++ word₁ ++ word₂ ++ word₃)

def parseListenLine (line : Text) (parseAddr : ParseAddr) :
    Checked (Option (Except String ListenEntry)) :=
  match splitWhitespace line with
  | _ :: localPart :: _ :: state :: _ =>
    if fromStrRadix 8 state = some stateListen then
      match localPart.splitOn ':' with
      | ipHex :: portHex :: _ =>
        match parseHexPort portHex with
        | .error _ => return none
        | .ok port => do
          match ← (parseAddr ipHex).run with
          | .error _ => return none
          | .ok addr => return some (.ok { addr, port })
      | _ => return none
    else
      return none
  | _ => return none

end TlsProbe.Listeners
