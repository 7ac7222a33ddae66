import TlsProbe.Common.Process
import TlsProbe.Lib.Reader

open Std

namespace TlsProbe

structure ReasmKey where
  conn : ConnKey
  dir  : UInt8
  deriving DecidableEq, Ord

namespace ReasmKey

theorem compare_eq : (compare : ReasmKey → ReasmKey → Ordering) =
    compareLex (compareOn conn) (compareOn dir) := by
  funext k₁ k₂
  simp [compare, instOrdReasmKey.ord, compareLex, compareOn]

instance : TransOrd ReasmKey := by
  have : TransCmp (compareLex (compareOn conn) (compareOn dir)) := inferInstance
  rwa [←compare_eq] at this

instance : LawfulEqOrd ReasmKey where
  eq_of_compare {k₁ k₂} h := by
    simp only [compare_eq, compareLex, compareOn, Ordering.then_eq_eq, Std.compare_eq_iff_eq] at h
    cases k₁; cases k₂; simp_all

end ReasmKey

structure ReasmState where
  remaining    : UInt32
  segmentsLeft : UInt8
  deriving DecidableEq

structure ConnInfo where
  pid      : UInt32
  comm     : Vector UInt8 16
  cgroupId : UInt64

-- A packet as the classifier sees it: all of its bytes, the number of them that lie in the linear part
-- and can be accessed directly, and the reads at which `bpf_skb_load_bytes` succeeds.
structure Packet where
  bytes     : List UInt8
  linear    : Nat
  loads     : Nat → Nat → Bool
  linear_le : linear ≤ bytes.length
  loads_le  : ∀ offset n, (loads offset n = true) → offset + n ≤ bytes.length

namespace Packet

-- All of the packet can be read.
def ofBytes (bytes : List UInt8) : Packet where
  bytes     := bytes
  linear    := bytes.length
  loads     := fun offset n => offset + n ≤ bytes.length
  linear_le := Nat.le_refl _
  loads_le  := by simp

def len (pkt : Packet) : Nat :=
  pkt.bytes.length

def readU8 (pkt : Packet) (offset : Nat) : Option UInt8 :=
  if offset + 1 ≤ pkt.linear then pkt.bytes[offset]? else none

def readU16Be (pkt : Packet) (offset : Nat) : Option UInt16 :=
  if offset + 2 ≤ pkt.linear then
    some <| u16FromBeBytes (pkt.bytes.getD offset 0) (pkt.bytes.getD (offset + 1) 0)
  else
    none

-- `load_bytes_fixed::<N>`, and the one load whose length is not fixed.
def loadBytes (pkt : Packet) (n offset : Nat) : Option (Vector UInt8 n) :=
  if h : pkt.loads offset n = true then
    some <| Reader.slice pkt.bytes offset n (pkt.loads_le _ _ h)
  else
    none

def loadU8 (pkt : Packet) (offset : Nat) : Option UInt8 :=
  (pkt.loadBytes 1 offset).map (·.get 0)

end Packet

-- `u32::saturating_sub`
def saturatingSub (a b : UInt32) : UInt32 :=
  if b ≤ a then a - b else 0

namespace Classifier

def ethPIp : UInt16 := 0x0800
def ethPIpv6 : UInt16 := 0x86dd
def ipprotoTcp : UInt8 := 6
def tlsContentHandshake : UInt8 := 0x16
def tlsContentAlert : UInt8 := 0x15

def ethHdrLen : Nat := 14
def ipv6HdrLen : Nat := 40
def minIpHdrLen : Nat := 20
def minTcpHdrLen : Nat := 20
def tlsRecordHdrLen : Nat := 5

def maxReasmSegments : UInt8 := 4

-- Where the layers of a packet start, and what the classifier reads from its headers.
structure Segment where
  isIpv6   : Bool
  tcpStart : Nat
  tlsStart : Nat
  srcAddr  : Addr
  dstAddr  : Addr
  srcPort  : UInt16
  dstPort  : UInt16

-- Whether the packet is IPv6, the length of its IP header and the offsets of the two addresses.
def ipLayer (pkt : Packet) : Option (Bool × Nat × Nat × Nat) := do
  let ethProto ← pkt.readU16Be 12
  if ethProto = ethPIp then do
    let ipProto ← pkt.readU8 23
    guard (ipProto = ipprotoTcp)
    let versionIhl ← pkt.readU8 14
    let ipHdrLen := (versionIhl &&& 0x0f).toNat * 4
    guard (minIpHdrLen ≤ ipHdrLen)
    return (false, ipHdrLen, 26, 30)
  else if ethProto = ethPIpv6 then do
    let ipProto ← pkt.readU8 20
    guard (ipProto = ipprotoTcp)
    return (true, ipv6HdrLen, 22, 38)
  else
    none

def loadAddr (pkt : Packet) (isIpv6 : Bool) (offset : Nat) : Option Addr :=
  if isIpv6 then
    pkt.loadBytes 16 offset
  else
    (pkt.loadBytes 4 offset).map fun addr4 => addr4 ++ (Vector.replicate 12 0 : Vector UInt8 12)

-- `none` where the source returns early.
def segment (pkt : Packet) : Option Segment := do
  guard (ethHdrLen + minIpHdrLen + minTcpHdrLen + tlsRecordHdrLen + 1 ≤ pkt.len)
  let (isIpv6, ipHdrLen, srcOffset, dstOffset) ← ipLayer pkt
  let tcpStart := ethHdrLen + ipHdrLen
  guard (tcpStart + 13 ≤ pkt.len)
  let tcpOffByte ← pkt.loadU8 (tcpStart + 12)
  let tcpDataOff := (tcpOffByte >>> 4).toNat * 4
  guard (minTcpHdrLen ≤ tcpDataOff ∧ tcpDataOff ≤ 60)
  let tlsStart := tcpStart + tcpDataOff
  guard (tlsStart + tlsRecordHdrLen + 1 ≤ pkt.len)
  let srcAddr ← loadAddr pkt isIpv6 srcOffset
  let dstAddr ← loadAddr pkt isIpv6 dstOffset
  let ports ← pkt.loadBytes 4 tcpStart
  return {
    isIpv6   := isIpv6
    tcpStart := tcpStart
    tlsStart := tlsStart
    srcAddr  := srcAddr
    dstAddr  := dstAddr
    srcPort  := u16FromBeBytes ports[0] ports[1]
    dstPort  := u16FromBeBytes ports[2] ports[3]
  }

-- The connection of a segment, from the side of the host.
def checkKey (seg : Segment) (isEgress : Bool) : ConnKey :=
  if isEgress then
    ⟨seg.srcAddr, seg.dstAddr, seg.srcPort, seg.dstPort⟩
  else
    ⟨seg.dstAddr, seg.srcAddr, seg.dstPort, seg.srcPort⟩

def reasmKey (seg : Segment) (isEgress : Bool) : ReasmKey where
  conn := checkKey seg isEgress
  dir  := if isEgress then 0 else 1

-- The first bytes of the TLS layer: a record header and the byte that follows it.
abbrev RecordStart := Vector UInt8 6

def contentType (rec : RecordStart) : UInt8 :=
  rec[0]

def handshakeType (rec : RecordStart) : UInt8 :=
  rec[5]

def recordVersion (rec : RecordStart) : UInt16 :=
  u16FromBeBytes rec[1] rec[2]

def recordLen (rec : RecordStart) : Nat :=
  (u16FromBeBytes rec[3] rec[4]).toNat

def isHandshakeType (hsType : UInt8) : Bool :=
  hsType = 0x01 || hsType = 0x02 || hsType = 0x0b || hsType = 0x0d

-- Whether a segment that does not continue a record is one to capture.
def startsRecord (rec : RecordStart) : Bool :=
  (rec[0] = tlsContentHandshake || rec[0] = tlsContentAlert) &&
    (0x0300 ≤ recordVersion rec && recordVersion rec ≤ 0x0303) &&
    (rec[0] ≠ tlsContentHandshake || isHandshakeType rec[5])

def payloadAvail (pkt : Packet) (seg : Segment) : Nat :=
  pkt.len - seg.tlsStart

-- The bytes that are copied to the event. None are when the load fails.
def copiedPayload (pkt : Packet) (seg : Segment) : List UInt8 :=
  let copyLen := min (payloadAvail pkt seg) rawPayloadSize
  if 1 ≤ copyLen then
    ((pkt.loadBytes copyLen seg.tlsStart).map (·.toList)).getD []
  else
    []

theorem padded_size (bytes : List UInt8) :
    ((bytes ++ List.replicate rawPayloadSize 0).take rawPayloadSize).toArray.size =
      rawPayloadSize := by
  simp

-- Only the bytes that are in use are sent to userspace, which reads the others as zeros.
def padPayload (bytes : List UInt8) : Vector UInt8 rawPayloadSize :=
  ⟨((bytes ++ List.replicate rawPayloadSize 0).take rawPayloadSize).toArray, padded_size bytes⟩

def tcpSeq (pkt : Packet) (seg : Segment) : UInt32 :=
  match pkt.loadBytes 4 (seg.tcpStart + 4) with
  | some seq =>
    if seg.tcpStart + 8 ≤ pkt.len then
      UInt32.ofNat (((seq[0].toNat * 256 + seq[1].toNat) * 256 + seq[2].toNat) * 256 + seq[3].toNat)
    else
      0
  | none => 0

-- What the kernel provides for a call: the time, and the process of a connection.
structure Kernel where
  ktimeNs  : UInt64
  connInfo : ConnKey → Option ConnInfo

-- Whether the packet does not hold all of the record that it starts.
def isFragmented (pkt : Packet) (seg : Segment) (rec : RecordStart) : Bool :=
  payloadAvail pkt seg < recordLen rec + tlsRecordHdrLen

def eventFlags (isEgress isAlert isContinuation isFragmented : Bool) : UInt8 :=
  (if isEgress then 0 else flagIngress) |||
    (if isAlert then flagAlert else 0) |||
    (if isContinuation then flagContinuation else if isFragmented then flagFragment else 0)

def captureEvent (kernel : Kernel) (pkt : Packet) (seg : Segment) (rec : RecordStart)
    (isEgress isContinuation : Bool) : RawTlsCapture :=
  let key := checkKey seg isEgress
  let info := kernel.connInfo key
  let copied := copiedPayload pkt seg
  {
    timestampNs   := kernel.ktimeNs
    cgroupId      := (info.map (·.cgroupId)).getD 0
    srcAddr       := key.srcAddr
    dstAddr       := key.dstAddr
    srcPort       := key.srcPort
    dstPort       := key.dstPort
    isIpv6        := if seg.isIpv6 then 1 else 0
    handshakeType := if isContinuation || rec[0] = tlsContentAlert then 0 else rec[5]
    recordVersion := if isContinuation then 0 else recordVersion rec
    payloadLen    := UInt16.ofNat copied.length
    tcpSeq        := tcpSeq pkt seg
    flags         := eventFlags isEgress (rec[0] = tlsContentAlert) isContinuation
      (isFragmented pkt seg rec)
    contentType   := rec[0]
    pid           := (info.map (·.pid)).getD 0
    comm          := (info.map (·.comm)).getD (.replicate 16 0)
    payload       := padPayload copied
  }

abbrev ReasmMap := ExtTreeMap ReasmKey ReasmState

-- The state of a reassembly after a continuation of `payloadAvail` bytes.
def continueReassembly (reasmMap : ReasmMap) (key : ReasmKey) (payloadAvail : Nat) : ReasmMap :=
  match reasmMap[key]? with
  | some state =>
    let newRemaining := saturatingSub state.remaining (UInt32.ofNat payloadAvail)
    if newRemaining = 0 ∨ state.segmentsLeft = 0 then
      reasmMap.erase key
    else
      reasmMap.insert key ⟨newRemaining, state.segmentsLeft - 1⟩
  | none => reasmMap

def startReassembly (reasmMap : ReasmMap) (key : ReasmKey) (total payloadAvail : Nat) : ReasmMap :=
  if payloadAvail < total then
    reasmMap.insert key ⟨UInt32.ofNat (total - payloadAvail), maxReasmSegments - 1⟩
  else
    reasmMap

-- What the classifier does with a packet, and the event that it sends.
def tryCaptureTls (reasmMap : ReasmMap) (kernel : Kernel) (pkt : Packet) (isEgress : Bool) :
    ReasmMap × Option RawTlsCapture :=
  match segment pkt with
  | none     => (reasmMap, none)
  | some seg =>
    let key := reasmKey seg isEgress
    let isContinuation := reasmMap.contains key
    match pkt.loadBytes 6 seg.tlsStart with
    | none     => (reasmMap, none)
    | some rec =>
      if isContinuation || startsRecord rec then
        let event := captureEvent kernel pkt seg rec isEgress isContinuation
        let reasmMap :=
          if isContinuation then
            continueReassembly reasmMap key (payloadAvail pkt seg)
          else
            startReassembly reasmMap key (recordLen rec + tlsRecordHdrLen) (payloadAvail pkt seg)
        (reasmMap, some event)
      else
        (reasmMap, none)

end Classifier
end TlsProbe
