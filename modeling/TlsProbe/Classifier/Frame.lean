import TlsProbe.Classifier.Basic
import TlsProbe.Lib.Machine

namespace TlsProbe

-- The fields of a frame at the offsets that Ethernet, IP and TCP give them. What lies behind the end
-- of the frame reads as zero.
namespace Packet

def byte (pkt : Packet) (offset : Nat) : UInt8 :=
  pkt.bytes.getD offset 0

def field (pkt : Packet) (n offset : Nat) : Vector UInt8 n :=
  .ofFn fun i => pkt.byte (offset + i)

def word (pkt : Packet) (offset : Nat) : UInt16 :=
  u16FromBeBytes (pkt.byte offset) (pkt.byte (offset + 1))

def etherType (pkt : Packet) : UInt16 :=
  pkt.word 12

def isIpv6 (pkt : Packet) : Bool :=
  pkt.etherType = 0x86dd

def ipHeaderLen (pkt : Packet) : Nat :=
  if pkt.isIpv6 then 40 else (pkt.byte 14 &&& 0x0f).toNat * 4

def protocol (pkt : Packet) : UInt8 :=
  if pkt.isIpv6 then pkt.byte 20 else pkt.byte 23

-- The length field of IPv4 counts the header, that of IPv6 does not.
def datagramEnd (pkt : Packet) : Nat :=
  if pkt.isIpv6 then 14 + 40 + (pkt.word 18).toNat else 14 + (pkt.word 16).toNat

def address (pkt : Packet) (offset₄ offset₆ : Nat) : Addr :=
  if pkt.isIpv6 then
    pkt.field 16 offset₆
  else
    pkt.field 4 offset₄ ++ (.replicate 12 0 : Vector UInt8 12)

def tcpHeader (pkt : Packet) : Nat :=
  14 + pkt.ipHeaderLen

def tcpHeaderLen (pkt : Packet) : Nat :=
  (pkt.byte (pkt.tcpHeader + 12) >>> 4).toNat * 4

def tcpData (pkt : Packet) : Nat :=
  pkt.tcpHeader + pkt.tcpHeaderLen

def seqNumber (pkt : Packet) : UInt32 :=
  let byte i := (pkt.byte (pkt.tcpHeader + 4 + i)).toNat
  .ofNat (((byte 0 * 256 + byte 1) * 256 + byte 2) * 256 + byte 3)

def tcpPayload (pkt : Packet) : List UInt8 :=
  (pkt.bytes.take pkt.datagramEnd).drop pkt.tcpData

-- All that follows the TCP header: the payload, and the padding of the frame.
def rest (pkt : Packet) : List UInt8 :=
  pkt.bytes.drop pkt.tcpData

def isTcp (pkt : Packet) : Bool :=
  pkt.protocol = 6 && (pkt.isIpv6 || (pkt.etherType = 0x0800 && 20 ≤ pkt.ipHeaderLen))

-- A frame with a TCP segment that has the lengths that its headers say.
structure WellFormed (pkt : Packet) : Prop where
  tcp       : pkt.isTcp
  tcpHeader : 20 ≤ pkt.tcpHeaderLen
  payload   : pkt.tcpData ≤ pkt.datagramEnd
  datagram  : pkt.datagramEnd ≤ pkt.len

-- The kernel keeps the length of a packet in 32 bits. It has pulled the headers of the Ethernet frame
-- and of IP into the linear part, and can load whatever is in the packet.
structure Readable (pkt : Packet) : Prop where
  len_lt : pkt.len < 2 ^ 32
  linear : 14 + 20 ≤ pkt.linear
  loads  : ∀ offset n, 0 < n → offset + n ≤ pkt.len → pkt.loads offset n = true

end Packet

namespace Classifier

def tcpSegment (pkt : Packet) : Segment where
  isIpv6   := pkt.isIpv6
  tcpStart := pkt.tcpHeader
  tlsStart := pkt.tcpData
  srcAddr  := pkt.address 26 22
  dstAddr  := pkt.address 30 38
  srcPort  := pkt.word pkt.tcpHeader
  dstPort  := pkt.word (pkt.tcpHeader + 2)

-- A packet that the classifier gets to see.
structure Arrival where
  kernel   : Kernel
  pkt      : Packet
  isEgress : Bool

def machine : Machine ReasmMap Arrival RawTlsCapture where
  step reasmMap a :=
    let (reasmMap, event) := tryCaptureTls reasmMap a.kernel a.pkt a.isEgress
    (reasmMap, event.toList)

end Classifier
end TlsProbe
