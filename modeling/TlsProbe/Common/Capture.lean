import Mathlib.Data.UInt
import Mathlib.Data.List.Basic

namespace TlsProbe

abbrev rawPayloadSize : Nat := 4096

def flagFragment     : UInt8 := (1 : UInt8) <<< 0
def flagContinuation : UInt8 := (1 : UInt8) <<< 1
def flagAlert        : UInt8 := (1 : UInt8) <<< 2
def flagIngress      : UInt8 := (1 : UInt8) <<< 3

-- `u16::from_be_bytes([hi, lo])`
def u16FromBeBytes (hi lo : UInt8) : UInt16 :=
  UInt16.ofNat (hi.toNat * 256 + lo.toNat)

theorem u16FromBeBytes_toNat (hi lo : UInt8) :
    (u16FromBeBytes hi lo).toNat = hi.toNat * 256 + lo.toNat := by
  have := hi.toNat_lt
  have := lo.toNat_lt
  simp only [u16FromBeBytes, UInt16.toNat_ofNat']
  omega

abbrev Addr := Vector UInt8 16

structure RawTlsCapture where
  timestampNs   : UInt64
  cgroupId      : UInt64
  srcAddr       : Addr
  dstAddr       : Addr
  srcPort       : UInt16
  dstPort       : UInt16
  isIpv6        : UInt8
  handshakeType : UInt8
  recordVersion : UInt16
  payloadLen    : UInt16
  tcpSeq        : UInt32
  flags         : UInt8
  contentType   : UInt8
  pid           : UInt32
  comm          : Vector UInt8 16
  payload       : Vector UInt8 rawPayloadSize

namespace RawTlsCapture

instance : Inhabited RawTlsCapture where
  default := {
    timestampNs   := 0
    cgroupId      := 0
    srcAddr       := .replicate 16 0
    dstAddr       := .replicate 16 0
    srcPort       := 0
    dstPort       := 0
    isIpv6        := 0
    handshakeType := 0
    recordVersion := 0
    payloadLen    := 0
    tcpSeq        := 0
    flags         := 0
    contentType   := 0
    pid           := 0
    comm          := .replicate 16 0
    payload       := .replicate rawPayloadSize 0
  }

def payloadSlice (cap : RawTlsCapture) : List UInt8 :=
  cap.payload.toList.take (min cap.payloadLen.toNat rawPayloadSize)

theorem payloadSlice_length_le (cap : RawTlsCapture) :
    cap.payloadSlice.length ≤ rawPayloadSize := by
  simp [payloadSlice]

def isFragment (cap : RawTlsCapture) : Bool :=
  cap.flags &&& flagFragment != 0

def isContinuation (cap : RawTlsCapture) : Bool :=
  cap.flags &&& flagContinuation != 0

def isAlert (cap : RawTlsCapture) : Bool :=
  cap.flags &&& flagAlert != 0

def isIngress (cap : RawTlsCapture) : Bool :=
  cap.flags &&& flagIngress != 0

def isClientHello (cap : RawTlsCapture) : Bool :=
  cap.handshakeType = 0x01

def isServerHello (cap : RawTlsCapture) : Bool :=
  cap.handshakeType = 0x02

end RawTlsCapture

-- The test helper `make_capture` of reasm.rs: a capture with just these fields set.
def makeCapture (tcpSeq : UInt32) (payload : List UInt8) (flags : UInt8) : RawTlsCapture := {
  (default : RawTlsCapture) with
  tcpSeq     := tcpSeq
  flags      := flags
  payloadLen := UInt16.ofNat payload.length
  payload    :=
    ⟨((payload ++ List.replicate rawPayloadSize 0).take rawPayloadSize).toArray, by simp⟩
}

end TlsProbe
