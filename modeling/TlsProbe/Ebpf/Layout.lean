import TlsProbe.Lib.Layout
import TlsProbe.Process.Basic

namespace TlsProbe.Ebpf

open Process (Endian)

-- `to_ne_bytes` and `from_ne_bytes` for numbers of `n` bytes.
def neBytes (endian : Endian) (n v : Nat) : List UInt8 :=
  match endian with
  | .little => Layout.leBytes n v
  | .big    => (Layout.leBytes n v).reverse

def ofNeBytes (endian : Endian) (bytes : List UInt8) : Nat :=
  match endian with
  | .little => Layout.ofLeBytes bytes
  | .big    => Layout.ofLeBytes bytes.reverse

def toArray (n : Nat) (bytes : List UInt8) : Vector UInt8 n :=
  .ofFn fun i => bytes.getD i 0

-- `RawTlsCapture` is `repr(C)`.
def headerFields : List Layout.Field := [
  ⟨8, 8⟩,  -- timestamp_ns
  ⟨8, 8⟩,  -- cgroup_id
  ⟨16, 1⟩, -- src_addr
  ⟨16, 1⟩, -- dst_addr
  ⟨2, 2⟩,  -- src_port
  ⟨2, 2⟩,  -- dst_port
  ⟨1, 1⟩,  -- is_ipv6
  ⟨1, 1⟩,  -- handshake_type
  ⟨2, 2⟩,  -- record_version
  ⟨2, 2⟩,  -- payload_len
  ⟨4, 4⟩,  -- tcp_seq
  ⟨1, 1⟩,  -- flags
  ⟨1, 1⟩,  -- content_type
  ⟨4, 4⟩,  -- pid
  ⟨16, 1⟩  -- comm
]

def payloadField : Layout.Field where
  size  := rawPayloadSize
  align := 1

def captureFields : List Layout.Field :=
  headerFields ++ [payloadField]

def rawCaptureHeaderSize : Nat := 88

-- `size_of::<RawTlsCapture>()`
def rawTlsCaptureSize : Nat := 4184

example : Layout.offsets 0 captureFields =
    [0, 8, 16, 32, 48, 50, 52, 53, 54, 56, 60, 64, 65, 68, 72, 88] := by
  decide

section Values

variable (endian : Endian)

def headerValues (cap : RawTlsCapture) : List (List UInt8) := [
  neBytes endian 8 cap.timestampNs.toNat,
  neBytes endian 8 cap.cgroupId.toNat,
  cap.srcAddr.toList,
  cap.dstAddr.toList,
  neBytes endian 2 cap.srcPort.toNat,
  neBytes endian 2 cap.dstPort.toNat,
  [cap.isIpv6],
  [cap.handshakeType],
  neBytes endian 2 cap.recordVersion.toNat,
  neBytes endian 2 cap.payloadLen.toNat,
  neBytes endian 4 cap.tcpSeq.toNat,
  [cap.flags],
  [cap.contentType],
  neBytes endian 4 cap.pid.toNat,
  cap.comm.toList
]

def ofValues : List (List UInt8) → RawTlsCapture
  | [timestampNs, cgroupId, srcAddr, dstAddr, srcPort, dstPort, isIpv6, handshakeType,
      recordVersion, payloadLen, tcpSeq, flags, contentType, pid, comm, payload] => {
      timestampNs   := .ofNat (ofNeBytes endian timestampNs)
      cgroupId      := .ofNat (ofNeBytes endian cgroupId)
      srcAddr       := toArray 16 srcAddr
      dstAddr       := toArray 16 dstAddr
      srcPort       := .ofNat (ofNeBytes endian srcPort)
      dstPort       := .ofNat (ofNeBytes endian dstPort)
      isIpv6        := isIpv6.headD 0
      handshakeType := handshakeType.headD 0
      recordVersion := .ofNat (ofNeBytes endian recordVersion)
      payloadLen    := .ofNat (ofNeBytes endian payloadLen)
      tcpSeq        := .ofNat (ofNeBytes endian tcpSeq)
      flags         := flags.headD 0
      contentType   := contentType.headD 0
      pid           := .ofNat (ofNeBytes endian pid)
      comm          := toArray 16 comm
      payload       := toArray rawPayloadSize payload
    }
  | _ => default

-- The memory of a capture. The padding may hold anything.
def image (filler : Nat → UInt8) (cap : RawTlsCapture) : List UInt8 :=
  Layout.pack filler 0 captureFields (headerValues endian cap ++ [cap.payload.toList])

def ofImage (memory : List UInt8) : RawTlsCapture :=
  ofValues endian (Layout.unpack 0 captureFields memory)

-- What is sent of an event: its header and the bytes of its payload that are in use.
def eventBytes (filler : Nat → UInt8) (event : RawTlsCapture) : List UInt8 :=
  let cappedPayload := min event.payloadLen.toNat rawPayloadSize
  (image endian filler event).take (rawCaptureHeaderSize + cappedPayload)

-- What `run` gets from an item of the ring buffer, which is copied to a capture that is all zeros.
def decode (item : List UInt8) : Option RawTlsCapture :=
  if item.length < rawCaptureHeaderSize then
    none
  else
    let copyLen := min item.length rawTlsCaptureSize
    some <| ofImage endian (item.take copyLen ++ List.replicate (rawTlsCaptureSize - copyLen) 0)

end Values

section RoundTrip

variable {endian : Endian} {filler : Nat → UInt8} {cap : RawTlsCapture}

@[simp]
theorem length_neBytes {n v : Nat} : (neBytes endian n v).length = n := by
  cases endian <;> simp [neBytes]

theorem ofNeBytes_neBytes {n v : Nat} (h : v < 256 ^ n) :
    ofNeBytes endian (neBytes endian n v) = v := by
  cases endian <;> simp [neBytes, ofNeBytes, Layout.ofLeBytes_leBytes h]

@[simp]
theorem toArray_toList {n : Nat} {v : Vector UInt8 n} : toArray n v.toList = v := by
  ext i hi
  simp [toArray]

@[simp]
theorem ofNeBytes_u16 {v : UInt16} :
    UInt16.ofNat (ofNeBytes endian (neBytes endian 2 v.toNat)) = v := by
  rw [ofNeBytes_neBytes (by simpa using v.toNat_lt), UInt16.ofNat_toNat]

@[simp]
theorem ofNeBytes_u32 {v : UInt32} :
    UInt32.ofNat (ofNeBytes endian (neBytes endian 4 v.toNat)) = v := by
  rw [ofNeBytes_neBytes (by simpa using v.toNat_lt), UInt32.ofNat_toNat]

@[simp]
theorem ofNeBytes_u64 {v : UInt64} :
    UInt64.ofNat (ofNeBytes endian (neBytes endian 8 v.toNat)) = v := by
  rw [ofNeBytes_neBytes (by simpa using v.toNat_lt), UInt64.ofNat_toNat]

theorem ofValues_headerValues {payload : List UInt8} :
    ofValues endian (headerValues endian cap ++ [payload]) =
      { cap with payload := toArray rawPayloadSize payload } := by
  simp [headerValues, ofValues]

theorem fits_headerValues : Layout.Fits headerFields (headerValues endian cap) := by
  simp [Layout.Fits, headerFields, headerValues]

theorem length_payload : cap.payload.toList.length = payloadField.size :=
  Vector.length_toList

theorem length_image : (image endian filler cap).length = rawTlsCaptureSize := by
  have h : Layout.Fits captureFields (headerValues endian cap ++ [cap.payload.toList]) :=
    List.rel_append fits_headerValues (.cons length_payload .nil)
  rw [image, ←Nat.zero_add (Layout.pack ..).length, Layout.length_pack h]
  rfl

theorem length_eventBytes : (eventBytes endian filler cap).length =
    rawCaptureHeaderSize + cap.payloadSlice.length := by
  rw [eventBytes, List.length_take, length_image, RawTlsCapture.payloadSlice, List.length_take,
    Vector.length_toList]
  simp only [rawCaptureHeaderSize, rawTlsCaptureSize, rawPayloadSize]
  omega

theorem padPayload_toList {bytes : List UInt8} (h : bytes.length ≤ rawPayloadSize) :
    (Classifier.padPayload bytes).toList =
      bytes ++ List.replicate (rawPayloadSize - bytes.length) 0 := by
  simp only [Classifier.padPayload, Vector.toList_mk, List.take_append, List.take_of_length_le h,
    List.take_replicate, Nat.min_eq_left (Nat.sub_le ..)]

theorem unpack_eventBytes {back : List UInt8}
    (h : rawPayloadSize - cap.payloadSlice.length ≤ back.length) :
    Layout.unpack 0 captureFields (eventBytes endian filler cap ++ back) = headerValues endian cap ++
      [cap.payloadSlice ++ back.take (rawPayloadSize - cap.payloadSlice.length)] := by
  have hm : min cap.payloadLen.toNat rawPayloadSize = cap.payloadSlice.length := by
    simp [RawTlsCapture.payloadSlice]
  have hs : cap.payload.toList.take cap.payloadSlice.length = cap.payloadSlice := by
    simp [RawTlsCapture.payloadSlice]
  have hu := @Layout.unpack_cut _ _ _ _ _ filler (@fits_headerValues endian cap)
    (@length_payload cap) _ cap.payloadSlice_length_le _ h
  rw [hs] at hu
  rw [eventBytes, hm]
  exact hu

-- The receiver gets the header as it is, and the payload up to its length.
theorem decode_eventBytes : decode endian (eventBytes endian filler cap) =
    some { cap with payload := Classifier.padPayload cap.payloadSlice } := by
  have hs := cap.payloadSlice_length_le
  have hl := @length_eventBytes endian filler cap
  have hc : min (eventBytes endian filler cap).length rawTlsCaptureSize =
      (eventBytes endian filler cap).length := by
    rw [hl]
    simp only [rawCaptureHeaderSize, rawTlsCaptureSize, rawPayloadSize] at hs ⊢
    omega
  have hr : rawTlsCaptureSize - (eventBytes endian filler cap).length =
      rawPayloadSize - cap.payloadSlice.length := by
    rw [hl]
    simp only [rawCaptureHeaderSize, rawTlsCaptureSize, rawPayloadSize] at hs ⊢
    omega
  rw [decode, if_neg (by omega)]
  simp only [hc, List.take_length, hr, ofImage]
  rw [unpack_eventBytes (by simp), List.take_of_length_le (by simp), ofValues_headerValues,
    ←padPayload_toList hs, toArray_toList]

end RoundTrip

end TlsProbe.Ebpf
