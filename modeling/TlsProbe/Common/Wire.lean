import TlsProbe.Common.Capture

namespace TlsProbe

-- `u16::to_be_bytes`
def u16ToBeBytes (v : UInt16) : List UInt8 :=
  [UInt8.ofNat (v.toNat / 256), UInt8.ofNat v.toNat]

-- The vectors of the TLS presentation language: bytes behind their number, which takes one byte, two
-- or three.
def vector8 (bytes : List UInt8) : List UInt8 :=
  UInt8.ofNat bytes.length :: bytes

def vector16 (bytes : List UInt8) : List UInt8 :=
  u16ToBeBytes (UInt16.ofNat bytes.length) ++ bytes

def vector24 (bytes : List UInt8) : List UInt8 :=
  let n := bytes.length
  UInt8.ofNat (n / 65536) :: UInt8.ofNat (n / 256) :: UInt8.ofNat n :: bytes

def handshakeMessage (handshakeType : UInt8) (body : List UInt8) : List UInt8 :=
  handshakeType :: vector24 body

def tlsRecord (contentType : UInt8) (version : UInt16) (fragment : List UInt8) : List UInt8 :=
  contentType :: (u16ToBeBytes version ++ vector16 fragment)

@[simp]
theorem u16ToBeBytes_length (v : UInt16) : (u16ToBeBytes v).length = 2 :=
  rfl

@[simp]
theorem vector8_length (bytes : List UInt8) : (vector8 bytes).length = bytes.length + 1 :=
  rfl

@[simp]
theorem vector16_length (bytes : List UInt8) : (vector16 bytes).length = bytes.length + 2 := by
  simp [vector16, Nat.add_comm]

@[simp]
theorem vector24_length (bytes : List UInt8) : (vector24 bytes).length = bytes.length + 3 :=
  rfl

@[simp]
theorem handshakeMessage_length (handshakeType : UInt8) (body : List UInt8) :
    (handshakeMessage handshakeType body).length = body.length + 4 :=
  rfl

@[simp]
theorem tlsRecord_length (contentType : UInt8) (version : UInt16) (fragment : List UInt8) :
    (tlsRecord contentType version fragment).length = fragment.length + 5 := by
  simp [tlsRecord]
  omega

-- The encodings below are stated with the bytes of a length or of a code as variables.
theorem u16ToBeBytes_eq (v : UInt16) :
    ∃ hi lo, u16ToBeBytes v = [hi, lo] ∧ u16FromBeBytes hi lo = v := by
  refine ⟨_, _, rfl, UInt16.toNat_inj.mp ?_⟩
  have := v.toNat_lt
  simp only [u16FromBeBytes_toNat, UInt8.toNat_ofNat']
  omega

theorem vector8_eq {bytes : List UInt8} (h : bytes.length ≤ 255) :
    ∃ n, vector8 bytes = n :: bytes ∧ n.toNat = bytes.length := by
  refine ⟨_, rfl, ?_⟩
  rw [UInt8.toNat_ofNat']
  omega

theorem vector16_eq {bytes : List UInt8} (h : bytes.length ≤ 65535) :
    ∃ hi lo, vector16 bytes = hi :: lo :: bytes ∧
      (u16FromBeBytes hi lo).toNat = bytes.length := by
  have ⟨hi, lo, he, hn⟩ := u16ToBeBytes_eq (UInt16.ofNat bytes.length)
  refine ⟨hi, lo, by rw [vector16, he]; rfl, ?_⟩
  rw [hn, UInt16.toNat_ofNat']
  omega

end TlsProbe
