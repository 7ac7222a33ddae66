import TlsProbe.Common.Wire

namespace TlsProbe

structure Certificate where
  notBefore          : String
  notAfter           : String
  expired            : Bool
  publicKeyAlgorithm : String
  publicKeyBits      : UInt16
  signatureAlgorithm : String
  selfSigned         : Bool
  subjectCn          : Option String
  issuerCn           : Option String
  sanCount           : UInt16
  deriving DecidableEq, Repr

def u24FromBe (b₀ b₁ b₂ : UInt8) : UInt32 :=
  (b₀.toUInt32 <<< 16) ||| (b₁.toUInt32 <<< 8) ||| b₂.toUInt32

theorem u24FromBe_toNat (b₀ b₁ b₂ : UInt8) :
    (u24FromBe b₀ b₁ b₂).toNat = b₀.toNat * 65536 + b₁.toNat * 256 + b₂.toNat := by
  have h₀ := b₀.toNat_lt
  have h₁ := b₁.toNat_lt
  have h₂ := b₂.toNat_lt
  have hs₀ : (b₀.toUInt32 <<< 16).toNat = b₀.toNat <<< 16 := by
    simp [Nat.shiftLeft_eq]
    omega
  have hs₁ : (b₁.toUInt32 <<< 8).toNat = b₁.toNat <<< 8 := by
    simp [Nat.shiftLeft_eq]
    omega
  rw [u24FromBe, UInt32.toNat_or, UInt32.toNat_or, hs₀, hs₁, UInt8.toNat_toUInt32, Nat.or_assoc,
    ←Nat.shiftLeft_add_eq_or_of_lt (i := 8) (by omega),
    ←Nat.shiftLeft_add_eq_or_of_lt (i := 16) (by simp [Nat.shiftLeft_eq]; omega),
    Nat.shiftLeft_eq, Nat.shiftLeft_eq]
  omega

-- The bytes that `parse_certificate` hands on to `parse_der_certificate`.
def leafDer : List UInt8 → Option (List UInt8)
  | c₀ :: c₁ :: c₂ :: l₀ :: l₁ :: l₂ :: rest =>
    let certListLen := (u24FromBe c₀ c₁ c₂).toNat
    let firstCertLen := (u24FromBe l₀ l₁ l₂).toNat
    if certListLen < 3 then none
    else if rest.length < firstCertLen then none
    else some (rest.take firstCertLen)
  | _ => none

-- Certificates are decoded by an X.509 library: `parseDer` stands for `parse_der_certificate`.
def parseCertificate (parseDer : List UInt8 → Option Certificate) (payload : List UInt8) :
    Option Certificate :=
  (leafDer payload).bind parseDer

end TlsProbe
