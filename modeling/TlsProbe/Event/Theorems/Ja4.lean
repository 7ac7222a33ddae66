import Mathlib.Data.List.Sort
import TlsProbe.Event.Ja4
import TlsProbe.Lib.Digits

namespace TlsProbe.Ja4

section Encoding

variable {ids ids' : List UInt16} {c : Char}

end Encoding

def ciphers (hello : ParsedClientHello) : List UInt16 :=
  hello.cipherSuites.filter (!isGrease ·)

def exts (hello : ParsedClientHello) : List UInt16 :=
  hello.extensionIds.filter fun e => !isGrease e && e ≠ 0x0000 && e ≠ 0x0010

section Hashes

variable {sha256 : String → String} {hello hello' : ParsedClientHello}

end Hashes

-- `values'` are `values` with GREASE inserted anywhere.
inductive Greased : List UInt16 → List UInt16 → Prop
  | nil : Greased [] []
  | keep {values values' : List UInt16} (value : UInt16) (h : Greased values values') :
      Greased (value :: values) (value :: values')
  | insert {values values' : List UInt16} {grease : UInt16} (hg : isGrease grease)
      (h : Greased values values') : Greased values (grease :: values')

theorem Greased.filter {values values' : List UInt16} (h : Greased values values') :
    values'.filter (!isGrease ·) = values.filter (!isGrease ·) := by
  induction h
  case nil            => rfl
  case keep v _ hi    => rw [List.filter_cons, List.filter_cons, hi]
  case insert hg _ hi => rw [List.filter_cons, hi, hg]; rfl

-- `values'` are `values` in any order, with GREASE inserted anywhere.
def Shuffled (values values' : List UInt16) : Prop :=
  ∃ permuted, values.Perm permuted ∧ Greased permuted values'

theorem Shuffled.filter {values values' : List UInt16} (h : Shuffled values values') :
    (values'.filter (!isGrease ·)).Perm (values.filter (!isGrease ·)) := by
  obtain ⟨permuted, hp, hg⟩ := h
  rw [hg.filter]
  exact (hp.filter _).symm

section Invariance

variable {hello : ParsedClientHello} {cipherSuites extensionIds supportedVersions : List UInt16}

end Invariance

end TlsProbe.Ja4
