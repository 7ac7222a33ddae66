import Std.Data.ExtTreeMap
import TlsProbe.Common.Capture

open Std

namespace TlsProbe

structure ConnKey where
  srcAddr : Addr
  dstAddr : Addr
  srcPort : UInt16
  dstPort : UInt16
  deriving DecidableEq, Ord

namespace ConnKey

-- The source keeps these keys in hash maps. The order is the one that the models of these maps use.
theorem compare_eq : (compare : ConnKey → ConnKey → Ordering) =
    compareLex (compareOn srcAddr) (compareLex (compareOn dstAddr)
      (compareLex (compareOn srcPort) (compareOn dstPort))) := by
  funext k₁ k₂
  simp [compare, instOrdConnKey.ord, compareLex, compareOn]

instance : TransOrd ConnKey := by
  have : TransCmp (compareLex (compareOn srcAddr) (compareLex (compareOn dstAddr)
      (compareLex (compareOn srcPort) (compareOn dstPort)))) := inferInstance
  rwa [←compare_eq] at this

instance : LawfulEqOrd ConnKey where
  eq_of_compare {k₁ k₂} h := by
    simp only [compare_eq, compareLex, compareOn, Ordering.then_eq_eq, Std.compare_eq_iff_eq] at h
    cases k₁; cases k₂; simp_all

end ConnKey

-- The connection under which the correlator knows a capture.
def RawTlsCapture.connKey (cap : RawTlsCapture) : ConnKey where
  srcAddr := cap.srcAddr
  dstAddr := cap.dstAddr
  srcPort := cap.srcPort
  dstPort := cap.dstPort

end TlsProbe
