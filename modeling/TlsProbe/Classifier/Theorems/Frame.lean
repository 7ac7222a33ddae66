import TlsProbe.Classifier.Frame
import TlsProbe.Classifier.Theorems.Capture
namespace TlsProbe

theorem guard_eq_some {p : Prop} [Decidable p] {u : Unit} :
    (guard p : Option Unit) = some u ↔ p := by
  simp [guard]

namespace Packet

variable {pkt : Packet} {n offset : Nat} {b : UInt8} {w : UInt16}

@[simp]
theorem field_getElem {i : Nat} (h : i < n) : (pkt.field n offset)[i] = pkt.byte (offset + i) := by
  simp [field]

theorem slice_eq_field {h : offset + n ≤ pkt.bytes.length} :
    Reader.slice pkt.bytes offset n h = pkt.field n offset :=
  Vector.ext fun _ hi => (Reader.slice_getElem 0 hi).trans (field_getElem hi).symm

theorem readU8_eq_some : pkt.readU8 offset = some b ↔
    offset + 1 ≤ pkt.linear ∧ pkt.byte offset = b := by
  have := pkt.linear_le
  simp only [readU8, byte, Option.ite_none_right_eq_some]
  refine and_congr_right fun h => ?_
  have hl : offset < pkt.bytes.length := by omega
  rw [List.getElem?_eq_getElem hl, ←List.getElem_eq_getD (h := hl), Option.some.injEq]

theorem readU16Be_eq_some : pkt.readU16Be offset = some w ↔
    offset + 2 ≤ pkt.linear ∧ pkt.word offset = w := by
  simp [readU16Be, word, byte]

theorem loadBytes_eq_some {bytes : Vector UInt8 n} : pkt.loadBytes n offset = some bytes ↔
    pkt.loads offset n = true ∧ pkt.field n offset = bytes := by
  simp [loadBytes, slice_eq_field]

theorem loadBytes_toList : ((pkt.loadBytes n offset).map (·.toList)).getD [] =
    if pkt.loads offset n then (pkt.bytes.drop offset).take n else [] := by
  simp only [loadBytes]
  split <;> simp [*]

theorem loadU8_eq_some : pkt.loadU8 offset = some b ↔
    pkt.loads offset 1 = true ∧ pkt.byte offset = b := by
  simp only [loadU8, Option.map_eq_some_iff, loadBytes_eq_some]
  constructor
  case mp =>
    rintro ⟨bytes, ⟨hl, rfl⟩, rfl⟩
    exact ⟨hl, (field_getElem Nat.one_pos).symm⟩
  case mpr =>
    rintro ⟨hl, rfl⟩
    exact ⟨_, ⟨hl, rfl⟩, field_getElem Nat.one_pos⟩

theorem readable_ofBytes {bytes : List UInt8} (h : 34 ≤ bytes.length) (hl : bytes.length < 2 ^ 32) :
    (ofBytes bytes).Readable where
  len_lt := hl
  linear := h
  loads  := fun _ _ _ ho => decide_eq_true ho

end Packet

namespace Classifier

open Packet

variable {pkt : Packet} {seg : Segment} {isIpv6 : Bool} {ipHdrLen srcOffset dstOffset : Nat}

theorem ipLayer_eq_some (h : ipLayer pkt = some (isIpv6, ipHdrLen, srcOffset, dstOffset)) :
    pkt.isTcp ∧ isIpv6 = pkt.isIpv6 ∧ ipHdrLen = pkt.ipHeaderLen ∧
      srcOffset = (if isIpv6 then 22 else 26) ∧ dstOffset = (if isIpv6 then 38 else 30) := by
  simp only [ipLayer, Option.bind_eq_bind, Option.bind_eq_some_iff, readU16Be_eq_some] at h
  obtain ⟨_, ⟨-, rfl⟩, h⟩ := h
  split at h
  case isTrue he =>
    simp only [Option.bind_eq_some_iff, guard_eq_some, readU8_eq_some, Option.pure_def] at h
    obtain ⟨_, ⟨-, rfl⟩, _, hp, _, ⟨-, rfl⟩, _, hl, hs⟩ := h
    cases hs
    have h₄ : pkt.isIpv6 = false := by simp [Packet.isIpv6, etherType, he, ethPIp]
    simp_all [isTcp, protocol, ipHeaderLen, etherType, ethPIp, ipprotoTcp, minIpHdrLen]
  case isFalse =>
    split at h
    case isFalse => contradiction
    case isTrue he =>
      simp only [Option.bind_eq_some_iff, guard_eq_some, readU8_eq_some, Option.pure_def] at h
      obtain ⟨_, ⟨-, rfl⟩, _, hp, hs⟩ := h
      cases hs
      have h₆ : pkt.isIpv6 = true := by simp [Packet.isIpv6, etherType, he, ethPIpv6]
      simp_all [isTcp, protocol, ipHeaderLen, ipprotoTcp, ipv6HdrLen]

theorem loadAddr_eq_some {addr : Addr} {offset₄ offset₆ : Nat}
    (h : loadAddr pkt pkt.isIpv6 (if pkt.isIpv6 then offset₆ else offset₄) = some addr) :
    pkt.address offset₄ offset₆ = addr := by
  cases h₆ : pkt.isIpv6 <;>
    simp_all [loadAddr, Packet.address, loadBytes_eq_some]

theorem segment_eq_some (h : segment pkt = some seg) :
    pkt.isTcp ∧ 20 ≤ pkt.tcpHeaderLen ∧ pkt.tcpData + 6 ≤ pkt.len ∧ seg = tcpSegment pkt := by
  simp only [segment, Option.bind_eq_bind, Option.bind_eq_some_iff, guard_eq_some, loadU8_eq_some,
    loadBytes_eq_some, Option.pure_def, Option.some.injEq] at h
  obtain ⟨_, -, ⟨isIpv6, ipHdrLen, srcOffset, dstOffset⟩, hi, _, -, _, ⟨-, rfl⟩, _, ⟨hd, -⟩, _, hl,
    src, hs, dst, ht, _, ⟨-, rfl⟩, rfl⟩ := h
  obtain ⟨hp, rfl, rfl, rfl, rfl⟩ := ipLayer_eq_some hi
  refine ⟨hp, hd, hl, ?_⟩
  simp only [tcpSegment, loadAddr_eq_some hs, loadAddr_eq_some ht, field_getElem]
  rfl

theorem loadBytes_of_readable {n offset : Nat} (r : pkt.Readable) (hn : 0 < n)
    (h : offset + n ≤ pkt.len) : pkt.loadBytes n offset = some (pkt.field n offset) :=
  loadBytes_eq_some.mpr ⟨r.loads _ _ hn h, rfl⟩

theorem ipLayer_of_readable (r : pkt.Readable) (hp : pkt.isTcp) : ipLayer pkt =
    some (pkt.isIpv6, pkt.ipHeaderLen, if pkt.isIpv6 then 22 else 26,
      if pkt.isIpv6 then 38 else 30) := by
  have hl := r.linear
  have he : pkt.readU16Be 12 = some pkt.etherType := readU16Be_eq_some.mpr ⟨by omega, rfl⟩
  have hb {offset : Nat} (h : offset < 34) : pkt.readU8 offset = some (pkt.byte offset) :=
    readU8_eq_some.mpr ⟨by omega, rfl⟩
  cases h₆ : pkt.isIpv6
  case false =>
    simp only [isTcp, h₆, protocol, Bool.and_eq_true, Bool.or_eq_true, decide_eq_true_eq] at hp
    obtain ⟨hp, h | ⟨ht, hl⟩⟩ := hp
    case inl => contradiction
    have hi : pkt.ipHeaderLen = (pkt.byte 14 &&& 0x0f).toNat * 4 := by simp [ipHeaderLen, h₆]
    rw [hi] at hl
    simp_all [ipLayer, ethPIp, ipprotoTcp, minIpHdrLen, guard]
  case true =>
    simp only [isTcp, h₆, protocol, Bool.and_eq_true, Bool.or_eq_true, decide_eq_true_eq] at hp
    simp only [Packet.isIpv6, decide_eq_true_eq] at h₆
    simp_all [ipLayer, ethPIp, ethPIpv6, ipprotoTcp, ipHeaderLen, Packet.isIpv6, guard, ipv6HdrLen]

theorem ipHeaderLen_le (hp : pkt.isTcp) : 20 ≤ pkt.ipHeaderLen := by
  cases h₆ : pkt.isIpv6 <;> simp_all [isTcp, ipHeaderLen]

theorem tcpHeaderLen_le : pkt.tcpHeaderLen ≤ 60 := by
  have h (b : UInt8) : (b >>> 4).toNat ≤ 15 := by
    have := b.toNat_lt
    simp [Nat.shiftRight_eq_div_pow]
    omega
  have := h (pkt.byte (pkt.tcpHeader + 12))
  simp only [tcpHeaderLen]
  omega

theorem loadAddr_of_readable {offset₄ offset₆ : Nat} (r : pkt.Readable)
    (h₄ : offset₄ + 4 ≤ pkt.len) (h₆ : offset₆ + 16 ≤ pkt.len) :
    loadAddr pkt pkt.isIpv6 (if pkt.isIpv6 then offset₆ else offset₄) =
      some (pkt.address offset₄ offset₆) := by
  cases hi : pkt.isIpv6
  case false => simp [loadAddr, Packet.address, hi, loadBytes_of_readable r (Nat.succ_pos 3) h₄]
  case true  => simp [loadAddr, Packet.address, hi, loadBytes_of_readable r (Nat.succ_pos 15) h₆]

theorem segment_of_readable (r : pkt.Readable) (hp : pkt.isTcp) (hd : 20 ≤ pkt.tcpHeaderLen)
    (hl : pkt.tcpData + 6 ≤ pkt.len) : segment pkt = some (tcpSegment pkt) := by
  have hm := ipHeaderLen_le hp
  have ht : pkt.tcpData = pkt.tcpHeader + pkt.tcpHeaderLen := rfl
  have hi : pkt.tcpHeader = 14 + pkt.ipHeaderLen := rfl
  simp only [segment, Option.bind_eq_bind, Option.bind_eq_some_iff, guard_eq_some, loadU8_eq_some,
    loadBytes_eq_some, Option.pure_def, Option.some.injEq]
  refine ⟨(), ?len, _, ipLayer_of_readable r hp, (), ?tcp, _,
    ⟨r.loads (pkt.tcpHeader + 12) 1 ?_ ?_, rfl⟩, (), ⟨hd, tcpHeaderLen_le⟩, (), hl, _,
    loadAddr_of_readable r ?_ ?_, _, loadAddr_of_readable r ?_ ?_, _,
    ⟨r.loads pkt.tcpHeader 4 ?_ ?_, rfl⟩, ?segment⟩
  case segment   => simp only [tcpSegment, field_getElem]; rfl
  case len | tcp => simp only [ethHdrLen, minIpHdrLen, minTcpHdrLen, tlsRecordHdrLen]; omega
  all_goals omega

section Event

variable {kernel : Kernel} {rec : RecordStart} {isEgress isContinuation : Bool}

theorem payloadAvail_eq : payloadAvail pkt (tcpSegment pkt) = pkt.rest.length :=
  (List.length_drop ..).symm

theorem copiedPayload_eq : copiedPayload pkt (tcpSegment pkt) =
    if pkt.loads pkt.tcpData (min pkt.rest.length rawPayloadSize) then
      pkt.rest.take rawPayloadSize
    else
      [] := by
  have ht : pkt.rest.take (min pkt.rest.length rawPayloadSize) = pkt.rest.take rawPayloadSize := by
    rw [Nat.min_comm, ←List.take_take, List.take_length]
  simp only [copiedPayload, payloadAvail_eq, loadBytes_toList, ←ht]
  split
  case isTrue  => rfl
  case isFalse =>
    have : min pkt.rest.length rawPayloadSize = 0 := by omega
    simp [this]

theorem copiedPayload_of_readable (r : pkt.Readable) (h : pkt.tcpData < pkt.len) :
    copiedPayload pkt (tcpSegment pkt) = pkt.rest.take rawPayloadSize := by
  have hr : pkt.rest.length = pkt.len - pkt.tcpData := List.length_drop ..
  rw [copiedPayload_eq, if_pos]
  exact r.loads _ _ (by simp only [rawPayloadSize]; omega) (by omega)

theorem payloadSlice_captureEvent :
    (captureEvent kernel pkt seg rec isEgress isContinuation).payloadSlice =
      copiedPayload pkt seg := by
  have hl : (copiedPayload pkt seg).length ≤ rawPayloadSize := by
    have := @copiedPayload_length pkt seg
    omega
  rw [RawTlsCapture.payloadSlice, payloadLen_captureEvent, Nat.min_eq_left hl]
  simp [captureEvent, padPayload, Vector.toList, List.take_take, Nat.min_eq_left hl]

theorem tcpSeq_of_readable (r : pkt.Readable) (h : pkt.tcpHeader + 8 ≤ pkt.len) :
    tcpSeq pkt (tcpSegment pkt) = pkt.seqNumber := by
  have hl : pkt.tcpHeader + 4 + 4 ≤ pkt.len := by omega
  simp [tcpSeq, tcpSegment, loadBytes_of_readable r (Nat.succ_pos 3) hl, h, seqNumber]

end Event

section Capture

variable {reasmMap : ReasmMap} {kernel : Kernel} {rec : RecordStart} {isEgress : Bool}

-- The packet passes the checks of the headers, and continues a record or starts one.
def Captured (reasmMap : ReasmMap) (pkt : Packet) (isEgress : Bool) : Prop :=
  ∃ seg rec, segment pkt = some seg ∧ pkt.loadBytes 6 seg.tlsStart = some rec ∧
    (reasmMap.contains (reasmKey seg isEgress) ∨ startsRecord rec)

theorem tryCaptureTls_of_not_captured (h : ¬Captured reasmMap pkt isEgress) :
    tryCaptureTls reasmMap kernel pkt isEgress = (reasmMap, none) := by
  unfold tryCaptureTls
  split
  case h_1 => rfl
  case h_2 seg hs =>
    simp only
    split
    case h_1 => rfl
    case h_2 rec hr =>
      refine if_neg fun hc => h ⟨seg, rec, hs, hr, ?_⟩
      simpa using hc

theorem tryCaptureTls_of_captured (kernel : Kernel) (hs : segment pkt = some seg)
    (hr : pkt.loadBytes 6 seg.tlsStart = some rec)
    (hc : reasmMap.contains (reasmKey seg isEgress) ∨ startsRecord rec) :
    tryCaptureTls reasmMap kernel pkt isEgress =
      (if reasmMap.contains (reasmKey seg isEgress) then
        continueReassembly reasmMap (reasmKey seg isEgress) (payloadAvail pkt seg)
      else
        startReassembly reasmMap (reasmKey seg isEgress) (recordLen rec + tlsRecordHdrLen)
          (payloadAvail pkt seg),
      some <| captureEvent kernel pkt seg rec isEgress
        (reasmMap.contains (reasmKey seg isEgress))) := by
  simp only [tryCaptureTls, hs, hr]
  exact if_pos (by simpa using hc)

end Capture
end Classifier
end TlsProbe
