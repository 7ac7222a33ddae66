import TlsProbe.Classifier.Basic

namespace TlsProbe.Classifier

variable {reasmMap reasmMap' : ReasmMap} {kernel : Kernel} {pkt : Packet} {seg : Segment}
variable {rec : RecordStart} {isEgress isContinuation : Bool} {ev : RawTlsCapture}

-- All that goes into an event.
theorem tryCaptureTls_eq_some (h : tryCaptureTls reasmMap kernel pkt isEgress = (reasmMap', some ev)) :
    ∃ seg rec, segment pkt = some seg ∧ pkt.loadBytes 6 seg.tlsStart = some rec ∧
      (reasmMap.contains (reasmKey seg isEgress) ∨ startsRecord rec) ∧
      ev = captureEvent kernel pkt seg rec isEgress
        (reasmMap.contains (reasmKey seg isEgress)) := by
  unfold tryCaptureTls at h
  split at h
  case h_1 => simp at h
  case h_2 seg hs =>
    simp only at h
    split at h
    case h_1 => simp at h
    case h_2 rec hr =>
      split at h
      case isFalse => simp at h
      case isTrue hc =>
        simp only [Prod.mk.injEq, Option.some.injEq] at h
        exact ⟨seg, rec, hs, hr, by simpa using hc, h.2.symm⟩

section Event

theorem eventFlags_fragment : ∀ isEgress isAlert isContinuation isFragmented,
    (eventFlags isEgress isAlert isContinuation isFragmented &&& flagFragment != 0) =
      (!isContinuation && isFragmented) := by
  decide

theorem eventFlags_continuation : ∀ isEgress isAlert isContinuation isFragmented,
    (eventFlags isEgress isAlert isContinuation isFragmented &&& flagContinuation != 0) =
      isContinuation := by
  decide

@[simp]
theorem isFragment_captureEvent :
    (captureEvent kernel pkt seg rec isEgress isContinuation).isFragment =
      (!isContinuation && isFragmented pkt seg rec) :=
  eventFlags_fragment ..

@[simp]
theorem isContinuation_captureEvent :
    (captureEvent kernel pkt seg rec isEgress isContinuation).isContinuation = isContinuation :=
  eventFlags_continuation ..

theorem copiedPayload_length : (copiedPayload pkt seg).length = 0 ∨
    (copiedPayload pkt seg).length = min (payloadAvail pkt seg) rawPayloadSize := by
  simp only [copiedPayload]
  split
  case isFalse => simp
  case isTrue =>
    cases pkt.loadBytes (min (payloadAvail pkt seg) rawPayloadSize) seg.tlsStart
    case none => simp
    case some => simp

theorem payloadLen_captureEvent :
    (captureEvent kernel pkt seg rec isEgress isContinuation).payloadLen.toNat =
      (copiedPayload pkt seg).length := by
  simp only [captureEvent, UInt16.toNat_ofNat']
  have hl := @copiedPayload_length pkt seg
  simp only [rawPayloadSize] at hl
  omega

end Event

theorem complete_or_flagged_iff (hs : segment pkt = some seg)
    (hr : pkt.loadBytes 6 seg.tlsStart = some rec)
    (h : tryCaptureTls reasmMap kernel pkt isEgress = (reasmMap', some ev))
    (hc : ev.isContinuation = false) (hp : 0 < ev.payloadLen) :
    (tlsRecordHdrLen + recordLen rec ≤ ev.payloadLen.toNat ∨ ev.isFragment = true) ↔
      ¬(rawPayloadSize < tlsRecordHdrLen + recordLen rec ∧
        tlsRecordHdrLen + recordLen rec ≤ payloadAvail pkt seg) := by
  obtain ⟨seg', rec', hs', hr', -, rfl⟩ := tryCaptureTls_eq_some h
  obtain rfl : seg = seg' := Option.some.inj (hs.symm.trans hs')
  obtain rfl : rec = rec' := Option.some.inj (hr.symm.trans hr')
  rw [isContinuation_captureEvent] at hc
  rw [UInt16.lt_iff_toNat_lt, payloadLen_captureEvent] at hp
  rw [payloadLen_captureEvent, isFragment_captureEvent, hc]
  have hl := @copiedPayload_length pkt seg
  simp only [Bool.not_false, Bool.true_and, isFragmented, decide_eq_true_eq]
  omega

-- An Ethernet frame with an IPv4 and a TCP header, both without options.
def frame (tls : List UInt8) : List UInt8 :=
  List.replicate 12 0 ++ [0x08, 0x00] ++
    [0x45, 0, 0, 0, 0, 0, 0, 0, 64, 6, 0, 0, 10, 0, 0, 1, 10, 0, 0, 2] ++
    [0x01, 0xbb, 0x9c, 0x40, 0, 0, 0, 1, 0, 0, 0, 0, 0x50, 0, 0, 0, 0, 0, 0, 0] ++ tls

def idleKernel : Kernel where
  ktimeNs  := 0
  connInfo := fun _ => none

-- An offloaded packet that holds a Certificate record of 5000 bytes, and part of the next one.
def gsoPacket : Packet :=
  .ofBytes <| frame <| [0x16, 3, 3, 0x13, 0x88, 0x0b] ++ List.replicate 5999 0

-- The record fits the packet, but not the event.
theorem gsoPacket_cut : ¬∀ reasmMap kernel pkt isEgress reasmMap' ev seg rec,
    segment pkt = some seg → pkt.loadBytes 6 seg.tlsStart = some rec →
    tryCaptureTls reasmMap kernel pkt isEgress = (reasmMap', some ev) →
    ev.isContinuation = false → 0 < ev.payloadLen →
    tlsRecordHdrLen + recordLen rec ≤ ev.payloadLen.toNat ∨ ev.isFragment = true := by
  intro h
  have hs : (segment gsoPacket).any fun seg =>
      (gsoPacket.loadBytes 6 seg.tlsStart).any (recordLen · = 5000) := by
    decide +kernel
  have he : (tryCaptureTls ∅ idleKernel gsoPacket true).2.any fun ev =>
      ev.isContinuation = false ∧ ev.payloadLen = 4096 ∧ ev.isFragment = false := by
    decide +kernel
  simp only [Option.any_eq_true, decide_eq_true_eq] at hs he
  obtain ⟨seg, hs, rec, hr, hl⟩ := hs
  obtain ⟨ev, he, hc, hp, hf⟩ := he
  have ht : tryCaptureTls ∅ idleKernel gsoPacket true =
      ((tryCaptureTls ∅ idleKernel gsoPacket true).1, some ev) := by rw [←he]
  have := h ∅ idleKernel gsoPacket true _ ev seg rec hs hr ht hc (by simp [hp])
  simp [hp, hf, hl, tlsRecordHdrLen] at this

-- The same record in a packet that holds only the start of it.
def cutPacket : Packet :=
  .ofBytes <| frame <| [0x16, 3, 3, 0x13, 0x88, 0x0b] ++ List.replicate 1000 0

theorem complete_or_flagged_cutPacket : ∃ reasmMap' ev seg rec,
    tryCaptureTls ∅ idleKernel cutPacket true = (reasmMap', some ev) ∧
    ((tlsRecordHdrLen + recordLen rec ≤ ev.payloadLen.toNat ∨ ev.isFragment = true) ↔
      ¬(rawPayloadSize < tlsRecordHdrLen + recordLen rec ∧
        tlsRecordHdrLen + recordLen rec ≤ payloadAvail cutPacket seg)) := by
  have hs : (segment cutPacket).any fun seg => (cutPacket.loadBytes 6 seg.tlsStart).isSome := by
    decide +kernel
  have he : (tryCaptureTls ∅ idleKernel cutPacket true).2.any fun ev =>
      ev.isContinuation = false ∧ 0 < ev.payloadLen := by
    decide +kernel
  simp only [Option.any_eq_true, Option.isSome_iff_exists, decide_eq_true_eq] at hs he
  obtain ⟨seg, hs, rec, hr⟩ := hs
  obtain ⟨ev, he, hc, hp⟩ := he
  have ht : tryCaptureTls ∅ idleKernel cutPacket true =
      ((tryCaptureTls ∅ idleKernel cutPacket true).1, some ev) := by rw [←he]
  exact ⟨_, ev, seg, rec, ht, complete_or_flagged_iff hs hr ht hc hp⟩

end TlsProbe.Classifier
