import TlsProbe.Classifier.Theorems.Frame

namespace TlsProbe

namespace Packet

variable {pkt : Packet}

-- None of the bytes that are copied lies behind the datagram: the frame has no padding, or the
-- datagram has enough payload for the copy.
def Fits (pkt : Packet) : Prop :=
  pkt.len ≤ pkt.datagramEnd ∨ pkt.tcpData + rawPayloadSize ≤ pkt.datagramEnd

theorem tcpPayload_eq : pkt.tcpPayload = pkt.rest.take (pkt.datagramEnd - pkt.tcpData) :=
  List.drop_take

theorem rest_length : pkt.rest.length = pkt.len - pkt.tcpData :=
  List.length_drop ..

theorem fits_iff (h : pkt.tcpData < pkt.len) :
    pkt.Fits ↔ pkt.rest.take rawPayloadSize <+: pkt.tcpPayload := by
  have hr := @rest_length pkt
  rw [tcpPayload_eq]
  constructor
  case mp =>
    intro hf
    refine List.prefix_of_prefix_length_le (List.take_prefix ..) (List.take_prefix ..) ?_
    simp only [Fits, rawPayloadSize, List.length_take] at *
    omega
  case mpr =>
    intro hp
    have := hp.length_le
    simp only [Fits, rawPayloadSize, List.length_take] at *
    omega

theorem Fits.tcpPayload_ne_nil (hf : pkt.Fits) (h : pkt.tcpData < pkt.len) :
    pkt.tcpPayload ≠ [] := by
  have hr := @rest_length pkt
  rw [tcpPayload_eq, ne_eq, List.take_eq_nil_iff, ←List.length_eq_zero_iff]
  simp only [Fits, rawPayloadSize] at hf
  omega

end Packet

namespace Classifier

variable {reasmMap : ReasmMap} {kernel : Kernel} {pkt : Packet} {isEgress : Bool}

-- What is emitted of a frame is payload of its TCP segment, and nothing is done without any.
def Confined (reasmMap : ReasmMap) (kernel : Kernel) (pkt : Packet) (isEgress : Bool) : Prop :=
  (∀ ev, (tryCaptureTls reasmMap kernel pkt isEgress).2 = some ev →
    ev.payloadSlice <+: pkt.tcpPayload) ∧
  (pkt.tcpPayload = [] → tryCaptureTls reasmMap kernel pkt isEgress = (reasmMap, none))

theorem Captured.event (h : Captured reasmMap pkt isEgress) (kernel : Kernel) :
    pkt.tcpData < pkt.len ∧ ∃ reasmMap' ev, tryCaptureTls reasmMap kernel pkt isEgress =
      (reasmMap', some ev) ∧ ev.payloadSlice = copiedPayload pkt (tcpSegment pkt) := by
  obtain ⟨seg, rec, hs, hr, hc⟩ := h
  have he := tryCaptureTls_of_captured kernel hs hr hc
  obtain ⟨-, -, hl, rfl⟩ := segment_eq_some hs
  exact ⟨by omega, _, _, he, payloadSlice_captureEvent⟩

theorem confined_iff : Confined reasmMap kernel pkt isEgress ↔
    (Captured reasmMap pkt isEgress → pkt.Fits ∨ (pkt.tcpPayload ≠ [] ∧
      pkt.loads pkt.tcpData (min pkt.rest.length rawPayloadSize) = false)) := by
  by_cases hc : Captured reasmMap pkt isEgress
  case neg =>
    simp [Confined, tryCaptureTls_of_not_captured hc, hc]
  case pos =>
    obtain ⟨hl, reasmMap', ev, he, hp⟩ := hc.event kernel
    simp only [Confined, he, Option.some.injEq, forall_eq', hp, copiedPayload_eq, Prod.mk.injEq,
      reduceCtorEq, and_false, imp_false, hc, true_imp_iff]
    cases pkt.loads pkt.tcpData (min pkt.rest.length rawPayloadSize)
    case false =>
      have : pkt.Fits → pkt.tcpPayload ≠ [] := (·.tcpPayload_ne_nil hl)
      simpa using this
    case true =>
      rw [if_pos rfl, ←Packet.fits_iff hl]
      simpa using (·.tcpPayload_ne_nil hl)

-- An acknowledgement without options, which Ethernet pads to its minimum of 60 bytes.
def paddedAck : Packet :=
  .ofBytes <| List.replicate 12 0 ++ [0x08, 0x00] ++
    [0x45, 0, 0, 40, 0, 0, 0, 0, 64, 6, 0, 0, 10, 0, 0, 1, 10, 0, 0, 2] ++
    [0x01, 0xbb, 0x9c, 0x40, 0, 0, 0, 1, 0, 0, 0, 0, 0x50, 0x10, 0, 0, 0, 0, 0, 0] ++
    List.replicate 6 0

-- A record of its connection is pending.
def ackPending : ReasmMap :=
  (∅ : ReasmMap).insert (reasmKey (tcpSegment paddedAck) false) ⟨100, 3⟩

theorem paddedAck_not_confined :
    ¬∀ reasmMap kernel pkt isEgress, Confined reasmMap kernel pkt isEgress := by
  intro h
  have hs : segment paddedAck = some (tcpSegment paddedAck) :=
    segment_of_readable (Packet.readable_ofBytes (by decide) (by decide)) (by decide +kernel)
      (by decide +kernel) (by decide +kernel)
  have hr : paddedAck.loadBytes 6 paddedAck.tcpData = some (paddedAck.field 6 paddedAck.tcpData) :=
    Packet.loadBytes_eq_some.mpr ⟨by decide +kernel, rfl⟩
  have hc : Captured ackPending paddedAck false :=
    ⟨_, _, hs, hr, .inl Std.ExtTreeMap.contains_insert_self⟩
  obtain ⟨-, _, _, he, -⟩ := hc.event idleKernel
  have := (h ackPending idleKernel paddedAck false).2 (by decide +kernel)
  simp [he] at this

end Classifier
end TlsProbe
