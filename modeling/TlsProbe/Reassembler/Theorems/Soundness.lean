import TlsProbe.Reassembler.Theorems.Entry

open Std Stream
open scoped UInt32.CommRing

namespace TlsProbe
namespace ReassemblyEntry

-- The fragments of an entry are slices of one stream.
abbrev Slices (stream : UInt32 → UInt8) : ReassemblyEntry → Prop :=
  Holding (IsSlice stream)

variable {stream : UInt32 → UInt8} {entry : ReassemblyEntry} {record : AssembledRecord}

theorem slices_walk (h : entry.Slices stream) (seq : UInt32) :
    IsSlice stream seq (entry.fragments.walk seq).buffer :=
  Fragments.walk_follows.chain.isSlice h

theorem slices_released {k : FlowKey} (h : entry.Slices stream) (hw : entry.WellFormed k)
    (hr : entry.completed = some record ∨ entry.finalized = some record) :
    IsSlice stream record.headCapture.tcpSeq record.buffer := by
  cases hr
  case inl hr =>
    have ⟨head, _, hh, _, _, hr⟩ := completed_eq_some.mp hr
    subst hr
    exact hw.seq head hh ▸ (slices_walk h _).take _
  case inr hr =>
    have ⟨head, hh, hr⟩ := finalized_eq_some.mp hr
    subst hr
    exact hw.seq head hh ▸ slices_walk h _

theorem WellFormed.length_of_not_truncated {k : FlowKey} (hw : entry.WellFormed k)
    (hr : entry.completed = some record ∨ entry.finalized = some record)
    (ht : record.truncated = false) :
    recordTotal record.headCapture.payloadSlice = some record.buffer.length := by
  cases hr
  case inl hr =>
    have ⟨head, total, hh, he, hl, hr⟩ := completed_eq_some.mp hr
    subst hr
    simp only [List.length_take, min_eq_left hl, ←he, hw.expectedTotal, hh, Option.bind_some]
  case inr hr =>
    have ⟨head, hh, hr⟩ := finalized_eq_some.mp hr
    simp [hr] at ht

end ReassemblyEntry

namespace Reassembler

-- Every record that a run returns is a contiguous run of its own flow's stream from the head's
-- position on. It is the whole record unless it is marked as truncated.
theorem records_sound (stream : FlowKey → UInt32 → UInt8) (events : List Event)
    (h : ∀ ev ∈ events, ∀ cap ∈ ev.capture?,
      IsSlice (stream <| .fromCapture cap) cap.tcpSeq cap.payloadSlice) :
    ∀ record ∈ machine.output new events,
      let head := record.headCapture
      IsSlice (stream <| .fromCapture head) head.tcpSeq record.buffer ∧
      (record.truncated = false → ∃ h : 5 ≤ head.payloadSlice.length, record.buffer.length =
        5 + (u16FromBeBytes head.payloadSlice[3] head.payloadSlice[4]).toNat) := by
  let Q cap := IsSlice (stream <| .fromCapture cap) cap.tcpSeq cap.payloadSlice
  let P k (entry : ReassemblyEntry) := entry.WellFormed k ∧ entry.Slices (stream k)
  have p k : Flow.Preserves (fun cap => Q cap ∧ FlowKey.fromCapture cap = k) (P k) := by
    refine ReassemblyEntry.wellFormed_preserves.and <| ReassemblyEntry.holding_preserves.mono ?_
    exact fun cap ⟨hq, hk⟩ => hk ▸ hq
  refine Machine.inv_output (P := Entries P) (C := fun _ ev => ∀ cap ∈ ev.capture?, Q cap)
    (fun _ _ hr hq => hr.step p hq) ?_ new_entries (Machine.allSteps_of_inputs h)
  intro r ev hr hq record hm
  have hh : r.Entries HeadOf := fun k entry he => (hr k entry he).1.key
  have ⟨entry, ⟨hw, hs⟩, he⟩ := hh.output p hr hq record hm
  refine ⟨ReassemblyEntry.slices_released hs hw he, fun ht => ?_⟩
  exact recordTotal_eq_some.mp <| hw.length_of_not_truncated he ht

-- The captures of a handshake record of 15 bytes in two segments, as in the tests of reasm.rs.
def helloHead : RawTlsCapture :=
  makeCapture 100 [0x16, 0x03, 0x03, 0x00, 0x0a, 0x68, 0x65, 0x6c, 0x6c, 0x6f] flagFragment

def helloTail : RawTlsCapture :=
  makeCapture 110 [0x20, 0x77, 0x6f, 0x72, 0x6c] flagContinuation

def helloRecord : List UInt8 :=
  helloHead.payloadSlice ++ helloTail.payloadSlice

-- The continuation comes first, and so finds no entry of its flow.
def swappedHello : List Event :=
  [.capture .still helloTail, .capture .still helloHead]

theorem records_sound_hello :
    (machine.output new swappedHello).length = 1 ∧ ∀ record ∈ machine.output new swappedHello,
      let head := record.headCapture
      IsSlice (fun seq => helloRecord.getD (seq - 100).toNat 0) head.tcpSeq record.buffer ∧
      (record.truncated = false → ∃ h : 5 ≤ head.payloadSlice.length, record.buffer.length =
        5 + (u16FromBeBytes head.payloadSlice[3] head.payloadSlice[4]).toNat) := by
  have hq : ∀ ev ∈ swappedHello, ∀ cap ∈ ev.capture?,
      IsSlice (fun seq => helloRecord.getD (seq - 100).toNat 0) cap.tcpSeq cap.payloadSlice := by
    decide +kernel
  exact ⟨by decide +kernel, records_sound (fun _ seq => helloRecord.getD (seq - 100).toNat 0) _ hq⟩

end Reassembler
end TlsProbe
