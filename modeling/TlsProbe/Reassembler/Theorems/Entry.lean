import TlsProbe.Reassembler.Theorems.Projection
import TlsProbe.Reassembler.Theorems.Walk

open Std

namespace TlsProbe
namespace ReassemblyEntry

-- The head of an entry is a capture of the entry's flow, and the expected length is the one that
-- this capture's record header claims.
structure WellFormed (k : FlowKey) (entry : ReassemblyEntry) : Prop where
  key           : ∀ head ∈ entry.head, FlowKey.fromCapture head.capture = k
  seq           : ∀ head ∈ entry.head, head.seq = head.capture.tcpSeq
  expectedTotal : entry.expectedTotal =
    entry.head.bind fun head => recordTotal head.capture.payloadSlice

variable {k : FlowKey} {entry : ReassemblyEntry} {record : AssembledRecord}
variable {Q : RawTlsCapture → Prop}

theorem wellFormed_preserves :
    Flow.Preserves (fun cap => Q cap ∧ FlowKey.fromCapture cap = k) (WellFormed k) where
  orphan _ := by constructor <;> simp [Reassembler.orphan]
  head _ _ _ hq := by constructor <;> simp [receiveHead, hq.2]
  continuation _ _ h _ := ⟨h.key, h.seq, h.expectedTotal⟩

-- All segments that an entry holds satisfy `S`.
def Holding (S : UInt32 → List UInt8 → Prop) (entry : ReassemblyEntry) : Prop :=
  ∀ (seq : UInt32) payload, entry.fragments[seq]? = some payload → S seq payload

theorem holding_preserves {S : UInt32 → List UInt8 → Prop} :
    Flow.Preserves (fun cap => S cap.tcpSeq cap.payloadSlice) (Holding S) := by
  have insert {entry : ReassemblyEntry} {cap : RawTlsCapture} (h : entry.Holding S)
      (hq : S cap.tcpSeq cap.payloadSlice) : ∀ (seq : UInt32) payload,
      (entry.fragments.insert cap.tcpSeq cap.payloadSlice)[seq]? = some payload → S seq payload := by
    intro seq payload hs
    simp only [ExtTreeMap.getElem?_insert, Std.compare_eq_iff_eq] at hs
    split at hs
    case isTrue he => exact he ▸ Option.some.inj hs ▸ hq
    case isFalse   => exact h seq payload hs
  constructor
  case orphan       => simp [Holding, Reassembler.orphan]
  case head         => exact fun _ _ h hq => insert h hq
  case continuation => exact fun _ _ h hq => insert h hq

theorem completed_eq_some : entry.completed = some record ↔
    ∃ head total, entry.head = some head ∧ entry.expectedTotal = some total ∧
      total ≤ (entry.fragments.walk head.seq).buffer.length ∧
      record = ⟨head.capture, (entry.fragments.walk head.seq).buffer.take total, false⟩ := by
  simp only [completed]
  cases entry.head <;> cases entry.expectedTotal <;>
    simp [Fragments.walk_follows.contiguousBytes, eq_comm]

theorem finalized_eq_some : entry.finalized = some record ↔
    ∃ head, entry.head = some head ∧
      record = ⟨head.capture, (entry.fragments.walk head.seq).buffer, true⟩ := by
  simp [finalized, eq_comm]

section Head

variable {cap : RawTlsCapture} {seq : UInt32} {created : Instant}

-- All segments of the entry end before the position `seq`.
def EndsBefore (seq : UInt32) : ReassemblyEntry → Prop :=
  Holding fun start payload => start.toNat + payload.length ≤ seq.toNat

theorem EndsBefore.walk (h : entry.EndsBefore cap.tcpSeq) :
    ((entry.receiveHead cap).fragments.walk cap.tcpSeq).buffer = cap.payloadSlice := by
  set fragments := (entry.receiveHead cap).fragments with hf
  have get (start : UInt32) : fragments[start]? =
      if cap.tcpSeq = start then some cap.payloadSlice else entry.fragments[start]? := by
    simp [hf, receiveHead, ExtTreeMap.getElem?_insert]
  have hle : ∀ x ∈ fragments.toList, x.1 ≤ cap.tcpSeq := by
    intro x hx
    have hx := Fragments.mem_toList.mp hx
    rw [get] at hx
    split at hx
    case isTrue he  => exact UInt32.le_of_eq he.symm
    case isFalse    =>
      have := h _ _ hx
      rw [UInt32.le_iff_toNat_le]
      omega
  have hm : (cap.tcpSeq, cap.payloadSlice) ∈ fragments.toList :=
    Fragments.mem_toList.mpr (by simp [get])
  obtain ⟨l, l', hl⟩ := List.append_of_mem hm
  have hs := fragments.sorted
  rw [hl, List.pairwise_append, List.pairwise_cons] at hs
  -- Nothing comes after the head's own segment.
  have hl' : l' = [] := by
    refine List.eq_nil_iff_forall_not_mem.mpr fun x hx => ?_
    exact UInt32.not_lt.mpr (hle x (by simp [hl, hx])) (hs.2.1.1 x hx)
  rw [Fragments.walk, hl, hl', Walk.go_append_of_lt fun x hx => hs.2.2 x hx _ (List.mem_cons_self ..)]
  simp [Walk.go, Walk.start, Walk.extend]

theorem endsBefore_orphan : (Reassembler.orphan created).EndsBefore seq := by
  simp [EndsBefore, Holding, Reassembler.orphan]

-- What came before a head has no part in the record that the head completes, which is the one that
-- its payload holds.
theorem EndsBefore.completed (h : entry.EndsBefore cap.tcpSeq) :
    (entry.receiveHead cap).completed = (recordTotal cap.payloadSlice).bind fun total =>
      if total ≤ cap.payloadSlice.length then
        some ⟨cap, cap.payloadSlice.take total, false⟩
      else
        none := by
  have hw := h.walk
  simp only [ReassemblyEntry.completed, Fragments.walk_follows.contiguousBytes]
  simp only [receiveHead] at hw ⊢
  cases recordTotal cap.payloadSlice <;> simp [hw]

-- The payload holds the whole record that it starts.
def Whole (payload : List UInt8) : Prop :=
  ∃ total ∈ recordTotal payload, total ≤ payload.length

theorem EndsBefore.completed_eq_none (h : entry.EndsBefore cap.tcpSeq) :
    (entry.receiveHead cap).completed = none ↔ ¬Whole cap.payloadSlice := by
  rw [h.completed, Whole]
  cases recordTotal cap.payloadSlice <;> simp

end Head
end ReassemblyEntry

namespace Reassembler

variable {events : List Event}

theorem new_entries {P : FlowKey → ReassemblyEntry → Prop} : new.Entries P := by
  simp [Entries, new]

-- The entries that all runs keep well-formed, which are also those of their own flow.
theorem Entries.headOf {r : Reassembler} (h : r.Entries ReassemblyEntry.WellFormed) :
    r.Entries HeadOf :=
  fun k entry he => (h k entry he).key

theorem step_wellFormed {r : Reassembler} {ev : Event} (h : r.Entries ReassemblyEntry.WellFormed) :
    (machine.step r ev).1.Entries ReassemblyEntry.WellFormed :=
  h.step (Q := fun _ => True) (fun _ => ReassemblyEntry.wellFormed_preserves) fun _ _ => trivial

theorem state_wellFormed : (machine.state new events).Entries ReassemblyEntry.WellFormed :=
  Machine.inv_reachable (fun _ _ => step_wellFormed) new_entries

end Reassembler
end TlsProbe
