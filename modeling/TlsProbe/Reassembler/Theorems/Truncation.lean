import TlsProbe.Reassembler.Theorems.Entry

open Std Stream
open scoped UInt32.CommRing

namespace TlsProbe

-- What the flag and the length of a record say about the segments `held` when it is released.
structure AssembledRecord.Truthful (held : UInt32 → Option (List UInt8))
    (record : AssembledRecord) :
    Prop where
  truncated : record.truncated = false ↔ ∃ total,
    recordTotal record.headCapture.payloadSlice = some total ∧
    Covers held record.headCapture.tcpSeq total
  length : ∀ total, recordTotal record.headCapture.payloadSlice = some total →
    record.buffer.length ≤ total

namespace ReassemblyEntry

-- The entry holds all bytes of its record.
def Covered (entry : ReassemblyEntry) : Prop :=
  ∃ head total, entry.head = some head ∧ recordTotal head.capture.payloadSlice = some total ∧
    Covers entry.fragments.segments head.capture.tcpSeq total

variable {k : FlowKey} {entry : ReassemblyEntry} {record : AssembledRecord} {head : HeadInfo}

theorem walk_covers {total : Nat} (h : total ≤ (entry.fragments.walk head.seq).buffer.length) :
    Covers entry.fragments.segments head.seq total :=
  Fragments.walk_follows.chain.covers.mono h

theorem WellFormed.total (hw : entry.WellFormed k) (hh : entry.head = some head) :
    entry.expectedTotal = recordTotal head.capture.payloadSlice := by
  rw [hw.expectedTotal, hh, Option.bind_some]

theorem completed_covered (hw : entry.WellFormed k) (h : entry.completed = some record) :
    entry.Covered := by
  have ⟨head, total, hh, he, hl, _⟩ := completed_eq_some.mp h
  exact ⟨head, total, hh, (hw.total hh).symm.trans he, hw.seq head hh ▸ walk_covers hl⟩

theorem completed_truthful (hw : entry.WellFormed k) (h : entry.completed = some record) :
    record.Truthful entry.fragments.segments := by
  have ⟨head, total, hh, he, hl, hr⟩ := completed_eq_some.mp h
  have hs := hw.seq head hh
  rw [hw.total hh] at he
  subst hr
  constructor
  case truncated => simpa using ⟨total, he, hs ▸ walk_covers hl⟩
  case length =>
    intro total' ht
    cases he.symm.trans ht
    simp

-- A record that is released at a bound is always marked as truncated.
theorem finalized_truthful_iff (hw : entry.WellFormed k) (h : entry.finalized = some record) :
    record.Truthful entry.fragments.segments ↔ ¬entry.Covered := by
  have ⟨head, hh, hr⟩ := finalized_eq_some.mp h
  have hs := hw.seq head hh
  subst hr
  constructor
  case mp =>
    rintro ht ⟨head', total, hh', hc⟩
    cases hh.symm.trans hh'
    simpa using ht.truncated.mpr ⟨total, hc⟩
  case mpr =>
    intro hn
    have hn total (ht : recordTotal head.capture.payloadSlice = some total) :
        ¬Covers entry.fragments.segments head.capture.tcpSeq total :=
      fun hc => hn ⟨head, total, hh, ht, hc⟩
    constructor
    case truncated => simpa using hn
    case length =>
      intro total ht
      refine Nat.le_of_not_le fun hl => hn total ht ?_
      exact hs ▸ walk_covers hl

theorem finalized_isSome (h : entry.Covered) : ∃ record, entry.finalized = some record :=
  have ⟨head, _, hh, _⟩ := h
  ⟨_, finalized_eq_some.mpr ⟨head, hh, rfl⟩⟩

end ReassemblyEntry

namespace Flow

variable {k : FlowKey} {timeout : Duration} {e : Option ReassemblyEntry} {ev : Event}
variable {entry : ReassemblyEntry}

theorem settle_truthful (hw : entry.WellFormed k) :
    ∀ record ∈ (settle entry).2, record.Truthful entry.fragments.segments :=
  fun _ hm => entry.completed_truthful hw <| mem_settle.mp hm

theorem close_truthful_iff (hw : entry.WellFormed k) :
    (∀ record ∈ (close entry).2, record.Truthful entry.fragments.segments) ↔ ¬entry.Covered := by
  simp only [mem_close]
  constructor
  case mp =>
    intro h hc
    have ⟨record, hr⟩ := entry.finalized_isSome hc
    exact (entry.finalized_truthful_iff hw hr).mp (h record hr) hc
  case mpr => exact fun h record hr => (entry.finalized_truthful_iff hw hr).mpr h

-- The segments that a step looks at.
def held (timeout : Duration) (e : Option ReassemblyEntry) (ev : Event) :
    UInt32 → Option (List UInt8) :=
  fun seq => (examined timeout e ev).bind (·.fragments[seq]?)

-- The step finds the flow at one of its bounds when its record is complete.
def Late (timeout : Duration) (e : Option ReassemblyEntry) (ev : Event) : Prop :=
  ∃ entry ∈ examined timeout e ev, AtBound timeout entry ev ∧ entry.Covered

theorem step_truthful_iff (hw : ∀ entry ∈ examined timeout e ev, entry.WellFormed k) :
    (∀ record ∈ (step timeout e ev).2, record.Truthful (held timeout e ev)) ↔
      ¬Late timeout e ev := by
  obtain ⟨he, _, hs⟩ | ⟨rfl, hs⟩ | ⟨entry, he, hs⟩ := step_cases timeout e ev
  case inl => simp [hs, Late, he]
  case inr.inl => simp [hs, Late, examined]
  case inr.inr =>
    have hh : held timeout e ev = entry.fragments.segments := by
      funext seq
      simp [held, he]
    rw [hs, hh]
    split
    case isTrue hb =>
      rw [close_truthful_iff (hw entry he)]
      simp [Late, he, hb]
    case isFalse hb =>
      refine iff_of_true (settle_truthful (hw entry he)) ?_
      simp [Late, he, hb]

end Flow

namespace Reassembler

-- The segments of the flow `k` that a call looks at. A segment that the call brings is already in.
def held (k : FlowKey) (r : Reassembler) (ev : Event) : UInt32 → Option (List UInt8) :=
  match ownEvent k ev with
  | some fe => Flow.held r.timeout (r.survivor k ev) fe
  | none    => fun _ => none

-- The call finds a flow at one of its bounds when the record of the flow is complete.
def Late (r : Reassembler) (ev : Event) : Prop :=
  ∃ k, ∃ fe ∈ ownEvent k ev, Flow.Late r.timeout (r.survivor k ev) fe

-- All records that a call returns are truthful about the segments held.
def Truthful (r : Reassembler) (ev : Event) : Prop :=
  ∀ record ∈ (machine.step r ev).2, record.Truthful <| held (.fromCapture record.headCapture) r ev

variable {r : Reassembler} {k : FlowKey} {ev : Event}

theorem truthful_iff_forall : r.Truthful ev ↔
    ∀ k, ∀ record ∈ recordsOf k (machine.step r ev).2, record.Truthful (held k r ev) := by
  simp only [Truthful, recordsOf, List.mem_filter, decide_eq_true_eq, and_imp]
  exact ⟨fun h _ record hm hk => hk ▸ h record hm, fun h record hm => h _ record hm rfl⟩

theorem examined_wellFormed {fe : Flow.Event} {entry : ReassemblyEntry}
    (hr : r.Entries ReassemblyEntry.WellFormed) (he : fe ∈ ownEvent k ev)
    (ha : entry ∈ Flow.examined r.timeout (r.survivor k ev) fe) : entry.WellFormed k :=
  hr.examined (Q := fun _ => True) (fun _ => ReassemblyEntry.wellFormed_preserves)
    (fun _ _ => trivial) he ha

theorem step_truthful_iff (hr : r.Entries ReassemblyEntry.WellFormed) :
    r.Truthful ev ↔ ¬r.Late ev := by
  rw [truthful_iff_forall, Late, not_exists]
  refine forall_congr' fun k => ?_
  rw [step_records hr.headOf, held]
  cases he : ownEvent k ev
  case none => simp
  case some fe => simpa using Flow.step_truthful_iff fun _ => examined_wellFormed hr he

-- In every state that a run reaches, the records that a call returns are truthful just when the
-- call is not late.
theorem truncated_iff_not_late (events : List Event) (ev : Event) :
    (machine.state new events).Truthful ev ↔ ¬(machine.state new events).Late ev :=
  step_truthful_iff state_wellFormed

-- The state in which three of the four segments of a record of 21 bytes are in.
def threeSegments : Reassembler :=
  machine.state new <| [
    makeCapture 100 [0x16, 0x03, 0x03, 0x00, 0x10, 0x73, 0x65, 0x67, 0x31] flagFragment,
    makeCapture 109 [0x73, 0x65, 0x67, 0x32] flagContinuation,
    makeCapture 113 [0x73, 0x65, 0x67, 0x33] flagContinuation
  ].map (.capture .still)

def fourthSegment : RawTlsCapture :=
  makeCapture 117 [0x73, 0x65, 0x67, 0x34] flagContinuation

-- The record is complete when its fourth segment arrives, and is nevertheless marked as truncated.
theorem fourth_segment_not_truthful : ¬threeSegments.Truthful (.capture .still fourthSegment) := by
  have hr : threeSegments.Entries ReassemblyEntry.WellFormed := state_wellFormed
  have hf : fourthSegment.isFragment = false := by decide +kernel
  have hc : fourthSegment.isContinuation = true := by decide +kernel
  let fe := Flow.Event.continuation fourthSegment 0 0
  have he : fe ∈ ownEvent (.fromCapture fourthSegment) (.capture .still fourthSegment) := by
    simp [fe, ownEvent, hf, hc, Clock.still]
  obtain ⟨entry, ha, hb, hw⟩ : ∃ entry ∈ Flow.examined threeSegments.timeout
      (threeSegments.survivor (.fromCapture fourthSegment) (.capture .still fourthSegment))
      (.continuation fourthSegment 0 0),
      4 ≤ entry.fragments.size ∧ entry.completed.isSome := by decide +kernel
  obtain ⟨record, hw⟩ := Option.isSome_iff_exists.mp hw
  rw [step_truthful_iff hr, not_not]
  have hcov := ReassemblyEntry.completed_covered (examined_wellFormed hr he ha) hw
  exact ⟨_, fe, he, entry, ha, .inl hb, hcov⟩

end Reassembler
end TlsProbe
