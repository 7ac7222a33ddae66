import TlsProbe.Reassembler.Theorems.Soundness
import TlsProbe.Worker.Theorems.Events

open Stream
open scoped UInt32.CommRing

namespace TlsProbe

variable {stream : UInt32 → UInt8} {k k' : FlowKey} {cap : RawTlsCapture} {record : AssembledRecord}

-- The payload of the capture is what the stream of its flow `k` has there. Captures of other flows
-- may hold anything.
def Faithful (k : FlowKey) (stream : UInt32 → UInt8) (cap : RawTlsCapture) : Prop :=
  FlowKey.fromCapture cap = k → IsSlice stream cap.tcpSeq cap.payloadSlice

-- The entry holds nothing but the stream, if it is one of the flow `k`.
structure ReassemblyEntry.Traces (k : FlowKey) (stream : UInt32 → UInt8) (k' : FlowKey)
    (entry : ReassemblyEntry) : Prop where
  wellFormed : entry.WellFormed k'
  head       : ∀ head ∈ entry.head, Faithful k stream head.capture
  slices     : k' = k → entry.Slices stream

theorem recordTotal_of_slices {seq : UInt32} {l l' : List UInt8} {n : Nat}
    (h : IsSlice stream seq l) (h' : IsSlice stream seq l') (hl : recordTotal l = some n)
    (hn : n ≤ l'.length) : recordTotal l' = some n := by
  obtain ⟨hlen, hn'⟩ := recordTotal_eq_some.mp hl
  have hlen' : 5 ≤ l'.length := by omega
  refine recordTotal_eq_some.mpr ⟨hlen', ?_⟩
  simp only [hn', h 3 (by omega), h 4 (by omega), h' 3 (by omega), h' 4 (by omega)]

namespace ReassemblyEntry

variable {entry : ReassemblyEntry}

theorem Traces.released (h : entry.Traces k stream k')
    (hr : entry.completed = some record ∨ entry.finalized = some record)
    (hk : FlowKey.fromCapture record.headCapture = k) :
    IsSlice stream record.headCapture.tcpSeq record.buffer ∧
      (record.truncated = false → recordTotal record.buffer = some record.buffer.length) := by
  obtain ⟨head, hh, he⟩ := entry.head_of_released hr
  have hk' : k' = k := by rw [←hk, he, h.wellFormed.key head hh]
  have hs := slices_released (h.slices hk') h.wellFormed hr
  have hf : Faithful k stream record.headCapture := he ▸ h.head head hh
  refine ⟨hs, fun ht => ?_⟩
  exact recordTotal_of_slices (hf hk) hs (h.wellFormed.length_of_not_truncated hr ht) le_rfl

end ReassemblyEntry

-- Where a record has come from: it is a capture of its own, or an entry has let it go.
inductive Record.From (P : FlowKey → ReassemblyEntry → Prop) (Q : RawTlsCapture → Prop) :
    Record → Prop
  | own {capture} : Q capture → From P Q (own capture)
  | assembled {entry : ReassemblyEntry} {record} :
    P (FlowKey.fromCapture record.headCapture) entry →
    (entry.completed = some record ∨ entry.finalized = some record) → From P Q (assembled record)

theorem Record.From.head {record : Record} {Q : RawTlsCapture → Prop}
    (h : record.From (fun k entry => ∀ head ∈ entry.head, Q head.capture ∧
      FlowKey.fromCapture head.capture = k) Q) : Q record.head := by
  cases h
  case own hq => exact hq
  case assembled entry record he hr =>
    obtain ⟨head, hh, hc⟩ := entry.head_of_released hr
    change Q record.headCapture
    rw [hc]
    exact (he head hh).1

-- The events that a record can have: its own one, and those of the records that are walked.
inductive Record.Tells (env : Env) (record : Record) : CaptureEvent → Prop
  | own (negotiation certificate) : record.Tells env
      (enrichWithCgroup env ((record.event env).attach negotiation certificate) record.head)
  | walked (extracted) : extracted ∈ walkRecords record.payload →
      extracted.body <:+: record.payload →
      record.Tells env (walkedEvent env record.head extracted)

section Walk

variable {count : Nat} {rest : List UInt8} {extracted : ExtractedRecord}

end Walk

namespace Worker

variable {w : Worker} {pass : Pass} {passes : List Pass}

section Entries

variable {P : FlowKey → ReassemblyEntry → Prop} {Q : RawTlsCapture → Prop}

theorem step_entries
    (p : ∀ k, Flow.Preserves (fun cap => Q cap ∧ FlowKey.fromCapture cap = k) (P k))
    (h : w.reassembler.Entries P) (hq : Q pass.capture) :
    (w.step pass).1.reassembler.Entries P := by
  rw [step_reassembler]
  refine Machine.inv_state (C := fun _ ev => ∀ cap ∈ ev.capture?, Q cap)
    (fun _ _ h hq => h.step p hq) h (Machine.allSteps_of_inputs fun ev he cap hc => ?_)
  rw [reassemblerCalls] at he
  obtain rfl | he := List.mem_cons.mp he
  case inl =>
    obtain rfl := Option.some.inj hc
    exact hq
  case inr =>
    split at he
    case isFalse => simp at he
    case isTrue  =>
      obtain rfl := List.mem_singleton.mp he
      simp [Reassembler.Event.capture?] at hc

end Entries

end Worker
end TlsProbe
