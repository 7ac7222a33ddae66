import Mathlib.Data.List.Sort
import TlsProbe.Reassembler.Theorems.Soundness

open Std
open scoped UInt32.CommRing

namespace TlsProbe
namespace Walk

variable {w : Walk} {l l' : List (UInt32 × List UInt8)}

end Walk

namespace Fragments

variable {fragments : Fragments} {seq start : UInt32} {payload : List UInt8}

end Fragments

namespace Reassembler

variable {r : Reassembler} {k : FlowKey} {clk : Clock} {cap : RawTlsCapture} {ev : Event}
variable {entry : ReassemblyEntry} {head : HeadInfo} {events : List Event}

-- The position where the contiguous bytes from the head on end, if they do not wrap.
def runEnd (entry : ReassemblyEntry) (head : HeadInfo) : Nat :=
  head.seq.toNat + (entry.fragments.walk head.seq).buffer.length

def sliceEnd (cap : RawTlsCapture) : Nat :=
  cap.tcpSeq.toNat + cap.payloadSlice.length

-- The bytes that the segment brings make the run reach their end, and complete the record when they
-- cover what it lacks.
structure Extends (r : Reassembler) (clk : Clock) (cap : RawTlsCapture) (entry : ReassemblyEntry)
    (head : HeadInfo) : Prop where
  run    : (machine.step r (.capture clk cap)).2 = [] →
    ∃ entry' ∈ (machine.step r (.capture clk cap)).1.flows[FlowKey.fromCapture cap]?,
      sliceEnd cap ≤ runEnd entry' head
  record : ∀ total ∈ entry.expectedTotal, head.seq.toNat + total ≤ sliceEnd cap →
    ∃ record, (machine.step r (.capture clk cap)).2 = [record] ∧
      record.headCapture = head.capture ∧ record.buffer.length = total ∧ record.truncated = false

-- The table that a first capture leaves, with the entry and the head in it.
def hello : Reassembler :=
  machine.state new [.capture .still helloHead]

end Reassembler
end TlsProbe
