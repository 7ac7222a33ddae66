import TlsProbe.Reassembler.Basic

open Std

namespace TlsProbe

namespace ReassemblyEntry

-- The record that `check_completion` returns for an entry.
def completed (entry : ReassemblyEntry) : Option AssembledRecord :=
  match entry.head, entry.expectedTotal with
  | some head, some expectedTotal =>
    let w := entry.fragments.walk head.seq
    if expectedTotal ≤ w.contiguousBytes then
      some {
        headCapture := head.capture
        buffer      := w.buffer.take expectedTotal
        truncated   := false
      }
    else
      none
  | _, _ => none

-- The record that `finalize_entry` returns for an entry that has hit a bound.
def finalized (entry : ReassemblyEntry) : Option AssembledRecord :=
  entry.head.map fun head => {
    headCapture := head.capture
    buffer      := (entry.fragments.walk head.seq).buffer
    truncated   := true
  }

def receiveHead (entry : ReassemblyEntry) (cap : RawTlsCapture) : ReassemblyEntry := { entry with
  head          := some ⟨cap.tcpSeq, cap⟩
  expectedTotal := recordTotal cap.payloadSlice
  fragments     := entry.fragments.insert cap.tcpSeq cap.payloadSlice
}

def receiveContinuation (entry : ReassemblyEntry) (cap : RawTlsCapture) : ReassemblyEntry :=
  { entry with fragments := entry.fragments.insert cap.tcpSeq cap.payloadSlice }

end ReassemblyEntry

-- The reassembly of a single flow. A reassembler runs one of these for every flow.
namespace Flow

inductive Event
  | head (cap : RawTlsCapture) (created : Instant)
  | continuation (cap : RawTlsCapture) (created checked : Instant)
  | sweep (checked : Instant)
  | evict

-- A flow whose record is complete returns it and is forgotten.
def settle (entry : ReassemblyEntry) : Option ReassemblyEntry × List AssembledRecord :=
  match entry.completed with
  | some record => (none, [record])
  | none        => (some entry, [])

def close (entry : ReassemblyEntry) : Option ReassemblyEntry × List AssembledRecord :=
  (none, entry.finalized.toList)

def step (timeout : Duration) (entry : Option ReassemblyEntry) :
    Event → Option ReassemblyEntry × List AssembledRecord
  | .head cap created => settle <| (entry.getD (Reassembler.orphan created)).receiveHead cap
  | .continuation cap created checked =>
    if entry.any (·.fragments.contains cap.tcpSeq) then
      (entry, [])
    else
      let entry := (entry.getD (Reassembler.orphan created)).receiveContinuation cap
      if 4 ≤ entry.fragments.size ∨ timeout ≤ entry.elapsed checked then
        close entry
      else
        settle entry
  | .sweep checked =>
    match entry with
    | some entry => if timeout ≤ entry.elapsed checked then close entry else (some entry, [])
    | none       => (none, [])
  | .evict => (none, [])

-- The entry whose segments a step looks at. A segment that the event brings is already in.
def examined (timeout : Duration) (entry : Option ReassemblyEntry) : Event → Option ReassemblyEntry
  | .head cap created => (entry.getD (Reassembler.orphan created)).receiveHead cap
  | .continuation cap created _ =>
    if entry.any (·.fragments.contains cap.tcpSeq) then
      none
    else
      (entry.getD (Reassembler.orphan created)).receiveContinuation cap
  | .sweep checked => entry.filter (timeout ≤ ·.elapsed checked)
  | .evict => none

-- The examined entry has hit the segment cap or its timeout. A head does not check for either.
def AtBound (timeout : Duration) (entry : ReassemblyEntry) : Event → Prop
  | .continuation _ _ checked => 4 ≤ entry.fragments.size ∨ timeout ≤ entry.elapsed checked
  | .sweep _                  => True
  | .head .. | .evict         => False

instance {timeout : Duration} {entry : ReassemblyEntry} : DecidablePred (AtBound timeout entry)
  | .continuation _ _ checked => inferInstanceAs <| Decidable <|
    4 ≤ entry.fragments.size ∨ timeout ≤ entry.elapsed checked
  | .sweep _          => isTrue trivial
  | .head .. | .evict => isFalse id

def Event.capture? : Event → Option RawTlsCapture
  | .head cap _ | .continuation cap _ _ => cap
  | .sweep _ | .evict                   => none

def machine (timeout : Duration) : Machine (Option ReassemblyEntry) Event AssembledRecord where
  step := step timeout

end Flow

namespace Reassembler

-- The flow that `cleanup_if_over_limit` removes.
def evicted (r : Reassembler) : Option FlowKey :=
  if r.maxFlows ≤ r.flows.size then r.flows.keys.head? else none

def evictedBy (r : Reassembler) : Event → Option FlowKey
  | .capture _ cap => if cap.isFragment then r.evicted else none
  | .sweep _       => none

-- What a call is for the flow `k`, its evictions apart.
def ownEvent (k : FlowKey) : Event → Option Flow.Event
  | .capture clk cap =>
    if FlowKey.fromCapture cap ≠ k then
      none
    else if cap.isFragment then
      some <| .head cap clk.created
    else if cap.isContinuation then
      some <| .continuation cap clk.created (clk.checked k)
    else
      none
  | .sweep clk => some <| .sweep (clk.checked k)

-- What a call on the reassembler amounts to for the flow `k`.
def flowEvents (k : FlowKey) (r : Reassembler) (ev : Event) : List Flow.Event :=
  (if r.evictedBy ev = some k then [.evict] else []) ++ (ownEvent k ev).toList

-- The entry of the flow `k` when a call gets to it.
def survivor (k : FlowKey) (r : Reassembler) (ev : Event) : Option ReassemblyEntry :=
  if r.evictedBy ev = some k then none else r.flows[k]?

def recordsOf (k : FlowKey) (records : List AssembledRecord) : List AssembledRecord :=
  records.filter fun record => FlowKey.fromCapture record.headCapture = k

def put (r : Reassembler) (k : FlowKey) : Option ReassemblyEntry → Reassembler
  | some entry => { r with flows := r.flows.insert k entry }
  | none       => { r with flows := r.flows.erase k }

end Reassembler
end TlsProbe
