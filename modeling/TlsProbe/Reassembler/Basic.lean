import Std.Data.ExtTreeMap
import TlsProbe.Common.Capture
import TlsProbe.Lib.Machine

open Std

namespace TlsProbe

-- The order of the fields is the order in which flows are compared, as derived in the source.
structure FlowKey where
  srcAddr : Addr
  dstAddr : Addr
  srcPort : UInt16
  dstPort : UInt16
  dir     : Bool
  deriving DecidableEq, Ord

namespace FlowKey

theorem compare_eq : (compare : FlowKey → FlowKey → Ordering) =
    compareLex (compareOn srcAddr) (compareLex (compareOn dstAddr)
      (compareLex (compareOn srcPort) (compareLex (compareOn dstPort) (compareOn dir)))) := by
  funext k₁ k₂
  simp [compare, instOrdFlowKey.ord, compareLex, compareOn]

instance : TransOrd FlowKey := by
  have : TransCmp (compareLex (compareOn srcAddr) (compareLex (compareOn dstAddr)
      (compareLex (compareOn srcPort) (compareLex (compareOn dstPort) (compareOn dir))))) :=
    inferInstance
  rwa [←compare_eq] at this

instance : LawfulEqOrd FlowKey where
  eq_of_compare {k₁ k₂} h := by
    simp only [compare_eq, compareLex, compareOn, Ordering.then_eq_eq, Std.compare_eq_iff_eq] at h
    cases k₁; cases k₂; simp_all

def fromCapture (cap : RawTlsCapture) : FlowKey where
  srcAddr := cap.srcAddr
  dstAddr := cap.dstAddr
  srcPort := cap.srcPort
  dstPort := cap.dstPort
  dir     := cap.flags &&& flagIngress != 0

end FlowKey

-- Readings of the monotonic clock and spans between them, in nanoseconds.
abbrev Instant := Nat
abbrev Duration := Nat

-- The clock readings of one call: the one stored in an entry that the call creates, and for each
-- flow the one against which the call measures the age of the flow's entry.
structure Clock where
  created : Instant
  checked : FlowKey → Instant

def Clock.still : Clock where
  created   := 0
  checked _ := 0

structure HeadInfo where
  seq     : UInt32
  capture : RawTlsCapture

abbrev Fragments := ExtTreeMap UInt32 (List UInt8)

structure ReassemblyEntry where
  fragments     : Fragments
  created       : Instant
  head          : Option HeadInfo
  expectedTotal : Option Nat

structure AssembledRecord where
  headCapture : RawTlsCapture
  buffer      : List UInt8
  truncated   : Bool

-- `Instant::elapsed` saturates at zero.
def ReassemblyEntry.elapsed (entry : ReassemblyEntry) (now : Instant) : Duration :=
  now - entry.created

structure Reassembler where
  flows    : ExtTreeMap FlowKey ReassemblyEntry
  maxFlows : Nat
  timeout  : Duration

-- The length of the record that `payload` starts, header included, once its header is complete.
def recordTotal (payload : List UInt8) : Option Nat :=
  if h : 5 ≤ payload.length then
    some ((u16FromBeBytes payload[3] payload[4]).toNat + 5)
  else
    none

theorem recordTotal_eq_some {payload : List UInt8} {n : Nat} : recordTotal payload = some n ↔
    ∃ h : 5 ≤ payload.length, n = 5 + (u16FromBeBytes payload[3] payload[4]).toNat := by
  simp only [recordTotal, add_comm]
  split <;> simp_all [eq_comm]

-- The accumulators of the loops in `check_completion` and `finalize_entry`. The latter does without
-- `contiguous_bytes`.
structure Walk where
  contiguousBytes : Nat
  nextSeq         : UInt32
  buffer          : List UInt8

namespace Walk

def start (headSeq : UInt32) : Walk where
  contiguousBytes := 0
  nextSeq         := headSeq
  buffer          := []

def extend (w : Walk) (fragPayload : List UInt8) : Walk where
  contiguousBytes := w.contiguousBytes + fragPayload.length
  nextSeq         := w.nextSeq + UInt32.ofNat fragPayload.length
  buffer          := w.buffer ++ fragPayload

def go (w : Walk) : List (UInt32 × List UInt8) → Walk
  | [] => w
  | (fragSeq, fragPayload) :: rest =>
    if fragSeq = w.nextSeq then
      (w.extend fragPayload).go rest
    else if w.nextSeq < fragSeq then
      w -- Gap detected; stop accumulating.
    else
      w.go rest

end Walk

def Fragments.walk (fragments : Fragments) (headSeq : UInt32) : Walk :=
  (Walk.start headSeq).go fragments.toList

namespace Reassembler

def new : Reassembler where
  flows    := ∅
  maxFlows := 1024
  timeout  := 3 * 10 ^ 9

def checkCompletion (r : Reassembler) (key : FlowKey) : Reassembler × Option AssembledRecord :=
  match r.flows[key]? with
  | none => (r, none)
  | some entry =>
    match entry.head, entry.expectedTotal with
    | some head, some expectedTotal =>
      let w := entry.fragments.walk head.seq
      if expectedTotal ≤ w.contiguousBytes then
        ({ r with flows := r.flows.erase key }, some {
          headCapture := head.capture
          buffer      := w.buffer.take expectedTotal
          truncated   := false
        })
      else
        (r, none)
    | _, _ => (r, none)

def finalizeEntry (r : Reassembler) (key : FlowKey) (truncated : Bool) :
    Reassembler × Option AssembledRecord :=
  match r.flows[key]? with
  | none => (r, none)
  | some entry => ({ r with flows := r.flows.erase key }, entry.head.map fun head => {
      headCapture := head.capture
      buffer      := (entry.fragments.walk head.seq).buffer
      truncated   := truncated
    })

def cleanupIfOverLimit (r : Reassembler) : Reassembler :=
  if r.maxFlows ≤ r.flows.size then
    match r.flows.keys.head? with
    | some key => { r with flows := r.flows.erase key }
    | none     => r
  else
    r

-- The branch of `insert` for a capture with `FLAG_FRAGMENT`.
def insertHead (r : Reassembler) (clk : Clock) (cap : RawTlsCapture) :
    Reassembler × Option AssembledRecord :=
  let key := FlowKey.fromCapture cap
  let payload := cap.payloadSlice
  let r := r.cleanupIfOverLimit
  match r.flows[key]? with
  | some entry =>
    let entry := { entry with
      head          := some ⟨cap.tcpSeq, cap⟩
      expectedTotal := recordTotal payload
      fragments     := entry.fragments.insert cap.tcpSeq payload
    }
    { r with flows := r.flows.insert key entry }.checkCompletion key
  | none =>
    let entry := {
      fragments     := (∅ : Fragments).insert cap.tcpSeq payload
      created       := clk.created
      head          := some ⟨cap.tcpSeq, cap⟩
      expectedTotal := recordTotal payload
    }
    { r with flows := r.flows.insert key entry }.checkCompletion key

-- The entry that `insert` makes for a continuation whose flow has none.
def orphan (created : Instant) : ReassemblyEntry where
  fragments     := ∅
  created       := created
  head          := none
  expectedTotal := none

-- The branch of `insert` for a capture with `FLAG_CONTINUATION` only.
def insertContinuation (r : Reassembler) (clk : Clock) (cap : RawTlsCapture) :
    Reassembler × Option AssembledRecord :=
  let key := FlowKey.fromCapture cap
  if r.flows[key]?.any (·.fragments.contains cap.tcpSeq) then
    (r, none)
  else
    let entry := r.flows[key]?.getD (orphan clk.created)
    let entry := { entry with fragments := entry.fragments.insert cap.tcpSeq cap.payloadSlice }
    let r := { r with flows := r.flows.insert key entry }
    if 4 ≤ entry.fragments.size then
      r.finalizeEntry key true
    else if r.timeout ≤ entry.elapsed (clk.checked key) then
      r.finalizeEntry key true
    else
      r.checkCompletion key

def insert (r : Reassembler) (clk : Clock) (cap : RawTlsCapture) :
    Reassembler × Option AssembledRecord :=
  if cap.flags &&& (flagFragment ||| flagContinuation) = 0 then
    (r, none)
  else if cap.isFragment then
    r.insertHead clk cap
  else if cap.isContinuation then
    r.insertContinuation clk cap
  else
    (r, none)

-- The second loop of `sweep_expired`.
def finalizeAll (r : Reassembler) : List FlowKey → Reassembler × List AssembledRecord
  | [] => (r, [])
  | key :: keys =>
    let (r, record) := r.finalizeEntry key true
    let (r, records) := r.finalizeAll keys
    (r, record.toList ++ records)

def sweepExpired (r : Reassembler) (clk : Clock) : Reassembler × List AssembledRecord :=
  r.finalizeAll <| r.flows.toList.filterMap fun (key, entry) =>
    if r.timeout ≤ entry.elapsed (clk.checked key) then some key else none

-- The calls that the capture worker makes on its reassembler.
inductive Event
  | capture (clk : Clock) (cap : RawTlsCapture)
  | sweep (clk : Clock)

def machine : Machine Reassembler Event AssembledRecord where
  step
    | r, .capture clk cap => let (r, record) := r.insert clk cap; (r, record.toList)
    | r, .sweep clk       => r.sweepExpired clk

end Reassembler
end TlsProbe
