import TlsProbe.Ebpf.Theorems.Attribution
import TlsProbe.Ebpf.Theorems.Flow
import TlsProbe.Probe.Theorems.Crash
import TlsProbe.System.Theorems.Accounting
import TlsProbe.System.Theorems.Handshake

namespace TlsProbe.System

open Classifier (Arrival ReasmMap Flow.event flowKey own ownEvents)
open Spool (Bytes)

variable {endian : Process.Endian} {n : Nat} {kernel : Ebpf.State n} {probe : Probe.State}
variable {os : List Probe.Observation} {captures : List (RawTlsCapture × Bool)} {key : ReasmKey}
variable {a : Arrival} {as : List Arrival} {ev : RawTlsCapture} {record : List UInt8}

theorem fromCapture_iff (h : a.flow = some key) :
    FlowKey.fromCapture ev = flowKey key ↔ Classifier.eventKey ev = key := by
  rw [Classifier.fromCapture_eq]
  refine ⟨fun he => ?_, fun he => by rw [he]⟩
  have hd (b : Bool) : ((if b then 1 else 0 : UInt8) != 0) = b := by cases b <;> rfl
  -- A flow has one of two directions.
  obtain ⟨b, hb⟩ : ∃ b : Bool, key.dir = if b then 1 else 0 := by
    obtain rfl := Option.some.inj (Option.ite_none_right_eq_some.mp h).2
    exact ⟨!a.isEgress, by cases a.isEgress <;> rfl⟩
  simp only [flowKey, Classifier.eventKey, FlowKey.mk.injEq, hb, hd] at he
  obtain ⟨h₁, h₂, h₃, h₄, h₅⟩ := he
  rcases key with ⟨⟨_, _, _, _⟩, _⟩
  simp_all [Classifier.eventKey, RawTlsCapture.connKey]

section Lossless

variable {p : RawTlsCapture → Bool}

theorem filter_offered (h : ∀ capture ∈ os.flatMap Probe.refused, p capture = false) :
    (os.flatMap Probe.offered).filter p = (os.flatMap Probe.accepted).filter p := by
  induction os
  case nil => rfl
  case cons o os hi =>
    simp only [List.flatMap_cons, List.mem_append] at h
    rw [List.flatMap_cons, List.flatMap_cons, List.filter_append, List.filter_append,
      hi fun c hc => h c (.inr hc)]
    congr 1
    cases o <;> simp_all [Probe.offered, Probe.accepted, Probe.refused]

theorem filter_sent (h : ∀ capture ∈ captures, capture.2 → p capture.1 = false) :
    (Ebpf.sent captures).filter p = (captures.map (·.1)).filter p := by
  induction captures
  case nil => rfl
  case cons capture captures hi =>
    obtain ⟨h, hs⟩ := List.forall_mem_cons.mp h
    have hi := hi hs
    obtain ⟨capture, full⟩ := capture
    cases full <;> simp_all [Ebpf.sent, List.filter_cons]

end Lossless

variable {fileBackend : Option Spool.WriterBackend} {emitToStdout : Bool} {stdout : Spool.State}

-- In a run of the system, the packets of a flow are those of one record. Nothing that has to do with
-- them is lost on the way to the worker, nor left there when the program has ended, and the
-- reassembly has the room and the time for them.
structure Monitored (endian : Process.Endian) (kernel : Ebpf.State n) (events : List (Ebpf.Event n))
    (probe : Probe.State) (os : List Probe.Observation) (key : ReasmKey) (record : List UInt8)
    (a : Arrival) (as : List Arrival) : Prop where
  carries     : Classifier.Carries key kernel.reasmMap record a as
  packets     : own key (Ebpf.arrivals endian kernel.shared events) = own key (a :: as)
  kept        : ∀ event ∈ events, event ≠ .dropsReasm key
  sent        : ∀ capture ∈ (Ebpf.spec endian n).output kernel.shared events, capture.2 →
    FlowKey.fromCapture capture.1 ≠ flowKey key
  read        : ∀ capture ∈ probe.ring.filterMap (Ebpf.decode endian),
    FlowKey.fromCapture capture ≠ flowKey key
  accepted    : ∀ capture ∈ os.flatMap Probe.refused, FlowKey.fromCapture capture ≠ flowKey key
  ended       : probe.threadDone
  undisturbed : Worker.machine.AllSteps (Worker.Undisturbed (flowKey key)) .new
    (os.flatMap Probe.passes)

namespace Monitored

variable {events : List (Ebpf.Event n)}

-- The captures that the worker gets to see of the flow are those that its packets make for.
theorem capturesOf_passes (h : Monitored endian kernel events probe os key record a as)
    (hs : Probe.Sequential endian fileBackend emitToStdout stdout probe os)
    (ho : Probe.Orderly probe)
    (hd : (os.flatMap Probe.arrived).map (Ebpf.decode endian) =
      (Ebpf.sent ((Ebpf.spec endian n).output kernel.shared events)).map some) :
    Worker.capturesOf (flowKey key) (os.flatMap Probe.passes) =
      ownEvents key (Classifier.machine.output kernel.reasmMap (a :: as)) := by
  let p (capture : RawTlsCapture) : Bool := FlowKey.fromCapture capture = flowKey key
  have ha := hs.captures
  rw [(ho.finished h.ended).captures, List.append_nil] at ha
  have hr := congrArg (List.filter p) (offered_ring hs hd)
  have hn : (probe.ring.filterMap (Ebpf.decode endian)).filter p = [] :=
    List.filter_eq_nil_iff.mpr fun c hc => by simpa [p] using h.read c hc
  rw [List.filter_append, hn, List.append_nil,
    filter_offered fun c hc => by simpa [p] using h.accepted c hc, ha,
    filter_sent fun c hc hf => by simpa [p] using h.sent c hc hf] at hr
  calc
    Worker.capturesOf (flowKey key) (os.flatMap Probe.passes)
      = (((Ebpf.spec endian n).output kernel.shared events).map (·.1)).filter p := hr
    _ = ownEvents key (((Ebpf.spec endian n).output kernel.shared events).map (·.1)) :=
        List.filter_congr fun c _ => by simp only [p, fromCapture_iff h.carries.flow]
    _ = Classifier.Flow.machine.output kernel.reasmMap[key]?
          (own key (Ebpf.arrivals endian kernel.shared events)) := Ebpf.ownEvents_spec h.kept
    _ = ownEvents key (Classifier.machine.output kernel.reasmMap (a :: as)) := by
        rw [h.packets, Classifier.output_own]

theorem transported (h : Monitored endian kernel events probe os key record a as)
    (hs : Probe.Sequential endian fileBackend emitToStdout stdout probe os)
    (ho : Probe.Orderly probe)
    (hd : (os.flatMap Probe.arrived).map (Ebpf.decode endian) =
      (Ebpf.sent ((Ebpf.spec endian n).output kernel.shared events)).map some) :
    Transported key kernel.reasmMap record a as .new (os.flatMap Probe.passes) where
  toCarries   := h.carries
  fresh       := by simp [Worker.new, Reassembler.new]
  captures    := .of_eq (h.capturesOf_passes hs ho hd)
  undisturbed := h.undisturbed

end Monitored

section Plain

end Plain

end TlsProbe.System
