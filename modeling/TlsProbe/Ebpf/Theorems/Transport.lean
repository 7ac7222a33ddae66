import Mathlib.Algebra.BigOperators.Fin
import TlsProbe.Classifier.Theorems.Frame
import TlsProbe.Ebpf.Basic

namespace TlsProbe.Ebpf

open Classifier (Kernel RecordStart Segment)
open Process (Endian)

variable {endian : Endian} {n : Nat}

section Scratch

variable {scratch event : RawTlsCapture} {kernel : Kernel} {call : Call} {seg : Segment}
variable {rec : RecordStart} {isContinuation : Bool}

theorem overwrite_take {k : Nat} {bytes : List UInt8} {old : Vector UInt8 k}
    (h : bytes.length ≤ k) : (overwrite bytes old).toList.take bytes.length = bytes := by
  apply List.ext_getElem
  case hl => simpa using h
  case h =>
    intro i hi hb
    simp [overwrite, hb]

-- The payload that is copied replaces the start of the one that is there.
theorem loadPayload_eq (h : event.payloadLen = 0) :
    ∃ payload : Vector UInt8 rawPayloadSize,
      payload.toList.take (Classifier.copiedPayload call.pkt seg).length =
        Classifier.copiedPayload call.pkt seg ∧
      loadPayload event call seg = { event with
        payload    := payload
        payloadLen := .ofNat (Classifier.copiedPayload call.pkt seg).length } := by
  let copyLen := min (Classifier.payloadAvail call.pkt seg) rawPayloadSize
  by_cases hc : 1 ≤ copyLen
  case neg =>
    have hn : Classifier.copiedPayload call.pkt seg = [] := by
      simp [Classifier.copiedPayload, copyLen, hc]
    refine ⟨event.payload, by simp [hn], ?_⟩
    simp [loadPayload, copyLen, hc, hn, ←h]
  case pos =>
    cases hb : call.pkt.loadBytes copyLen seg.tlsStart
    case none =>
      have hn : Classifier.copiedPayload call.pkt seg = [] := by
        simp [Classifier.copiedPayload, copyLen, hc, hb]
      refine ⟨call.clobbered, by simp [hn], ?_⟩
      simp [loadPayload, copyLen, hc, hb, hn, ←h]
    case some bytes =>
      have hn : Classifier.copiedPayload call.pkt seg = bytes.toList := by
        simp [Classifier.copiedPayload, copyLen, hc, hb]
      refine ⟨overwrite bytes.toList event.payload, ?_, ?_⟩
      · rw [hn]
        exact overwrite_take (by simp [copyLen])
      · simp [loadPayload, copyLen, hc, hb, hn]

theorem setInfo_eq {info : Option ConnInfo} : setInfo event info = { event with
    pid      := (info.map (·.pid)).getD 0
    comm     := (info.map (·.comm)).getD (.replicate 16 0)
    cgroupId := (info.map (·.cgroupId)).getD 0 } := by
  cases info <;> rfl

-- The event is that of the classifier, with a payload of which only the bytes in use are the same.
theorem writeEvent_eq : ∃ payload : Vector UInt8 rawPayloadSize,
    payload.toList.take (Classifier.copiedPayload call.pkt seg).length =
      Classifier.copiedPayload call.pkt seg ∧
    writeEvent scratch kernel call seg rec isContinuation =
      { Classifier.captureEvent kernel call.pkt seg rec call.isEgress isContinuation with
        payload } := by
  unfold writeEvent
  extract_lets isAlert event₁ event₂ event₃ event₄ event₅ event₆ event₇ captured
  obtain ⟨payload, hp, he⟩ := @loadPayload_eq event₅ call seg rfl
  refine ⟨payload, hp, ?_⟩
  simp only [event₇, setInfo_eq, event₆, he, event₅, event₄, event₃, event₂, event₁, isAlert,
    captured, Classifier.captureEvent, Classifier.checkKey, Classifier.eventFlags,
    Classifier.contentType, Classifier.handshakeType]
  clear he captured
  cases call.isEgress <;> by_cases ha : rec[0] = Classifier.tlsContentAlert <;>
    cases isContinuation <;> cases Classifier.isFragmented call.pkt seg rec <;>
    simp [addFlag, swapEnds, ha]

theorem decode_writeEvent {filler : Nat → UInt8} :
    decode endian (eventBytes endian filler <|
      writeEvent scratch kernel call seg rec isContinuation) =
        some (Classifier.captureEvent kernel call.pkt seg rec call.isEgress isContinuation) := by
  obtain ⟨payload, hp, he⟩ := @writeEvent_eq scratch kernel call seg rec isContinuation
  have hl : (Classifier.copiedPayload call.pkt seg).length ≤ rawPayloadSize := by
    have := @Classifier.copiedPayload_length call.pkt seg
    omega
  have hs : (writeEvent scratch kernel call seg rec isContinuation).payloadSlice =
      Classifier.copiedPayload call.pkt seg := by
    rw [he, RawTlsCapture.payloadSlice, Classifier.payloadLen_captureEvent, Nat.min_eq_left hl, hp]
  rw [decode_eventBytes, hs, he]
  rfl

end Scratch

section Runs

variable {s : State n} {cpu : Fin n} {call : Call} {events : List (Event n)}

-- What the receiver makes of a submission.
def received (endian : Endian) (submissions : List Submission) : List (RawTlsCapture × Bool) :=
  submissions.filterMap fun sub => (decode endian sub.bytes).map (·, sub.full)

theorem received_append {subs subs' : List Submission} :
    received endian (subs ++ subs') = received endian subs ++ received endian subs' :=
  List.filterMap_append

-- A packet is ignored, or an event is submitted for it.
theorem capture_cases : s.capture endian cpu call = (s, []) ∨
    ∃ reasmMap event, s.capture endian cpu call =
      { s with reasmMap }.submit endian cpu call event := by
  unfold State.capture
  split
  case h_1 => exact .inl rfl
  case h_2 seg _ =>
    dsimp only
    split
    case h_1 => exact .inl rfl
    case h_2 =>
      split
      case isTrue  => exact .inr ⟨_, _, rfl⟩
      case isFalse => exact .inl rfl

theorem capture_eq :
    (s.capture endian cpu call).1.shared = { s.shared with
      reasmMap := (Classifier.tryCaptureTls s.reasmMap (kernelOf s.maps call.ktimeNs) call.pkt
        call.isEgress).1 } ∧
    received endian (s.capture endian cpu call).2 =
      (Classifier.tryCaptureTls s.reasmMap (kernelOf s.maps call.ktimeNs) call.pkt
        call.isEgress).2.toList.map (·, call.full) := by
  unfold State.capture Classifier.tryCaptureTls
  cases hs : Classifier.segment call.pkt
  case none => exact ⟨rfl, rfl⟩
  case some seg =>
    dsimp only
    cases hr : call.pkt.loadBytes 6 seg.tlsStart
    case none => exact ⟨rfl, rfl⟩
    case some rec =>
      dsimp only
      split
      case isFalse => exact ⟨rfl, rfl⟩
      case isTrue  => exact ⟨rfl, by simp [State.submit, received, decode_writeEvent]⟩

theorem projects_spec : Machine.Projects (machine endian n) (spec endian n) State.shared
    (fun _ event => [event]) (received endian) (fun _ => True) where
  inv _ _ _ := trivial
  state s event _ := by
    cases event
    case process | dropsReasm => rfl
    case packet cpu call      => exact capture_eq.1
  output s event _ := by
    cases event
    case process | dropsReasm => rfl
    case packet cpu call      => exact capture_eq.2.trans (List.append_nil _).symm

theorem received_eq_spec :
    received endian ((machine endian n).output s events) =
      (spec endian n).output s.shared events := by
  rw [projects_spec.output_run trivial rfl fun _ _ => received_append,
    Machine.Projects.inputs_flatMap, List.flatMap_singleton']

theorem sumKernelDrops_submit {event : RawTlsCapture} :
    (s.submit endian cpu call event).1.sumKernelDrops =
      s.sumKernelDrops + if call.full then 1 else 0 := by
  have hd (cpu' : Fin n) : ((s.submit endian cpu call event).1.cpus cpu').ringbufDrops =
      (s.cpus cpu').ringbufDrops +
        (Pi.single cpu (if call.full then 1 else 0) : Fin n → UInt64) cpu' := by
    by_cases hc : cpu' = cpu
    case neg => simp [State.submit, State.setCpu, hc]
    case pos =>
      subst hc
      cases hf : call.full <;> simp [State.submit, State.setCpu, hf]
  simp only [State.sumKernelDrops, ←Fin.sum_univ_def, hd, Finset.sum_add_distrib,
    Finset.sum_pi_single', Finset.mem_univ, if_true]

theorem step_sumKernelDrops {event : Event n} :
    ((machine endian n).step s event).1.sumKernelDrops =
      s.sumKernelDrops + .ofNat (((machine endian n).step s event).2.countP (·.full)) := by
  cases event
  case process    => simp [machine, State.sumKernelDrops]
  case dropsReasm => simp [machine, State.sumKernelDrops]
  case packet cpu call =>
    change (s.capture endian cpu call).1.sumKernelDrops =
      s.sumKernelDrops + .ofNat ((s.capture endian cpu call).2.countP (·.full))
    obtain h | ⟨reasmMap, event, h⟩ := @capture_cases endian n s cpu call
    case inl => simp [h]
    case inr =>
      rw [h, sumKernelDrops_submit]
      cases hf : call.full <;> simp [State.submit, hf] <;> rfl

theorem sumKernelDrops_state : ((machine endian n).state s events).sumKernelDrops =
    s.sumKernelDrops + .ofNat (((machine endian n).output s events).countP (·.full)) := by
  induction events generalizing s
  case nil => simp
  case cons event events hi =>
    rw [Machine.state_cons, hi, step_sumKernelDrops, Machine.output_cons, List.countP_append,
      UInt64.ofNat_add, add_assoc]

theorem decode_isSome {sub : Submission} (h : sub ∈ (machine endian n).output s events) :
    (decode endian sub.bytes).isSome := by
  obtain ⟨⟨t, event⟩, -, hs⟩ := Machine.mem_output.mp h
  cases event
  case process | dropsReasm => exact absurd hs List.not_mem_nil
  case packet cpu call =>
    replace hs : sub ∈ (t.capture endian cpu call).2 := hs
    obtain h | ⟨reasmMap, event, h⟩ := @capture_cases endian n t cpu call
    case inl => simp [h] at hs
    case inr =>
      rw [h, State.submit, List.mem_singleton] at hs
      simp [hs, decode_eventBytes]

theorem map_decode {subs : List Submission} (h : ∀ sub ∈ subs, (decode endian sub.bytes).isSome) :
    subs.map (fun sub => (decode endian sub.bytes, sub.full)) =
      (received endian subs).map fun (event, full) => (some event, full) := by
  induction subs
  case nil => rfl
  case cons sub subs hi =>
    obtain ⟨event, he⟩ := Option.isSome_iff_exists.mp (h sub List.mem_cons_self)
    rw [List.map_cons, hi fun sub hs => h sub (List.mem_cons_of_mem _ hs)]
    simp [received, he]

-- The captures of a run that the ring buffer has had room for.
def sent (captures : List (RawTlsCapture × Bool)) : List RawTlsCapture :=
  (captures.filter fun capture => !capture.2).map (·.1)

theorem decode_items : (items ((machine endian n).output s events)).map (decode endian) =
    (sent ((spec endian n).output s.shared events)).map some := by
  have hd := map_decode fun sub => @decode_isSome endian n s events sub
  rw [received_eq_spec] at hd
  have hf := congrArg (fun pairs => (pairs.filter fun pair => !pair.2).map (·.1)) hd
  simpa [items, sent, List.filter_map, Function.comp_def] using hf

theorem countP_full : ((machine endian n).output s events).countP (·.full) =
    ((spec endian n).output s.shared events).countP (·.2) := by
  have hd := map_decode fun sub => @decode_isSome endian n s events sub
  rw [received_eq_spec] at hd
  have hc := congrArg (List.countP (·.2)) hd
  simpa [List.countP_map, Function.comp_def] using hc

-- The items of the ring buffer are the captures that the maps alone make for, and nothing else: not
-- what a CPU has in its buffer, nor what the memory has in between the fields. Those that the ring
-- buffer has no room for are counted.
theorem ring_refines :
    (items ((machine endian n).output s events)).map (decode endian) =
      (sent ((spec endian n).output s.shared events)).map some ∧
    ((machine endian n).state s events).shared = (spec endian n).state s.shared events ∧
    ((machine endian n).state s events).sumKernelDrops = s.sumKernelDrops +
      .ofNat (((spec endian n).output s.shared events).countP (·.2)) := by
  refine ⟨decode_items, ?_, ?_⟩
  · rw [projects_spec.state_run trivial, Machine.Projects.inputs_flatMap, List.flatMap_singleton']
  · rw [sumKernelDrops_state, countP_full]

end Runs

end TlsProbe.Ebpf
