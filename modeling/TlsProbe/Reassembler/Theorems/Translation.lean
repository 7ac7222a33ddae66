import TlsProbe.Reassembler.Theorems.Soundness

open Std Stream
open scoped UInt32.CommRing

namespace TlsProbe

-- Moving all sequence numbers by `d`.
section Shift

def RawTlsCapture.shift (d : UInt32) (cap : RawTlsCapture) : RawTlsCapture :=
  { cap with tcpSeq := cap.tcpSeq + d }

def HeadInfo.shift (d : UInt32) (head : HeadInfo) : HeadInfo where
  seq     := head.seq + d
  capture := head.capture.shift d

def Fragments.shift (d : UInt32) (fragments : Fragments) : Fragments :=
  .ofList <| fragments.toList.map fun x => (x.1 + d, x.2)

def ReassemblyEntry.shift (d : UInt32) (entry : ReassemblyEntry) : ReassemblyEntry := { entry with
  fragments := entry.fragments.shift d
  head      := entry.head.map (·.shift d)
}

def AssembledRecord.shift (d : UInt32) (record : AssembledRecord) : AssembledRecord :=
  { record with headCapture := record.headCapture.shift d }

def Flow.Event.shift (d : UInt32) : Flow.Event → Flow.Event
  | .head cap created                 => .head (cap.shift d) created
  | .continuation cap created checked => .continuation (cap.shift d) created checked
  | .sweep checked                    => .sweep checked
  | .evict                            => .evict

def Reassembler.shift (d : UInt32) (r : Reassembler) : Reassembler :=
  { r with flows := r.flows.map fun _ entry => entry.shift d }

def Reassembler.Event.shift (d : UInt32) : Reassembler.Event → Reassembler.Event
  | .capture clk cap => .capture clk (cap.shift d)
  | .sweep clk       => .sweep clk

end Shift

variable {d : UInt32}

theorem RawTlsCapture.shift_tcpSeq {cap : RawTlsCapture} : (cap.shift d).tcpSeq = cap.tcpSeq + d :=
  rfl

namespace Fragments

variable {fragments : Fragments} {seq : UInt32} {payload : List UInt8}

theorem shift_distinct : (fragments.toList.map fun x => (x.1 + d, x.2)).Pairwise
    fun x y => ¬compare x.1 y.1 = .eq := by
  refine List.pairwise_map.mpr <| fragments.sorted.imp fun h he => ?_
  exact UInt32.ne_of_lt h <| add_left_injective d <| Std.compare_eq_iff_eq.mp he

@[simp]
theorem shift_getElem? : (fragments.shift d)[seq + d]? = fragments[seq]? := by
  cases h : fragments[seq]?
  case some payload =>
    refine ExtTreeMap.getElem?_ofList_of_mem (k := seq + d) (by simp) shift_distinct ?_
    exact List.mem_map.mpr ⟨(seq, payload), mem_toList.mpr h, rfl⟩
  case none =>
    refine ExtTreeMap.getElem?_ofList_of_contains_eq_false ?_
    refine Bool.eq_false_iff.mpr fun hc => ?_
    simp only [List.map_map, List.contains_iff_mem, List.mem_map] at hc
    have ⟨x, hx, he⟩ := hc
    have he : x.1 = seq := add_left_injective d he
    have hx := mem_toList.mp hx
    simp [he, h] at hx

theorem shift_ext {m : Fragments} (h : ∀ seq : UInt32, m[seq + d]? = fragments[seq]?) :
    m = fragments.shift d := by
  refine ExtTreeMap.ext_getElem? fun seq => ?_
  have hs := (h (seq - d)).trans (shift_getElem? (d := d)).symm
  rwa [sub_add_cancel] at hs

@[simp]
theorem shift_insert :
    shift d (fragments.insert seq payload) = (shift d fragments).insert (seq + d) payload := by
  refine (shift_ext fun s => ?_).symm
  simp [ExtTreeMap.getElem?_insert]

@[simp]
theorem shift_size : (fragments.shift d).size = fragments.size := by
  rw [shift, ExtTreeMap.size_ofList shift_distinct, List.length_map, ExtTreeMap.length_toList]

@[simp]
theorem shift_contains : (fragments.shift d).contains (seq + d) = fragments.contains seq := by
  simp only [ExtTreeMap.contains_eq_isSome_getElem?, shift_getElem?]

-- The walk does not depend on where the segments lie as long as it does not cross the wrap.
theorem shift_walk (h : ¬fragments.Straddles seq) (h' : ¬(fragments.shift d).Straddles (seq + d)) :
    ((fragments.shift d).walk (seq + d)).buffer = (fragments.walk seq).buffer :=
  walk_run h' |>.unique <| walk_run h |>.translate fun _ => shift_getElem?

end Fragments

namespace ReassemblyEntry

-- The chain of segments from the head of the entry crosses the wrap.
def Wraps (entry : ReassemblyEntry) : Prop :=
  ∃ head ∈ entry.head, entry.fragments.Straddles head.seq

variable {entry : ReassemblyEntry} {cap : RawTlsCapture}

@[simp]
theorem shift_size : (entry.shift d).fragments.size = entry.fragments.size :=
  Fragments.shift_size

theorem shift_elapsed {now : Instant} : (entry.shift d).elapsed now = entry.elapsed now :=
  rfl

theorem shift_receiveHead : (entry.receiveHead cap).shift d =
    (entry.shift d).receiveHead (cap.shift d) := by
  simp [receiveHead, shift, HeadInfo.shift, RawTlsCapture.shift,
    RawTlsCapture.payloadSlice]

theorem shift_receiveContinuation : (entry.receiveContinuation cap).shift d =
    (entry.shift d).receiveContinuation (cap.shift d) := by
  simp [receiveContinuation, shift, RawTlsCapture.shift,
    RawTlsCapture.payloadSlice]

theorem shift_walk (h : ¬entry.Wraps) (h' : ¬(entry.shift d).Wraps) :
    ∀ head ∈ entry.head, ((entry.shift d).fragments.walk (head.shift d).seq).buffer =
      (entry.fragments.walk head.seq).buffer := by
  intro head hh
  refine Fragments.shift_walk (fun hs => h ⟨head, hh, hs⟩) fun hs => h' ⟨head.shift d, ?_, hs⟩
  simp [shift, Option.mem_def.mp hh]

theorem shift_completed (h : ¬entry.Wraps) (h' : ¬(entry.shift d).Wraps) :
    (entry.shift d).completed = entry.completed.map (·.shift d) := by
  have hw := shift_walk h h'
  simp only [completed, Fragments.walk_follows.contiguousBytes]
  cases hh : entry.head
  case none => simp [shift, hh]
  case some head =>
    have hs : (entry.shift d).head = some (head.shift d) := by simp [shift, hh]
    have he : (entry.shift d).expectedTotal = entry.expectedTotal := rfl
    rw [hs, he]
    cases entry.expectedTotal
    case none       => rfl
    case some total =>
      simp only [hw head hh, apply_ite (Option.map (AssembledRecord.shift d))]
      rfl

theorem shift_finalized (h : ¬entry.Wraps) (h' : ¬(entry.shift d).Wraps) :
    (entry.shift d).finalized = entry.finalized.map (·.shift d) := by
  have hw := shift_walk h h'
  simp only [finalized]
  cases hh : entry.head
  case none => simp [shift, hh]
  case some head =>
    have hs : (entry.shift d).head = some (head.shift d) := by simp [shift, hh]
    simp only [hs, Option.map_some, hw head hh]
    rfl

end ReassemblyEntry

namespace Flow

variable {timeout : Duration} {e : Option ReassemblyEntry} {ev : Event} {entry : ReassemblyEntry}

theorem shift_settle (h : ¬entry.Wraps) (h' : ¬(entry.shift d).Wraps) : settle (entry.shift d) =
    ((settle entry).1.map (·.shift d), (settle entry).2.map (·.shift d)) := by
  simp only [settle, ReassemblyEntry.shift_completed h h']
  cases entry.completed <;> rfl

theorem shift_close (h : ¬entry.Wraps) (h' : ¬(entry.shift d).Wraps) : close (entry.shift d) =
    ((close entry).1.map (·.shift d), (close entry).2.map (·.shift d)) := by
  simp only [close, ReassemblyEntry.shift_finalized h h']
  cases entry.finalized <;> rfl

theorem shift_getD {created : Instant} : (e.map (·.shift d)).getD (Reassembler.orphan created) =
    (e.getD (Reassembler.orphan created)).shift d := by
  cases e <;> rfl

theorem shift_any {seq : UInt32} :
    (e.map (·.shift d)).any (·.fragments.contains (seq + d)) =
      e.any (·.fragments.contains seq) := by
  cases e
  case none => rfl
  case some => exact Fragments.shift_contains

theorem shift_examined : examined timeout (e.map (·.shift d)) (ev.shift d) =
    (examined timeout e ev).map (·.shift d) := by
  cases ev <;> simp only [Event.shift, examined, shift_getD]
  case head => rw [←ReassemblyEntry.shift_receiveHead, Option.map_some]
  case continuation cap _ _ =>
    have ha : (e.map (·.shift d)).any (·.fragments.contains (cap.tcpSeq + d)) = _ := shift_any
    rw [RawTlsCapture.shift_tcpSeq, ha, ←ReassemblyEntry.shift_receiveContinuation]
    split <;> rfl
  case sweep checked =>
    cases e
    case none => rfl
    case some entry =>
      have ht : (entry.shift d).elapsed checked = _ := entry.shift_elapsed
      by_cases hb : timeout ≤ entry.elapsed checked <;> simp [Option.filter_some, ht, hb]
  case evict => rfl

theorem shift_step (h : ∀ entry ∈ examined timeout e ev, ¬entry.Wraps ∧ ¬(entry.shift d).Wraps) :
    step timeout (e.map (·.shift d)) (ev.shift d) =
      ((step timeout e ev).1.map (·.shift d), (step timeout e ev).2.map (·.shift d)) := by
  cases ev <;> simp only [Event.shift, examined, step, shift_getD] at h ⊢
  case head =>
    obtain ⟨hw, hw'⟩ := h _ rfl
    rw [←ReassemblyEntry.shift_receiveHead, shift_settle hw hw']
  case continuation cap _ _ =>
    have ha : (e.map (·.shift d)).any (·.fragments.contains (cap.tcpSeq + d)) = _ := shift_any
    rw [RawTlsCapture.shift_tcpSeq, ha, ←ReassemblyEntry.shift_receiveContinuation]
    split
    case isTrue => rfl
    case isFalse hd =>
      obtain ⟨hw, hw'⟩ := h _ (if_neg hd)
      rw [ReassemblyEntry.shift_size, ReassemblyEntry.shift_elapsed]
      split
      · exact shift_close hw hw'
      · exact shift_settle hw hw'
  case sweep checked =>
    cases e
    case none => rfl
    case some entry =>
      have ht : (entry.shift d).elapsed checked = _ := entry.shift_elapsed
      by_cases hb : timeout ≤ entry.elapsed checked
      case pos =>
        obtain ⟨hw, hw'⟩ := h entry (by simp [hb])
        simp [ht, hb, shift_close hw hw']
      case neg => simp [ht, hb]
  case evict => rfl

end Flow

namespace Reassembler

variable {r : Reassembler} {k : FlowKey} {clk : Clock} {cap : RawTlsCapture} {ev : Event}
variable {e : Option ReassemblyEntry}

@[simp]
theorem shift_flows : (r.shift d).flows[k]? = r.flows[k]?.map (·.shift d) := by
  simp [shift]

theorem shift_evicted : (r.shift d).evicted = r.evicted := by
  simp [evicted, shift]

theorem shift_put : (r.put k e).shift d = (r.shift d).put k (e.map (·.shift d)) := by
  apply ext_flows
  case hf =>
    intro k'
    by_cases hk : k = k' <;> simp [hk]
  all_goals simp [shift]

theorem shift_cleanupIfOverLimit :
    r.cleanupIfOverLimit.shift d = (r.shift d).cleanupIfOverLimit := by
  rw [cleanupIfOverLimit_eq, cleanupIfOverLimit_eq, shift_evicted]
  cases r.evicted
  case none => rfl
  case some => exact shift_put

theorem shift_survivor :
    (r.shift d).survivor k (ev.shift d) = (r.survivor k ev).map (·.shift d) := by
  have he : (r.shift d).evictedBy (ev.shift d) = r.evictedBy ev := by
    cases ev
    case capture => simp only [Event.shift, evictedBy, shift_evicted]; rfl
    case sweep   => rfl
  simp only [survivor, he, shift_flows]
  split <;> rfl

theorem shift_ownEvent : ownEvent k (ev.shift d) = (ownEvent k ev).map (·.shift d) := by
  cases ev
  case sweep => rfl
  case capture clk cap =>
    have hk : FlowKey.fromCapture (cap.shift d) = FlowKey.fromCapture cap := rfl
    have hf : (cap.shift d).isFragment = cap.isFragment := rfl
    have hc : (cap.shift d).isContinuation = cap.isContinuation := rfl
    simp only [Event.shift, ownEvent, hk, hf, hc, apply_ite (Option.map (Flow.Event.shift d))]
    rfl

-- The call follows a chain of segments across the wrap of the sequence space.
def Wraps (r : Reassembler) (ev : Event) : Prop :=
  ∃ k, ∃ fe ∈ ownEvent k ev, ∃ entry ∈ Flow.examined r.timeout (r.survivor k ev) fe, entry.Wraps

theorem shift_flow_step {fe : Flow.Event} (h : ¬r.Wraps ev) (h' : ¬(r.shift d).Wraps (ev.shift d))
    (he : fe ∈ ownEvent k ev) :
    Flow.step r.timeout ((r.survivor k ev).map (·.shift d)) (fe.shift d) =
      ((Flow.step r.timeout (r.survivor k ev) fe).1.map (·.shift d),
        (Flow.step r.timeout (r.survivor k ev) fe).2.map (·.shift d)) := by
  refine Flow.shift_step fun entry ha => ⟨fun hw => h ⟨k, fe, he, entry, ha, hw⟩, fun hw => h' ?_⟩
  refine ⟨k, fe.shift d, ?_, entry.shift d, ?_, hw⟩
  · rw [shift_ownEvent, Option.mem_def.mp he]
    rfl
  · rw [shift_survivor]
    have ht : (r.shift d).timeout = r.timeout := rfl
    rw [ht, Flow.shift_examined, Option.mem_def.mp ha]
    rfl

theorem shift_capture (h : ¬r.Wraps (.capture clk cap))
    (h' : ¬(r.shift d).Wraps (.capture clk (cap.shift d))) :
    machine.step (r.shift d) (.capture clk (cap.shift d)) =
      ((machine.step r (.capture clk cap)).1.shift d,
        (machine.step r (.capture clk cap)).2.map (·.shift d)) := by
  have hk : FlowKey.fromCapture (cap.shift d) = FlowKey.fromCapture cap := rfl
  have hf' : (cap.shift d).isFragment = cap.isFragment := rfl
  have hc' : (cap.shift d).isContinuation = cap.isContinuation := rfl
  have ht : (r.shift d).timeout = r.timeout := rfl
  cases hf : cap.isFragment <;> cases hc : cap.isContinuation <;> rw [hf] at hf' <;> rw [hc] at hc'
  case false.false => rw [step_noFlags hf hc, step_noFlags hf' hc']; rfl
  case false.true =>
    have he : .continuation cap clk.created (clk.checked (.fromCapture cap)) ∈
        ownEvent (.fromCapture cap) (.capture clk cap) := by simp [ownEvent, hf, hc]
    have hs : r.survivor (.fromCapture cap) (.capture clk cap) =
        r.flows[FlowKey.fromCapture cap]? := by simp [survivor, evictedBy, hf]
    have hstep := shift_flow_step h h' he
    rw [hs, Flow.Event.shift] at hstep
    simp only [step_continuation hf hc, step_continuation hf' hc', hk, ht, shift_flows]
    rw [hstep, shift_put]
  all_goals
    have he : .head cap clk.created ∈ ownEvent (.fromCapture cap) (.capture clk cap) := by
      simp [ownEvent, hf]
    have hs : r.survivor (.fromCapture cap) (.capture clk cap) =
        r.cleanupIfOverLimit.flows[FlowKey.fromCapture cap]? := by
      simp [survivor, evictedBy, hf, cleanupIfOverLimit_flows]
    have hstep := shift_flow_step h h' he
    rw [hs, Flow.Event.shift] at hstep
    simp only [step_head hf, step_head hf', hk, ht, ←shift_cleanupIfOverLimit, shift_flows]
    rw [hstep, shift_put]

theorem shift_expired : (r.shift d).expired clk = r.expired clk := by
  simp only [expired, shift, ExtTreeMap.toList_map, List.filterMap_map]
  rfl

theorem shift_sweep (h : ¬r.Wraps (.sweep clk)) (h' : ¬(r.shift d).Wraps (.sweep clk)) :
    machine.step (r.shift d) (.sweep clk) =
      ((machine.step r (.sweep clk)).1.shift d,
        (machine.step r (.sweep clk)).2.map (·.shift d)) := by
  simp only [step_sweep, shift_expired]
  apply Prod.ext
  case fst =>
    apply ext_flows
    case hf =>
      intro k
      simp only [finalizeAll_flows, shift_flows]
      split <;> rfl
    all_goals simp [shift, finalizeAll_maxFlows, finalizeAll_timeout]
  case snd =>
    simp only [finalizeAll_records expired_nodup, List.map_flatMap]
    refine List.flatMap_congr fun k hk => ?_
    have ⟨entry, he, hb⟩ := mem_expired.mp hk
    have hw {r : Reassembler} {entry : ReassemblyEntry} (he : r.flows[k]? = some entry)
        (hb : r.timeout ≤ entry.elapsed (clk.checked k)) (h : ¬r.Wraps (.sweep clk)) :
        ¬entry.Wraps := by
      refine fun hw => h ⟨k, _, rfl, entry, ?_, hw⟩
      simp [Flow.examined, survivor, evictedBy, he, hb]
    have he' : (r.shift d).flows[k]? = some (entry.shift d) := by simp [he]
    rw [he, he', Option.bind_some, Option.bind_some,
      ReassemblyEntry.shift_finalized (hw he hb h) (hw he' hb h')]
    cases entry.finalized <;> rfl

-- The step lemma: shifting the segments shifts what a call does.
theorem shift_machine_step (h : ¬r.Wraps ev) (h' : ¬(r.shift d).Wraps (ev.shift d)) :
    machine.step (r.shift d) (ev.shift d) =
      ((machine.step r ev).1.shift d, (machine.step r ev).2.map (·.shift d)) := by
  cases ev
  case capture => exact shift_capture h h'
  case sweep   => exact shift_sweep h h'

theorem shift_new : new.shift d = new := by
  apply ext_flows <;> simp [new, shift]

theorem emits_shift {events : List Event} (h : machine.AllSteps (fun r ev => ¬r.Wraps ev) r events)
    (h' : machine.AllSteps (fun r ev => ¬r.Wraps ev) (r.shift d) (events.map (·.shift d))) :
    machine.emits (r.shift d) (events.map (·.shift d)) =
      (machine.emits r events).map (·.map (·.shift d)) := by
  have ht : List.Forall₂ (fun ev ev' => ev.shift d = ev') events (events.map (·.shift d)) :=
    List.forall₂_map_right_iff.mpr <| List.forall₂_same.mpr fun _ _ => rfl
  have ⟨_, ho⟩ := Machine.simulation (R := fun r r' => r.shift d = r')
    (O := fun ws ws' => ws.map (·.shift d) = ws') (fun r _ ev _ hr hev hc hd => by
      subst hr hev
      simp [shift_machine_step hc hd]) rfl ht h h'
  have ho := List.forall₂_map_left_iff (R := Eq).mpr ho
  rw [List.forall₂_eq_eq_eq] at ho
  exact ho.symm

section Low

def Low (seq : UInt32) (payload : List UInt8) : Prop :=
  seq.toNat + payload.length < 2 ^ 32

instance {seq : UInt32} {payload : List UInt8} : Decidable (Low seq payload) :=
  inferInstanceAs <| Decidable <| _ < _

theorem not_wraps_of_low {entry : ReassemblyEntry} (h : entry.Holding Low) : ¬entry.Wraps := by
  rintro ⟨_, _, _, _, _, hp, hw, _⟩
  exact absurd (h _ _ hp) (Nat.not_lt.mpr hw)

-- Segments that all end before the wrap make up no chain that crosses it.
theorem allSteps_not_wraps {events : List Event}
    (h : ∀ ev ∈ events, ∀ cap ∈ ev.capture?, Low cap.tcpSeq cap.payloadSlice) :
    machine.AllSteps (fun r ev => ¬r.Wraps ev) new events := by
  let Q (cap : RawTlsCapture) := Low cap.tcpSeq cap.payloadSlice
  have p (k : FlowKey) : Flow.Preserves (fun cap => Q cap ∧ FlowKey.fromCapture cap = k)
      (ReassemblyEntry.Holding Low) := ReassemblyEntry.holding_preserves.mono fun _ h => h.1
  have hq := Machine.allSteps_of_inputs (m := machine) (s := new) h
  rintro ⟨r, ev⟩ ht ⟨k, fe, he, entry, ha, hw⟩
  have hr : r.Entries fun _ => ReassemblyEntry.Holding Low :=
    Machine.inv_trace (fun _ _ hr hq => hr.step p hq) new_entries hq ht
  exact not_wraps_of_low (hr.examined p (hq _ ht) he ha) hw

end Low

def result (record : AssembledRecord) : List UInt8 × Bool :=
  (record.buffer, record.truncated)

-- Runs over segments that lie apart by `d` return the same bytes and flags, call by call, as long
-- as neither of them follows a chain of segments across the wrap.
theorem results_translate {events : List Event} (d : UInt32)
    (h : machine.AllSteps (fun r ev => ¬r.Wraps ev) new events)
    (h' : machine.AllSteps (fun r ev => ¬r.Wraps ev) new (events.map (·.shift d))) :
    (machine.emits new (events.map (·.shift d))).map (·.map result) =
      (machine.emits new events).map (·.map result) := by
  have he := emits_shift (r := new) (d := d) h (shift_new.symm ▸ h')
  rw [shift_new] at he
  rw [he, List.map_map]
  refine List.map_congr_left fun ws _ => ?_
  simp [result, AssembledRecord.shift]

def helloInOrder : List Event :=
  [helloHead, helloTail].map (.capture .still)

theorem results_translate_hello :
    (machine.emits new (helloInOrder.map (·.shift 4096))).map (·.map result) =
      (machine.emits new helloInOrder).map (·.map result) :=
  results_translate 4096 (allSteps_not_wraps (by decide +kernel))
    (allSteps_not_wraps (by decide +kernel))

-- When the second segment starts at zero, just after the wrap, its record is not found complete.
theorem results_not_translate_hello : ¬∀ (events : List Event) (d : UInt32),
    (machine.emits new (events.map (·.shift d))).map (·.map result) =
      (machine.emits new events).map (·.map result) :=
  fun h => absurd (h helloInOrder (0 - 110)) (by decide +kernel)

end Reassembler
end TlsProbe
