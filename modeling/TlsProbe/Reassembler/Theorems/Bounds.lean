import Mathlib.Algebra.Order.BigOperators.Group.List
import Mathlib.Algebra.Order.Group.Nat
import TlsProbe.Reassembler.Theorems.Entry

open Std

namespace TlsProbe
namespace ReassemblyEntry

def payloadBytes (entry : ReassemblyEntry) : Nat :=
  (entry.fragments.toList.map (·.2.length)).sum

-- The bounds on a flow that the documentation states.
structure Bounded (entry : ReassemblyEntry) : Prop where
  fragments : entry.fragments.size ≤ 4
  payload   : entry.payloadBytes ≤ 4 * rawPayloadSize

variable {entry : ReassemblyEntry}

theorem payloadBytes_le (h : entry.Holding fun _ payload => payload.length ≤ rawPayloadSize) :
    entry.payloadBytes ≤ entry.fragments.size * rawPayloadSize := by
  have hl : ∀ n ∈ entry.fragments.toList.map (·.2.length), n ≤ rawPayloadSize := by
    intro n hn
    have ⟨x, hx, he⟩ := List.mem_map.mp hn
    subst he
    exact h x.1 x.2 <| ExtTreeMap.mem_toList_iff_getElem?_eq_some.mp hx
  have := List.sum_le_card_nsmul _ _ hl
  simpa [payloadBytes] using this

theorem bounded_of_size (h : entry.Holding fun _ payload => payload.length ≤ rawPayloadSize)
    (hs : entry.fragments.size ≤ 4) : entry.Bounded :=
  ⟨hs, (payloadBytes_le h).trans (Nat.mul_le_mul_right _ hs)⟩

end ReassemblyEntry

namespace Flow

variable {timeout : Duration} {e : Option ReassemblyEntry} {ev : Event} {entry : ReassemblyEntry}

-- A head that brings a new segment finds room for it.
def Room (e : Option ReassemblyEntry) : Event → Prop
  | .head cap _ => ∀ entry ∈ e, ¬entry.fragments.contains cap.tcpSeq → entry.fragments.size < 4
  | _           => True

theorem step_kept (h : entry ∈ (step timeout e ev).1) : entry ∈ e ∨
    entry ∈ examined timeout e ev ∧ ¬AtBound timeout entry ev := by
  obtain ⟨_, _, hs⟩ | ⟨_, hs⟩ | ⟨entry', he, hs⟩ := step_cases timeout e ev <;> rw [hs] at h
  case inl => exact .inl h
  case inr.inl => contradiction
  case inr.inr =>
    split at h
    case isTrue => contradiction
    case isFalse hb =>
      obtain ⟨_, hs⟩ | ⟨_, _, hs⟩ := settle_cases entry' <;> rw [hs] at h
      · cases h
        exact .inr ⟨he, hb⟩
      · contradiction

theorem size_receiveHead {cap : RawTlsCapture} {created : Instant}
    (h : ∀ entry ∈ e, entry.fragments.size ≤ 4) (hr : Room e (.head cap created)) :
    ((e.getD (Reassembler.orphan created)).receiveHead cap).fragments.size ≤ 4 := by
  rw [ReassemblyEntry.receiveHead, ExtTreeMap.size_insert]
  cases e
  case none => simp [Reassembler.orphan]
  case some entry =>
    have h := h entry rfl
    have hr := hr entry rfl
    simp only [Option.getD_some]
    split
    · exact h
    · exact hr ‹_›

-- The step lemma for the bound on the segments of a flow.
theorem step_size (h : ∀ entry ∈ e, entry.fragments.size ≤ 4) (hr : Room e ev) :
    ∀ entry ∈ (step timeout e ev).1, entry.fragments.size ≤ 4 := by
  intro entry he
  obtain he | ⟨he, hb⟩ := step_kept he
  case inl => exact h entry he
  case inr =>
    cases ev
    case head         => cases he; exact size_receiveHead h hr
    case continuation => exact Nat.le_of_lt <| Nat.not_le.mp (not_or.mp hb).1
    case sweep        => exact absurd trivial hb
    case evict        => contradiction

end Flow

namespace Reassembler

variable {r : Reassembler} {k : FlowKey} {e : Option ReassemblyEntry} {ev : Event}
variable {clk : Clock} {cap : RawTlsCapture}

-- A head finds room for a new segment in its flow, and a new orphan in the table.
def Room (r : Reassembler) : Event → Prop
  | .capture clk cap =>
    let key := FlowKey.fromCapture cap
    if cap.isFragment then
      ∀ entry ∈ r.survivor key (.capture clk cap),
        ¬entry.fragments.contains cap.tcpSeq → entry.fragments.size < 4
    else
      cap.isContinuation → r.flows[key]? = none → r.flows.size < r.maxFlows
  | .sweep _ => True

instance : DecidablePred (Room r)
  | .capture .. => inferInstanceAs <| Decidable <| ite _ _ _
  | .sweep _    => isTrue trivial

theorem Room.own (h : r.Room ev) : ∀ fe ∈ ownEvent k ev, Flow.Room (r.survivor k ev) fe := by
  intro fe he
  cases ev
  case sweep => cases he; trivial
  case capture clk cap =>
    simp only [ownEvent, ne_eq, ite_not, Option.mem_def, Option.ite_none_right_eq_some] at he
    obtain ⟨rfl, he⟩ := he
    split at he
    case isTrue hf =>
      cases he
      rwa [Room, if_pos hf] at h
    case isFalse =>
      obtain ⟨_, he⟩ := Option.ite_none_right_eq_some.mp he
      cases he
      trivial

theorem size_put_le : (r.put k e).flows.size ≤ r.flows.size + 1 := by
  cases e
  case none => exact ExtTreeMap.size_erase_le.trans (Nat.le_succ _)
  case some => exact ExtTreeMap.size_insert_le

theorem size_put_le_of_mem (h : r.flows[k]? ≠ none) : (r.put k e).flows.size ≤ r.flows.size := by
  cases e
  case none => exact ExtTreeMap.size_erase_le
  case some =>
    have hc : r.flows.contains k := by
      rw [ExtTreeMap.contains_eq_isSome_getElem?, Option.isSome_iff_ne_none]
      exact h
    rw [put, ExtTreeMap.size_insert, if_pos hc]

theorem size_cleanupIfOverLimit (h : r.flows.size ≤ r.maxFlows) (hm : 0 < r.maxFlows) :
    r.cleanupIfOverLimit.flows.size < r.maxFlows := by
  simp only [cleanupIfOverLimit]
  split
  case isFalse hn => exact Nat.not_le.mp hn
  case isTrue hl =>
    cases hk : r.flows.keys
    case nil =>
      have := congrArg List.length hk
      rw [ExtTreeMap.length_keys, List.length_nil] at this
      omega
    case cons k ks =>
      have hc : r.flows.contains k := by
        rw [ExtTreeMap.contains_iff_mem, ←ExtTreeMap.mem_keys, hk]
        exact List.mem_cons_self ..
      have := ExtTreeMap.size_erase (t := r.flows) (k := k)
      rw [if_pos hc] at this
      simp only [List.head?_cons]
      omega

theorem size_finalizeAll {keys : List FlowKey} :
    (r.finalizeAll keys).1.flows.size ≤ r.flows.size := by
  induction keys generalizing r
  case nil => exact Nat.le_refl _
  case cons k ks hi =>
    simp only [finalizeAll, finalizeEntry_eq]
    exact hi.trans ExtTreeMap.size_erase_le

-- The step lemma for the bound on the number of flows.
theorem step_flows_size (h : r.flows.size ≤ r.maxFlows) (hm : 0 < r.maxFlows) (hr : r.Room ev) :
    (machine.step r ev).1.flows.size ≤ r.maxFlows := by
  cases ev
  case sweep => exact size_finalizeAll.trans h
  case capture clk cap =>
    cases hf : cap.isFragment <;> cases hc : cap.isContinuation
    case false.false => rwa [step_noFlags hf hc]
    case false.true =>
      rw [step_continuation hf hc]
      by_cases hn : r.flows[FlowKey.fromCapture cap]? = none
      case pos =>
        rw [Room, if_neg (by simp [hf])] at hr
        exact size_put_le.trans <| hr hc hn
      case neg => exact size_put_le_of_mem hn |>.trans h
    all_goals
      rw [step_head hf]
      exact size_put_le.trans <| size_cleanupIfOverLimit h hm

theorem step_entries_size (h : r.Entries fun _ entry => entry.fragments.size ≤ 4) (hr : r.Room ev) :
    (machine.step r ev).1.Entries fun _ entry => entry.fragments.size ≤ 4 := by
  intro k entry he
  rw [step_flows] at he
  cases ho : ownEvent k ev <;> simp only [ho] at he
  case none => exact h.survivor entry he
  case some => exact Flow.step_size h.survivor (hr.own _ ho) entry he

section Unbounded

variable {caps : List RawTlsCapture}

theorem step_orphan (hf : cap.isFragment = false) (hc : cap.isContinuation) (ht : 0 < r.timeout)
    (hn : r.flows[FlowKey.fromCapture cap]? = none) :
    machine.step r (.capture .still cap) =
      (r.put (.fromCapture cap) (some <| (orphan 0).receiveContinuation cap), []) := by
  have hb : ¬(4 ≤ ((orphan 0).receiveContinuation cap).fragments.size ∨
      r.timeout ≤ ((orphan 0).receiveContinuation cap).elapsed 0) := by
    have : ((orphan 0).receiveContinuation cap).fragments.size = 1 := by
      simp [orphan, ReassemblyEntry.receiveContinuation, ExtTreeMap.size_insert]
    simp [this, ht.ne', ReassemblyEntry.elapsed]
  simp only [step_continuation hf hc, hn, Flow.step, Option.any_none, Option.getD_none, Clock.still,
    if_neg hb]
  rfl

-- Orphans of any number of flows are all kept.
theorem state_orphans (hc : ∀ cap ∈ caps, cap.isFragment = false ∧ cap.isContinuation)
    (hd : (caps.map FlowKey.fromCapture).Nodup) (ht : 0 < r.timeout)
    (hn : ∀ cap ∈ caps, r.flows[FlowKey.fromCapture cap]? = none) :
    (machine.state r (caps.map (.capture .still))).flows.size = r.flows.size + caps.length ∧
    ∀ k, k ∈ (machine.state r (caps.map (.capture .still))).flows ↔
      k ∈ caps.map FlowKey.fromCapture ∨ k ∈ r.flows := by
  induction caps generalizing r
  case nil => simp
  case cons cap caps hi =>
    have ⟨hk, hd⟩ := List.nodup_cons.mp hd
    have ⟨hcap, hc⟩ := List.forall_mem_cons.mp hc
    have ⟨hnone, hn⟩ := List.forall_mem_cons.mp hn
    have hnew : r.flows.contains (.fromCapture cap) = false := by
      rw [ExtTreeMap.contains_eq_isSome_getElem?, hnone]
      rfl
    have hrest : ∀ cap' ∈ caps, (r.put (.fromCapture cap)
        (some <| (orphan 0).receiveContinuation cap)).flows[FlowKey.fromCapture cap']? = none := by
      intro cap' hm
      have hne : FlowKey.fromCapture cap ≠ .fromCapture cap' :=
        fun he => hk <| he ▸ List.mem_map_of_mem hm
      simp [hne, hn cap' hm]
    rw [List.map_cons, Machine.state_cons, step_orphan hcap.1 hcap.2 ht hnone]
    obtain ⟨hs, hm⟩ := hi hc hd (by simpa using ht) hrest
    constructor
    case left =>
      rw [hs]
      simp only [put, ExtTreeMap.size_insert, hnew, List.length_cons, Bool.false_eq_true, if_false]
      omega
    case right =>
      intro k
      rw [hm]
      simp only [put, ExtTreeMap.mem_insert, Std.compare_eq_iff_eq, List.map_cons,
        List.mem_cons, eq_comm (a := k)]
      tauto

end Unbounded

-- Continuations of `n` flows, and heads at `n` positions of one flow.
def orphanFlood (n : Nat) : List RawTlsCapture :=
  (List.range n).map fun i =>
    { makeCapture 1 [0x16] flagContinuation with srcPort := UInt16.ofNat i }

def headFlood (n : Nat) : List RawTlsCapture :=
  (List.range n).map fun i => makeCapture (UInt32.ofNat i) [0x16] flagFragment

theorem orphanFlood_flags {n : Nat} :
    ∀ cap ∈ orphanFlood n, cap.isFragment = false ∧ cap.isContinuation := by
  intro cap hc
  obtain ⟨i, _, hi⟩ := List.mem_map.mp hc
  subst hi
  exact (by decide +kernel : (makeCapture 1 [0x16] flagContinuation).isFragment = false ∧
    (makeCapture 1 [0x16] flagContinuation).isContinuation)

theorem orphanFlood_nodup {n : Nat} (hn : n ≤ 2 ^ 16) :
    ((orphanFlood n).map FlowKey.fromCapture).Nodup := by
  rw [orphanFlood, List.map_map]
  refine List.Nodup.map_on (fun i hi j hj he => ?_) List.nodup_range
  have he := congrArg (UInt16.toNat ∘ FlowKey.srcPort) he
  simp only [Function.comp_apply, FlowKey.fromCapture, UInt16.toNat_ofNat'] at he
  rw [List.mem_range] at hi hj
  omega

theorem orphanFlood_size {n : Nat} (hn : n ≤ 2 ^ 16) :
    (machine.state new ((orphanFlood n).map (.capture .still))).flows.size = n := by
  rw [(state_orphans orphanFlood_flags (orphanFlood_nodup hn) (by decide) (by simp [new])).1]
  simp [new, orphanFlood]

theorem mem_orphanFlood {n : Nat} (hn : n ≤ 2 ^ 16) :
    k ∈ (machine.state new ((orphanFlood n).map (.capture .still))).flows ↔
      k ∈ (orphanFlood n).map FlowKey.fromCapture := by
  rw [(state_orphans orphanFlood_flags (orphanFlood_nodup hn) (by decide) (by simp [new])).2]
  simp [new]

-- The documented bounds of a reassembler.
structure Bounded (r : Reassembler) : Prop where
  flows   : r.flows.size ≤ r.maxFlows
  entries : r.Entries fun _ => ReassemblyEntry.Bounded

-- Calls that find room for what they store keep the reassembler within its bounds.
theorem bounded_of_room {events : List Event} (h : machine.AllSteps Room new events) :
    (machine.state new events).Bounded := by
  let S (_ : UInt32) (payload : List UInt8) := payload.length ≤ rawPayloadSize
  have p (k : FlowKey) : Flow.Preserves (fun cap => True ∧ FlowKey.fromCapture cap = k)
      (ReassemblyEntry.Holding S) :=
    ReassemblyEntry.holding_preserves.mono fun cap _ => cap.payloadSlice_length_le
  have hs : (machine.state new events).Entries fun _ => ReassemblyEntry.Holding S :=
    Machine.inv_reachable (fun _ _ h => Entries.step p h fun _ _ => trivial) new_entries
  have ⟨hm, hf, he⟩ := Machine.inv_state (m := machine) (C := Room)
    (P := fun r => 0 < r.maxFlows ∧ r.flows.size ≤ r.maxFlows ∧
      r.Entries fun _ entry => entry.fragments.size ≤ 4)
    (fun r ev ⟨hm, hf, he⟩ hr => by
      rw [step_maxFlows]
      exact ⟨hm, step_flows_size hf hm hr, step_entries_size he hr⟩)
    ⟨by decide, Nat.zero_le _, new_entries⟩ h
  exact ⟨hf, fun k entry hk => ReassemblyEntry.bounded_of_size (hs k entry hk) (he k entry hk)⟩

theorem bounded_of_room_heads : (machine.state new ((headFlood 4).map (.capture .still))).Bounded :=
  bounded_of_room (by decide +kernel)

theorem not_bounded :
    ¬(machine.state new ((orphanFlood 1025).map (.capture .still))).Bounded ∧
    ¬(machine.state new ((headFlood 5).map (.capture .still))).Bounded := by
  constructor
  case left =>
    intro h
    have hf := h.flows
    rw [orphanFlood_size (by decide), state_maxFlows] at hf
    exact absurd hf (by decide)
  case right =>
    intro h
    have ⟨entry, he, hs⟩ : ∃ entry ∈ (machine.state new ((headFlood 5).map
        (.capture .still))).flows[FlowKey.fromCapture (makeCapture 0 [] 0)]?,
        4 < entry.fragments.size := by decide +kernel
    exact Nat.not_lt.mpr (h.entries _ entry he).fragments hs

end Reassembler
end TlsProbe
