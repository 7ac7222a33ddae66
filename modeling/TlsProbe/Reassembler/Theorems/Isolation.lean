import TlsProbe.Reassembler.Theorems.Soundness

open Std

namespace TlsProbe
namespace Reassembler

variable {k : FlowKey} {r : Reassembler} {ev : Event} {events : List Event}

-- The calls that are left when only the captures of the flow `k` are fed.
def Event.Concerns (k : FlowKey) : Event → Prop
  | .capture _ cap => FlowKey.fromCapture cap = k
  | .sweep _       => True

instance : DecidablePred (Event.Concerns k)
  | .capture _ cap => inferInstanceAs <| Decidable <| FlowKey.fromCapture cap = k
  | .sweep _       => isTrue trivial

theorem ownEvent_of_not_concerns (h : ¬ev.Concerns k) : ownEvent k ev = none := by
  cases ev
  case capture => exact if_pos h
  case sweep   => exact absurd trivial h

theorem filterMap_ownEvent :
    (events.filter (·.Concerns k)).filterMap (ownEvent k) = events.filterMap (ownEvent k) := by
  rw [List.filterMap_filter]
  refine List.filterMap_congr fun ev _ => ?_
  by_cases h : ev.Concerns k
  case pos => simp [h]
  case neg => simp [h, ownEvent_of_not_concerns h]

-- Without evictions, what reaches a flow depends on the calls alone.
theorem inputs_of_not_evicted
    (h : machine.AllSteps (fun r ev => r.evictedBy ev ≠ some k) r events) :
    Machine.Projects.inputs machine (flowEvents k) r events = events.filterMap (ownEvent k) := by
  induction events generalizing r
  case nil => rfl
  case cons ev events hi =>
    rw [Machine.Projects.inputs_cons, hi h.tail, flowEvents, if_neg h.head, List.nil_append]
    cases he : ownEvent k ev <;> simp [he]

theorem recordsOf_output (hr : r.Entries HeadOf)
    (h : machine.AllSteps (fun r ev => r.evictedBy ev ≠ some k) r events) :
    recordsOf k (machine.output r events) =
      (Flow.machine r.timeout).output r.flows[k]? (events.filterMap (ownEvent k)) := by
  rw [←inputs_of_not_evicted h]
  exact (projects k r.timeout).output_run ⟨rfl, hr⟩ rfl fun _ _ => List.filter_append ..

-- Only the flow `k` has an entry.
def Only (k : FlowKey) (r : Reassembler) : Prop :=
  ∀ k', k' ≠ k → r.flows[k']? = none

theorem Only.size_le (h : r.Only k) : r.flows.size ≤ 1 := by
  have hs : r.flows.keys ⊆ [k] := by
    intro k' hk
    by_contra hn
    rw [ExtTreeMap.mem_keys, ExtTreeMap.mem_iff_isSome_getElem?, h k' (by simpa using hn)] at hk
    contradiction
  have hn : r.flows.keys.Nodup := ExtTreeMap.nodup_keys
  have := List.subperm_of_subset hn hs |>.length_le
  rwa [ExtTreeMap.length_keys] at this

theorem Only.step (h : r.Only k) (hc : ev.Concerns k) : (machine.step r ev).1.Only k := by
  intro k' hk
  have hs : r.survivor k' ev = none := by simp [survivor, h k' hk]
  rw [step_flows, hs]
  cases ev
  case sweep => rfl
  case capture clk cap =>
    have hn : FlowKey.fromCapture cap ≠ k' := fun he => hk <| he.symm.trans hc
    simp [ownEvent, hn]

theorem Only.records (h : r.Only k) (hr : r.Entries HeadOf) (hc : ev.Concerns k) :
    recordsOf k (machine.step r ev).2 = (machine.step r ev).2 := by
  refine recordsOf_self fun record hrec => by_contra fun hk => ?_
  have hs : r.survivor (.fromCapture record.headCapture) ev = none := by simp [survivor, h _ hk]
  have hm : record ∈ recordsOf (.fromCapture record.headCapture) (machine.step r ev).2 :=
    List.mem_filter.mpr ⟨hrec, by simp⟩
  rw [step_records hr, hs] at hm
  cases ev
  case sweep => contradiction
  case capture clk cap =>
    have hn : FlowKey.fromCapture cap ≠ .fromCapture record.headCapture :=
      fun he => hk <| he.symm.trans hc
    simp [ownEvent, hn] at hm

theorem Only.output (h : r.Only k) (hr : r.Entries HeadOf) (hc : ∀ ev ∈ events, ev.Concerns k) :
    recordsOf k (machine.output r events) = machine.output r events := by
  induction events generalizing r
  case nil => rfl
  case cons ev events hi =>
    have ⟨he, hc⟩ := List.forall_mem_cons.mp hc
    have hs := hi (h.step he) hr.step_headOf hc
    rw [recordsOf] at hs
    rw [Machine.output_cons, recordsOf, List.filter_append, hs, ←recordsOf, h.records hr he]

theorem Only.not_evicted (h : r.Only k) (hm : 1 < r.maxFlows) (hc : ∀ ev ∈ events, ev.Concerns k) :
    machine.AllSteps (fun r ev => r.evictedBy ev ≠ some k) r events := by
  rintro ⟨s, ev⟩ ht
  have ⟨ho, hs⟩ := Machine.inv_trace (P := fun s => s.Only k ∧ s.maxFlows = r.maxFlows)
    (C := fun _ ev => ev.Concerns k) (fun s _ ⟨ho, hs⟩ hc => ⟨ho.step hc, step_maxFlows.trans hs⟩)
    ⟨h, rfl⟩ (Machine.allSteps_of_inputs hc) ht
  have hroom : s.flows.size < s.maxFlows := ho.size_le.trans_lt (hs ▸ hm)
  simp [evictedBy_eq_none hroom]

-- A flow gets the same records as if it had the reassembler for itself, as long as the table has
-- room for all flows.
theorem flow_isolated (k : FlowKey) (events : List Event)
    (h : machine.AllSteps (fun r _ => r.flows.size < r.maxFlows) new events) :
    recordsOf k (machine.output new events) =
      machine.output new (events.filter (·.Concerns k)) := by
  have hc : ∀ ev ∈ events.filter (·.Concerns k), ev.Concerns k := by simp
  have ho : new.Only k := by simp [Only, new]
  have he : machine.AllSteps (fun r ev => r.evictedBy ev ≠ some k) new events :=
    fun t ht => by simp [evictedBy_eq_none (h t ht)]
  calc recordsOf k (machine.output new events)
    _ = (Flow.machine new.timeout).output new.flows[k]? (events.filterMap (ownEvent k)) :=
          recordsOf_output new_entries he
    _ = (Flow.machine new.timeout).output new.flows[k]?
          ((events.filter (·.Concerns k)).filterMap (ownEvent k)) := by rw [filterMap_ownEvent]
    _ = recordsOf k (machine.output new (events.filter (·.Concerns k))) :=
          (recordsOf_output new_entries <| ho.not_evicted (by decide) hc).symm
    _ = machine.output new (events.filter (·.Concerns k)) := ho.output new_entries hc

def mixedEvents : List Event := [
  .capture .still helloTail,
  .capture .still { helloTail with flags := flagContinuation ||| flagIngress },
  .sweep .still,
  .capture .still helloHead
]

theorem flow_isolated_hello : recordsOf (.fromCapture helloHead) (machine.output new mixedEvents) =
    machine.output new (mixedEvents.filter (·.Concerns <| .fromCapture helloHead)) :=
  flow_isolated _ _ (by decide +kernel)

end Reassembler
end TlsProbe
