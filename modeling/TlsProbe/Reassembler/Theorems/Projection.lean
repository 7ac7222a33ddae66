import TlsProbe.Reassembler.Theorems.Flow

open Std

namespace TlsProbe
namespace Reassembler

variable {r : Reassembler} {k : FlowKey} {clk : Clock} {cap : RawTlsCapture}

-- The guard of the fast path in `insert`.
theorem noFlags_iff : cap.flags &&& (flagFragment ||| flagContinuation) = 0 ↔
    cap.isFragment = false ∧ cap.isContinuation = false := by
  simp [RawTlsCapture.isFragment, RawTlsCapture.isContinuation, ←UInt8.toBitVec_inj,
    BitVec.and_or_distrib_left]

theorem insert_head (h : cap.isFragment) : r.insert clk cap = r.insertHead clk cap := by
  simp [insert, noFlags_iff, h]

theorem insert_continuation (hf : cap.isFragment = false) (hc : cap.isContinuation) :
    r.insert clk cap = r.insertContinuation clk cap := by
  simp [insert, noFlags_iff, hf, hc]

-- What the captures of each kind do, in terms of their flow.
theorem step_head (h : cap.isFragment) :
    let key := FlowKey.fromCapture cap
    let r'  := r.cleanupIfOverLimit
    let s   := Flow.step r.timeout r'.flows[key]? (.head cap clk.created)
    machine.step r (.capture clk cap) = (r'.put key s.1, s.2) := by
  simp only [machine, insert_head h, insertHead_eq, Flow.head?_toList]

theorem step_continuation (hf : cap.isFragment = false) (hc : cap.isContinuation) :
    let key := FlowKey.fromCapture cap
    let s   := Flow.step r.timeout r.flows[key]? (.continuation cap clk.created (clk.checked key))
    machine.step r (.capture clk cap) = (r.put key s.1, s.2) := by
  simp only [machine, insert_continuation hf hc, insertContinuation_eq, Flow.head?_toList]

theorem step_noFlags (hf : cap.isFragment = false) (hc : cap.isContinuation = false) :
    machine.step r (.capture clk cap) = (r, []) := by
  simp [machine, insert, noFlags_iff, hf, hc]

section Sweep

-- The flows that `sweep_expired` finds expired.
def expired (r : Reassembler) (clk : Clock) : List FlowKey :=
  r.flows.toList.filterMap fun (key, entry) =>
    if r.timeout ≤ entry.elapsed (clk.checked key) then some key else none

theorem mem_expired : k ∈ r.expired clk ↔
    ∃ entry, r.flows[k]? = some entry ∧ r.timeout ≤ entry.elapsed (clk.checked k) := by
  simp [expired, and_comm]

theorem expired_nodup : (r.expired clk).Nodup := by
  refine List.Pairwise.filterMap _ ?_ ExtTreeMap.distinct_keys_toList
  intro x y hxy k hx k' hy hk
  simp only [Option.ite_none_right_eq_some, Option.some.injEq] at hx hy
  simp [hx.2, hy.2, hk] at hxy

variable {keys : List FlowKey}

theorem finalizeEntry_eq : r.finalizeEntry k true =
    (r.put k none, r.flows[k]?.bind (·.finalized)) := by
  simp only [finalizeEntry]
  cases h : r.flows[k]?
  case none => rw [←h, put_self, h, Option.bind_none]
  case some => rfl

theorem finalizeAll_flows :
    (r.finalizeAll keys).1.flows[k]? = if k ∈ keys then none else r.flows[k]? := by
  induction keys generalizing r
  case nil => simp [finalizeAll]
  case cons key keys hi =>
    simp only [finalizeAll, hi, finalizeEntry_eq, put_flows, List.mem_cons, @eq_comm _ k key]
    split <;> split <;> simp_all

theorem finalizeAll_timeout : (r.finalizeAll keys).1.timeout = r.timeout := by
  induction keys generalizing r
  case nil          => rfl
  case cons _ _ hi  => simp [finalizeAll, hi, finalizeEntry_eq]

theorem finalizeAll_maxFlows : (r.finalizeAll keys).1.maxFlows = r.maxFlows := by
  induction keys generalizing r
  case nil          => rfl
  case cons _ _ hi  => simp [finalizeAll, hi, finalizeEntry_eq]

theorem finalizeAll_records (h : keys.Nodup) :
    (r.finalizeAll keys).2 = keys.flatMap fun key => (r.flows[key]?.bind (·.finalized)).toList := by
  induction keys generalizing r
  case nil => rfl
  case cons key keys hi =>
    have ⟨hk, hn⟩ := List.nodup_cons.mp h
    simp only [finalizeAll, hi hn, finalizeEntry_eq, List.flatMap_cons, List.append_cancel_left_eq]
    refine List.flatMap_congr fun key' hk' => ?_
    rw [put_flows, if_neg fun (he : key = key') => hk <| he ▸ hk']

end Sweep

variable {t : Duration} {ev : Event}

def Event.capture? : Event → Option RawTlsCapture
  | .capture _ cap => cap
  | .sweep _       => none

theorem step_timeout : (machine.step r ev).1.timeout = r.timeout := by
  cases ev
  case sweep => exact finalizeAll_timeout
  case capture clk cap =>
    cases hf : cap.isFragment <;> cases hc : cap.isContinuation
    case false.false => rw [step_noFlags hf hc]
    case false.true  => simp [step_continuation hf hc]
    all_goals simp [step_head hf]

theorem step_maxFlows : (machine.step r ev).1.maxFlows = r.maxFlows := by
  cases ev
  case sweep => exact finalizeAll_maxFlows
  case capture clk cap =>
    cases hf : cap.isFragment <;> cases hc : cap.isContinuation
    case false.false => rw [step_noFlags hf hc]
    case false.true  => simp [step_continuation hf hc]
    all_goals simp [step_head hf]

theorem state_maxFlows {events : List Event} : (machine.state r events).maxFlows = r.maxFlows :=
  Machine.inv_reachable (P := (maxFlows · = r.maxFlows)) (fun _ _ h => step_maxFlows.trans h) rfl

theorem state_timeout {events : List Event} : (machine.state r events).timeout = r.timeout :=
  Machine.inv_reachable (P := (timeout · = r.timeout)) (fun _ _ h => step_timeout.trans h) rfl

theorem step_sweep : machine.step r (.sweep clk) = r.finalizeAll (r.expired clk) :=
  rfl

-- The flow `k` of a reassembler changes as a flow on its own does.
theorem step_flows : (machine.step r ev).1.flows[k]? = match ownEvent k ev with
    | some fe => (Flow.step r.timeout (r.survivor k ev) fe).1
    | none    => r.survivor k ev := by
  cases ev
  case sweep clk =>
    simp only [step_sweep, finalizeAll_flows, ownEvent, survivor, evictedBy, reduceCtorEq, if_false,
      Flow.step, mem_expired]
    cases r.flows[k]?
    case none       => simp
    case some entry =>
      by_cases he : r.timeout ≤ entry.elapsed (clk.checked k) <;> simp [he, Flow.close]
  case capture clk cap =>
    cases hf : cap.isFragment <;> cases hc : cap.isContinuation
    case false.false => simp [step_noFlags hf hc, ownEvent, survivor, evictedBy, hf, hc]
    case false.true  =>
      by_cases hk : FlowKey.fromCapture cap = k <;>
        simp [step_continuation hf hc, ownEvent, survivor, evictedBy, hf, hc, hk]
    all_goals
      by_cases hk : FlowKey.fromCapture cap = k <;>
        simp [step_head hf, cleanupIfOverLimit_flows, ownEvent, survivor, evictedBy, hf, hk]

theorem ownEvent_ne_evict {fe : Flow.Event} (h : ownEvent k ev = some fe) : fe ≠ .evict := by
  rintro rfl
  cases ev <;> simp only [ownEvent, reduceCtorEq, Option.some.injEq] at h
  case capture => grind

theorem evicted_eq_none (h : r.flows.size < r.maxFlows) : r.evicted = none :=
  if_neg <| Nat.not_le.mpr h

theorem evictedBy_eq_none (h : r.flows.size < r.maxFlows) : r.evictedBy ev = none := by
  cases ev <;> simp [evictedBy, evicted_eq_none h]

theorem survivor_of_room (h : r.flows.size < r.maxFlows) : r.survivor k ev = r.flows[k]? := by
  simp [survivor, evictedBy_eq_none h]

-- Only captures of the flow `k` reach the flow `k`.
theorem mem_ownEvent {fe : Flow.Event} (he : fe ∈ ownEvent k ev) :
    ∀ cap ∈ fe.capture?, cap ∈ ev.capture? ∧ FlowKey.fromCapture cap = k := by
  intro cap hc
  cases ev
  case sweep =>
    cases he
    contradiction
  case capture clk cap' =>
    simp only [ownEvent, ne_eq, ite_not, Option.mem_def, Option.ite_none_right_eq_some] at he
    have ⟨hk, he⟩ := he
    split at he
    · cases he
      cases hc
      exact ⟨rfl, hk⟩
    · have ⟨_, he⟩ := Option.ite_none_right_eq_some.mp he
      cases he
      cases hc
      exact ⟨rfl, hk⟩

section Entries

variable {Q : RawTlsCapture → Prop} {P : FlowKey → ReassemblyEntry → Prop}

-- Every entry has the property `P` of entries of its flow.
def Entries (P : FlowKey → ReassemblyEntry → Prop) (r : Reassembler) : Prop :=
  ∀ k entry, r.flows[k]? = some entry → P k entry

theorem Entries.survivor (hr : r.Entries P) : ∀ entry ∈ r.survivor k ev, P k entry := by
  intro entry he
  simp only [Reassembler.survivor, Option.mem_def, Option.ite_none_left_eq_some] at he
  exact hr k entry he.2

theorem Entries.step
    (p : ∀ k, Flow.Preserves (fun cap => Q cap ∧ FlowKey.fromCapture cap = k) (P k))
    (hr : r.Entries P) (hq : ∀ cap ∈ ev.capture?, Q cap) : (machine.step r ev).1.Entries P := by
  intro k
  rw [step_flows]
  cases he : ownEvent k ev
  case none => exact hr.survivor
  case some fe =>
    refine (p k).step hr.survivor fun cap hc => ?_
    have ⟨hm, hk⟩ := mem_ownEvent he cap hc
    exact ⟨hq _ hm, hk⟩

-- The entries that a call looks at are as the entries of the table are.
theorem Entries.examined {fe : Flow.Event} {entry : ReassemblyEntry}
    (p : ∀ k, Flow.Preserves (fun cap => Q cap ∧ FlowKey.fromCapture cap = k) (P k))
    (hr : r.Entries P) (hq : ∀ cap ∈ ev.capture?, Q cap) (he : fe ∈ ownEvent k ev)
    (ha : entry ∈ Flow.examined r.timeout (r.survivor k ev) fe) : P k entry := by
  refine (p k).examined hr.survivor (fun cap hc => ?_) ha
  have ⟨hm, hk⟩ := mem_ownEvent he cap hc
  exact ⟨hq _ hm, hk⟩

end Entries

section Records

-- The entries of a flow carry heads of that flow.
def HeadOf (k : FlowKey) (entry : ReassemblyEntry) : Prop :=
  ∀ head ∈ entry.head, FlowKey.fromCapture head.capture = k

theorem headOf_preserves :
    Flow.Preserves (fun cap => True ∧ FlowKey.fromCapture cap = k) (HeadOf k) where
  orphan _             := by simp [HeadOf, orphan]
  head _ _ _ hq        := by simp [HeadOf, ReassemblyEntry.receiveHead, hq]
  continuation _ _ h _ := h

theorem Entries.step_headOf (h : r.Entries HeadOf) : (machine.step r ev).1.Entries HeadOf :=
  h.step (fun _ => headOf_preserves) fun _ _ => trivial

theorem key_of_output {e : Option ReassemblyEntry} {fe : Flow.Event} {record : AssembledRecord}
    (he : ∀ entry ∈ e, HeadOf k entry) (hc : ∀ cap ∈ fe.capture?, FlowKey.fromCapture cap = k)
    (hr : record ∈ (Flow.step t e fe).2) : FlowKey.fromCapture record.headCapture = k := by
  have ⟨entry, ha, h⟩ := Flow.mem_step hr
  have hk := headOf_preserves.examined he (fun cap h => ⟨trivial, hc cap h⟩) ha
  have ⟨head, hh, hr⟩ := entry.head_of_released h
  rw [hr, hk head hh]

theorem recordsOf_self {records : List AssembledRecord}
    (h : ∀ record ∈ records, FlowKey.fromCapture record.headCapture = k) :
    recordsOf k records = records :=
  List.filter_eq_self.mpr fun record hr => decide_eq_true (h record hr)

theorem recordsOf_other {k' : FlowKey} {records : List AssembledRecord} (hk : k' ≠ k)
    (h : ∀ record ∈ records, FlowKey.fromCapture record.headCapture = k') :
    recordsOf k records = [] :=
  List.filter_eq_nil_iff.mpr fun record hr => by simp [h record hr, hk]

-- The records of a flow in the output of one capture.
theorem recordsOf_capture {e : Option ReassemblyEntry} {fe : Flow.Event} {k' : FlowKey}
    (he : ∀ entry ∈ e, HeadOf k' entry) (hc : ∀ cap ∈ fe.capture?, FlowKey.fromCapture cap = k') :
    recordsOf k (Flow.step t e fe).2 = if k' = k then (Flow.step t e fe).2 else [] := by
  have h : ∀ record ∈ (Flow.step t e fe).2, FlowKey.fromCapture record.headCapture = k' :=
    fun _ => key_of_output he hc
  split
  · exact recordsOf_self fun record hr => ‹k' = k› ▸ h record hr
  · exact recordsOf_other ‹_› h

theorem Entries.cleanupIfOverLimit {P : FlowKey → ReassemblyEntry → Prop} (h : r.Entries P) :
    r.cleanupIfOverLimit.Entries P := by
  intro k entry he
  rw [cleanupIfOverLimit_flows] at he
  split at he
  · contradiction
  · exact h k entry he

theorem recordsOf_finalizeAll {keys : List FlowKey} (h : r.Entries HeadOf) (hn : keys.Nodup) :
    recordsOf k (r.finalizeAll keys).2 =
      if k ∈ keys then (r.flows[k]?.bind (·.finalized)).toList else [] := by
  have hr key : ∀ record ∈ (r.flows[key]?.bind (·.finalized)).toList,
      FlowKey.fromCapture record.headCapture = key := by
    intro record hr
    simp only [Option.mem_toList, Option.bind_eq_some_iff] at hr
    have ⟨entry, he, hf⟩ := hr
    have ⟨head, hh, hc⟩ := entry.head_of_released (.inr hf)
    rw [hc, h _ _ he head hh]
  rw [finalizeAll_records hn]
  induction keys
  case nil => rfl
  case cons key keys hi =>
    have ⟨hk, hn⟩ := List.nodup_cons.mp hn
    rw [List.flatMap_cons, recordsOf, List.filter_append, ←recordsOf, ←recordsOf, hi hn]
    by_cases he : key = k
    case pos => subst he; simp [recordsOf_self (hr key), hk]
    case neg => simp [recordsOf_other he (hr key), Ne.symm he]

-- The records of the flow `k` that a call returns are those that the flow releases on its own.
theorem step_records (h : r.Entries HeadOf) : recordsOf k (machine.step r ev).2 =
    match ownEvent k ev with
    | some fe => (Flow.step r.timeout (r.survivor k ev) fe).2
    | none    => [] := by
  cases ev
  case sweep clk =>
    simp only [step_sweep, recordsOf_finalizeAll h expired_nodup, ownEvent, survivor, evictedBy,
      reduceCtorEq, if_false, Flow.step, mem_expired]
    cases r.flows[k]?
    case none       => simp
    case some entry =>
      by_cases he : r.timeout ≤ entry.elapsed (clk.checked k) <;> simp [he, Flow.close]
  case capture clk cap =>
    cases hf : cap.isFragment <;> cases hc : cap.isContinuation
    case false.false => simp [step_noFlags hf hc, recordsOf, ownEvent, hf, hc]
    case false.true  =>
      rw [step_continuation hf hc, recordsOf_capture (h _) (by simp [Flow.Event.capture?])]
      by_cases hk : FlowKey.fromCapture cap = k <;>
        simp [ownEvent, survivor, evictedBy, hf, hc, hk]
    all_goals
      rw [step_head hf,
        recordsOf_capture (h.cleanupIfOverLimit _) (by simp [Flow.Event.capture?])]
      by_cases hk : FlowKey.fromCapture cap = k <;>
        simp [ownEvent, survivor, evictedBy, hf, hk, cleanupIfOverLimit_flows]

-- A record that a call returns was released by an entry of its flow.
theorem Entries.output {Q : RawTlsCapture → Prop} {P : FlowKey → ReassemblyEntry → Prop}
    (p : ∀ k, Flow.Preserves (fun cap => Q cap ∧ FlowKey.fromCapture cap = k) (P k))
    (hh : r.Entries HeadOf) (hr : r.Entries P) (hq : ∀ cap ∈ ev.capture?, Q cap) :
    ∀ record ∈ (machine.step r ev).2, ∃ entry, P (FlowKey.fromCapture record.headCapture) entry ∧
      (entry.completed = some record ∨ entry.finalized = some record) := by
  intro record hm
  set k := FlowKey.fromCapture record.headCapture with hk
  have hm : record ∈ recordsOf k (machine.step r ev).2 := List.mem_filter.mpr ⟨hm, by simp [hk]⟩
  rw [step_records hh] at hm
  cases he : ownEvent k ev
  case none => simp [he] at hm
  case some fe =>
    rw [he] at hm
    have ⟨entry, ha, h⟩ := Flow.mem_step hm
    exact ⟨entry, hr.examined p hq he ha, h⟩

theorem flow_state {e : Option ReassemblyEntry} : (Flow.machine t).state e (flowEvents k r ev) =
    match ownEvent k ev with
    | some fe => (Flow.step t (if r.evictedBy ev = some k then none else e) fe).1
    | none    => if r.evictedBy ev = some k then none else e := by
  simp only [flowEvents]
  cases ownEvent k ev <;> split <;> rfl

theorem flow_output {e : Option ReassemblyEntry} : (Flow.machine t).output e (flowEvents k r ev) =
    match ownEvent k ev with
    | some fe => (Flow.step t (if r.evictedBy ev = some k then none else e) fe).2
    | none    => [] := by
  simp only [flowEvents]
  cases ownEvent k ev <;> split <;> simp [Flow.machine, Flow.step]

theorem projects (k : FlowKey) (t : Duration) : machine.Projects (Flow.machine t)
    (fun r => r.flows[k]?) (flowEvents k) (recordsOf k)
    (fun r => r.timeout = t ∧ r.Entries HeadOf) where
  inv _ _ h    := ⟨step_timeout.trans h.1, h.2.step_headOf⟩
  state _ _ h  := by rw [step_flows, flow_state, h.1, survivor]
  output _ _ h := by rw [step_records h.2, flow_output, h.1, survivor]

end Records
end Reassembler
end TlsProbe
