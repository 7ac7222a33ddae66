import TlsProbe.Reassembler.Flow

open Std

namespace TlsProbe
namespace Flow

variable {timeout : Duration} {e : Option ReassemblyEntry} {ev : Event}
variable {entry : ReassemblyEntry} {record : AssembledRecord}

-- All that a step can do: leave the flow alone, forget it, or look at an entry and release it or
-- not.
theorem step_cases (timeout : Duration) (e : Option ReassemblyEntry) (ev : Event) :
    (examined timeout e ev = none ∧ ev ≠ .evict ∧ step timeout e ev = (e, [])) ∨
    (ev = .evict ∧ step timeout e ev = (none, [])) ∨
    ∃ entry, examined timeout e ev = some entry ∧
      step timeout e ev = if AtBound timeout entry ev then close entry else settle entry := by
  cases ev <;> simp only [step, examined, AtBound]
  case head => exact .inr <| .inr ⟨_, rfl, (if_neg id).symm⟩
  case continuation =>
    split
    · exact .inl ⟨rfl, nofun, rfl⟩
    · exact .inr <| .inr ⟨_, rfl, rfl⟩
  case sweep checked =>
    cases e
    case none => exact .inl ⟨rfl, nofun, rfl⟩
    case some entry =>
      by_cases h : timeout ≤ entry.elapsed checked
      · exact .inr <| .inr ⟨entry, by simp [h], by simp [h]⟩
      · exact .inl ⟨by simpa using h, nofun, by simp [h]⟩
  case evict => simp

theorem settle_cases (entry : ReassemblyEntry) :
    (entry.completed = none ∧ settle entry = (some entry, [])) ∨
    (∃ record, entry.completed = some record ∧ settle entry = (none, [record])) := by
  simp only [settle]
  cases entry.completed <;> simp

theorem mem_settle : record ∈ (settle entry).2 ↔ entry.completed = some record := by
  obtain ⟨hc, h⟩ | ⟨_, hc, h⟩ := settle_cases entry <;> simp [h, hc, eq_comm]

theorem mem_close : record ∈ (close entry).2 ↔ entry.finalized = some record := by
  simp [close]

-- A record that a step returns comes from the examined entry.
theorem mem_step (h : record ∈ (step timeout e ev).2) : ∃ entry ∈ examined timeout e ev,
    entry.completed = some record ∨ entry.finalized = some record := by
  obtain ⟨_, _, hs⟩ | ⟨_, hs⟩ | ⟨entry, he, hs⟩ := step_cases timeout e ev <;> rw [hs] at h
  case inr.inr =>
    refine ⟨entry, he, ?_⟩
    split at h
    · exact .inr <| mem_close.mp h
    · exact .inl <| mem_settle.mp h
  all_goals simp at h

theorem step_length_le : (step timeout e ev).2.length ≤ 1 := by
  obtain ⟨_, _, h⟩ | ⟨_, h⟩ | ⟨entry, _, h⟩ := step_cases timeout e ev <;> rw [h]
  case inr.inr =>
    split
    · cases h : entry.finalized <;> simp [close, h]
    · obtain ⟨_, h⟩ | ⟨_, _, h⟩ := settle_cases entry <;> simp [h]
  all_goals simp

theorem head?_toList : (step timeout e ev).2.head?.toList = (step timeout e ev).2 := by
  have hl : (step timeout e ev).2.length ≤ 1 := step_length_le
  match h : (step timeout e ev).2 with
  | [] | [_]   => rfl
  | _ :: _ :: _ => simp [h] at hl

-- A property of entries that segments satisfying `Q` preserve.
structure Preserves (Q : RawTlsCapture → Prop) (P : ReassemblyEntry → Prop) : Prop where
  orphan       : ∀ created, P (Reassembler.orphan created)
  head         : ∀ entry cap, P entry → Q cap → P (entry.receiveHead cap)
  continuation : ∀ entry cap, P entry → Q cap → P (entry.receiveContinuation cap)

namespace Preserves

variable {Q Q' : RawTlsCapture → Prop} {P P' : ReassemblyEntry → Prop}

theorem and (p : Preserves Q P) (p' : Preserves Q P') :
    Preserves Q fun entry => P entry ∧ P' entry where
  orphan _             := ⟨p.orphan _, p'.orphan _⟩
  head _ _ h hq         := ⟨p.head _ _ h.1 hq, p'.head _ _ h.2 hq⟩
  continuation _ _ h hq := ⟨p.continuation _ _ h.1 hq, p'.continuation _ _ h.2 hq⟩

theorem mono (p : Preserves Q P) (h : ∀ cap, Q' cap → Q cap) : Preserves Q' P where
  orphan                 := p.orphan
  head _ _ he hq         := p.head _ _ he (h _ hq)
  continuation _ _ he hq := p.continuation _ _ he (h _ hq)

theorem examined (p : Preserves Q P) (he : ∀ entry ∈ e, P entry) (hq : ∀ cap ∈ ev.capture?, Q cap)
    (ha : examined timeout e ev = some entry) : P entry := by
  have hd (created : Instant) : P (e.getD (Reassembler.orphan created)) := by
    cases e
    case none => exact p.orphan _
    case some => exact he _ rfl
  cases ev <;> simp only [Flow.examined, Option.some.injEq, reduceCtorEq,
    Option.ite_none_left_eq_some, Option.filter_eq_some_iff] at ha
  case head         => exact ha ▸ p.head _ _ (hd _) (hq _ rfl)
  case continuation => exact ha.2 ▸ p.continuation _ _ (hd _) (hq _ rfl)
  case sweep        => exact he _ ha.1

theorem step (p : Preserves Q P) (he : ∀ entry ∈ e, P entry) (hq : ∀ cap ∈ ev.capture?, Q cap) :
    ∀ entry ∈ (step timeout e ev).1, P entry := by
  obtain ⟨_, _, h⟩ | ⟨_, h⟩ | ⟨entry, ha, h⟩ := step_cases timeout e ev <;> rw [h]
  case inl => exact he
  case inr.inl => simp
  case inr.inr =>
    split
    · simp [close]
    · obtain ⟨_, h⟩ | ⟨_, _, h⟩ := settle_cases entry <;> simp only [h, Option.mem_def, reduceCtorEq,
        false_implies, implies_true, Option.some.injEq, forall_eq']
      exact p.examined he hq ha

end Preserves
end Flow

-- A record that leaves the table carries the head of its entry.
theorem ReassemblyEntry.head_of_released {entry : ReassemblyEntry} {record : AssembledRecord}
    (h : entry.completed = some record ∨ entry.finalized = some record) :
    ∃ head, entry.head = some head ∧ record.headCapture = head.capture := by
  cases h
  case inl h =>
    simp only [completed] at h
    split at h
    · split at h
      · exact ⟨_, ‹_›, by simp [←Option.some.inj h]⟩
      · contradiction
    · contradiction
  case inr h =>
    simp only [finalized, Option.map_eq_some_iff] at h
    have ⟨head, hh, hr⟩ := h
    exact ⟨head, hh, by simp [←hr]⟩

namespace Reassembler

variable {r : Reassembler} {k k' : FlowKey} {entry : ReassemblyEntry} {clk : Clock}
variable {cap : RawTlsCapture}

@[simp]
theorem put_flows {e : Option ReassemblyEntry} :
    (r.put k e).flows[k']? = if k = k' then e else r.flows[k']? := by
  cases e <;> simp [put, ExtTreeMap.getElem?_insert, ExtTreeMap.getElem?_erase]

@[simp]
theorem put_timeout {e : Option ReassemblyEntry} : (r.put k e).timeout = r.timeout := by
  cases e <;> rfl

@[simp]
theorem put_maxFlows {e : Option ReassemblyEntry} : (r.put k e).maxFlows = r.maxFlows := by
  cases e <;> rfl

theorem ext_flows {r' : Reassembler} (hf : ∀ k : FlowKey, r.flows[k]? = r'.flows[k]?)
    (hm : r.maxFlows = r'.maxFlows) (ht : r.timeout = r'.timeout) : r = r' := by
  cases r; cases r'
  simp only [mk.injEq]
  exact ⟨ExtTreeMap.ext_getElem? hf, hm, ht⟩

@[simp]
theorem put_self : r.put k r.flows[k]? = r := by
  apply ext_flows <;> simp

@[simp]
theorem put_put {e e' : Option ReassemblyEntry} : (r.put k e).put k e' = r.put k e' := by
  apply ext_flows <;> simp
  intro k'
  split <;> rfl

theorem checkCompletion_put :
    (r.put k (some entry)).checkCompletion k =
      (r.put k (Flow.settle entry).1, (Flow.settle entry).2.head?) := by
  have h : (r.put k (some entry)).flows[k]? = some entry := by simp
  have hp : (r.put k (some entry)).put k none = r.put k none := put_put
  simp only [checkCompletion, h, Flow.settle, ReassemblyEntry.completed]
  cases entry.head
  case none => rfl
  case some head =>
    cases entry.expectedTotal
    case none => rfl
    case some total =>
      simp only
      split
      case isTrue  => exact congrArg (·, _) hp
      case isFalse => rfl

theorem finalizeEntry_put :
    (r.put k (some entry)).finalizeEntry k true =
      (r.put k (Flow.close entry).1, (Flow.close entry).2.head?) := by
  have h : (r.put k (some entry)).flows[k]? = some entry := by simp
  have : (r.put k (some entry)).finalizeEntry k true =
      ((r.put k (some entry)).put k none, entry.finalized) := by
    simp only [finalizeEntry, h]
    rfl
  rw [this, Flow.close]
  cases entry.finalized <;> simp

theorem cleanupIfOverLimit_eq : r.cleanupIfOverLimit = match r.evicted with
    | some key => r.put key none
    | none     => r := by
  simp only [cleanupIfOverLimit, evicted]
  split <;> rfl

theorem cleanupIfOverLimit_flows :
    r.cleanupIfOverLimit.flows[k]? = if r.evicted = some k then none else r.flows[k]? := by
  rw [cleanupIfOverLimit_eq]
  cases r.evicted <;> simp

@[simp]
theorem cleanupIfOverLimit_timeout : r.cleanupIfOverLimit.timeout = r.timeout := by
  rw [cleanupIfOverLimit_eq]
  cases r.evicted <;> simp

@[simp]
theorem cleanupIfOverLimit_maxFlows : r.cleanupIfOverLimit.maxFlows = r.maxFlows := by
  rw [cleanupIfOverLimit_eq]
  cases r.evicted <;> simp

-- A capture changes its own flow in one step of `Flow`, after the eviction that a head may cause.
theorem insertHead_eq :
    let key := FlowKey.fromCapture cap
    let r'  := r.cleanupIfOverLimit
    let s   := Flow.step r.timeout r'.flows[key]? (.head cap clk.created)
    r.insertHead clk cap = (r'.put key s.1, s.2.head?) := by
  simp only [insertHead, Flow.step]
  cases r.cleanupIfOverLimit.flows[FlowKey.fromCapture cap]? <;> exact checkCompletion_put

theorem insertContinuation_eq :
    let key := FlowKey.fromCapture cap
    let s   := Flow.step r.timeout r.flows[key]? (.continuation cap clk.created (clk.checked key))
    r.insertContinuation clk cap = (r.put key s.1, s.2.head?) := by
  simp only [insertContinuation, Flow.step]
  split
  · simp
  · set entry := (r.flows[FlowKey.fromCapture cap]?.getD (orphan clk.created))
    split
    · rw [if_pos (.inl ‹_›)]
      exact finalizeEntry_put
    · split
      · rw [if_pos (.inr ‹_›)]
        exact finalizeEntry_put
      · rw [if_neg (not_or.mpr ⟨‹_›, ‹_›⟩)]
        exact checkCompletion_put

end Reassembler
end TlsProbe
