import TlsProbe.Reassembler.Theorems.Completeness
import TlsProbe.Worker.Theorems.Events

namespace TlsProbe

namespace Reassembler

variable {k : FlowKey} {r : Reassembler} {events events' : List Event}

theorem ownCaptures_append :
    ownCaptures k (events ++ events') = ownCaptures k events ++ ownCaptures k events' := by
  simp [ownCaptures]

theorem ownResults_append : ownResults k r (events ++ events') =
    ownResults k r events ++ ownResults k (machine.state r events) events' := by
  simp [ownResults, Machine.trace_append]

theorem not_of_sweep {clk : Clock} : ¬Event.Of k (.sweep clk) := by
  simp [Event.Of, Event.capture?]

end Reassembler

namespace Worker

variable {k : FlowKey} {w : Worker} {pass : Pass} {passes : List Pass} {cap : RawTlsCapture}

-- The captures of the flow `k`, and the turns that take them.
def capturesOf (k : FlowKey) (passes : List Pass) : List RawTlsCapture :=
  (passes.map (·.capture)).filter fun cap => FlowKey.fromCapture cap = k

def turnsOf (k : FlowKey) (w : Worker) (passes : List Pass) : List (Worker × Pass) :=
  (machine.trace w passes).filter fun t => FlowKey.fromCapture t.2.capture = k

-- The calls on the reassembler in a run.
def reassemblerRun (w : Worker) (passes : List Pass) : List Reassembler.Event :=
  Machine.Projects.inputs machine reassemblerCalls w passes

-- What the reassembler returns for the capture of a turn.
def inserted (t : Worker × Pass) : List AssembledRecord :=
  (t.1.reassembler.insert t.2.insertClock t.2.capture).2.toList

-- The turn has room for the flow and stays inside its timeout.
def Undisturbed (k : FlowKey) (w : Worker) (pass : Pass) : Prop :=
  Reassembler.machine.AllSteps (Reassembler.Undisturbed k) w.reassembler (w.reassemblerCalls pass)

instance : Decidable (Undisturbed k w pass) :=
  inferInstanceAs <| Decidable <| Reassembler.machine.AllSteps ..

-- The flow has its last turn when all of the record is there, which is then handled. Up to there the
-- turns of the flow handle nothing.
def HandlesOnce (k : FlowKey) (w : Worker) (passes : List Pass) (record : Record) : Prop :=
  ∃ front t, turnsOf k w passes = front ++ [t] ∧ (∀ u ∈ front, u.1.received u.2 = none) ∧
    t.1.received t.2 = some record

section Calls

theorem ownCaptures_calls : Reassembler.ownCaptures k (w.reassemblerCalls pass) =
    [pass.capture].filter fun cap => FlowKey.fromCapture cap = k := by
  have hs : Reassembler.ownCaptures k (if w.Sweeps pass then [.sweep pass.sweepClock] else []) =
      [] := by
    split
    case isTrue  => rw [Reassembler.ownCaptures_other Reassembler.not_of_sweep]; rfl
    case isFalse => rfl
  by_cases hk : FlowKey.fromCapture pass.capture = k
  case pos =>
    rw [reassemblerCalls, Reassembler.ownCaptures_own hk, hs]
    simp [hk]
  case neg =>
    have hn : ¬Reassembler.Event.Of k (.capture pass.insertClock pass.capture) := by
      simpa [Reassembler.Event.Of, Reassembler.Event.capture?] using hk
    rw [reassemblerCalls, Reassembler.ownCaptures_other hn, hs]
    simp [hk]

theorem ownResults_calls : Reassembler.ownResults k w.reassembler (w.reassemblerCalls pass) =
    ([(w, pass)].filter fun t => FlowKey.fromCapture t.2.capture = k).map inserted := by
  have hs (r : Reassembler) :
      Reassembler.ownResults k r (if w.Sweeps pass then [.sweep pass.sweepClock] else []) = [] := by
    split
    case isTrue  => rw [Reassembler.ownResults_other Reassembler.not_of_sweep]; rfl
    case isFalse => rfl
  by_cases hk : FlowKey.fromCapture pass.capture = k
  case pos =>
    have ho : Reassembler.Event.Of k (.capture pass.insertClock pass.capture) := ⟨_, rfl, hk⟩
    rw [reassemblerCalls, Reassembler.ownResults_own ho, hs]
    simp [hk, inserted, Reassembler.machine]
  case neg =>
    have hn : ¬Reassembler.Event.Of k (.capture pass.insertClock pass.capture) := by
      simpa [Reassembler.Event.Of, Reassembler.Event.capture?] using hk
    rw [reassemblerCalls, Reassembler.ownResults_other hn, hs]
    simp [hk]

theorem reassemblerRun_cons : w.reassemblerRun (pass :: passes) =
    w.reassemblerCalls pass ++ (w.step pass).1.reassemblerRun passes :=
  rfl

theorem ownCaptures_run :
    Reassembler.ownCaptures k (w.reassemblerRun passes) = capturesOf k passes := by
  induction passes generalizing w
  case nil => rfl
  case cons pass passes hi =>
    rw [reassemblerRun_cons, Reassembler.ownCaptures_append, ownCaptures_calls, hi]
    exact (List.filter_append ..).symm

theorem ownResults_run : Reassembler.ownResults k w.reassembler (w.reassemblerRun passes) =
    (turnsOf k w passes).map inserted := by
  induction passes generalizing w
  case nil => rfl
  case cons pass passes hi =>
    rw [reassemblerRun_cons, Reassembler.ownResults_append, ownResults_calls, ←step_reassembler, hi,
      ←List.map_append]
    exact congrArg _ (List.filter_append ..).symm

theorem undisturbed_run (h : machine.AllSteps (Undisturbed k) w passes) :
    Reassembler.machine.AllSteps (Reassembler.Undisturbed k) w.reassembler
      (w.reassemblerRun passes) := by
  induction passes generalizing w
  case nil => simp [reassemblerRun, Machine.Projects.inputs, Machine.AllSteps]
  case cons pass passes hi =>
    rw [reassemblerRun_cons, Machine.allSteps_append, ←step_reassembler]
    exact ⟨h.head, hi h.tail⟩

theorem turnsOf_captures : (turnsOf k w passes).map (·.2.capture) = capturesOf k passes := by
  induction passes generalizing w
  case nil => rfl
  case cons pass passes hi =>
    have hi' := @hi (machine.step w pass).1
    by_cases hk : FlowKey.fromCapture pass.capture = k <;>
      simp_all [turnsOf, capturesOf]

end Calls

theorem received_of_part (h : pass.capture.isFragment ∨ pass.capture.isContinuation) :
    w.received pass =
      (w.reassembler.insert pass.insertClock pass.capture).2.map .assembled := by
  have hf : pass.capture.flags &&& (flagFragment ||| flagContinuation) ≠ 0 := by
    rw [ne_eq, Reassembler.noFlags_iff]
    rintro ⟨hf, hc⟩
    simp [hf, hc] at h
  rw [received, receive, if_pos hf]

theorem received_of_whole (hf : pass.capture.isFragment = false)
    (hc : pass.capture.isContinuation = false) : w.received pass = some (.own pass.capture) := by
  rw [received, receive, if_neg (not_not.mpr (Reassembler.noFlags_iff.mpr ⟨hf, hc⟩))]

-- A capture that holds all of a record is the only one of its flow.
theorem handlesOnce_of_whole (hf : cap.isFragment = false) (hc : cap.isContinuation = false)
    (hp : capturesOf k passes = [cap]) : HandlesOnce k w passes (.own cap) := by
  rw [←turnsOf_captures (w := w)] at hp
  obtain ⟨t, ht, rfl⟩ := List.map_eq_singleton_iff.mp hp
  exact ⟨[], t, ht, by simp, received_of_whole hf hc⟩

-- The record of segments that come in whatever order.
theorem handlesOnce_of_segmented {record : List UInt8} {head : RawTlsCapture}
    {tail : List RawTlsCapture} (hs : Segmented k record head tail)
    (hn : w.reassembler.flows[k]? = none) (hp : (capturesOf k passes).Perm (head :: tail))
    (hu : machine.AllSteps (Undisturbed k) w passes) :
    HandlesOnce k w passes (.assembled ⟨head, record, false⟩) := by
  have hh (now : Instant) : Holds head []
      (w.reassembler.flows[k]?.getD (Reassembler.orphan now)) := by
    simpa [hn] using Holds.orphan now
  have hp' := hp
  rw [←ownCaptures_run (w := w)] at hp'
  have ho : Reassembler.ownCaptures k (w.reassemblerRun passes) ≠ [] := by
    intro he
    simp [he] at hp'
  have hr := (Reassembler.arrivals hs hh hp' ho (undisturbed_run hu)).1
  rw [ownResults_run] at hr
  obtain ⟨front, last, ht, hf, hl⟩ := List.map_eq_append_iff.mp hr
  obtain ⟨t, rfl, ht'⟩ := List.map_eq_singleton_iff.mp hl
  -- All captures of the flow are parts of the record.
  have part (u : Worker × Pass) (hu : u ∈ turnsOf k w passes) :
      u.1.received u.2 = (inserted u).head?.map .assembled := by
    have hm : u.2.capture ∈ head :: tail := by
      refine hp.subset ?_
      rw [←turnsOf_captures (w := w)]
      exact List.mem_map_of_mem hu
    have hc : u.2.capture.isFragment ∨ u.2.capture.isContinuation := by
      obtain he | hm := List.mem_cons.mp hm
      case inl => exact .inl (he ▸ hs.fragment)
      case inr => exact .inr (hs.continuation _ hm).2
    rw [received_of_part hc, inserted]
    cases (u.1.reassembler.insert u.2.insertClock u.2.capture).2 <;> rfl
  refine ⟨front, t, ht, fun u hu => ?_, ?_⟩
  · have hi : inserted u ∈ List.replicate _ [] := hf ▸ List.mem_map_of_mem hu
    rw [part u (by simp [ht, hu]), List.eq_of_mem_replicate hi]
    rfl
  · rw [part t (by simp [ht]), ht']
    rfl

end Worker
end TlsProbe
