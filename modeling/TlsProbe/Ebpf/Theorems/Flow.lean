import TlsProbe.Classifier.Theorems.Flow
import TlsProbe.Ebpf.Basic

namespace TlsProbe.Ebpf

open Classifier (Arrival own ownEvents)
open Process (Endian)

variable {endian : Endian} {n : Nat} {s : Shared} {events : List (Event n)} {key : ReasmKey}

-- The packet that the classifier looks at in a step.
def arrival (s : Shared) : Event n → List Arrival
  | .packet _ call => [⟨kernelOf s.maps call.ktimeNs, call.pkt, call.isEgress⟩]
  | _              => []

def arrivals (endian : Endian) (s : Shared) (events : List (Event n)) : List Arrival :=
  Machine.Projects.inputs (spec endian n) arrival s events

theorem arrivals_cons {event : Event n} : arrivals endian s (event :: events) =
    arrival s event ++ arrivals endian ((spec endian n).step s event).1 events :=
  rfl

theorem step_flow {event : Event n} (h : event ≠ .dropsReasm key) :
    ((spec endian n).step s event).1.reasmMap[key]? =
      Classifier.Flow.machine.state s.reasmMap[key]? (own key (arrival s event)) ∧
    ownEvents key ((((spec endian n).step s event).2).map (·.1)) =
      Classifier.Flow.machine.output s.reasmMap[key]? (own key (arrival s event)) := by
  cases event
  case process => exact ⟨rfl, rfl⟩
  case dropsReasm key' =>
    have hk : key' ≠ key := fun hk => h (by rw [hk])
    refine ⟨?_, rfl⟩
    simp [spec, arrival, own, Std.ExtTreeMap.getElem?_erase, hk]
  case packet cpu call =>
    have hp := Classifier.projects key
    let a : Arrival := ⟨kernelOf s.maps call.ktimeNs, call.pkt, call.isEgress⟩
    refine ⟨hp.state s.reasmMap a trivial, Eq.trans ?_ (hp.output s.reasmMap a trivial)⟩
    simp [spec, Classifier.machine, a, Function.comp_def]

theorem mem_step {event : Event n} {capture : RawTlsCapture × Bool}
    (h : capture ∈ ((spec endian n).step s event).2) :
    ∃ a ∈ arrival s event, capture.1 ∈ (Classifier.machine.step s.reasmMap a).2 := by
  cases event
  case process    => simp [spec] at h
  case dropsReasm => simp [spec] at h
  case packet cpu call =>
    obtain ⟨ev, he, rfl⟩ := List.mem_map.mp h
    exact ⟨_, List.mem_singleton_self _, he⟩

-- The events of a flow are those that a classifier makes that has to do with its packets alone, on
-- whatever CPUs they are, as long as the entry of the flow is not dropped.
theorem ownEvents_spec (h : ∀ event ∈ events, event ≠ .dropsReasm key) :
    ownEvents key (((spec endian n).output s events).map (·.1)) =
      Classifier.Flow.machine.output s.reasmMap[key]? (own key (arrivals endian s events)) := by
  induction events generalizing s
  case nil => rfl
  case cons event events hi =>
    obtain ⟨hs, ho⟩ := @step_flow endian n s key event (h event (List.mem_cons_self ..))
    have hi := @hi ((spec endian n).step s event).1 fun e he => h e (List.mem_cons_of_mem _ he)
    rw [Machine.output_cons, List.map_append, ownEvents, List.filter_append]
    rw [arrivals_cons, own, List.filter_append, Machine.output_append]
    exact congrArg₂ (· ++ ·) ho (hi.trans (by rw [hs]; rfl))

end TlsProbe.Ebpf
