import TlsProbe.Ebpf.Theorems.Transport
import TlsProbe.Probe.Theorems.Flow
import TlsProbe.System.Basic

namespace TlsProbe.System

variable {endian : Process.Endian} {n : Nat} {s : State n} {events : List (Event n)}

section Sides

def kernelEvent : Event n → List (Ebpf.Event n)
  | .kernel event => [event]
  | .probe _      => []

def submissions : Observation → List Ebpf.Submission
  | .submits submission => [submission]
  | .probe _            => []

def observations : Observation → List Probe.Observation
  | .submits _         => []
  | .probe observation => [observation]

-- The actions of the probe in a step.
def actions (endian : Process.Endian) (s : State n) : Event n → List Probe.Action
  | .kernel event       =>
    (Ebpf.items ((Ebpf.machine endian n).step s.kernel event).2).map .arrives
  | .probe (.arrives _) => []
  | .probe action       => [action]

theorem projects_kernel : Machine.Projects (machine endian n) (Ebpf.machine endian n) State.kernel
    (fun _ event => kernelEvent event) (·.flatMap submissions) (fun _ => True) where
  inv _ _ _ := trivial
  state s event _ := by
    rcases event with event | action
    case kernel => rfl
    case probe  => cases action <;> rfl
  output s event _ := by
    rcases event with event | action
    case kernel => simp [machine, kernelEvent, submissions, List.flatMap_map]
    case probe  => cases action <;> simp [machine, kernelEvent, submissions, List.flatMap_map]

theorem projects_probe : Machine.Projects (machine endian n) (Probe.machine endian) State.probe
    (actions endian) (·.flatMap observations) (fun _ => True) where
  inv _ _ _ := trivial
  state s event _ := by
    rcases event with event | action
    case kernel => rfl
    case probe  => cases action <;> rfl
  output s event _ := by
    rcases event with event | action
    case kernel => simp [machine, actions, observations, List.flatMap_map]
    case probe  => cases action <;> simp [machine, actions, observations, List.flatMap_map]

end Sides

section Ring

theorem items_append {subs subs' : List Ebpf.Submission} :
    Ebpf.items (subs ++ subs') = Ebpf.items subs ++ Ebpf.items subs' := by
  simp [Ebpf.items]

theorem arrived_arrivals {probe : Probe.State} {items : List Spool.Bytes} :
    ((Probe.machine endian).output probe (items.map .arrives)).flatMap Probe.arrived = items := by
  induction items generalizing probe
  case nil => rfl
  case cons item items hi =>
    rw [List.map_cons, Machine.output_cons, List.flatMap_append, hi]
    rfl

theorem arrived_action {probe : Probe.State} {action : Probe.Action} (h : Probe.Orderly probe)
    (ha : ∀ item, action ≠ .arrives item) :
    (((Probe.machine endian).step probe action).2).flatMap Probe.arrived = [] := by
  have hm := @Probe.moves_step endian probe action h
  generalize (Probe.machine endian).step probe action = r at hm
  obtain ⟨t, os⟩ := r
  cases hm
  case arrives item => exact absurd rfl (ha item)
  all_goals simp [Probe.arrived]

theorem step_items (h : Probe.Orderly s.probe) (event : Event n) :
    (((machine endian n).step s event).2.flatMap observations).flatMap Probe.arrived =
      Ebpf.items (((machine endian n).step s event).2.flatMap submissions) := by
  rw [projects_probe.output s event trivial, projects_kernel.output s event trivial]
  rcases event with event | action
  case kernel => simp [actions, kernelEvent, arrived_arrivals]
  case probe  =>
    cases action
    case arrives => rfl
    all_goals
      simp only [actions, Machine.output_cons, Machine.output_nil, List.append_nil]
      exact arrived_action h (by simp)

theorem orderly_step (h : Probe.Orderly s.probe) (event : Event n) :
    Probe.Orderly ((machine endian n).step s event).1.probe := by
  rw [projects_probe.state s event trivial]
  exact Probe.orderly_state h

-- What arrives are the items that the ring buffer has had room for.
theorem arrived_items (h : Probe.Orderly s.probe) :
    (((machine endian n).output s events).flatMap observations).flatMap Probe.arrived =
      Ebpf.items (((machine endian n).output s events).flatMap submissions) := by
  induction events generalizing s
  case nil => rfl
  case cons event events hi =>
    simp only [Machine.output_cons, List.flatMap_append, items_append, step_items h,
      hi (orderly_step h event)]

end Ring

section Accounts

variable {captures : List (RawTlsCapture × Bool)} {kernel : Ebpf.State n}
variable {fileBackend : Option Spool.WriterBackend} {emitToStdout : Bool} {stdout : Spool.State}

-- What has become of the captures of the kernel: each one has had its turn, or is on its way to the
-- worker, or shows in a counter.
structure Accounted (endian : Process.Endian) (drops : UInt64)
    (captures : List (RawTlsCapture × Bool)) (turned : List RawTlsCapture) (s : State n) :
    Prop where
  counted  : s.kernel.sumKernelDrops + s.probe.eventsDropped +
    .ofNat (turned.length + s.probe.captures.queue.length + s.probe.ring.length) =
      drops + .ofNat captures.length
  order    : (turned ++ s.probe.captures.queue ++
    s.probe.ring.filterMap (Ebpf.decode endian)).Sublist (captures.map (·.1))
  finished : s.probe.threadDone → s.probe.captures.queue = []

theorem length_captures :
    captures.length = captures.countP (·.2) + (Ebpf.sent captures).length := by
  rw [Ebpf.sent, List.length_map, ←List.countP_eq_length_filter,
    List.length_eq_countP_add_countP (·.2)]
  simp

theorem sent_sublist : (Ebpf.sent captures).Sublist (captures.map (·.1)) :=
  List.filter_sublist.map _

theorem accepted_sublist {os : List Probe.Observation} :
    (os.flatMap Probe.accepted).Sublist (os.flatMap Probe.offered) := by
  induction os
  case nil => exact .slnil
  case cons o os hi =>
    have ho : (Probe.accepted o).Sublist (Probe.offered o) := by
      cases o <;> simp [Probe.accepted, Probe.offered]
    exact ho.append hi

theorem filterMap_of_map {α β : Type} {f : α → Option β} {as : List α} {bs : List β}
    (h : as.map f = bs.map some) : as.filterMap f = bs := by
  have := congrArg (List.filterMap id) h
  simpa [List.filterMap_map] using this

theorem decode_arrived (h : Probe.Orderly s.probe) :
    ((((machine endian n).output s events).flatMap observations).flatMap Probe.arrived).map
      (Ebpf.decode endian) = (Ebpf.sent ((Ebpf.spec endian n).output s.kernel.shared
        (events.flatMap kernelEvent))).map some := by
  rw [arrived_items h, projects_kernel.output_run trivial rfl fun _ _ => List.flatMap_append,
    Machine.Projects.inputs_flatMap, Ebpf.decode_items]

theorem sumKernelDrops_state : ((machine endian n).state s events).kernel.sumKernelDrops =
    s.kernel.sumKernelDrops + .ofNat (((Ebpf.spec endian n).output s.kernel.shared
      (events.flatMap kernelEvent)).countP (·.2)) := by
  rw [projects_kernel.state_run trivial, Machine.Projects.inputs_flatMap,
    Ebpf.sumKernelDrops_state, Ebpf.countP_full]

theorem sequential_probe : Probe.Sequential endian fileBackend emitToStdout stdout
    ((machine endian n).state ⟨kernel, Probe.start fileBackend emitToStdout stdout⟩ events).probe
    (((machine endian n).output ⟨kernel, Probe.start fileBackend emitToStdout stdout⟩
      events).flatMap observations) := by
  rw [projects_probe.state_run trivial,
    projects_probe.output_run trivial rfl fun _ _ => List.flatMap_append]
  exact Probe.sequential ..

-- What the probe has read is what has been sent.
theorem offered_ring {probe : Probe.State} {os : List Probe.Observation}
    (h : Probe.Sequential endian fileBackend emitToStdout stdout probe os)
    (hd : (os.flatMap Probe.arrived).map (Ebpf.decode endian) = (Ebpf.sent captures).map some) :
    os.flatMap Probe.offered ++ probe.ring.filterMap (Ebpf.decode endian) =
      Ebpf.sent captures := by
  rw [←h.offered, ←List.filterMap_append, ←h.ring]
  exact filterMap_of_map hd

theorem turned_sublist {probe : Probe.State} {os : List Probe.Observation}
    (h : Probe.Sequential endian fileBackend emitToStdout stdout probe os)
    (hd : (os.flatMap Probe.arrived).map (Ebpf.decode endian) = (Ebpf.sent captures).map some) :
    ((os.flatMap Probe.passes).map (·.capture) ++ probe.captures.queue ++
      probe.ring.filterMap (Ebpf.decode endian)).Sublist (captures.map (·.1)) ∧
    ((os.flatMap Probe.passes).map (·.capture)).length + probe.captures.queue.length +
      probe.ring.length + (os.flatMap Probe.refused).length = (Ebpf.sent captures).length := by
  have hr := offered_ring h hd
  rw [←h.captures]
  constructor
  case left =>
    refine (accepted_sublist.append (.refl _)).trans ?_
    rw [hr]
    exact sent_sublist
  case right =>
    -- Each item can be decoded.
    have hl : (os.flatMap Probe.read).length + probe.ring.length = (Ebpf.sent captures).length := by
      have := congrArg List.length hd
      rwa [List.length_map, List.length_map, h.ring, List.length_append] at this
    have hk := congrArg List.length hr
    have ho := @Probe.length_offered os
    have hq := congrArg List.length h.captures
    have h₁ := List.length_filterMap_le (Ebpf.decode endian) (os.flatMap Probe.read)
    have h₂ := List.length_filterMap_le (Ebpf.decode endian) probe.ring
    rw [h.offered] at h₁
    rw [List.length_append] at hk hq
    omega

theorem accounted_of {drops : UInt64} {os : List Probe.Observation}
    (h : Probe.Sequential endian fileBackend emitToStdout stdout s.probe os)
    (hd : (os.flatMap Probe.arrived).map (Ebpf.decode endian) = (Ebpf.sent captures).map some)
    (hk : s.kernel.sumKernelDrops = drops + .ofNat (captures.countP (·.2)))
    (ho : Probe.Orderly s.probe) :
    Accounted endian drops captures ((os.flatMap Probe.passes).map (·.capture)) s := by
  obtain ⟨hp, hl⟩ := turned_sublist h hd
  refine ⟨?_, hp, fun ht => (ho.finished ht).captures⟩
  rw [hk, h.dropped, add_assoc, add_assoc, ←UInt64.ofNat_add, ←UInt64.ofNat_add, length_captures,
    ←hl]
  refine congrArg (fun k => drops + .ofNat k) ?_
  omega

-- The counters and what is left in the queues account for each capture, in whatever order the kernel
-- and the tasks of the probe make their steps.
theorem accounted (kernel : Ebpf.State n) (fileBackend : Option Spool.WriterBackend)
    (emitToStdout : Bool) (stdout : Spool.State) (events : List (Event n)) :
    let start  := ⟨kernel, Probe.start fileBackend emitToStdout stdout⟩
    let passes := ((machine endian n).output start events).flatMap observations
      |>.flatMap Probe.passes
    Accounted endian kernel.sumKernelDrops
      ((Ebpf.spec endian n).output kernel.shared (events.flatMap kernelEvent))
      (passes.map (·.capture)) ((machine endian n).state start events) := by
  refine accounted_of sequential_probe (decode_arrived Probe.orderly_start) sumKernelDrops_state ?_
  rw [projects_probe.state_run trivial]
  exact Probe.orderly_state Probe.orderly_start

end Accounts

end TlsProbe.System
