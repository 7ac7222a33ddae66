import TlsProbe.Ebpf.Basic
import TlsProbe.Probe.Basic

namespace TlsProbe.System

-- The programs in the kernel, and the probe that they send their events to.
structure State (n : Nat) where
  kernel : Ebpf.State n
  probe  : Probe.State

inductive Event (n : Nat)
  | kernel (event : Ebpf.Event n)
  | probe (action : Probe.Action)

inductive Observation
  | submits (submission : Ebpf.Submission)
  | probe (observation : Probe.Observation)

-- The two sides make their steps in any order. All that the probe gets to see is what the ring
-- buffer has had room for.
def machine (endian : Process.Endian) (n : Nat) : Machine (State n) (Event n) Observation where
  step s
    | .kernel event       =>
      let (kernel, submissions) := (Ebpf.machine endian n).step s.kernel event
      let arrivals              := (Ebpf.items submissions).map Probe.Action.arrives
      ({ kernel, probe := (Probe.machine endian).state s.probe arrivals },
        submissions.map .submits ++ ((Probe.machine endian).output s.probe arrivals).map .probe)
    | .probe (.arrives _) => (s, [])
    | .probe action       =>
      let (probe, observations) := (Probe.machine endian).step s.probe action
      ({ s with probe }, observations.map .probe)

end TlsProbe.System
