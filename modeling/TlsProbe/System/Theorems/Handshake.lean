import TlsProbe.Classifier.Theorems.Carried
import TlsProbe.Worker.Theorems.Hellos
import TlsProbe.Worker.Theorems.Turns

namespace TlsProbe.System

open Classifier (Arrival ReasmMap Flow.event Flow.recordStart flowKey own ownEvents)

variable {key key' : ReasmKey} {reasmMap reasmMap' : ReasmMap} {record : List UInt8}
variable {a b : Arrival} {as bs : List Arrival} {w : Worker} {pass pass' : Pass}
variable {passes passes' : List Pass} {version version' : UInt16}

-- A record on its way from the packets to the turns of the worker. The events of its flow may come
-- in another order, and between those of other flows.
structure Transported (key : ReasmKey) (reasmMap : ReasmMap) (record : List UInt8) (a : Arrival)
    (as : List Arrival) (w : Worker) (passes : List Pass) : Prop
    extends Classifier.Carries key reasmMap record a as where
  fresh       : w.reassembler.flows[flowKey key]? = none
  captures    : (Worker.capturesOf (flowKey key) passes).Perm
    (ownEvents key (Classifier.machine.output reasmMap (a :: as)))
  undisturbed : Worker.machine.AllSteps (Worker.Undisturbed (flowKey key)) w passes

def fragmented (key : ReasmKey) (as : List Arrival) : Bool :=
  !(own key as).isEmpty

-- What the worker makes of the packets: the record that it handles.
def recordOf (key : ReasmKey) (record : List UInt8) (a : Arrival) (as : List Arrival) : Record :=
  .whole (Flow.event a false) record (fragmented key as)

section Events

variable (h : Classifier.Carries key reasmMap record a as)

include h

theorem payloadSlice_event (hf : fragmented key as = false) :
    (Flow.event a false).payloadSlice = record :=
  (h.event_of_nil (by simpa [fragmented] using hf)).1

end Events

namespace Transported

theorem handlesOnce (h : Transported key reasmMap record a as w passes) :
    Worker.HandlesOnce (flowKey key) w passes (recordOf key record a as) := by
  have hp := h.captures
  rw [h.events] at hp
  by_cases hn : own key as = []
  case pos =>
    rw [hn, List.map_nil, List.perm_singleton] at hp
    have hr : recordOf key record a as = .own (Flow.event a false) := by
      simp [recordOf, fragmented, hn, Record.whole]
    rw [hr]
    exact Worker.handlesOnce_of_whole (h.event_of_nil hn).2 Classifier.Flow.isContinuation_event hp
  case neg =>
    have hr : recordOf key record a as = .assembled ⟨Flow.event a false, record, false⟩ := by
      simp [recordOf, fragmented, hn, Record.whole]
    rw [hr]
    exact Worker.handlesOnce_of_segmented (h.segmented hn) h.fresh hp h.undisturbed

end Transported

section Exchange

-- The way of a record: its packets, and the turns of the worker up to the last one of its flow.
structure Leg where
  key      : ReasmKey
  reasmMap : ReasmMap
  first    : Arrival
  others   : List Arrival
  passes   : List Pass
  last     : Pass

variable {client server : Leg} {hello : ClientHello} {answer : ServerHello} {k : ConnKey}

namespace Leg

def run (leg : Leg) : List Pass :=
  leg.passes ++ [leg.last]

def after (leg : Leg) (w : Worker) : Worker :=
  Worker.machine.state w leg.run

structure Brings (leg : Leg) (w : Worker) (record : List UInt8) : Prop where
  transported : Transported leg.key leg.reasmMap record leg.first leg.others w leg.run
  last        : FlowKey.fromCapture leg.last.capture = flowKey leg.key

-- The record that the worker handles in the last turn.
def handled (leg : Leg) (bytes : List UInt8) : Record :=
  recordOf leg.key bytes leg.first leg.others

end Leg

theorem Leg.Brings.last_turn {leg : Leg} (h : leg.Brings w record) {front : List (Worker × Pass)}
    {t : Worker × Pass} (ht : Worker.turnsOf (flowKey leg.key) w leg.run = front ++ [t]) :
    t = (Worker.machine.state w leg.passes, leg.last) := by
  have hl : Worker.turnsOf (flowKey leg.key) w leg.run =
      Worker.turnsOf (flowKey leg.key) w leg.passes ++
        [(Worker.machine.state w leg.passes, leg.last)] := by
    simp [Worker.turnsOf, Leg.run, Machine.trace_append, h.last]
  exact List.singleton_inj.mp (List.append_inj' (ht.symm.trans hl) rfl).2

theorem Leg.Brings.received {leg : Leg} (h : leg.Brings w record) :
    (Worker.machine.state w leg.passes).received leg.last = some (leg.handled record) := by
  obtain ⟨front, t, ht, -, hr⟩ := h.transported.handlesOnce
  obtain rfl := h.last_turn ht
  exact hr

namespace Exchange

end Exchange

section Plain

end Plain

end Exchange

end TlsProbe.System
