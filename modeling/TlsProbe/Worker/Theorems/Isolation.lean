import TlsProbe.Lib.Unwinding
import TlsProbe.Reassembler.Theorems.Completeness
import TlsProbe.Reassembler.Theorems.Mirror
import TlsProbe.Worker.Theorems.Pending

open Std

namespace TlsProbe

-- The flows of a connection, one for each direction.
def ConnKey.flow (k : ConnKey) (dir : Bool) : FlowKey where
  srcAddr := k.srcAddr
  dstAddr := k.dstAddr
  srcPort := k.srcPort
  dstPort := k.dstPort
  dir     := dir

theorem conn_fromCapture {cap : RawTlsCapture} : (FlowKey.fromCapture cap).conn = cap.connKey :=
  rfl

theorem flow_eq_iff {k : ConnKey} {f : FlowKey} : f.conn = k ↔ ∃ dir, k.flow dir = f := by
  constructor
  case mp =>
    rintro rfl
    exact ⟨f.dir, rfl⟩
  case mpr =>
    rintro ⟨dir, rfl⟩
    rfl

namespace Reassembler

variable {r : Reassembler} {k : FlowKey} {clk : Clock} {cap : RawTlsCapture}

-- A record that a capture completes is one of its flow.
theorem key_of_insert (h : r.Entries HeadOf) : ∀ record ∈ (r.insert clk cap).2,
    FlowKey.fromCapture record.headCapture = FlowKey.fromCapture cap := by
  intro record hr
  by_contra hn
  have hm : record ∈ recordsOf (.fromCapture record.headCapture)
      (machine.step r (.capture clk cap)).2 :=
    List.mem_filter.mpr ⟨Option.mem_toList.mpr hr, by simp⟩
  rw [step_records h, ownEvent, if_pos (Ne.symm hn)] at hm
  simp at hm

-- A sweep passes over a flow that is young enough.
theorem sweep_of_young
    (h : ∀ entry ∈ r.flows[k]?, entry.elapsed (clk.checked k) < r.timeout) :
    (machine.step r (.sweep clk)).1.flows[k]? = r.flows[k]? ∧
    (r.Entries HeadOf → recordsOf k (machine.step r (.sweep clk)).2 = []) := by
  have hs : r.survivor k (.sweep clk) = r.flows[k]? := by simp [survivor, evictedBy]
  have hf : Flow.step r.timeout r.flows[k]? (.sweep (clk.checked k)) = (r.flows[k]?, []) := by
    cases he : r.flows[k]?
    case none       => rfl
    case some entry => simp [Flow.step, Nat.not_le.mpr (h entry he)]
  constructor
  case left =>
    rw [step_flows, ownEvent, hs]
    exact congrArg Prod.fst hf
  case right =>
    intro hh
    rw [step_records hh, ownEvent, hs]
    exact congrArg Prod.snd hf

end Reassembler

namespace Correlator

variable {c c' : Correlator} {k : ConnKey} {calls : List Event}

-- What calls that evict nothing do to a connection has to do with its entry alone.
theorem run_own (he : ∀ ev ∈ calls, ∀ c : Correlator, c.evictedBy ev = none)
    (ht : c.ttlNs = c'.ttlNs) (hp : c.pending[k]? = c'.pending[k]?) :
    (machine.state c calls).pending[k]? = (machine.state c' calls).pending[k]? ∧
    resultsOf k (machine.output c calls) = resultsOf k (machine.output c' calls) := by
  induction calls generalizing c c'
  case nil => exact ⟨hp, rfl⟩
  case cons ev calls hi =>
    have ⟨he, hes⟩ := List.forall_mem_cons.mp he
    have hs : c.projected k ev = c'.projected k ev := by
      simp [projected, survivor, he, hp, ht]
    have ha := hi hes (step_ttlNs.trans (ht.trans step_ttlNs.symm))
      (by rw [step_projected.1, step_projected.1, hs])
    refine ⟨ha.1, ?_⟩
    have hr (c : Correlator) : resultsOf k (machine.output c (ev :: calls)) =
        (c.projected k ev).2 ++ resultsOf k (machine.output (machine.step c ev).1 calls) := by
      rw [←step_projected.2]
      exact List.filterMap_append
    rw [hr, hr, hs, ha.2]

theorem hello_own {analysis : TlsAnalysis} {nowNs : UInt64} {iter : IterOrder}
    (hp : c.pending[k]? = c'.pending[k]?) :
    c.projected k (.clientHello k analysis nowNs iter) =
      c'.projected k (.clientHello k analysis nowNs iter) := by
  cases analysis
  case clientHello => simp [projected, ownEvent, Conn.step]
  case serverHello => simp [projected, ownEvent, survivor, evictedBy, hp]

end Correlator

namespace Tracking

variable {t t' : Tracking} {pass : Pass} {record : Record}

-- What a record leads to has to do with the entry of its connection alone.
theorem handle_own (ht : t.correlator.ttlNs = t'.correlator.ttlNs)
    (hp : t.correlator.pending[record.key]? = t'.correlator.pending[record.key]?) :
    (t.handle pass record).tracking.correlator.pending[record.key]? =
      (t'.handle pass record).tracking.correlator.pending[record.key]? ∧
    (t.handle pass record).events pass.env record =
      (t'.handle pass record).events pass.env record := by
  have hn : (t.handle pass record).tracking.correlator.pending[record.key]? =
        (t'.handle pass record).tracking.correlator.pending[record.key]? ∧
      (t.handle pass record).negotiation.toList = (t'.handle pass record).negotiation.toList := by
    have hr (t : Tracking) : (t.handle pass record).negotiation.toList = Correlator.resultsOf
        record.key (Correlator.machine.output t.correlator (record.calls pass)) := by
      rw [←(t.handle_calls pass record).2, Correlator.resultsOf_map, if_pos rfl]
    rw [hr, hr, (t.handle_calls pass record).1, (t'.handle_calls pass record).1]
    obtain ⟨analysis, hc⟩ | hc := record.calls_cases pass
    case inl =>
      have hs := @Correlator.hello_own t.correlator t'.correlator record.key analysis pass.nowNs
        pass.iter hp
      rw [hc]
      simp only [Machine.state_cons, Machine.state_nil, Machine.output_cons, Machine.output_nil,
        List.append_nil, Correlator.step_projected.1, Correlator.step_projected.2, hs, and_self]
    case inr => exact Correlator.run_own (fun ev hev => (hc ev hev).1) ht hp
  refine ⟨hn.1, ?_⟩
  have he : (t.handle pass record).negotiation = (t'.handle pass record).negotiation :=
    Option.ext fun negotiation => by rw [←Option.mem_toList, ←Option.mem_toList, hn.2]
  simp only [Handled.events, handle_walked, handle_suppressed, handle_certificate, he]

end Tracking

namespace Worker

variable {k : ConnKey} {w w' : Worker} {pass : Pass} {passes passes' : List Pass} {dir : Bool}

-- The workers hold the same of the connection `k`.
structure Agrees (k : ConnKey) (w w' : Worker) : Prop where
  flows   : ∀ dir, w.reassembler.flows[k.flow dir]? = w'.reassembler.flows[k.flow dir]?
  entry   : entry k w = entry k w'
  timeout : w.reassembler.timeout = w'.reassembler.timeout
  ttlNs   : w.tracking.correlator.ttlNs = w'.tracking.correlator.ttlNs

-- The turn takes nothing of the connection `k` away, be it for lack of room or by age.
structure Spares (k : ConnKey) (w : Worker) (pass : Pass) : Prop where
  room  : ∀ dir, w.reassembler.evictedBy (.capture pass.insertClock pass.capture) ≠
    some (k.flow dir)
  young : w.Sweeps pass → ∀ dir, ∀ entry ∈ (w.receive pass).1.reassembler.flows[k.flow dir]?,
    entry.elapsed (pass.sweepClock.checked (k.flow dir)) < w.reassembler.timeout
  lasts : w.Lasts k pass

instance : Decidable (w.Spares k pass) :=
  decidable_of_iff
    ((∀ dir, w.reassembler.evictedBy (.capture pass.insertClock pass.capture) ≠
        some (k.flow dir)) ∧
      (w.Sweeps pass → ∀ dir, ∀ entry ∈ (w.receive pass).1.reassembler.flows[k.flow dir]?,
        entry.elapsed (pass.sweepClock.checked (k.flow dir)) < w.reassembler.timeout) ∧
      (¬∃ record ∈ w.received pass, ∃ ev ∈ record.calls pass,
        w.tracking.correlator.evictedBy ev = some k) ∧
      ¬(w.Sweeps pass ∧ ∃ entry ∈ (w.tracked pass).correlator.pending[k]?,
        w.tracking.correlator.ttlNs ≤ pass.sweepNs - entry.2))
    ⟨fun ⟨hr, hy, hv, he⟩ => ⟨hr, hy, hv, he⟩, fun ⟨hr, hy, hv, he⟩ => ⟨hr, hy, hv, he⟩⟩

section Flows

theorem flow_insert (h : w.Spares k pass) :
    (w.reassembler.insert pass.insertClock pass.capture).1.flows[k.flow dir]? =
      match Reassembler.ownEvent (k.flow dir) (.capture pass.insertClock pass.capture) with
      | some fe => (Flow.step w.reassembler.timeout w.reassembler.flows[k.flow dir]? fe).1
      | none    => w.reassembler.flows[k.flow dir]? := by
  have hs := @Reassembler.step_flows w.reassembler (k.flow dir)
    (.capture pass.insertClock pass.capture)
  rw [Reassembler.survivor, if_neg (h.room dir)] at hs
  exact hs

theorem records_insert (hh : w.reassembler.Entries Reassembler.HeadOf) (h : w.Spares k pass) :
    Reassembler.recordsOf (k.flow dir)
        (w.reassembler.insert pass.insertClock pass.capture).2.toList =
      match Reassembler.ownEvent (k.flow dir) (.capture pass.insertClock pass.capture) with
      | some fe => (Flow.step w.reassembler.timeout w.reassembler.flows[k.flow dir]? fe).2
      | none    => [] := by
  have hs := @Reassembler.step_records w.reassembler (k.flow dir)
    (.capture pass.insertClock pass.capture) hh
  rw [Reassembler.survivor, if_neg (h.room dir)] at hs
  exact hs

theorem sweep_of_spares (h : w.Spares k pass) (hs : w.Sweeps pass) :
    let s := Reassembler.machine.step (w.receive pass).1.reassembler (.sweep pass.sweepClock)
    s.1.flows[k.flow dir]? = (w.receive pass).1.reassembler.flows[k.flow dir]? ∧
    (w.reassembler.Entries Reassembler.HeadOf → Reassembler.recordsOf (k.flow dir) s.2 = []) := by
  have ht : (w.receive pass).1.reassembler.timeout = w.reassembler.timeout := by
    rw [receive_reassembler]
    exact @Reassembler.step_timeout _ (.capture pass.insertClock pass.capture)
  obtain ⟨hf, hr⟩ := Reassembler.sweep_of_young (by rw [ht]; exact h.young hs dir)
  refine ⟨hf, fun hh => hr ?_⟩
  rw [receive_reassembler]
  exact @Reassembler.Entries.step_headOf _ (.capture pass.insertClock pass.capture) hh

theorem flow_step (h : w.Spares k pass) : (w.step pass).1.reassembler.flows[k.flow dir]? =
    (w.reassembler.insert pass.insertClock pass.capture).1.flows[k.flow dir]? := by
  rw [step_reassembler, reassemblerCalls, Machine.state_cons]
  split
  case isFalse => rfl
  case isTrue hs =>
    have hf := (@sweep_of_spares k w pass dir h hs).1
    simp only [receive_reassembler] at hf
    exact hf

-- The records of the connection do not expire in such a turn.
theorem expired_of_spares (hh : w.reassembler.Entries Reassembler.HeadOf) (h : w.Spares k pass) :
    ∀ record ∈ w.expired pass, record.headCapture.connKey ≠ k := by
  intro record hr hk
  rw [expired] at hr
  split at hr
  case isFalse => simp at hr
  case isTrue hs =>
    obtain ⟨dir, hd⟩ := flow_eq_iff.mp (conn_fromCapture.trans hk)
    have he := (@sweep_of_spares k w pass dir h hs).2 hh
    exact List.eq_nil_iff_forall_not_mem.mp he record
      (List.mem_filter.mpr ⟨hr, decide_eq_true hd.symm⟩)

end Flows

section Records

-- The record that a turn handles is one of the connection of its capture.
theorem key_of_received (hh : w.reassembler.Entries Reassembler.HeadOf) :
    ∀ record ∈ w.received pass, record.key = pass.capture.connKey := by
  intro record hr
  rw [received, receive] at hr
  split at hr
  case isFalse =>
    obtain rfl := Option.some.inj hr
    rfl
  case isTrue =>
    obtain ⟨assembled, ha, rfl⟩ := Option.map_eq_some_iff.mp hr
    exact congrArg FlowKey.conn (Reassembler.key_of_insert hh assembled ha)

theorem received_congr (hh : w.reassembler.Entries Reassembler.HeadOf)
    (hh' : w'.reassembler.Entries Reassembler.HeadOf) (ha : Agrees k w w')
    (hk : pass.capture.connKey = k) (h : w.Spares k pass) (h' : w'.Spares k pass) :
    w.received pass = w'.received pass := by
  obtain ⟨dir, hd⟩ := flow_eq_iff.mp (conn_fromCapture.trans hk)
  have hr := @records_insert k w pass dir hh h
  have hr' := @records_insert k w' pass dir hh' h'
  rw [hd, Reassembler.recordsOf_self fun record hm =>
    Reassembler.key_of_insert hh record (Option.mem_toList.mp hm)] at hr
  rw [hd, Reassembler.recordsOf_self fun record hm =>
    Reassembler.key_of_insert hh' record (Option.mem_toList.mp hm)] at hr'
  have hf := ha.flows dir
  rw [hd] at hf
  have hi : (w.reassembler.insert pass.insertClock pass.capture).2 =
      (w'.reassembler.insert pass.insertClock pass.capture).2 := by
    refine Option.ext fun record => ?_
    rw [←Option.mem_toList, ←Option.mem_toList, hr, hr', hf, ha.timeout]
  simp only [received, receive]
  split
  case isFalse => rfl
  case isTrue  => exact congrArg (Option.map Record.assembled) hi

end Records

-- The events of a turn, with the connection that each one is about.
def keyedEvents (w : Worker) (pass : Pass) : List (ConnKey × CaptureEvent) :=
  ((w.received pass).toList.flatMap fun record =>
    ((w.tracking.handle pass record).events pass.env record).map (record.key, ·)) ++
    (w.expired pass).map fun record =>
      (record.headCapture.connKey, expiredEvent pass.env record)

def keyed : Machine Worker Pass (ConnKey × CaptureEvent) where
  step w pass := ((w.step pass).1, w.keyedEvents pass)

theorem keyed_output : (keyed.output w passes).map (·.2) = machine.output w passes := by
  induction passes generalizing w
  case nil => rfl
  case cons pass passes hi =>
    rw [Machine.output_cons, Machine.output_cons, List.map_append, hi]
    have he : (w.keyedEvents pass).map (·.2) = (w.step pass).2 := by
      rw [step_events, keyedEvents, recordEvents]
      cases w.received pass <;> simp [Function.comp_def]
    exact congrArg (· ++ _) he

def eventsOf (k : ConnKey) (events : List (ConnKey × CaptureEvent)) : List CaptureEvent :=
  events.filterMap fun event => if event.1 = k then some event.2 else none

theorem eventsOf_append {events events' : List (ConnKey × CaptureEvent)} :
    eventsOf k (events ++ events') = eventsOf k events ++ eventsOf k events' :=
  List.filterMap_append

theorem eventsOf_keyedEvents (hh : w.reassembler.Entries Reassembler.HeadOf) (h : w.Spares k pass) :
    eventsOf k (w.keyedEvents pass) =
      if pass.capture.connKey = k then w.recordEvents pass else [] := by
  have he : eventsOf k ((w.expired pass).map fun record =>
      (record.headCapture.connKey, expiredEvent pass.env record)) = [] := by
    simpa [eventsOf] using expired_of_spares hh h
  rw [keyedEvents, eventsOf_append, he, List.append_nil, recordEvents]
  cases hr : w.received pass
  case none => simp [eventsOf]
  case some record =>
    have hk := key_of_received hh record hr
    by_cases hc : pass.capture.connKey = k <;> simp [eventsOf, hk, hc]

theorem step_bounds : (w.step pass).1.reassembler.timeout = w.reassembler.timeout ∧
    (w.step pass).1.tracking.correlator.ttlNs = w.tracking.correlator.ttlNs := by
  rw [step_reassembler, step_correlator]
  exact ⟨Reassembler.state_timeout, Correlator.state_ttlNs⟩

section Steps

variable (hh : w.reassembler.Entries Reassembler.HeadOf) (h : w.Spares k pass)

include hh h

theorem agrees_own (hh' : w'.reassembler.Entries Reassembler.HeadOf) (h' : w'.Spares k pass)
    (ha : Agrees k w w') (hk : pass.capture.connKey = k) :
    Agrees k (w.step pass).1 (w'.step pass).1 ∧ w.recordEvents pass = w'.recordEvents pass := by
  have hr : w.received pass = w'.received pass := received_congr hh hh' ha hk h h'
  have hs : (w.tracked pass).correlator.pending[k]? = (w'.tracked pass).correlator.pending[k]? ∧
      w.recordEvents pass = w'.recordEvents pass := by
    simp only [tracked, recordEvents, ←hr]
    cases hw : w.received pass
    case none => exact ⟨ha.entry, rfl⟩
    case some record =>
      obtain rfl : record.key = k := (key_of_received hh record hw).trans hk
      exact Tracking.handle_own ha.ttlNs ha.entry
  refine ⟨?_, hs.2⟩
  constructor
  case flows =>
    intro dir
    rw [flow_step h, flow_step h', flow_insert h, flow_insert h', ha.flows dir, ha.timeout]
  case entry =>
    rw [entry_of_not_expires h.lasts.expires, entry_of_not_expires h'.lasts.expires, hs.1]
  case timeout => rw [step_bounds.1, step_bounds.1, ha.timeout]
  case ttlNs   => rw [step_bounds.2, step_bounds.2, ha.ttlNs]

theorem agrees_other (ha : Agrees k w w') (hk : pass.capture.connKey ≠ k) :
    Agrees k (w.step pass).1 w' := by
  constructor
  case flows =>
    intro dir
    have hn : FlowKey.fromCapture pass.capture ≠ k.flow dir :=
      fun he => hk (flow_eq_iff.mpr ⟨dir, he.symm⟩)
    rw [flow_step h, flow_insert h, Reassembler.ownEvent, if_pos hn]
    exact ha.flows dir
  case entry =>
    have hi : w.Idle k pass := by
      intro record hr he
      exact absurd ((key_of_received hh record hr).symm.trans he) hk
    rw [entry_of_idle hi h.lasts, ha.entry]
  case timeout => rw [step_bounds.1, ha.timeout]
  case ttlNs   => rw [step_bounds.2, ha.ttlNs]

end Steps

theorem unwinds (k : ConnKey) : keyed.Unwinds (fun pass => pass.capture.connKey = k) (eventsOf k)
    (fun w => w.reassembler.Entries Reassembler.HeadOf) (Agrees k) (Spares k) where
  inv w pass hh := by
    change (w.step pass).1.reassembler.Entries Reassembler.HeadOf
    rw [step_reassembler]
    exact Machine.inv_reachable (fun _ _ h => h.step_headOf) hh
  symm w w' ha := ⟨fun dir => (ha.flows dir).symm, ha.entry.symm, ha.timeout.symm, ha.ttlNs.symm⟩
  keeps w w' pass hh hh' ha hk h h' := by
    have hk := of_decide_eq_true hk
    obtain ⟨ha, he⟩ := agrees_own hh h hh' h' ha hk
    refine ⟨ha, ?_⟩
    change eventsOf k (w.keyedEvents pass) = eventsOf k (w'.keyedEvents pass)
    rw [eventsOf_keyedEvents hh h, eventsOf_keyedEvents hh' h', he]
  hides w w' pass hh ha hk h := by
    have hk := of_decide_eq_false hk
    refine ⟨agrees_other hh h ha hk, ?_⟩
    exact (eventsOf_keyedEvents hh h).trans (if_neg hk)

-- What is reported on a connection does not depend on the captures of other ones, as long as they
-- leave the room for it.
theorem isolated (k : ConnKey)
    (hf : passes.filter (·.capture.connKey = k) = passes'.filter (·.capture.connKey = k))
    (h : keyed.AllSteps (Spares k) new passes) (h' : keyed.AllSteps (Spares k) new passes') :
    eventsOf k (keyed.output new passes) = eventsOf k (keyed.output new passes') :=
  (unwinds k).view_eq rfl (fun _ _ => eventsOf_append) Reassembler.new_entries
    Reassembler.new_entries ⟨fun _ => rfl, rfl, rfl, rfl⟩ h h' hf

-- The two hellos of a connection, on their own and among those of another one.
def quietPasses : List Pass :=
  [.still clientHelloCapture, .still serverHelloCapture]

def busyPasses : List Pass :=
  [.still { clientHelloCapture with srcPort := 1 }, .still clientHelloCapture,
    .still { serverHelloCapture with srcPort := 1 }, .still serverHelloCapture]

theorem isolated_busy : eventsOf clientHelloCapture.connKey (keyed.output new busyPasses) =
    eventsOf clientHelloCapture.connKey (keyed.output new quietPasses) :=
  isolated _ rfl (by decide +kernel) (by decide +kernel)

end Worker
end TlsProbe
