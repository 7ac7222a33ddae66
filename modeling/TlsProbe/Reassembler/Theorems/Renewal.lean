import TlsProbe.Reassembler.Theorems.Soundness

open Std

namespace TlsProbe
namespace Reassembler

variable {r : Reassembler} {k : FlowKey} {clk : Clock} {cap : RawTlsCapture} {ev : Event}
variable {entry entry' : ReassemblyEntry} {e : Option ReassemblyEntry} {now : Instant}

-- What the flow of a head gets, from the head on, is what it would get if it had had no entry.
def Renews (r : Reassembler) (clk : Clock) (cap : RawTlsCapture) : Prop :=
  let key := FlowKey.fromCapture cap
  ∀ events, (machine.emits r (.capture clk cap :: events)).map (recordsOf key) =
    (machine.emits (r.put key none) (.capture clk cap :: events)).map (recordsOf key)

theorem step_head_room (hf : cap.isFragment) (hs : r.flows.size < r.maxFlows) :
    let key := FlowKey.fromCapture cap
    let s   := Flow.settle <| (r.flows[key]?.getD (orphan clk.created)).receiveHead cap
    machine.step r (.capture clk cap) = (r.put key s.1, s.2) := by
  have hc : r.cleanupIfOverLimit = r := by rw [cleanupIfOverLimit_eq, evicted_eq_none hs]
  simp [step_head hf, hc, Flow.step]

theorem step_head_cleared (hf : cap.isFragment) (hs : r.flows.size < r.maxFlows) :
    let key := FlowKey.fromCapture cap
    let s   := Flow.settle <| (orphan clk.created).receiveHead cap
    machine.step (r.put key none) (.capture clk cap) = (r.put key s.1, s.2) := by
  have hs' : (r.put (FlowKey.fromCapture cap) none).flows.size <
      (r.put (FlowKey.fromCapture cap) none).maxFlows := ExtTreeMap.size_erase_le.trans_lt hs
  have h : machine.step (r.put (FlowKey.fromCapture cap) none) (.capture clk cap) = _ :=
    step_head_room hf hs'
  simpa using h

-- A head in its flow's entry, and the same head without it.
theorem renews_iff_settle (hf : cap.isFragment) (hs : r.flows.size < r.maxFlows) :
    let key := FlowKey.fromCapture cap
    let s   := Flow.settle <| (r.flows[key]?.getD (orphan clk.created)).receiveHead cap
    let s'  := Flow.settle <| (orphan clk.created).receiveHead cap
    r.Renews clk cap ↔ recordsOf key s.2 = recordsOf key s'.2 ∧ ∀ events,
      (machine.emits (r.put key s.1) events).map (recordsOf key) =
        (machine.emits (r.put key s'.1) events).map (recordsOf key) := by
  intro key s s'
  have emits (q : Reassembler) (events : List Event) :
      machine.emits q (.capture clk cap :: events) =
        (machine.step q (.capture clk cap)).2 ::
          machine.emits (machine.step q (.capture clk cap)).1 events := rfl
  simp only [Renews, emits, step_head_room hf hs, step_head_cleared hf hs, List.map_cons,
    List.cons.injEq, forall_const, forall_and]
  rfl

-- A late copy of a segment at `seq`.
def continuationAt (cap : RawTlsCapture) (seq : UInt32) : RawTlsCapture := { cap with
  tcpSeq := seq
  flags  :=
    if (FlowKey.fromCapture cap).dir then flagContinuation ||| flagIngress else flagContinuation
}

theorem continuationAt_spec (cap : RawTlsCapture) (seq : UInt32) :
    FlowKey.fromCapture (continuationAt cap seq) = FlowKey.fromCapture cap ∧
    (continuationAt cap seq).isFragment = false ∧ (continuationAt cap seq).isContinuation := by
  have key : FlowKey.fromCapture (continuationAt cap seq) = { FlowKey.fromCapture cap with
      dir := (continuationAt cap seq).flags &&& flagIngress != 0 } := rfl
  rw [key, RawTlsCapture.isFragment, RawTlsCapture.isContinuation, continuationAt]
  generalize FlowKey.fromCapture cap = k
  obtain ⟨_, _, _, _, dir⟩ := k
  cases dir <;> simp only [FlowKey.mk.injEq, true_and, Bool.false_eq_true, if_true, if_false] <;>
    decide +kernel

section Alike

-- No calls tell the two entries of the flow `k` apart.
def Alike (r : Reassembler) (k : FlowKey) (entry entry' : ReassemblyEntry) : Prop :=
  ∀ events, (machine.emits (r.put k entry) events).map (recordsOf k) =
    (machine.emits (r.put k entry') events).map (recordsOf k)

theorem Alike.step (h : r.Alike k entry entry') : recordsOf k (machine.step (r.put k entry) ev).2 =
    recordsOf k (machine.step (r.put k entry') ev).2 := by
  simpa [Machine.emits] using h [ev]

theorem Entries.put {P : FlowKey → ReassemblyEntry → Prop} (h : r.Entries P) (he : P k entry) :
    (r.put k (some entry)).Entries P := by
  intro k' entry' hk
  rw [put_flows] at hk
  split at hk
  case isTrue hkk => exact hkk ▸ Option.some.inj hk ▸ he
  case isFalse    => exact h k' entry' hk

theorem records_sweep (hr : r.Entries HeadOf) (hk : HeadOf k entry) :
    recordsOf k (machine.step (r.put k entry) (.sweep clk)).2 =
      if r.timeout ≤ entry.elapsed (clk.checked k) then entry.finalized.toList else [] := by
  rw [step_records (hr.put hk)]
  simp [ownEvent, survivor, evictedBy, Flow.step, apply_ite Prod.snd, Flow.close]

theorem records_continuationAt {seq : UInt32} (hr : r.Entries HeadOf)
    (hk : HeadOf (.fromCapture cap) entry) :
    let key := FlowKey.fromCapture cap
    recordsOf key (machine.step (r.put key entry) (.capture clk (continuationAt cap seq))).2 =
      (Flow.step r.timeout entry
        (.continuation (continuationAt cap seq) clk.created (clk.checked key))).2 := by
  intro key
  obtain ⟨hkey, hf, hc⟩ := continuationAt_spec cap seq
  rw [step_records (hr.put hk)]
  simp [ownEvent, key, hkey, hf, hc, survivor, evictedBy]

theorem eq_of_elapsed {t a b : Nat} (ht : 0 < t) (h : ∀ now, t ≤ now - a ↔ t ≤ now - b) :
    a = b := by
  have := h (a + t)
  have := h (b + t)
  omega

-- A sweep tells entries apart that are not equally old.
theorem Alike.created (h : r.Alike k entry entry') (ht : 0 < r.timeout) (hr : r.Entries HeadOf)
    (hk : HeadOf k entry) (hk' : HeadOf k entry') (hf : entry.finalized.isSome)
    (hf' : entry'.finalized.isSome) : entry.created = entry'.created := by
  refine eq_of_elapsed ht fun now => ?_
  have hs : recordsOf k (machine.step (r.put k entry) (.sweep { Clock.still with
      checked _ := now })).2 = _ := h.step
  rw [records_sweep hr hk, records_sweep hr hk'] at hs
  simp only [ReassemblyEntry.elapsed] at hs
  obtain ⟨record, hf⟩ := Option.isSome_iff_exists.mp hf
  obtain ⟨record', hf'⟩ := Option.isSome_iff_exists.mp hf'
  grind

-- A late segment is passed over by an entry that has one at its position, and closes any other.
theorem Alike.mem {seq : UInt32} (h : r.Alike (.fromCapture cap) entry entry')
    (hr : r.Entries HeadOf) (hk : HeadOf (.fromCapture cap) entry)
    (hk' : HeadOf (.fromCapture cap) entry') (hf' : entry'.head.isSome)
    (hs : seq ∈ entry.fragments) : seq ∈ entry'.fragments := by
  by_contra hn
  let clk : Clock := { Clock.still with checked _ := entry'.created + r.timeout }
  have hs' : recordsOf _ (machine.step _ (.capture clk (continuationAt cap seq))).2 = _ := h.step
  rw [records_continuationAt hr hk, records_continuationAt hr hk'] at hs'
  have hl : (Flow.step r.timeout (some entry) (.continuation (continuationAt cap seq) clk.created
      (clk.checked (.fromCapture cap)))).2 = [] := by
    simp [Flow.step, continuationAt, ExtTreeMap.contains_iff_mem.mpr hs]
  have hr : (Flow.step r.timeout (some entry') (.continuation (continuationAt cap seq) clk.created
      (clk.checked (.fromCapture cap)))).2 ≠ [] := by
    obtain ⟨head, hh⟩ := Option.isSome_iff_exists.mp hf'
    simp [Flow.step, continuationAt, ExtTreeMap.contains_iff_mem, hn, Flow.close, clk,
      ReassemblyEntry.elapsed, ReassemblyEntry.finalized, ReassemblyEntry.receiveContinuation, hh]
  exact hr (hs'.symm.trans hl)

end Alike

-- The entry that a head leaves is as new just when nothing but its own segment was there.
theorem receiveHead_eq_fresh (ht : entry.created = clk.created)
    (hs : ∀ seq ∈ entry.fragments, seq = cap.tcpSeq) :
    entry.receiveHead cap = (orphan clk.created).receiveHead cap := by
  have hf : entry.fragments.insert cap.tcpSeq cap.payloadSlice =
      ExtTreeMap.insert ∅ cap.tcpSeq cap.payloadSlice := by
    refine ExtTreeMap.ext_getElem? fun seq => ?_
    simp only [ExtTreeMap.getElem?_insert, Std.compare_eq_iff_eq]
    split
    case isTrue     => rfl
    case isFalse hn => simpa using mt (hs seq) (Ne.symm hn)
  simp [ReassemblyEntry.receiveHead, orphan, hf, ht]

-- A head makes an entry like a new one just when it makes it a new one.
theorem alike_fresh_iff (ht : 0 < r.timeout) (hr : r.Entries HeadOf) :
    r.Alike (.fromCapture cap) (entry.receiveHead cap) ((orphan clk.created).receiveHead cap) ↔
      entry.created = clk.created ∧ ∀ seq ∈ entry.fragments, seq = cap.tcpSeq := by
  have hk (entry : ReassemblyEntry) : HeadOf (.fromCapture cap) (entry.receiveHead cap) := by
    simp [HeadOf, ReassemblyEntry.receiveHead]
  constructor
  case mp =>
    intro h
    refine ⟨h.created ht hr (hk _) (hk _) rfl rfl, fun seq hm => ?_⟩
    have hm := h.mem hr (hk _) (hk _) rfl <| ExtTreeMap.mem_insert.mpr <| .inr hm
    have hm : cap.tcpSeq = seq := by simpa [ReassemblyEntry.receiveHead, orphan] using hm
    exact hm.symm
  case mpr =>
    intro h events
    rw [receiveHead_eq_fresh h.1 h.2]

-- A head goes into the entry that its flow has, even if this has a head already. The record that it
-- starts then has less time and room than a new one, unless the head holds the whole of it.
theorem renews_iff {events : List Event} (hf : cap.isFragment)
    (hs : (machine.state new events).flows.size < (machine.state new events).maxFlows)
    (he : ∀ entry ∈ (machine.state new events).flows[FlowKey.fromCapture cap]?,
      entry.EndsBefore cap.tcpSeq) :
    (machine.state new events).Renews clk cap ↔
      ReassemblyEntry.Whole cap.payloadSlice ∨
      ∀ entry ∈ (machine.state new events).flows[FlowKey.fromCapture cap]?,
        entry.created = clk.created ∧ ∀ seq ∈ entry.fragments, seq = cap.tcpSeq := by
  have hr : (machine.state new events).Entries HeadOf := state_wellFormed.headOf
  have ht : 0 < (machine.state new events).timeout := by rw [state_timeout]; decide
  generalize machine.state new events = r at hs he hr ht
  refine Iff.trans (renews_iff_settle hf hs) ?_
  set key := FlowKey.fromCapture cap
  set entry := r.flows[key]?.getD (orphan clk.created) with hentry
  have hb : entry.EndsBefore cap.tcpSeq := by
    cases h : r.flows[key]?
    case none   => simpa [hentry, h] using ReassemblyEntry.endsBefore_orphan
    case some _ => simpa [hentry, h] using he _ h
  have hb' : (orphan clk.created).EndsBefore cap.tcpSeq := ReassemblyEntry.endsBefore_orphan
  by_cases hw : ReassemblyEntry.Whole cap.payloadSlice
  case pos =>
    have hc : (entry.receiveHead cap).completed = ((orphan clk.created).receiveHead cap).completed :=
      hb.completed.trans hb'.completed.symm
    have hn := mt hb'.completed_eq_none.mp (not_not.mpr hw)
    obtain ⟨record, hc'⟩ := Option.ne_none_iff_exists'.mp hn
    simp [Flow.settle, hc, hc', hw]
  case neg =>
    have hc := hb.completed_eq_none.mpr hw
    have hc' := hb'.completed_eq_none.mpr hw
    -- A flow without an entry is as good as one with a new entry.
    have hall : (∀ entry ∈ r.flows[key]?,
          entry.created = clk.created ∧ ∀ seq ∈ entry.fragments, seq = cap.tcpSeq) ↔
        entry.created = clk.created ∧ ∀ seq ∈ entry.fragments, seq = cap.tcpSeq := by
      cases h : r.flows[key]? <;> simp [hentry, h, orphan]
    simp only [Flow.settle, hc, hc', hw, true_and, false_or, hall]
    exact alike_fresh_iff ht hr

-- A record of one byte, whole in its head.
def shortHead : RawTlsCapture :=
  makeCapture 110 [0x16, 0x03, 0x03, 0x00, 0x01, 0x02] flagFragment

theorem short_renews : (machine.state new [.capture .still helloHead]).Renews .still shortHead :=
  (renews_iff (by decide +kernel) (by decide +kernel) (by
    have h : ∀ entry ∈ (machine.state new [.capture .still helloHead]).flows[
        FlowKey.fromCapture shortHead]?, ∀ x ∈ entry.fragments.toList,
        x.1.toNat + x.2.length ≤ shortHead.tcpSeq.toNat := by decide +kernel
    exact fun entry he seq payload hp => h entry he (seq, payload) (Fragments.mem_toList.mpr hp))).mpr
    (.inl ⟨6, by decide +kernel, by decide +kernel⟩)

-- The head of a record of 37 bytes, and its next two segments.
def longHead : RawTlsCapture :=
  makeCapture 120 [0x16, 0x03, 0x03, 0x00, 0x20] flagFragment

def longSegments : List Event :=
  [.capture .still { helloTail with tcpSeq := 125 }, .capture .still { helloTail with tcpSeq := 130 }]

theorem long_not_renews :
    ¬(machine.state new [.capture .still helloHead]).Renews .still longHead := by
  intro h
  have he : recordsOf (.fromCapture longHead) = List.filter fun record =>
      compare (FlowKey.fromCapture record.headCapture) (.fromCapture longHead) = .eq := by
    funext records
    simp [recordsOf]
  have := congrArg (·.map List.length) (h longSegments)
  rw [he] at this
  exact absurd this (by decide +kernel)

end Reassembler
end TlsProbe
