import TlsProbe.Reassembler.Theorems.Soundness

open Std

namespace TlsProbe
namespace Flow

-- Whether the pending head of a flow starts at position `seq`.
def pending (seq : UInt32) (e : Option ReassemblyEntry) : Bool :=
  (e.bind (·.head)).any (·.seq = seq)

def returned (seq : UInt32) (records : List AssembledRecord) : Nat :=
  records.countP (·.headCapture.tcpSeq = seq)

variable {k : FlowKey} {seq : UInt32} {timeout : Duration} {entry : ReassemblyEntry}
variable {e : Option ReassemblyEntry} {ev : Event}

-- A head that is released is returned.
theorem returned_released {record : AssembledRecord} (hw : entry.WellFormed k)
    (h : entry.completed = some record ∨ entry.finalized = some record) :
    returned seq [record] = (pending seq (some entry)).toNat := by
  have ⟨head, hh, hr⟩ := entry.head_of_released h
  have hs := hw.seq head hh
  simp [returned, pending, hh, hr, ←hs, Bool.toNat, List.countP_singleton]

theorem settle_balance (hw : entry.WellFormed k) :
    (pending seq (settle entry).1).toNat + returned seq (settle entry).2 =
      (pending seq (some entry)).toNat := by
  obtain ⟨_, hs⟩ | ⟨record, hc, hs⟩ := settle_cases entry <;> rw [hs]
  case inl => rfl
  case inr => simp [returned_released hw (.inl hc), pending]

theorem close_balance (hw : entry.WellFormed k) :
    (pending seq (close entry).1).toNat + returned seq (close entry).2 =
      (pending seq (some entry)).toNat := by
  cases hf : entry.finalized
  case some record => simp [close, hf, returned_released hw (.inr hf), pending]
  case none =>
    have hh : entry.head = none := by simpa [ReassemblyEntry.finalized] using hf
    simp [close, hf, pending, returned, hh]

-- What an event adds to the heads of its flow at `seq`, and what it takes away without returning
-- it.
def arrivals (seq : UInt32) (e : Option ReassemblyEntry) : Event → Bool
  | .head cap _ => cap.tcpSeq = seq && !pending seq e
  | _           => false

def replacements (seq : UInt32) (e : Option ReassemblyEntry) : Event → Bool
  | .head cap _ => cap.tcpSeq ≠ seq && pending seq e
  | _           => false

theorem examined_balance (he : entry ∈ examined timeout e ev) :
    (pending seq (some entry)).toNat + (replacements seq e ev).toNat =
      (pending seq e).toNat + (arrivals seq e ev).toNat := by
  cases ev <;> simp only [replacements, arrivals, Bool.toNat_false, Nat.add_zero]
  case head cap created =>
    have hp : pending seq (some entry) = decide (cap.tcpSeq = seq) := by
      cases he
      rfl
    rw [hp]
    cases pending seq e <;> by_cases hs : cap.tcpSeq = seq <;> simp [hs]
  case continuation cap created checked =>
    have ⟨_, he⟩ := Option.ite_none_left_eq_some.mp he
    cases he
    cases e <;> rfl
  case sweep =>
    have ⟨he, _⟩ := Option.filter_eq_some_iff.mp he
    rw [he]
  case evict => contradiction

-- The step lemma of the conservation of heads.
theorem step_balance (seq : UInt32) (hw : ∀ entry ∈ examined timeout e ev, entry.WellFormed k)
    (hn : ev ≠ .evict) :
    (pending seq (step timeout e ev).1).toNat + returned seq (step timeout e ev).2 +
      (replacements seq e ev).toNat = (pending seq e).toNat + (arrivals seq e ev).toNat := by
  obtain ⟨he, _, hs⟩ | ⟨he, _⟩ | ⟨entry, he, hs⟩ := step_cases timeout e ev
  case inl =>
    have ⟨hr, ha⟩ : replacements seq e ev = false ∧ arrivals seq e ev = false := by
      cases ev <;> first | exact ⟨rfl, rfl⟩ | contradiction
    simp [hs, hr, ha, returned]
  case inr.inl => contradiction
  case inr.inr =>
    rw [hs, ←examined_balance he]
    split
    · rw [close_balance (hw entry he)]
    · rw [settle_balance (hw entry he)]

end Flow

namespace Reassembler

variable {k : FlowKey} {seq : UInt32} {r : Reassembler} {ev : Event} {events : List Event}

def pendingHead (k : FlowKey) (seq : UInt32) (r : Reassembler) : Bool :=
  Flow.pending seq r.flows[k]?

-- The call brings a head at `seq` that is not the pending one, as it is after the call's eviction.
def newHead (k : FlowKey) (seq : UInt32) (r : Reassembler) : Event → Bool
  | .capture clk cap => cap.isFragment && FlowKey.fromCapture cap = k && cap.tcpSeq = seq &&
    !Flow.pending seq (r.survivor k <| .capture clk cap)
  | .sweep _ => false

-- The call puts a head at another position in the place of the pending one at `seq`.
def replacedHead (k : FlowKey) (seq : UInt32) (r : Reassembler) : Event → Bool
  | .capture clk cap => cap.isFragment && FlowKey.fromCapture cap = k && cap.tcpSeq ≠ seq &&
    Flow.pending seq (r.survivor k <| .capture clk cap)
  | .sweep _ => false

def evictedHead (k : FlowKey) (seq : UInt32) (r : Reassembler) (ev : Event) : Bool :=
  r.evictedBy ev = some k && r.pendingHead k seq

def IsHead (k : FlowKey) (seq : UInt32) (record : AssembledRecord) : Bool :=
  FlowKey.fromCapture record.headCapture = k && record.headCapture.tcpSeq = seq

theorem survivor_balance (r : Reassembler) (k : FlowKey) (seq : UInt32) (ev : Event) :
    (Flow.pending seq (r.survivor k ev)).toNat + (r.evictedHead k seq ev).toNat =
      (r.pendingHead k seq).toNat := by
  by_cases h : r.evictedBy ev = some k <;>
    simp [survivor, evictedHead, pendingHead, h, Flow.pending]

theorem newHead_eq : r.newHead k seq ev =
    (ownEvent k ev).any (Flow.arrivals seq <| r.survivor k ev) := by
  cases ev
  case sweep => rfl
  case capture clk cap =>
    simp only [newHead, ownEvent]
    by_cases hk : FlowKey.fromCapture cap = k <;> cases cap.isFragment <;> cases cap.isContinuation
    all_goals simp [hk, Flow.arrivals]

theorem replacedHead_eq : r.replacedHead k seq ev =
    (ownEvent k ev).any (Flow.replacements seq <| r.survivor k ev) := by
  cases ev
  case sweep => rfl
  case capture clk cap =>
    simp only [replacedHead, ownEvent]
    by_cases hk : FlowKey.fromCapture cap = k <;> cases cap.isFragment <;> cases cap.isContinuation
    all_goals simp [hk, Flow.replacements]

theorem countP_isHead {records : List AssembledRecord} :
    records.countP (IsHead k seq) = Flow.returned seq (recordsOf k records) := by
  rw [Flow.returned, recordsOf, List.countP_filter]
  exact List.countP_congr fun record _ => by simp [IsHead, and_comm]

theorem head_balance (hr : r.Entries ReassemblyEntry.WellFormed) :
    ((machine.step r ev).1.pendingHead k seq).toNat +
      ((machine.step r ev).2.countP (IsHead k seq) + (r.evictedHead k seq ev).toNat +
        (r.replacedHead k seq ev).toNat) =
      (r.pendingHead k seq).toNat + (r.newHead k seq ev).toNat := by
  have hs := r.survivor_balance k seq ev
  rw [countP_isHead, step_records hr.headOf, newHead_eq, replacedHead_eq, pendingHead, step_flows]
  cases ho : ownEvent k ev
  case none =>
    simp only [Flow.returned, Option.any_none, Bool.toNat_false, List.countP_nil]
    omega
  case some fe =>
    have hw entry (ha : entry ∈ Flow.examined r.timeout (r.survivor k ev) fe) :
        entry.WellFormed k := hr.examined (Q := fun _ => True)
      (fun _ => ReassemblyEntry.wellFormed_preserves) (fun _ _ => trivial) ho ha
    have hne : fe ≠ .evict := ownEvent_ne_evict ho
    have := Flow.step_balance seq hw hne
    simp only [Option.any_some]
    omega

-- Every new head is returned in one record, or still pending, or has been evicted with its entry or
-- replaced by a later head of its flow.
theorem heads_conserved (k : FlowKey) (seq : UInt32) (events : List Event) :
    machine.total (fun r ev => (r.newHead k seq ev).toNat) new events =
      (machine.output new events).countP (IsHead k seq) +
      ((machine.state new events).pendingHead k seq).toNat +
      machine.total (fun r ev => (r.evictedHead k seq ev).toNat) new events +
      machine.total (fun r ev => (r.replacedHead k seq ev).toNat) new events := by
  have hb := Machine.balance (m := machine) (s := new)
    (φ := fun r => (r.pendingHead k seq).toNat) (fun _ _ => step_wellFormed)
    (fun _ _ => head_balance) new_entries events
  have hn : new.pendingHead k seq = false := by simp [pendingHead, new, Flow.pending]
  rw [Machine.total_add, Machine.total_add, Machine.total_countP, hn] at hb
  simp only [Bool.toNat_false] at hb
  omega

-- The first of two heads of a flow is neither returned nor pending, and no entry has been evicted.
theorem replaced_head_lost : ¬∀ (k : FlowKey) (seq : UInt32) (events : List Event),
    machine.total (fun r ev => (r.newHead k seq ev).toNat) new events =
      (machine.output new events).countP (IsHead k seq) +
      ((machine.state new events).pendingHead k seq).toNat +
      machine.total (fun r ev => (r.evictedHead k seq ev).toNat) new events :=
  fun h => absurd (h (.fromCapture helloHead) 100
    [.capture .still helloHead, .capture .still { helloHead with tcpSeq := 4196 }])
    (by decide +kernel)

end Reassembler
end TlsProbe
