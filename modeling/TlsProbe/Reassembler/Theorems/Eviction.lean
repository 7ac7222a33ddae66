import TlsProbe.Reassembler.Theorems.Bounds
import TlsProbe.Reassembler.Theorems.Soundness

open Std

namespace TlsProbe
namespace Reassembler

variable {r : Reassembler} {k : FlowKey} {clk : Clock} {cap : RawTlsCapture} {ev : Event}

-- The call leaves the flow `k` without the entry that it had.
def Forgets (r : Reassembler) (ev : Event) (k : FlowKey) : Prop :=
  k ∈ r.flows ∧ k ∉ (machine.step r ev).1.flows

def Oldest (r : Reassembler) (k : FlowKey) : Prop :=
  ∃ entry ∈ r.flows[k]?, r.Entries fun _ entry' => entry.created ≤ entry'.created

-- What a head does to the flows of the table: it costs a flow its entry only when it finds the
-- table full and its own flow new, and then just an oldest one. Segments of its own flow stay, up
-- to the one at its position, unless it completes their record.
structure Spares (r : Reassembler) (clk : Clock) (cap : RawTlsCapture) : Prop where
  others : ∀ k ≠ FlowKey.fromCapture cap, r.Forgets (.capture clk cap) k →
    FlowKey.fromCapture cap ∉ r.flows ∧ r.maxFlows ≤ r.flows.size
  oldest : FlowKey.fromCapture cap ∉ r.flows → r.maxFlows ≤ r.flows.size →
    ∃ k, r.Oldest k ∧ ∀ k', r.Forgets (.capture clk cap) k' ↔ k' = k
  own    : ∀ entry ∈ r.flows[FlowKey.fromCapture cap]?, (machine.step r (.capture clk cap)).2 = [] →
    ∃ entry' ∈ (machine.step r (.capture clk cap)).1.flows[FlowKey.fromCapture cap]?,
      ∀ (seq : UInt32) payload, entry.fragments[seq]? = some payload →
        entry'.fragments[seq]? = some (if seq = cap.tcpSeq then cap.payloadSlice else payload)

theorem head?_keys : r.flows.keys.head? = r.flows.minKey? := by
  cases h : r.flows.keys
  case nil => simp [ExtTreeMap.keys_eq_nil_iff.mp h]
  case cons k ks =>
    rw [List.head?_cons, eq_comm, ExtTreeMap.minKey?_eq_some_iff_mem_and_forall]
    have hs := h ▸ ExtTreeMap.ordered_keys (t := r.flows)
    simp only [←ExtTreeMap.mem_keys, h, List.mem_cons_self, List.forall_mem_cons, true_and]
    exact ⟨by simp, fun k' hk => by simp [List.rel_of_pairwise_cons hs hk]⟩

theorem evictedBy_head (hf : cap.isFragment) : r.evictedBy (.capture clk cap) =
    if r.maxFlows ≤ r.flows.size then r.flows.minKey? else none := by
  simp [evictedBy, evicted, hf, head?_keys]

theorem mem_of_evictedBy (h : r.evictedBy ev = some k) : k ∈ r.flows := by
  cases ev <;> simp only [evictedBy, evicted, reduceCtorEq, Option.ite_none_right_eq_some] at h
  exact ExtTreeMap.minKey?_mem (head?_keys ▸ h.2.2)

-- Other flows lose their entries through evictions only.
theorem forgets_other (hk : k ≠ FlowKey.fromCapture cap) :
    r.Forgets (.capture clk cap) k ↔ r.evictedBy (.capture clk cap) = some k := by
  have hs : (machine.step r (.capture clk cap)).1.flows[k]? = r.survivor k (.capture clk cap) := by
    rw [step_flows, ownEvent, if_pos hk.symm]
  rw [Forgets, ExtTreeMap.mem_iff_isSome_getElem? (t := (machine.step _ _).1.flows), hs, survivor]
  constructor
  case mp =>
    rintro ⟨hm, hn⟩
    by_contra he
    rw [if_neg he, ←ExtTreeMap.mem_iff_isSome_getElem?] at hn
    exact hn hm
  case mpr => exact fun he => ⟨mem_of_evictedBy he, by simp [he]⟩

theorem step_ownHead (hf : cap.isFragment) :
    let key := FlowKey.fromCapture cap
    let ev  := Event.capture clk cap
    let s   := Flow.settle <| ((r.survivor key ev).getD (orphan clk.created)).receiveHead cap
    (machine.step r ev).1.flows[key]? = s.1 ∧ (machine.step r ev).2 = s.2 := by
  intro key ev s
  have hs : r.cleanupIfOverLimit.flows[key]? = r.survivor key ev := by
    simp [cleanupIfOverLimit_flows, survivor, evictedBy, ev, hf]
  simp [step_head hf, key, ev, s, ←hs, Flow.step]

theorem settle_kept {entry : ReassemblyEntry} {P : ReassemblyEntry → Prop} :
    ((Flow.settle entry).2 = [] → ∃ entry' ∈ (Flow.settle entry).1, P entry') ↔
    (entry.completed = none → P entry) := by
  obtain ⟨hc, hs⟩ | ⟨_, hc, hs⟩ := Flow.settle_cases entry <;> simp [hs, hc]

-- A new entry has just the head.
theorem kept_fresh {entry : ReassemblyEntry} : (∀ (seq : UInt32) payload,
      entry.fragments[seq]? = some payload →
        ((orphan clk.created).receiveHead cap).fragments[seq]? =
          some (if seq = cap.tcpSeq then cap.payloadSlice else payload)) ↔
    ∀ seq ∈ entry.fragments, seq = cap.tcpSeq := by
  simp only [orphan, ReassemblyEntry.receiveHead, ExtTreeMap.getElem?_insert,
    Std.compare_eq_iff_eq, ExtTreeMap.mem_iff_isSome_getElem?, Option.isSome_iff_exists]
  constructor
  case mp =>
    rintro h seq ⟨payload, hp⟩
    have := h seq payload hp
    grind
  case mpr =>
    intro h seq payload hp
    simp [h seq ⟨payload, hp⟩]

theorem own_iff {entry : ReassemblyEntry} (hf : cap.isFragment)
    (he : r.flows[FlowKey.fromCapture cap]? = some entry) :
    ((machine.step r (.capture clk cap)).2 = [] →
      ∃ entry' ∈ (machine.step r (.capture clk cap)).1.flows[FlowKey.fromCapture cap]?,
        ∀ (seq : UInt32) payload, entry.fragments[seq]? = some payload →
          entry'.fragments[seq]? = some (if seq = cap.tcpSeq then cap.payloadSlice else payload)) ↔
    (r.evictedBy (.capture clk cap) = some (FlowKey.fromCapture cap) →
      ReassemblyEntry.Whole cap.payloadSlice ∨ ∀ seq ∈ entry.fragments, seq = cap.tcpSeq) := by
  obtain ⟨h₁, h₂⟩ := step_ownHead hf
  rw [h₁, h₂, settle_kept, survivor]
  split
  case isTrue hv =>
    rw [Option.getD_none, ReassemblyEntry.endsBefore_orphan.completed_eq_none, kept_fresh]
    simp only [hv, true_imp_iff]
    exact or_iff_not_imp_left.symm
  case isFalse hv =>
    simp only [he, Option.getD_some, hv, false_imp_iff, iff_true]
    intro _ seq payload hp
    simp only [ReassemblyEntry.receiveHead, ExtTreeMap.getElem?_insert, Std.compare_eq_iff_eq,
      eq_comm (a := seq)]
    split
    · rfl
    · exact hp

theorem spares_of_room (hf : cap.isFragment) (hl : r.flows.size < r.maxFlows) :
    r.Spares clk cap := by
  have he : r.evictedBy (.capture clk cap) = none := evictedBy_eq_none hl
  constructor
  case others => intro k hk h; simp [forgets_other hk, he] at h
  case oldest => intro _ h; omega
  case own    => intro entry hr; exact (own_iff hf hr).mpr (by simp [he])

theorem spares_of_new (hn : FlowKey.fromCapture cap ∉ r.flows) (hl : r.maxFlows ≤ r.flows.size)
    (he : r.evictedBy (.capture clk cap) = some k) : r.Spares clk cap ↔ r.Oldest k := by
  have forgets (k' : FlowKey) : r.Forgets (.capture clk cap) k' ↔ k' = k := by
    by_cases hk : k' = FlowKey.fromCapture cap
    case pos =>
      subst hk
      have hne : FlowKey.fromCapture cap ≠ k := fun h => hn <| h ▸ mem_of_evictedBy he
      simp [Forgets, hn, hne]
    case neg => simp [forgets_other hk, he, eq_comm]
  constructor
  case mp =>
    intro s
    obtain ⟨k', ho, hu⟩ := s.oldest hn hl
    have : k' = k := (forgets k').mp <| (hu k').mpr rfl
    exact this ▸ ho
  case mpr =>
    intro ho
    have hnone : r.flows[FlowKey.fromCapture cap]? = none := ExtTreeMap.getElem?_eq_none hn
    exact ⟨fun _ _ _ => ⟨hn, hl⟩, fun _ _ => ⟨k, ho, forgets⟩, by simp [hnone]⟩

theorem spares_of_known {entry : ReassemblyEntry} (hf : cap.isFragment)
    (hr : r.flows[FlowKey.fromCapture cap]? = some entry)
    (he : r.evictedBy (.capture clk cap) = some k) :
    r.Spares clk cap ↔ FlowKey.fromCapture cap = k ∧
      (ReassemblyEntry.Whole cap.payloadSlice ∨ ∀ seq ∈ entry.fragments, seq = cap.tcpSeq) := by
  have hm : FlowKey.fromCapture cap ∈ r.flows := by
    rw [ExtTreeMap.mem_iff_isSome_getElem?, hr, Option.isSome_some]
  constructor
  case mp =>
    intro s
    have hk : FlowKey.fromCapture cap = k := by
      by_contra hne
      exact (s.others k (Ne.symm hne) <| (forgets_other (Ne.symm hne)).mpr he).1 hm
    exact ⟨hk, (own_iff hf hr).mp (s.own entry hr) (hk ▸ he)⟩
  case mpr =>
    rintro ⟨rfl, h⟩
    constructor
    case others =>
      intro k hk hfk
      rw [forgets_other hk, he] at hfk
      exact absurd (Option.some.inj hfk).symm hk
    case oldest => exact fun hn => absurd hm hn
    case own =>
      intro entry' hr'
      obtain rfl : entry = entry' := Option.some.inj <| hr.symm.trans hr'
      exact (own_iff hf hr).mpr fun _ => h

-- A head that finds the table full removes the flow with the smallest key, whatever the age of that
-- flow, and whether the head needs its place or not.
theorem spares_iff {events : List Event} (hf : cap.isFragment) :
    let r   := machine.state new events
    let key := FlowKey.fromCapture cap
    r.Spares clk cap ↔ r.flows.size < r.maxFlows ∨ ∃ k, r.flows.minKey? = some k ∧
      (key ∉ r.flows ∧ r.Oldest k ∨
        key = k ∧ (ReassemblyEntry.Whole cap.payloadSlice ∨
          ∀ entry ∈ r.flows[key]?, ∀ seq ∈ entry.fragments, seq = cap.tcpSeq)) := by
  intro r key
  by_cases hl : r.flows.size < r.maxFlows
  case pos => simp [hl, spares_of_room hf hl]
  case neg =>
    have hm : r.maxFlows = 1024 := state_maxFlows
    obtain ⟨k, hk⟩ : ∃ k, r.flows.minKey? = some k := by
      rw [←Option.isSome_iff_exists, ExtTreeMap.isSome_minKey?_iff_ne_empty]
      rintro he
      simp [he, hm] at hl
    have he : r.evictedBy (.capture clk cap) = some k := by
      rw [evictedBy_head hf, if_pos (Nat.not_lt.mp hl), hk]
    have hmem : k ∈ r.flows := ExtTreeMap.minKey?_mem hk
    simp only [hl, false_or, hk, Option.some.injEq, exists_eq_left']
    cases hr : r.flows[key]?
    case none =>
      have hn : key ∉ r.flows := by simp [ExtTreeMap.mem_iff_isSome_getElem?, hr]
      have hne : key ≠ k := fun h => hn (h ▸ hmem)
      simp [spares_of_new hn (Nat.not_lt.mp hl) he, hn, hne]
    case some entry =>
      have hc : key ∈ r.flows := by simp [ExtTreeMap.mem_iff_isSome_getElem?, hr]
      simp [spares_of_known hf hr he, hc, key]

theorem spares_hello : (machine.state new [.capture .still helloTail]).Spares .still helloHead :=
  (spares_iff (by decide +kernel)).mpr (.inl (by decide +kernel))

-- A segment of the flow with the largest key in a full table.
def lateHead : RawTlsCapture :=
  { makeCapture 9 [0x16] flagFragment with srcPort := 1023 }

theorem flood_not_spares :
    ¬(machine.state new ((orphanFlood 1024).map (.capture .still))).Spares .still lateHead := by
  intro s
  set r := machine.state new ((orphanFlood 1024).map (.capture .still)) with hr
  have port (cap : RawTlsCapture) (p : UInt16) : FlowKey.fromCapture { cap with srcPort := p } =
      { FlowKey.fromCapture cap with srcPort := p } := rfl
  have mem (i : Nat) (hi : i < 1024) :
      { FlowKey.fromCapture lateHead with srcPort := UInt16.ofNat i } ∈ r.flows := by
    have hk : FlowKey.fromCapture lateHead =
        { FlowKey.fromCapture (makeCapture 1 [0x16] flagContinuation) with srcPort := 1023 } := by
      decide +kernel
    rw [hr, mem_orphanFlood (by decide), hk]
    exact List.mem_map.mpr ⟨_, List.mem_map.mpr ⟨i, List.mem_range.mpr hi, rfl⟩, port _ _⟩
  have hl : r.maxFlows ≤ r.flows.size := by
    rw [hr, orphanFlood_size (by decide), state_maxFlows]
    exact Nat.le_refl _
  obtain ⟨k, hk⟩ := Option.isSome_iff_exists.mp <|
    ExtTreeMap.isSome_minKey?_of_mem <| mem 0 (by decide)
  have hle := (ExtTreeMap.minKey?_eq_some_iff_mem_and_forall.mp hk).2 _ <| mem 0 (by decide)
  have hne : k ≠ FlowKey.fromCapture lateHead := by
    rintro rfl
    exact absurd hle (by decide +kernel)
  have he : r.evictedBy (.capture .still lateHead) = some k := by
    rw [evictedBy_head (by decide +kernel), if_pos hl, hk]
  exact (s.others k hne <| (forgets_other hne).mpr he).1 (mem 1023 (by decide))

end Reassembler
end TlsProbe
