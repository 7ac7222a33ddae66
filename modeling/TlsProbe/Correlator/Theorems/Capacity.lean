import TlsProbe.Correlator.Theorems.OfferedGroups

open Std

namespace TlsProbe

section Oldest

variable {entries : List (ConnKey × PendingEntry)} {entry : ConnKey × PendingEntry}

theorem oldest_spec (h : oldest entries = some entry) :
    entry ∈ entries ∧ ∀ other ∈ entries, entry.2.2 ≤ other.2.2 := by
  cases entries
  case nil => contradiction
  case cons least rest =>
    obtain rfl := Option.some.inj h
    clear h
    induction rest generalizing least
    case nil => simp
    case cons entry rest hi =>
      rw [List.foldl_cons]
      obtain ⟨hm, hl⟩ := hi (if entry.2.2 < least.2.2 then entry else least)
      obtain ⟨hh, ht⟩ := List.forall_mem_cons.mp hl
      by_cases hlt : entry.2.2 < least.2.2
      case pos =>
        rw [if_pos hlt] at hm hh ht ⊢
        refine ⟨List.mem_cons_of_mem _ hm, ?_⟩
        simp only [List.forall_mem_cons]
        exact ⟨UInt64.le_trans hh (UInt64.le_of_lt hlt), hh, ht⟩
      case neg =>
        rw [if_neg hlt] at hm hh ht ⊢
        refine ⟨(List.mem_cons.mp hm).elim (by simp +contextual) fun h => by simp [h], ?_⟩
        simp only [List.forall_mem_cons]
        exact ⟨hh, UInt64.le_trans hh (UInt64.not_lt.mp hlt), ht⟩

theorem oldest_eq_none : oldest entries = none ↔ entries = [] := by
  cases entries <;> simp [oldest]

end Oldest

namespace Correlator

variable {c : Correlator} {k key : ConnKey} {iter : IterOrder} {ev : Event} {calls : List Event}
variable {maxEntries : Nat} {ttlNs nowNs : UInt64} {version : UInt16} {hello : ParsedClientHello}

section Bound

theorem mem_of_oldest {entry : ConnKey × PendingEntry}
    (h : oldest (iter.order c.pending.toList) = some entry) :
    c.pending[entry.1]? = some entry.2 ∧
      ∀ (k : ConnKey) other, c.pending[k]? = some other → entry.2.2 ≤ other.2 := by
  obtain ⟨hm, hl⟩ := oldest_spec h
  refine ⟨ExtTreeMap.mem_toList_iff_getElem?_eq_some.mp ((iter.perm _).mem_iff.mp hm), ?_⟩
  intro k other ho
  exact hl (k, other) <| (iter.perm _).mem_iff.mpr <|
    ExtTreeMap.mem_toList_iff_getElem?_eq_some.mpr ho

theorem mem_of_keyToEvict (h : k ∈ c.keyToEvict iter) : c.pending[k]? ≠ none := by
  simp only [keyToEvict] at h
  split at h
  case isFalse => contradiction
  case isTrue  =>
    obtain ⟨entry, he, rfl⟩ := Option.map_eq_some_iff.mp h
    simp [(mem_of_oldest he).1]

theorem oldest_of_full (iter : IterOrder) (h : 1 ≤ c.maxEntries)
    (hf : c.maxEntries ≤ c.pending.size) :
    ∃ entry, oldest (iter.order c.pending.toList) = some entry := by
  refine Option.ne_none_iff_exists'.mp fun hn => ?_
  have hl := (iter.perm c.pending.toList).length_eq
  rw [oldest_eq_none.mp hn, List.length_nil, ExtTreeMap.length_toList] at hl
  omega

theorem size_evictOldest (h : 1 ≤ c.maxEntries) (hs : c.pending.size ≤ c.maxEntries) :
    (c.evictOldest iter).pending.size < c.maxEntries := by
  simp only [evictOldest, keyToEvict]
  by_cases hf : c.maxEntries ≤ c.pending.size
  case neg =>
    rw [if_neg hf]
    exact Nat.not_le.mp hf
  case pos =>
    obtain ⟨entry, he⟩ := oldest_of_full iter h hf
    have hm : c.pending.contains entry.1 = true := by
      rw [ExtTreeMap.contains_eq_isSome_getElem?, (mem_of_oldest he).1]
      rfl
    simp only [if_pos hf, he, Option.map_some, ExtTreeMap.size_erase, if_pos hm]
    omega

theorem size_insert_of_mem {entry entry' : PendingEntry} (h : c.pending[k]? = some entry) :
    (c.pending.insert k entry').size = c.pending.size := by
  have hm : c.pending.contains k = true := by
    rw [ExtTreeMap.contains_eq_isSome_getElem?, h]
    rfl
  rw [ExtTreeMap.size_insert, if_pos hm]

theorem step_size (h : 1 ≤ c.maxEntries) (hs : c.pending.size ≤ c.maxEntries) :
    (machine.step c ev).1.pending.size ≤ c.maxEntries := by
  cases ev <;> simp only [machine]
  case clientHello key analysis nowNs iter =>
    cases analysis
    case serverHello => exact hs
    case clientHello version hello =>
      have : (c.evictOldest iter).pending.size < c.maxEntries := size_evictOldest h hs
      exact ExtTreeMap.size_insert_le.trans this
  case serverHello key analysis =>
    cases analysis
    case clientHello => exact hs
    case serverHello version hello =>
      simp only [onServerHello]
      cases hp : c.pending[key]?
      case none => exact hs
      case some entry =>
        cases hm : entry.1.mtlsRequested
        case false => simpa [hm] using ExtTreeMap.size_erase_le.trans hs
        case true  => simpa [hm, size_insert_of_mem hp] using hs
  case alert key level description =>
    simp only [onAlert]
    cases c.pending[key]?
    case none => exact hs
    case some => exact ExtTreeMap.size_erase_le.trans hs
  case certificateRequest key =>
    simp only [onCertificateRequest]
    cases hp : c.pending[key]?
    case none => exact hs
    case some => exact (size_insert_of_mem hp).trans_le hs
  case clientCertificate key =>
    simp only [onClientCertificate]
    cases hp : c.pending[key]?
    case none => exact hs
    case some entry =>
      cases hn : entry.1.postShNegotiation
      case none => simpa [hn, size_insert_of_mem hp] using hs
      case some => simpa [hn] using ExtTreeMap.size_erase_le.trans hs
  case sweep nowNs => exact ExtTreeMap.size_filter_le_size.trans hs

end Bound

section Frame

def empty (maxEntries : Nat) (ttlNs : UInt64) : Correlator where
  pending    := ∅
  maxEntries := maxEntries
  ttlNs      := ttlNs

-- The table keeps to its capacity, and a ClientHello for `key` leaves the entries of the other keys,
-- except that one of the oldest is removed when `key` has no entry yet and the table is full.
structure Frames (c : Correlator) (key : ConnKey) (version : UInt16) (hello : ParsedClientHello)
    (nowNs : UInt64) (iter : IterOrder) : Prop where
  bounded : c.pending.size ≤ c.maxEntries
  evicts  : c.pending[key]? = none → c.maxEntries ≤ c.pending.size →
    ∃ (victim : ConnKey) (entry : PendingEntry), c.pending[victim]? = some entry ∧
      (∀ (k : ConnKey) other, c.pending[k]? = some other → entry.2 ≤ other.2) ∧
      ∀ k : ConnKey, k ≠ key →
        (c.onClientHello key (.clientHello version hello) nowNs iter).1.pending[k]? =
          if k = victim then none else c.pending[k]?
  leaves  : ¬(c.pending[key]? = none ∧ c.maxEntries ≤ c.pending.size) → ∀ k : ConnKey, k ≠ key →
    (c.onClientHello key (.clientHello version hello) nowNs iter).1.pending[k]? = c.pending[k]?

theorem state_bounds : (machine.state c calls).maxEntries = c.maxEntries :=
  Machine.inv_reachable (P := fun c' : Correlator => c'.maxEntries = c.maxEntries)
    (fun _ _ h => step_bounds.1.trans h) rfl

theorem state_size (h : 1 ≤ maxEntries) :
    (machine.state (empty maxEntries ttlNs) calls).pending.size ≤ maxEntries := by
  refine (Machine.inv_reachable (P := fun c : Correlator =>
    c.maxEntries = maxEntries ∧ c.pending.size ≤ maxEntries) (fun c ev hc => ?_)
    ⟨rfl, by simp [empty]⟩).2
  obtain ⟨rfl, hs⟩ := hc
  exact ⟨step_bounds.1, step_size h hs⟩

theorem onClientHello_other (hk : k ≠ key) :
    (c.onClientHello key (.clientHello version hello) nowNs iter).1.pending[k]? =
      if c.keyToEvict iter = some k then none else c.pending[k]? := by
  simp [onClientHello, ExtTreeMap.getElem?_insert, Ne.symm hk, evictOldest_pending]

theorem keyToEvict_of_not_full (h : ¬c.maxEntries ≤ c.pending.size) :
    c.keyToEvict iter = none :=
  if_neg h

theorem keyToEvict_of_full {entry : ConnKey × PendingEntry} (h : c.maxEntries ≤ c.pending.size)
    (he : oldest (iter.order c.pending.toList) = some entry) :
    c.keyToEvict iter = some entry.1 := by
  rw [keyToEvict, if_pos h, he]
  rfl

-- The ClientHello of a pending connection leaves all others just when the table is not full or its
-- own entry is the one that `min_by_key` finds.
theorem frames_iff (h : 1 ≤ maxEntries) :
    (machine.state (empty maxEntries ttlNs) calls).Frames key version hello nowNs iter ↔
      ((machine.state (empty maxEntries ttlNs) calls).pending[key]? ≠ none →
        maxEntries ≤ (machine.state (empty maxEntries ttlNs) calls).pending.size →
          ∃ entry, oldest (iter.order
            (machine.state (empty maxEntries ttlNs) calls).pending.toList) = some (key, entry)) := by
  have hb : (machine.state (empty maxEntries ttlNs) calls).maxEntries = maxEntries := state_bounds
  have hs := @state_size calls maxEntries ttlNs h
  generalize machine.state (empty maxEntries ttlNs) calls = c at hb hs
  subst hb
  constructor
  case mp =>
    intro hf hk hfull
    obtain ⟨⟨victim, entry⟩, he⟩ := oldest_of_full iter h hfull
    by_cases hv : victim = key
    case pos => exact ⟨entry, hv ▸ he⟩
    case neg =>
      have hl := hf.leaves (fun hn => hk hn.1) victim hv
      rw [onClientHello_other hv, keyToEvict_of_full hfull he, if_pos rfl, (mem_of_oldest he).1] at hl
      contradiction
  case mpr =>
    intro hc
    refine ⟨hs, fun hk hfull => ?_, fun hn k hk => ?_⟩
    · obtain ⟨entry, he⟩ := oldest_of_full iter h hfull
      obtain ⟨hm, hl⟩ := mem_of_oldest he
      refine ⟨entry.1, entry.2, hm, hl, fun k hk => ?_⟩
      rw [onClientHello_other hk, keyToEvict_of_full hfull he]
      exact if_congr (by rw [Option.some.injEq, eq_comm]) rfl rfl
    · rw [onClientHello_other hk]
      by_cases hfull : c.maxEntries ≤ c.pending.size
      case neg => rw [keyToEvict_of_not_full hfull, if_neg nofun]
      case pos =>
        obtain ⟨entry, he⟩ := hc (fun hk => hn ⟨hk, hfull⟩) hfull
        rw [keyToEvict_of_full hfull he, if_neg fun hk' => hk (Option.some.inj hk').symm]

theorem frames_new : (machine.state (empty 1 0) []).Frames exampleKey 0x0303 exampleHello 0 .sorted :=
  (frames_iff (Nat.le_refl 1)).mpr fun hk => absurd rfl hk

def otherKey : ConnKey :=
  { exampleKey with srcPort := 12346 }

-- Two connections are pending in a table of two when the ClientHello of the second one is sent
-- again.
def fullTable : Correlator :=
  machine.state (empty 2 1) [exampleRecord, .clientHello otherKey (.clientHello 0x0303 exampleHello) 1
    .sorted]

theorem fullTable_not_frames : ¬fullTable.Frames otherKey 0x0303 exampleHello 2 .sorted := by
  intro h
  have hl := h.leaves (by decide +kernel) exampleKey (by decide)
  exact absurd hl (by decide +kernel)

end Frame

end Correlator
end TlsProbe
