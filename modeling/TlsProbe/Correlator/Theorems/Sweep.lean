import TlsProbe.Correlator.Theorems.Capacity

open Std

namespace TlsProbe.Correlator

variable {c : Correlator} {k : ConnKey} {nowNs : UInt64} {entry : PendingEntry}
variable {f : PendingEntry → Bool}

-- A subtraction in a build with overflow checks.
def checkedSub (a b : UInt64) : Option UInt64 :=
  if b ≤ a then some (a - b) else none

-- The closure that `sweep_expired` passes to `retain` in such a build.
def retains? (c : Correlator) (nowNs : UInt64) (entry : PendingEntry) : Option Bool :=
  (checkedSub nowNs entry.2).map fun age => age < c.ttlNs

-- `sweep_expired` in such a build, which panics when the closure does for one of the entries.
def sweepExpired? (c : Correlator) (nowNs : UInt64) : Option (Correlator × Nat) :=
  if c.pending.toList.all fun (_, entry) => (c.retains? nowNs entry).isSome then
    let pending := c.pending.filter fun _ entry => c.retains? nowNs entry = some true
    some ({ c with pending := pending }, c.pending.size - pending.size)
  else
    none

def expired (c : Correlator) (nowNs : UInt64) (entry : PendingEntry) : Bool :=
  entry.2 ≤ nowNs ∧ c.ttlNs ≤ nowNs - entry.2

-- The expired entries are removed and counted, and the others are left.
structure Sweeps (c : Correlator) (nowNs : UInt64) (result : Correlator × Nat) : Prop where
  pending : ∀ k : ConnKey, result.1.pending[k]? = c.pending[k]?.filter (!c.expired nowNs ·)
  removed : result.2 = c.pending.toList.countP fun (_, entry) => c.expired nowNs entry

-- No entry is stamped later than the sweep.
def Past (c : Correlator) (nowNs : UInt64) : Prop :=
  ∀ (k : ConnKey) entry, c.pending[k]? = some entry → entry.2 ≤ nowNs

theorem size_sub_filter : c.pending.size - (c.pending.filter fun _ entry => f entry).size =
    c.pending.toList.countP fun e => !f e.2 := by
  rw [←ExtTreeMap.length_toList, ←ExtTreeMap.length_toList, ExtTreeMap.toList_filter,
    ←List.countP_eq_length_filter,
    List.length_eq_countP_add_countP (l := c.pending.toList) fun e => f e.2,
    Nat.add_sub_cancel_left]
  simp

theorem not_lt_ttlNs (h : entry.2 ≤ nowNs) :
    decide (nowNs - entry.2 < c.ttlNs) = !c.expired nowNs entry := by
  simp [expired, h, ←UInt64.not_lt]

-- What a retention that agrees with the expiry of the entries that are there makes of the table.
theorem sweeps_filter (h : ∀ (k : ConnKey) entry, c.pending[k]? = some entry →
      f entry = !c.expired nowNs entry) :
    c.Sweeps nowNs ({ c with pending := c.pending.filter fun _ entry => f entry },
      c.pending.size - (c.pending.filter fun _ entry => f entry).size) where
  pending k := by
    have hf : (c.pending.filter fun _ entry => f entry)[k]? = c.pending[k]?.filter f := by
      simp [ExtTreeMap.getElem?_filter]
    rw [hf]
    cases he : c.pending[k]?
    case none       => rfl
    case some entry => simp [Option.filter, h k entry he]
  removed := by
    rw [size_sub_filter]
    refine List.countP_congr fun e he => ?_
    rw [h e.1 e.2 (ExtTreeMap.mem_toList_iff_getElem?_eq_some.mp he), Bool.not_not]

theorem sweeps_of_past (h : c.Past nowNs) : c.Sweeps nowNs (c.sweepExpired nowNs) :=
  sweeps_filter fun k entry he => not_lt_ttlNs (h k entry he)

theorem retains?_of_le (h : entry.2 ≤ nowNs) :
    c.retains? nowNs entry = some (!c.expired nowNs entry) := by
  rw [retains?, checkedSub, if_pos h, Option.map_some, not_lt_ttlNs h]

theorem retains?_isSome : (c.retains? nowNs entry).isSome ↔ entry.2 ≤ nowNs := by
  rw [retains?, checkedSub, Option.isSome_map]
  split
  case isTrue h  => simp [h]
  case isFalse h => simp [h]

theorem past_iff : c.Past nowNs ↔
    c.pending.toList.all fun (_, entry) => (c.retains? nowNs entry).isSome := by
  simp only [List.all_eq_true, retains?_isSome, Prod.forall,
    ExtTreeMap.mem_toList_iff_getElem?_eq_some, Past]

-- A sweep does not underflow, and is exact, just when no entry is from the future.
theorem sweep_exact_iff : (∃ result ∈ c.sweepExpired? nowNs, c.Sweeps nowNs result) ∧
    c.Sweeps nowNs (c.sweepExpired nowNs) ↔ c.Past nowNs := by
  constructor
  case mp =>
    rintro ⟨⟨result, hr, _⟩, _⟩
    rw [sweepExpired?, Option.mem_def, Option.ite_none_right_eq_some] at hr
    exact past_iff.mpr hr.1
  case mpr =>
    intro h
    refine ⟨⟨_, if_pos (past_iff.mp h), ?_⟩, sweeps_of_past h⟩
    exact sweeps_filter fun k entry he => by simp [retains?_of_le (h k entry he)]

-- Without overflow checks an entry from the future is removed unless it is very far ahead.
theorem future_swept_iff (he : c.pending[k]? = some entry) (h : nowNs < entry.2) :
    (c.sweepExpired nowNs).1.pending[k]? = none ↔
      c.ttlNs.toNat + (entry.2.toNat - nowNs.toNat) ≤ 2 ^ 64 := by
  have ha : (nowNs - entry.2).toNat = 2 ^ 64 - (entry.2.toNat - nowNs.toNat) := by
    have := entry.2.toNat_lt
    have := UInt64.lt_iff_toNat_lt.mp h
    rw [UInt64.toNat_sub]
    omega
  have := entry.2.toNat_lt
  rw [sweepExpired_pending, he, Option.filter_eq_none_iff]
  simp only [Option.some.injEq, forall_eq', decide_eq_true_eq, UInt64.lt_iff_toNat_lt, ha]
  omega

-- The clock has been set back by a nanosecond.
theorem setBack_not_exact : ¬∀ c nowNs, (∃ result ∈ sweepExpired? c nowNs, c.Sweeps nowNs result) ∧
    c.Sweeps nowNs (c.sweepExpired nowNs) := by
  intro h
  obtain ⟨⟨result, hr, _⟩, _⟩ := h
    (machine.state new [.clientHello exampleKey (.clientHello 0x0303 exampleHello) 100 .sorted]) 99
  have hn : sweepExpired? (machine.state new
      [.clientHello exampleKey (.clientHello 0x0303 exampleHello) 100 .sorted]) 99 = none :=
    if_neg (by decide +kernel)
  rw [hn] at hr
  contradiction

end TlsProbe.Correlator
