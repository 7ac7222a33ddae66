import Mathlib.Algebra.BigOperators.Group.List.Basic
import Mathlib.Algebra.Ring.Nat

-- A countdown with two budgets: it ends with the amount that brings the sum of all amounts to the
-- first budget, or with an amount that comes when the second, their number, is used up.
structure Countdown where
  sum    : Nat
  number : Nat
  deriving DecidableEq

namespace Countdown

def next (c : Countdown) (n : Nat) : Option Countdown :=
  if c.sum ≤ n ∨ c.number = 0 then none else some ⟨c.sum - n, c.number - 1⟩

def run (c : Option Countdown) : List Nat → Option Countdown
  | []      => c
  | n :: ns => run (c.bind (·.next n)) ns

variable {c : Countdown} {n : Nat} {ns : List Nat}

@[simp]
theorem run_none : run none ns = none := by
  induction ns
  case nil         => rfl
  case cons _ _ hi => exact hi

theorem run_append {o : Option Countdown} {ms : List Nat} :
    run o (ms ++ ns) = run (run o ms) ns := by
  induction ms generalizing o
  case nil         => rfl
  case cons _ _ hi => exact hi

theorem next_eq_none : c.next n = none ↔ c.sum ≤ n ∨ c.number = 0 := by
  simp only [next, ite_eq_left_iff, reduceCtorEq, imp_false, not_not]

theorem next_eq_some {d : Countdown} : c.next n = some d ↔
    n < c.sum ∧ 0 < c.number ∧ d = ⟨c.sum - n, c.number - 1⟩ := by
  simp only [next, Option.ite_none_left_eq_some, Option.some.injEq]
  grind

theorem run_eq_some {d : Countdown} (h : 0 < c.sum) : run (some c) ns = some d ↔
    ns.sum < c.sum ∧ ns.length ≤ c.number ∧ d = ⟨c.sum - ns.sum, c.number - ns.length⟩ := by
  induction ns generalizing c
  case nil =>
    rw [run, Option.some.injEq, eq_comm]
    exact ⟨fun hd => ⟨h, Nat.zero_le _, hd⟩, fun hd => hd.2.2⟩
  case cons n ns hi =>
    rw [run, Option.bind_some, List.sum_cons, List.length_cons]
    cases hn : c.next n
    case none =>
      have := next_eq_none.mp hn
      rw [run_none]
      refine iff_of_false nofun ?_
      omega
    case some c' =>
      obtain ⟨hs, hk, rfl⟩ := next_eq_some.mp hn
      rw [hi (Nat.sub_pos_of_lt hs)]
      have ha : ns.sum < c.sum - n ↔ n + ns.sum < c.sum := by omega
      have hb : ns.length ≤ c.number - 1 ↔ ns.length + 1 ≤ c.number := by omega
      rw [ha, hb, Nat.sub_sub, Nat.sub_sub, Nat.add_comm 1]

theorem run_isSome (h : 0 < c.sum) :
    (run (some c) ns).isSome ↔ ns.sum < c.sum ∧ ns.length ≤ c.number := by
  rw [Option.isSome_iff_exists]
  constructor
  case mp =>
    rintro ⟨d, hd⟩
    obtain ⟨hs, hn, -⟩ := (run_eq_some h).mp hd
    exact ⟨hs, hn⟩
  case mpr =>
    rintro ⟨hs, hn⟩
    exact ⟨_, (run_eq_some h).mpr ⟨hs, hn, rfl⟩⟩

end Countdown
