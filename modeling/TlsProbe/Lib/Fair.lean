import Mathlib.Order.RelClasses
import TlsProbe.Lib.Machine

namespace Machine

variable {σ ι ω : Type*} (m : Machine σ ι ω)

-- The states of a run that does not end.
def path (s : σ) (is : Nat → ι) : Nat → σ
  | 0     => s
  | n + 1 => (m.step (path s is n) (is n)).1

variable {m} {s : σ} {is : Nat → ι} {n k : Nat}

theorem path_add : m.path s is (n + k) = m.path (m.path s is n) (fun i => is (n + i)) k := by
  induction k
  case zero      => rfl
  case succ k hi => rw [path, ←hi]; rfl

theorem inv_path {P : σ → Prop} {C : ι → Prop} (hp : ∀ s i, P s → C i → P (m.step s i).1)
    (hs : P s) (hc : ∀ n, C (is n)) : P (m.path s is n) := by
  induction n
  case zero      => exact hs
  case succ n hi => exact hp _ _ hi (hc n)

-- In a fair run each of the parties `κ` makes a step again and again.
def Fair {κ : Type*} (party : ι → Option κ) (is : Nat → ι) : Prop :=
  ∀ p n, ∃ k, n ≤ k ∧ party (is k) = some p

theorem Fair.shift {κ : Type*} {party : ι → Option κ} (h : Fair party is) (n : Nat) :
    Fair party fun i => is (n + i) := by
  intro p k
  obtain ⟨j, hj, hp⟩ := h p (n + k)
  refine ⟨j - n, by omega, ?_⟩
  have hn : n + (j - n) = j := by omega
  simp only [hn, hp]

section Progress

variable {κ β : Type*} [Preorder β] {party : ι → Option κ} {μ : σ → β} {helper : σ → κ}
variable {P goal : σ → Prop} {C : ι → Prop}

-- Up to the goal, each step of the helpful party makes the measure smaller, and no step makes it
-- larger. As long as it is the same, so is the party that helps.
structure Progress (m : Machine σ ι ω) (party : ι → Option κ) (μ : σ → β) (helper : σ → κ)
    (P goal : σ → Prop) (C : ι → Prop) : Prop where
  inv   : ∀ s i, P s → C i → P (m.step s i).1
  keeps : ∀ s i, P s → C i → ¬goal s → μ (m.step s i).1 < μ s ∨
    (μ (m.step s i).1 = μ s ∧ helper (m.step s i).1 = helper s)
  helps : ∀ s i, P s → C i → ¬goal s → party i = some (helper s) → μ (m.step s i).1 < μ s

theorem Progress.decreases (h : m.Progress party μ helper P goal C) (hs : P s) (hc : ∀ n, C (is n))
    (hf : Fair party is) (hg : ∀ n, ¬goal (m.path s is n)) : ∃ n, μ (m.path s is n) < μ s := by
  obtain ⟨k, -, hk⟩ := hf (helper s) 0
  by_contra hn
  -- The measure stays the same, and so does the party that helps.
  have hi : ∀ n, μ (m.path s is n) = μ s ∧ helper (m.path s is n) = helper s := by
    intro n
    induction n
    case zero => exact ⟨rfl, rfl⟩
    case succ n hi =>
      obtain hd | hd := h.keeps _ (is n) (inv_path h.inv hs hc) (hc n) (hg n)
      case inl => exact absurd ⟨n + 1, by rwa [hi.1] at hd⟩ hn
      case inr => exact ⟨hd.1.trans hi.1, hd.2.trans hi.2⟩
  have hd := h.helps _ (is k) (inv_path h.inv hs hc) (hc k) (hg k) (by rw [hk, (hi k).2])
  exact hn ⟨k + 1, by rwa [(hi k).1] at hd⟩

-- A fair run gets to the goal.
theorem Progress.reaches [WellFoundedLT β] (h : m.Progress party μ helper P goal C) (hs : P s)
    (hc : ∀ n, C (is n)) (hf : Fair party is) : ∃ n, goal (m.path s is n) := by
  induction hb : μ s using WellFoundedLT.induction generalizing s is
  case ind b hi =>
    by_contra hg
    obtain ⟨n, hn⟩ := h.decreases hs hc hf (not_exists.mp hg)
    obtain ⟨k, hk⟩ := hi _ (hb ▸ hn) (inv_path h.inv hs hc) (fun k => hc (n + k)) (hf.shift n) rfl
    exact hg ⟨n + k, by rwa [path_add]⟩

end Progress

end Machine
