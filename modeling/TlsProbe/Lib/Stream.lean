import Mathlib.Data.Nat.Cast.Basic
import Mathlib.Data.List.Infix

-- Byte streams over a space `α` of positions, which may wrap around, and the segments of a stream
-- that a partial map `m` holds at the positions where they start.
namespace Stream

variable {α β : Type*} [AddCommMonoidWithOne α]

-- `l` is what the stream `s` carries from position `p` on.
def IsSlice (s : α → β) (p : α) (l : List β) : Prop :=
  ∀ i (h : i < l.length), l[i] = s (p + i)

instance [DecidableEq β] {s : α → β} {p : α} {l : List β} : Decidable (IsSlice s p l) :=
  inferInstanceAs <| Decidable <| ∀ i (h : i < l.length), l[i] = s (p + i)

namespace IsSlice

variable {s : α → β} {p : α} {l l₁ l₂ : List β}

theorem nil : IsSlice s p [] :=
  fun _ h => absurd h (Nat.not_lt_zero _)

theorem append (h₁ : IsSlice s p l₁) (h₂ : IsSlice s (p + l₁.length) l₂) :
    IsSlice s p (l₁ ++ l₂) := by
  intro i hi
  by_cases h : i < l₁.length
  case pos => rw [List.getElem_append_left h, h₁ i h]
  case neg =>
    have hi' : i = l₁.length + (i - l₁.length) := by omega
    rw [List.getElem_append_right (by omega), h₂, add_assoc, ←Nat.cast_add, ←hi']

theorem take (h : IsSlice s p l) (n : Nat) : IsSlice s p (l.take n) := by
  intro i hi
  rw [List.getElem_take, h i]

theorem unique (h₁ : IsSlice s p l₁) (h₂ : IsSlice s p l₂) (h : l₁.length = l₂.length) : l₁ = l₂ :=
  List.ext_getElem h fun i hi₁ hi₂ => by rw [h₁ i hi₁, h₂ i hi₂]

end IsSlice

-- Some segment that `m` holds reaches over position `p`.
def Held (m : α → Option (List β)) (p : α) : Prop :=
  ∃ q l, m q = some l ∧ ∃ i < l.length, p = q + i

-- `m` holds all of the `n` positions from `p` on.
def Covers (m : α → Option (List β)) (p : α) (n : Nat) : Prop :=
  ∀ i < n, Held m (p + i)

theorem Covers.mono {m : α → Option (List β)} {p : α} {n k : Nat} (h : Covers m p n) (hk : k ≤ n) :
    Covers m p k :=
  fun i hi => h i (hi.trans_le hk)

-- The segments of `m` that adjoin each other from `p` on, up to some point.
inductive Chain (m : α → Option (List β)) : α → List β → Prop
  | nil  : Chain m p []
  | cons : (m p = some l) → (Chain m (p + l.length) l') → Chain m p (l ++ l')

namespace Chain

variable {m : α → Option (List β)} {p : α} {l l' : List β}

theorem append (h : Chain m p l) (h' : Chain m (p + l.length) l') : Chain m p (l ++ l') := by
  induction h
  case nil => simpa using h'
  case cons hm _ hi =>
    rw [List.append_assoc]
    refine .cons hm <| hi ?_
    rwa [List.length_append, Nat.cast_add, ←add_assoc] at h'

theorem snoc (h : Chain m p l) (hm : m (p + l.length) = some l') : Chain m p (l ++ l') := by
  refine h.append ?_
  have := Chain.cons hm .nil
  rwa [List.append_nil] at this

theorem covers (h : Chain m p l) : Covers m p l.length := by
  induction h
  case nil => exact fun _ h => absurd h (Nat.not_lt_zero _)
  case cons q l₁ l₂ hm _ hi =>
    intro i h
    by_cases hl : i < l₁.length
    case pos => exact ⟨q, l₁, hm, i, hl, rfl⟩
    case neg =>
      have hi' : i = l₁.length + (i - l₁.length) := by omega
      rw [List.length_append] at h
      rw [hi', Nat.cast_add, ←add_assoc]
      exact hi _ (by omega)

theorem isSlice {s : α → β} (hs : ∀ q l, m q = some l → IsSlice s q l) (h : Chain m p l) :
    IsSlice s p l := by
  induction h
  case nil           => exact .nil
  case cons hm _ hi  => exact (hs _ _ hm).append hi

end Chain

-- The chain from `p` that cannot be continued: it ends where `m` holds nothing, or an empty
-- segment.
inductive Run (m : α → Option (List β)) : α → List β → Prop
  | stop  : (m p = none) → Run m p []
  | empty : (m p = some []) → Run m p []
  | cons  : (m p = some l) → (l ≠ []) → (Run m (p + l.length) l') → Run m p (l ++ l')

namespace Run

variable {m : α → Option (List β)} {p : α} {l l' : List β}

theorem chain (h : Run m p l) : Chain m p l := by
  induction h
  case cons hm _ _ hi => exact .cons hm hi
  all_goals exact .nil

theorem unique (h : Run m p l) (h' : Run m p l') : l = l' := by
  induction h generalizing l' <;> cases h'
  case cons.cons hm _ _ hi _ _ _ hm' hr =>
    cases hm.symm.trans hm'
    rw [hi hr]
  all_goals simp_all

-- A run goes as far as any chain does.
theorem prefix_of_chain (h : Run m p l) (h' : Chain m p l') : l' <+: l := by
  induction h' generalizing l
  case nil => exact List.nil_prefix
  case cons l₁ _ hm _ hi =>
    cases h
    case stop hp => simp [hp] at hm
    case empty hp =>
      cases hm.symm.trans hp
      exact hi <| by simpa using Run.empty hp
    case cons hp hr =>
      cases hm.symm.trans hp
      exact List.prefix_append_right_inj l₁ |>.mpr <| hi hr

-- Moving all segments by `d` moves the chain along.
theorem translate {m' : α → Option (List β)} {d : α} (hm : ∀ q, m' (q + d) = m q) (h : Run m p l) :
    Run m' (p + d) l := by
  induction h
  case stop hp  => exact .stop ((hm _).trans hp)
  case empty hp => exact .empty ((hm _).trans hp)
  case cons hp hn _ hi =>
    refine .cons ((hm _).trans hp) hn ?_
    rwa [add_right_comm]

end Run
end Stream
