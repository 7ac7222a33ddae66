import Mathlib.Data.List.Basic

-- A channel for at most `capacity` values, which are received in the order in which they are sent.
structure Channel (α : Type*) (capacity : Nat) where
  queue   : List α
  bounded : queue.length ≤ capacity

namespace Channel

variable {α : Type*} {capacity : Nat}

def empty : Channel α capacity where
  queue   := []
  bounded := Nat.zero_le _

def isFull (c : Channel α capacity) : Bool :=
  capacity ≤ c.queue.length

theorem length_concat_le {c : Channel α capacity} (h : ¬c.isFull) (a : α) :
    (c.queue ++ [a]).length ≤ capacity := by
  simp only [isFull, decide_eq_true_eq] at h
  simp only [List.length_append, List.length_singleton]
  omega

theorem length_tail_le (c : Channel α capacity) : c.queue.tail.length ≤ capacity := by
  have := c.bounded
  rw [List.length_tail]
  omega

-- There is no room in a channel that is full.
def trySend (c : Channel α capacity) (a : α) : Option (Channel α capacity) :=
  if h : c.isFull then none else some ⟨c.queue ++ [a], length_concat_le h a⟩

-- The value that has been in the channel for the longest time.
def tryRecv (c : Channel α capacity) : Option (α × Channel α capacity) :=
  c.queue.head?.map fun a => (a, ⟨c.queue.tail, c.length_tail_le⟩)

variable {c c' : Channel α capacity} {a : α}

theorem trySend_eq_some (h : c.trySend a = some c') : c'.queue = c.queue ++ [a] ∧ ¬c.isFull := by
  unfold trySend at h
  split at h
  case isTrue    => contradiction
  case isFalse n => exact ⟨by rw [←Option.some.inj h], n⟩

theorem trySend_eq_none : c.trySend a = none ↔ c.isFull := by
  simp [trySend]

theorem tryRecv_eq_some (h : c.tryRecv = some (a, c')) : c.queue = a :: c'.queue := by
  obtain ⟨b, hb, he⟩ := Option.map_eq_some_iff.mp h
  obtain ⟨rfl, rfl⟩ := Prod.mk.inj he
  exact (List.cons_head?_tail hb).symm

theorem tryRecv_eq_none : c.tryRecv = none ↔ c.queue = [] := by
  simp [tryRecv]

end Channel
