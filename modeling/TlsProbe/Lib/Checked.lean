import Mathlib.Data.List.Basic

-- What ends a program over lists in which each index and each slice is checked, and in which a loop
-- may only take so many turns.
inductive Fault
  | outOfBounds
  | outOfFuel
  deriving DecidableEq, Repr

abbrev Checked := Except Fault

-- A turn of a loop either leads to the next one or ends the loop.
inductive Turn (σ ρ : Type)
  | next (s : σ)
  | done (result : ρ)

namespace Checked

variable {α β σ ρ : Type}

-- `l[i]`
def index (l : List β) (i : Nat) : Checked β :=
  match l[i]? with
  | some b => .ok b
  | none   => .error .outOfBounds

-- `l[i..j]`
def slice (l : List β) (i j : Nat) : Checked (List β) :=
  if i ≤ j ∧ j ≤ l.length then .ok ((l.take j).drop i) else .error .outOfBounds

def loop (body : σ → Checked (Turn σ ρ)) : Nat → σ → Checked ρ
  | 0,        _ => .error .outOfFuel
  | fuel + 1, s => do
    match ← body s with
    | .next s      => loop body fuel s
    | .done result => return result

@[simp]
theorem ok_bind {a : α} {f : α → Checked β} : (.ok a : Checked α) >>= f = f a :=
  rfl

-- A checked step of a computation that may fail otherwise.
theorem run_lift_bind {ε : Type} {x : Checked α} {a : α} {f : α → ExceptT ε Checked β}
    (h : x = .ok a) : ((liftM x : ExceptT ε Checked α) >>= f).run = (f a).run := by
  rw [h]
  rfl

theorem run_bind_ok {ε : Type} {x : ExceptT ε Checked α} {a : α} {f : α → ExceptT ε Checked β}
    (h : x.run = .ok (.ok a)) : (x >>= f).run = (f a).run := by
  rw [ExceptT.run_bind, h]
  rfl

theorem run_bind_error {ε : Type} {x : ExceptT ε Checked α} {e : ε}
    {f : α → ExceptT ε Checked β} (h : x.run = .ok (.error e)) :
    (x >>= f).run = .ok (.error e) := by
  rw [ExceptT.run_bind, h]
  rfl

theorem foldlM_ok {f : σ → α → Checked σ} {g : σ → α → σ} {l : List α}
    (h : ∀ s, ∀ a ∈ l, f s a = .ok (g s a)) (s : σ) : l.foldlM f s = .ok (l.foldl g s) := by
  induction l generalizing s
  case nil => rfl
  case cons a l hi =>
    obtain ⟨ha, hl⟩ := forall_and.mp fun s => List.forall_mem_cons.mp (h s)
    rw [List.foldlM_cons, ha, ok_bind, hi hl, List.foldl_cons]

section Access

variable {l l' : List β} {i j k : Nat} {b : β}

theorem index_drop : index (l.drop j) i = index l (j + i) := by
  rw [index, index, List.getElem?_drop]

theorem index_take (h : i < k) : index (l.take k) i = index l i := by
  rw [index, index, List.getElem?_take_of_lt h]

theorem index_zero : index (b :: l) 0 = .ok b :=
  rfl

-- The element at an offset is the first one of what stands there.
theorem index_of_drop (h : l.drop i = b :: l') : index l i = .ok b := by
  rw [←Nat.add_zero i, ←index_drop, h, index_zero]

theorem drop_of_drop (h : l.drop i = b :: l') : l.drop (i + 1) = l' := by
  rw [←List.drop_drop, h, List.drop_one, List.tail_cons]

theorem drop_of_lt (h : i < l.length) : ∃ b, l.drop i = b :: l.drop (i + 1) :=
  ⟨l[i], List.drop_eq_getElem_cons h⟩

theorem slice_ok (hi : i ≤ j) (hj : j ≤ l.length) : slice l i j = .ok ((l.drop i).take (j - i)) := by
  rw [slice, if_pos ⟨hi, hj⟩, List.drop_take]

theorem slice_add (h : i + k ≤ l.length) : slice l i (i + k) = .ok ((l.drop i).take k) := by
  rw [slice_ok (Nat.le_add_right i k) h, Nat.add_sub_cancel_left]

end Access

section Loop

variable {body : σ → Checked (Turn σ ρ)} {fuel : Nat} {s t : σ} {result : ρ}

theorem loop_next (h : body s = .ok (.next t)) : loop body (fuel + 1) s = loop body fuel t := by
  rw [loop, h]
  rfl

theorem loop_done (h : body s = .ok (.done result)) : loop body (fuel + 1) s = .ok result := by
  rw [loop, h]
  rfl

-- Each turn leads to a state of the same value that is closer to the end, or ends with the value.
theorem loop_value {value : σ → ρ} (measure : σ → Nat)
    (h : ∀ s, body s = .ok (.done (value s)) ∨
      ∃ t, body s = .ok (.next t) ∧ measure t < measure s ∧ value t = value s)
    (hf : measure s < fuel) : loop body fuel s = .ok (value s) := by
  induction fuel generalizing s
  case zero => contradiction
  case succ fuel hi =>
    obtain hd | ⟨t, hn, hm, hv⟩ := h s
    · exact loop_done hd
    · rw [loop_next hn, hi (by omega), hv]

-- A loop that collects elements while an offset moves on: from the offset `i`, they are `f i`.
theorem loop_collect {body : Nat × List α → Checked (Turn (Nat × List α) (List α))}
    {f : Nat → List α} (bound : Nat)
    (h : ∀ i acc, (body (i, acc) = .ok (.done acc) ∧ f i = []) ∨
      ∃ a j, body (i, acc) = .ok (.next (j, acc ++ [a])) ∧ f i = a :: f j ∧ i < j ∧ i < bound)
    (hf : bound < fuel) (i : Nat) : loop body fuel (i, []) = .ok (f i) := by
  let value (s : Nat × List α) := s.2 ++ f s.1
  have hv : value (i, []) = f i := List.nil_append _
  rw [←hv]
  refine loop_value (fun s => bound - s.1) ?_ (by simp only; omega)
  rintro ⟨i, acc⟩
  obtain ⟨hb, hn⟩ | ⟨a, j, hb, hc, hj, hi⟩ := h i acc
  · exact .inl (by rw [hb]; simp [value, hn])
  · exact .inr ⟨_, hb, by simp only; omega, by simp [value, hc]⟩

end Loop

end Checked
