import Mathlib.Data.List.Basic

-- Readers that work their way through an input of type `List β`. A reader gets the whole input and
-- the offset at which to read, and returns the offset behind what it has read.
def Reader (ε β α : Type) := List β → Nat → Except ε (α × Nat)

namespace Reader

variable {ε β α α' : Type}

instance : Monad (Reader ε β) where
  pure a := fun _ n => .ok (a, n)
  bind r f := fun l n =>
    match r l n with
    | .ok (a, m) => f a l m
    | .error e   => .error e

def slice (l : List β) (n k : Nat) (h : n + k ≤ l.length) : Vector β k :=
  ⟨((l.drop n).take k).toArray, by simp; omega⟩

-- Reads the next `k` elements, and fails with the error for the current offset if there are fewer.
def read (err : Nat → ε) (k : Nat) (f : Vector β k → α) : Reader ε β α := fun l n =>
  if h : n + k ≤ l.length then
    .ok (f (slice l n k h), n + k)
  else
    .error (err n)

variable {r : Reader ε β α} {f : α → Reader ε β α'} {l : List β} {n m k : Nat} {a : α} {b : α'}

theorem slice_getElem (d : β) {i : Nat} {h : n + k ≤ l.length} (hi : i < k) :
    (slice l n k h)[i] = l.getD (n + i) d := by
  simp [slice, List.getD, List.getElem?_eq_getElem (show n + i < l.length by omega)]

@[simp]
theorem slice_toList {h : n + k ≤ l.length} : (slice l n k h).toList = (l.drop n).take k :=
  rfl

theorem slice_append {h : n + k ≤ l.length} (x : List β) :
    slice (l ++ x) n k (by simp; omega) = slice l n k h := by
  apply Vector.toList_inj.mp
  rw [slice_toList, slice_toList, List.drop_append_of_le_length (by omega),
    List.take_append_of_le_length (by simp; omega)]

@[simp]
theorem pure_apply : (pure a : Reader ε β α) l n = .ok (a, n) :=
  rfl

theorem bind_eq_ok :
    (r >>= f) l n = .ok (b, m) ↔ ∃ a k, r l n = .ok (a, k) ∧ f a l k = .ok (b, m) := by
  simp only [bind]
  cases h : r l n
  case error   => simp
  case ok read => simp [Prod.ext_iff]

theorem read_eq_ok {err : Nat → ε} {g : Vector β k → α} :
    read err k g l n = .ok (a, m) ↔
      ∃ h : n + k ≤ l.length, g (slice l n k h) = a ∧ n + k = m := by
  unfold read
  split
  case isTrue h  => simp [h]
  case isFalse h => simp [h]

theorem read_bind_apply {err : Nat → ε} {g : Vector β k → α} :
    (read err k g >>= f) l n =
      if h : n + k ≤ l.length then f (g (slice l n k h)) l (n + k) else .error (err n) := by
  by_cases h : n + k ≤ l.length <;> simp only [bind, read, h, dif_pos, dif_neg, not_false_iff]

-- The reader succeeds on `l` from offset `n` on, and ends at offset `m`.
def EndsAt (r : Reader ε β α) (l : List β) (n m : Nat) : Prop :=
  ∃ a, r l n = .ok (a, m)

theorem pure_endsAt : (pure a : Reader ε β α).EndsAt l n m ↔ n = m := by
  simp [EndsAt]

theorem read_bind_endsAt {err : Nat → ε} {g : Vector β k → α} :
    (read err k g >>= f).EndsAt l n m ↔
      ∃ h : n + k ≤ l.length, (f <| g <| slice l n k h).EndsAt l (n + k) m := by
  simp only [EndsAt, bind_eq_ok, read_eq_ok]
  constructor
  case mp =>
    rintro ⟨b, _, _, ⟨h, rfl, rfl⟩, hb⟩
    exact ⟨h, b, hb⟩
  case mpr =>
    rintro ⟨h, b, hb⟩
    exact ⟨b, _, _, ⟨h, rfl, rfl⟩, hb⟩

-- What the reader has read does not depend on what follows it.
def Extends (r : Reader ε β α) : Prop :=
  ∀ l n a m, (r l n = .ok (a, m)) → ∀ x, r (l ++ x) n = .ok (a, m)

-- What the reader returns has the property `P`.
def Returns (P : α → Prop) (r : Reader ε β α) : Prop :=
  ∀ l n a m, (r l n = .ok (a, m)) → P a

-- The reader succeeds, and reads no more than `k` elements, when there are that many.
def Reaches (k : Nat) (r : Reader ε β α) : Prop :=
  ∀ l n, (n + k ≤ l.length) → ∃ a m, r l n = .ok (a, m) ∧ m ≤ n + k

-- The reader gets `a` from the elements `e`, wherever they stand, and stops right behind them.
def Reads (r : Reader ε β α) (e : List β) (a : α) : Prop :=
  ∀ l x, r (l ++ e ++ x) l.length = .ok (a, (l ++ e).length)

namespace Extends

theorem pure : Extends (Pure.pure a : Reader ε β α) :=
  fun _ _ _ _ h _ => h

theorem bind (hr : Extends r) (hf : ∀ a, Extends (f a)) : Extends (r >>= f) := by
  intro l n b m h x
  have ⟨a, k, h₁, h₂⟩ := bind_eq_ok.mp h
  exact bind_eq_ok.mpr ⟨a, k, hr l n a k h₁ x, hf a l k b m h₂ x⟩

theorem read {err : Nat → ε} {g : Vector β k → α} : Extends (read err k g) := by
  intro l n a m h x
  have ⟨hk, ha, hm⟩ := read_eq_ok.mp h
  have hx : n + k ≤ (l ++ x).length := by rw [List.length_append]; omega
  exact read_eq_ok.mpr ⟨hx, by rw [slice_append (h := hk), ha], hm⟩

end Extends

namespace Returns

variable {P : α → Prop} {Q : α' → Prop}

theorem pure (h : P a) : Returns P (Pure.pure a : Reader ε β α) := by
  intro l n a' m ha
  cases ha
  exact h

theorem bind (hf : ∀ a, Returns Q (f a)) : Returns Q (r >>= f) := by
  intro l n b m h
  obtain ⟨a, k, -, h⟩ := bind_eq_ok.mp h
  exact hf a l k b m h

end Returns

namespace Reaches

theorem pure : Reaches 0 (Pure.pure a : Reader ε β α) :=
  fun _ n _ => ⟨a, n, rfl, Nat.le_refl _⟩

theorem bind {j : Nat} (hr : Reaches k r) (hf : ∀ a, Reaches j (f a)) :
    Reaches (k + j) (r >>= f) := by
  intro l n h
  have ⟨a, m, h₁, hm⟩ := hr l n (by omega)
  have ⟨b, m', h₂, hm'⟩ := hf a l m (by omega)
  exact ⟨b, m', bind_eq_ok.mpr ⟨a, m, h₁, h₂⟩, by omega⟩

theorem read {err : Nat → ε} {g : Vector β k → α} : Reaches k (read err k g) :=
  fun _ _ h => ⟨_, _, read_eq_ok.mpr ⟨h, rfl, rfl⟩, Nat.le_refl _⟩

theorem mono {j : Nat} (hr : Reaches k r) (hk : k ≤ j) : Reaches j r := by
  intro l n h
  have ⟨a, m, h₁, hm⟩ := hr l n (by omega)
  exact ⟨a, m, h₁, by omega⟩

end Reaches

namespace Reads

variable {e e' : List β}

theorem pure : Reads (Pure.pure a : Reader ε β α) [] a := by
  intro l x
  simp

theorem bind (hr : Reads r e a) (hf : Reads (f a) e' b) : Reads (r >>= f) (e ++ e') b := by
  intro l x
  have h₁ := hr l (e' ++ x)
  have h₂ := hf (l ++ e) x
  simp only [List.append_assoc] at h₁ h₂ ⊢
  exact bind_eq_ok.mpr ⟨a, _, h₁, h₂⟩

theorem read {err : Nat → ε} {g : Vector β k → α} (v : Vector β k) :
    Reads (read err k g) v.toList (g v) := by
  intro l x
  have hl : v.toList.length = k := by simp
  have hk : l.length + k ≤ (l ++ v.toList ++ x).length := by simp
  refine read_eq_ok.mpr ⟨hk, ?_, by rw [List.length_append, hl]⟩
  congr
  apply Vector.toList_inj.mp
  rw [slice_toList, List.append_assoc, List.drop_left, List.take_left' hl]

end Reads

end Reader
