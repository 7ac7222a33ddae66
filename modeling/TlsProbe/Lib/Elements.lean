import Mathlib.Data.List.Basic

-- Lists of elements in bytes, of which the number is declared. An element may take any number of
-- bytes, and its value may only depend on the first `width` of them.
structure Elements (β α : Type) where
  size     : List β → Option Nat
  value    : List β → α
  width    : Nat → Nat
  size_pos : ∀ {l k}, size l = some k → 0 < k

namespace Elements

variable {β α : Type} {E : Elements β α} {l l' : List β} {n k : Nat}

-- Reads elements as long as one starts within the declared `n` bytes and is all there. That it ends
-- within them is not tested.
def list (E : Elements β α) (n : Nat) (l : List β) : List α :=
  match _ : E.size l with
  | some k => if 0 < n then E.value l :: E.list (n - k) (l.drop k) else []
  | none   => []
termination_by n
decreasing_by
  have := E.size_pos ‹_›
  omega

-- Walking along the sizes, one gets to an element of which the value reaches over the end.
inductive Overruns (E : Elements β α) : Nat → List β → Prop
  | here {n k : Nat} {l : List β} :
    E.size l = some k → 0 < n → n < E.width k → Overruns E n l
  | next {n k : Nat} {l : List β} :
    E.size l = some k → k ≤ n → Overruns E (n - k) (l.drop k) → Overruns E n l

-- The bytes differ in no more than what comes behind the first `n`.
def Agree (n : Nat) (l l' : List β) : Prop :=
  l'.length = l.length ∧ l'.take n = l.take n

-- No byte behind the declared ones makes a difference.
def Confined (E : Elements β α) (n : Nat) (l : List β) : Prop :=
  ∀ l', Agree n l l' → E.list n l' = E.list n l

-- What sizes and values depend on: an element that ends within the first `n` bytes is of the same
-- size whatever follows them, and just the bytes within its width make its value.
structure Lawful (E : Elements β α) : Prop where
  size  : ∀ {n l l'}, Agree n l l' → 0 < n → E.size l' = E.size l ∨
    ∃ k k', E.size l = some k ∧ E.size l' = some k' ∧ n < k ∧ n < k'
  value : ∀ {k l l'}, E.size l = some k → Agree (E.width k) l l' → E.value l' = E.value l
  reads : ∀ {n k l}, E.size l = some k → 0 < n → n < E.width k →
    ∃ l', Agree n l l' ∧ E.value l' ≠ E.value l

namespace Agree

theorem mono (h : Agree n l l') (hk : k ≤ n) : Agree k l l' := by
  refine ⟨h.1, ?_⟩
  have := congrArg (List.take k) h.2
  rwa [List.take_take, List.take_take, Nat.min_eq_left hk] at this

theorem drop (h : Agree n l l') (k : Nat) : Agree (n - k) (l.drop k) (l'.drop k) := by
  refine ⟨by rw [List.length_drop, List.length_drop, h.1], ?_⟩
  rw [List.take_drop, List.take_drop]
  by_cases hk : k ≤ n
  case pos => rw [Nat.add_sub_cancel' hk, h.2]
  case neg =>
    rw [List.drop_eq_nil_of_le (by rw [List.length_take]; omega),
      List.drop_eq_nil_of_le (by rw [List.length_take]; omega)]

-- A change behind some first bytes is a change of all of them.
theorem append (h : Agree (n - k) (l.drop k) l') (hk : k ≤ n) (hl : k ≤ l.length) :
    Agree n l (l.take k ++ l') := by
  have hk' : (l.take k).length = k := by rw [List.length_take, Nat.min_eq_left hl]
  have hd : (l.drop k).length = l.length - k := List.length_drop
  refine ⟨by rw [List.length_append, h.1, hk', hd]; omega, ?_⟩
  rw [List.take_append, hk', h.2, List.take_take, Nat.min_eq_right hk, ←List.take_add,
    Nat.add_sub_cancel' hk]

theorem cons {b : β} (h : Agree n (b :: l) l') (hn : 0 < n) :
    ∃ rest, l' = b :: rest ∧ Agree (n - 1) l rest := by
  obtain ⟨n, rfl⟩ := Nat.exists_eq_add_of_le' hn
  cases l'
  case nil => simp [Agree] at h
  case cons c rest =>
    obtain ⟨hl, ht⟩ := h
    simp only [List.take_succ_cons, List.cons.injEq, List.length_cons] at hl ht
    exact ⟨rest, by rw [ht.1], by omega, ht.2⟩

theorem eq_of_length_le (h : Agree n l l') (hl : l.length ≤ n) : l' = l := by
  have := h.2
  rwa [List.take_of_length_le (h.1 ▸ hl), List.take_of_length_le hl] at this

end Agree

theorem confined_of_length_le (hl : l.length ≤ n) : E.Confined n l := by
  intro l' ha
  rw [ha.eq_of_length_le hl]

theorem list_none (h : E.size l = none) : E.list n l = [] := by
  rw [list]
  split
  case h_1 h' => rw [h] at h'; contradiction
  case h_2    => rfl

theorem list_some (h : E.size l = some k) :
    E.list n l = if 0 < n then E.value l :: E.list (n - k) (l.drop k) else [] := by
  rw [list]
  split
  case h_1 h' =>
    obtain rfl := Option.some.inj (h.symm.trans h')
    rfl
  case h_2 h' => rw [h] at h'; contradiction

@[simp]
theorem list_zero (l : List β) : E.list 0 l = [] := by
  cases h : E.size l
  case none   => exact list_none h
  case some k => rw [list_some h, if_neg (Nat.lt_irrefl 0)]

-- The same behind a header.
theorem confined_header {f : List β → List α} {header : List β}
    (hf : ∀ l, f (header ++ l) = E.list n l) :
    (∀ l', Agree (header.length + n) (header ++ l) l' → f l' = f (header ++ l)) ↔
      E.Confined n l := by
  constructor
  case mp =>
    intro h l' ha
    have ha' : Agree (header.length + n) (header ++ l) (header ++ l') := by
      refine ⟨by simp [ha.1], ?_⟩
      rw [List.take_length_add_append, List.take_length_add_append, ha.2]
    rw [←hf, ←hf, h _ ha']
  case mpr =>
    intro h l' ha
    have ht := (ha.mono (Nat.le_add_right _ n)).2
    have hd := ha.drop header.length
    rw [Nat.add_sub_cancel_left, List.drop_left] at hd
    rw [List.take_left] at ht
    rw [←List.take_append_drop header.length l', ht, hf, hf, h _ hd]

theorem not_overruns_zero : ¬E.Overruns 0 l := by
  rintro (⟨-, hn, -⟩ | ⟨h, hk, -⟩)
  · exact absurd hn (Nat.lt_irrefl 0)
  · have := E.size_pos h
    omega

theorem not_overruns_none (h : E.size l = none) : ¬E.Overruns n l := by
  rintro (⟨h', -⟩ | ⟨h', -⟩) <;> simp [h] at h'

theorem overruns_iff (h : E.size l = some k) (hn : 0 < n) :
    E.Overruns n l ↔ n < E.width k ∨ k ≤ n ∧ E.Overruns (n - k) (l.drop k) := by
  constructor
  case mp =>
    rintro (⟨h', -, hw⟩ | ⟨h', hk, ho⟩)
    all_goals obtain rfl := Option.some.inj (h.symm.trans h')
    · exact .inl hw
    · exact .inr ⟨hk, ho⟩
  case mpr =>
    rintro (hw | ⟨hk, ho⟩)
    · exact .here h hn hw
    · exact .next h hk ho

namespace Lawful

theorem size_whole (L : Lawful E) (h : E.size l = some k) (hn : 0 < n) (hk : k ≤ n)
    (ha : Agree n l l') : E.size l' = some k := by
  obtain he | ⟨k₁, _, h₁, -, hk₁, -⟩ := L.size ha hn
  · exact he.trans h
  · obtain rfl := Option.some.inj (h.symm.trans h₁)
    omega

-- Past an element that ends within the declared bytes, they are declared for what follows it.
theorem confined_drop (L : Lawful E) (h : E.size l = some k) (hn : 0 < n) (hk : k ≤ n)
    (hw : E.width k ≤ n) : E.Confined n l ↔ E.Confined (n - k) (l.drop k) := by
  by_cases hl : k ≤ l.length
  case neg =>
    have hd : (l.drop k).length ≤ n - k := by rw [List.length_drop]; omega
    exact iff_of_true (confined_of_length_le (by omega)) (confined_of_length_le hd)
  have hs {l' : List β} (ha : Agree n l l') :
      E.list n l' = E.value l :: E.list (n - k) (l'.drop k) := by
    rw [list_some (L.size_whole h hn hk ha), if_pos hn, L.value h (ha.mono hw)]
  have hr : E.list n l = E.value l :: E.list (n - k) (l.drop k) := hs ⟨rfl, rfl⟩
  constructor
  case mp =>
    intro hc l' ha
    have ha' := ha.append hk hl
    have he := hc _ ha'
    rw [hs ha', hr, List.drop_left' (by rw [List.length_take, Nat.min_eq_left hl])] at he
    exact List.cons.inj he |>.2
  case mpr =>
    intro hc l' ha
    rw [hs ha, hr, hc _ (ha.drop k)]

-- The last element may be longer than what is declared, as long as its value is not.
theorem confined_last (L : Lawful E) (h : E.size l = some k) (hn : 0 < n) (hk : n < k)
    (hw : E.width k ≤ n) : E.Confined n l := by
  intro l' ha
  have hlast {l : List β} {k : Nat} (h : E.size l = some k) (hk : n < k) :
      E.list n l = [E.value l] := by
    rw [list_some h, if_pos hn, Nat.sub_eq_zero_of_le (Nat.le_of_lt hk), list_zero]
  obtain ⟨k', h', hk'⟩ : ∃ k', E.size l' = some k' ∧ n < k' := by
    obtain he | ⟨_, k', -, h', -, hk'⟩ := L.size ha hn
    · exact ⟨k, he.trans h, hk⟩
    · exact ⟨k', h', hk'⟩
  rw [hlast h' hk', hlast h hk, L.value h (ha.mono hw)]

theorem not_confined (L : Lawful E) (h : E.size l = some k) (hn : 0 < n) (hw : n < E.width k) :
    ¬E.Confined n l := by
  intro hc
  obtain ⟨l', ha, hv⟩ := L.reads h hn hw
  obtain ⟨k', h'⟩ : ∃ k', E.size l' = some k' := by
    obtain he | ⟨_, k', -, h', -⟩ := L.size ha hn
    · exact ⟨k, he.trans h⟩
    · exact ⟨k', h'⟩
  have he := hc l' ha
  rw [list_some h', list_some h, if_pos hn, if_pos hn] at he
  exact hv (List.cons.inj he).1

theorem confined_none (L : Lawful E) (h : E.size l = none) : E.Confined n l := by
  intro l' ha
  rw [list_none h]
  by_cases hn : n = 0
  case pos => rw [hn, list_zero]
  case neg =>
    obtain he | ⟨_, _, h', -⟩ := L.size ha (Nat.pos_of_ne_zero hn)
    · exact list_none (he.trans h)
    · simp [h] at h'

theorem confined_iff_not_overruns (L : Lawful E) (n : Nat) (l : List β) :
    E.Confined n l ↔ ¬E.Overruns n l := by
  induction n using Nat.strongRecOn generalizing l
  case ind n hi =>
    by_cases hn : 0 < n
    case neg =>
      obtain rfl := Nat.eq_zero_of_not_pos hn
      exact iff_of_true (fun l' _ => by rw [list_zero, list_zero]) not_overruns_zero
    case pos =>
      cases h : E.size l
      case none   => exact iff_of_true (L.confined_none h) (not_overruns_none h)
      case some k =>
        have hk := E.size_pos h
        rw [overruns_iff h hn]
        by_cases hw : n < E.width k
        case pos => exact iff_of_false (L.not_confined h hn hw) (not_not.mpr (.inl hw))
        case neg =>
          have hw := Nat.le_of_not_lt hw
          by_cases hkn : k ≤ n
          case pos =>
            rw [L.confined_drop h hn hkn hw, hi _ (by omega)]
            simp [hw, hkn]
          case neg =>
            refine iff_of_true (L.confined_last h hn (Nat.lt_of_not_le hkn) hw) ?_
            simp [hw, hkn]

end Lawful

end Elements
