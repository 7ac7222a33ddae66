import Mathlib.Data.List.Flatten

-- A change of one key in a store. A history lists the changes of a store, the first one first.
inductive Change (κ ν : Type*)
  | put (key : κ) (value : ν)
  | del (key : κ)

namespace Change

variable {κ ν : Type*}

def key : Change κ ν → κ
  | put key _ => key
  | del key   => key

def value? : Change κ ν → Option ν
  | put _ value => some value
  | del _       => none

def isDel : Change κ ν → Bool
  | put .. => false
  | del _  => true

variable {k : κ} {v : ν}

@[simp]
theorem key_put : (put k v).key = k :=
  rfl

@[simp]
theorem key_del : (del k : Change κ ν).key = k :=
  rfl

@[simp]
theorem value?_put : (put k v).value? = some v :=
  rfl

@[simp]
theorem value?_del : (del k : Change κ ν).value? = none :=
  rfl

@[simp]
theorem isDel_put : (put k v).isDel = false :=
  rfl

@[simp]
theorem isDel_del : (del k : Change κ ν).isDel = true :=
  rfl

end Change

namespace History

variable {κ ν : Type*} [DecidableEq κ]

def next (k : κ) (h : List (Change κ ν)) : Option (Change κ ν) :=
  h.find? (·.key = k)

def last (k : κ) (h : List (Change κ ν)) : Option (Change κ ν) :=
  h.reverse.find? (·.key = k)

-- The value that a key has in the end.
def value (k : κ) (h : List (Change κ ν)) : Option ν :=
  (last k h).bind (·.value?)

-- The entries that were put, as far as `p` takes what comes next for their keys.
def entries (p : Option (Change κ ν) → Bool) : List (Change κ ν) → List (κ × ν)
  | []           => []
  | .put k v :: h => if p (next k h) then (k, v) :: entries p h else entries p h
  | .del _ :: h   => entries p h

def puts : List (Change κ ν) → List (κ × ν) :=
  entries fun _ => true

-- The entries that are there in the end, those that were deleted, and those that another one was put
-- in the place of.
def current : List (Change κ ν) → List (κ × ν) :=
  entries (·.isNone)

def deleted : List (Change κ ν) → List (κ × ν) :=
  entries (·.any (·.isDel))

def replaced : List (Change κ ν) → List (κ × ν) :=
  entries (·.any (!·.isDel))

-- All entries but the deleted ones.
def kept : List (Change κ ν) → List (κ × ν) :=
  entries (!·.any (·.isDel))

variable {k k' : κ} {v : ν} {c : Change κ ν} {h h' : List (Change κ ν)}
variable {p : Option (Change κ ν) → Bool}

section Lookup

theorem next_append : next k (h ++ h') = (next k h).or (next k h') :=
  List.find?_append

theorem next_singleton : next k [c] = if c.key = k then some c else none := by
  simp [next, List.find?_cons]
  split <;> simp_all

theorem next_eq_none : next k h = none ↔ ∀ c ∈ h, c.key ≠ k := by
  simp [next]

theorem last_eq_none : last k h = none ↔ next k h = none := by
  simp [last, next]

theorem last_concat : last k (h ++ [c]) = if c.key = k then some c else last k h := by
  rw [last, List.reverse_append, List.reverse_singleton, List.singleton_append, List.find?_cons]
  split <;> simp_all [last]

theorem last_cons : last k (c :: h) = (last k h).or (if c.key = k then some c else none) := by
  rw [last, List.reverse_cons, List.find?_append, ←next_singleton]
  rfl

@[simp]
theorem value_nil : value k ([] : List (Change κ ν)) = none :=
  rfl

theorem value_concat : value k (h ++ [c]) = if c.key = k then c.value? else value k h := by
  rw [value, last_concat]
  split <;> rfl

theorem value_of_not_next (hn : next k h = none) : value k h = none := by
  rw [value, last_eq_none.mpr hn]
  rfl

theorem value_cons_del : value k (.del k' :: h) = value k h := by
  rw [value, value, last_cons]
  cases last k h
  case some => rfl
  case none => split <;> rfl

theorem value_cons_put : value k (.put k' v :: h) =
    if next k h = none ∧ k' = k then some v else value k h := by
  by_cases hn : next k h = none
  case pos =>
    rw [value, last_cons, last_eq_none.mpr hn, Option.none_or, value_of_not_next hn]
    by_cases hk : k' = k <;> simp [hn, hk]
  case neg =>
    have hl : last k h ≠ none := mt last_eq_none.mp hn
    obtain ⟨c, hc⟩ := Option.ne_none_iff_exists'.mp hl
    rw [value, value, last_cons, hc, Option.some_or, if_neg fun hk => hn (And.left hk)]

end Lookup

section Entries

@[simp]
theorem entries_nil : entries p [] = [] :=
  rfl

theorem entries_mono {q : Option (Change κ ν) → Bool} (hpq : ∀ o, p o → q o) :
    (entries p h).Sublist (entries q h) := by
  induction h
  case nil => exact .slnil
  case cons c h hi =>
    cases c
    case del => exact hi
    case put k v =>
      simp only [entries]
      by_cases hp : p (next k h) = true
      case pos =>
        rw [if_pos hp, if_pos (hpq _ hp)]
        exact .cons_cons _ hi
      case neg =>
        rw [if_neg hp]
        split
        case isTrue  => exact .cons _ hi
        case isFalse => exact hi

theorem entries_sublist : (entries p h).Sublist (puts h) :=
  entries_mono fun _ _ => rfl

theorem puts_concat_put : puts (h ++ [.put k v]) = puts h ++ [(k, v)] := by
  induction h
  case nil => rfl
  case cons c h hi =>
    cases c
    case del => exact hi
    case put => exact congrArg (_ :: ·) hi

theorem puts_concat_del : puts (h ++ [.del k]) = puts h := by
  induction h
  case nil => rfl
  case cons c h hi =>
    cases c
    case del => exact hi
    case put => exact congrArg (_ :: ·) hi

theorem key_of_mem_entries (he : (k, v) ∈ entries p h) : ∃ c ∈ h, c.key = k := by
  induction h
  case nil => contradiction
  case cons c h hi =>
    have tail (he : (k, v) ∈ entries p h) : ∃ d ∈ c :: h, d.key = k := by
      obtain ⟨d, hd, hk⟩ := hi he
      exact ⟨d, List.mem_cons_of_mem _ hd, hk⟩
    cases c
    case del => exact tail he
    case put k' v' =>
      rw [entries] at he
      split at he
      case isFalse => exact tail he
      case isTrue =>
        obtain he | he := List.mem_cons.mp he
        case inl => exact ⟨_, List.mem_cons_self .., (congrArg Prod.fst he).symm⟩
        case inr => exact tail he

end Entries

section Current

theorem entries_put_of_next (hn : p (next k h) = true) :
    entries p (.put k v :: h) = (k, v) :: entries p h :=
  if_pos hn

theorem entries_put_of_not_next (hn : p (next k h) = false) :
    entries p (.put k v :: h) = entries p h :=
  if_neg (by simp [hn])

theorem mem_current : (k, v) ∈ current h ↔ value k h = some v := by
  induction h
  case nil => simp [current]
  case cons c h hi =>
    cases c
    case del k' =>
      rw [value_cons_del]
      exact hi
    case put k' v' =>
      rw [value_cons_put]
      cases hn : next k' h
      case some c =>
        rw [current, entries_put_of_not_next (by simp [hn]), if_neg]
        case hnc =>
          rintro ⟨hn', rfl⟩
          simp [hn] at hn'
        exact hi
      case none =>
        rw [current, entries_put_of_next (by simp [hn]), List.mem_cons]
        by_cases hk : k' = k
        case neg =>
          rw [if_neg (hk ·.2), ←hi]
          simp [current, Ne.symm hk]
        case pos =>
          subst hk
          have hv : (k', v) ∉ entries (·.isNone) h := by
            intro he
            obtain ⟨c, hc, hk⟩ := key_of_mem_entries he
            exact next_eq_none.mp hn c hc hk
          simp [hv, hn, eq_comm]

theorem nodup_current : ((current h).map (·.1)).Nodup := by
  induction h
  case nil => exact List.nodup_nil
  case cons c h hi =>
    cases c
    case del => exact hi
    case put k v =>
      rw [current, entries]
      split
      case isFalse => exact hi
      case isTrue hn =>
        refine List.nodup_cons.mpr ⟨fun hm => ?_, hi⟩
        obtain ⟨⟨k', v'⟩, he, rfl⟩ := List.mem_map.mp hm
        obtain ⟨c, hc, hk⟩ := key_of_mem_entries he
        exact next_eq_none.mp (Option.isNone_iff_eq_none.mp hn) c hc hk

end Current

section Concat

variable {q : ν → Prop}

-- What a change replaces is the value that its key had.
theorem replaced_concat_put : (∀ e ∈ replaced (h ++ [.put k v]), q e.2) ↔
    (∀ e ∈ replaced h, q e.2) ∧ ∀ w, value k h = some w → q w := by
  induction h
  case nil => simp [replaced, entries, next]
  case cons c h hi =>
    rw [List.cons_append]
    cases c
    case del k' =>
      rw [value_cons_del]
      exact hi
    case put k' v' =>
      rw [value_cons_put]
      simp only [replaced, entries, next_append, next_singleton] at hi ⊢
      cases hn : next k' h
      case some c =>
        have hk : ¬(next k h = none ∧ k' = k) := by
          rintro ⟨hn', rfl⟩
          simp [hn] at hn'
        rw [if_neg hk, Option.some_or]
        split
        case isTrue  => simp only [List.forall_mem_cons, hi, and_assoc]
        case isFalse => exact hi
      case none =>
        by_cases hk : k = k'
        case pos =>
          subst hk
          have hv := value_of_not_next hn
          have hi := hi.trans <| and_iff_left fun w hw => by simp [hv] at hw
          simp only [Prod.forall] at hi
          simp [hn, hi, and_comm]
        case neg =>
          simpa [hk, Ne.symm hk] using hi

theorem replaced_concat_del : replaced (h ++ [.del k]) = replaced h := by
  induction h
  case nil => rfl
  case cons c h hi =>
    cases c
    case del => exact hi
    case put k' v' =>
      simp only [replaced, List.cons_append, entries, next_append, next_singleton] at hi ⊢
      cases next k' h
      case some c => simp [hi]
      case none   => by_cases hk : k = k' <;> simp [hk, ←hi]

theorem deleted_concat_put : deleted (h ++ [.put k v]) = deleted h := by
  induction h
  case nil => rfl
  case cons c h hi =>
    cases c
    case del => exact hi
    case put k' v' =>
      simp only [deleted, List.cons_append, entries, next_append, next_singleton] at hi ⊢
      cases next k' h
      case some c => simp [hi]
      case none   => by_cases hk : k = k' <;> simp [hk, ←hi]

theorem deleted_concat_del : (deleted (h ++ [.del k])).length =
    (deleted h).length + if (value k h).isSome then 1 else 0 := by
  induction h
  case nil => rfl
  case cons c h hi =>
    rw [List.cons_append]
    cases c
    case del k' =>
      rw [value_cons_del]
      exact hi
    case put k' v' =>
      rw [value_cons_put]
      simp only [deleted, entries, next_append, next_singleton] at hi ⊢
      cases hn : next k' h
      case some c =>
        have hk : ¬(next k h = none ∧ k' = k) := by
          rintro ⟨hn', rfl⟩
          simp [hn] at hn'
        rw [if_neg hk, Option.some_or]
        split
        case isTrue  => simp only [List.length_cons, hi, Nat.add_right_comm]
        case isFalse => exact hi
      case none =>
        by_cases hk : k = k'
        case pos =>
          subst hk
          have hv := value_of_not_next hn
          simpa [hn, hv] using hi
        case neg =>
          simpa [hk, Ne.symm hk] using hi

end Concat

section Streams

variable {α : Type*} {h : List (Change κ (List α))}

-- Nothing is lost to entries that replace others when those others hold nothing.
theorem current_eq_kept : (current h).flatMap (·.2) = (kept h).flatMap (·.2) ↔
    ∀ e ∈ replaced h, e.2 = [] := by
  induction h
  case nil => simp [current, kept, replaced]
  case cons c h hi =>
    have hl : ((current h).flatMap (·.2)).length ≤ ((kept h).flatMap (·.2)).length := by
      refine ((entries_mono fun o ho => ?_).flatMap _).length_le
      simp [Option.isNone_iff_eq_none.mp ho]
    cases c
    case del => exact hi
    case put k v =>
      simp only [current, kept, replaced, entries] at hi hl ⊢
      cases hn : next k h
      case none   => simpa using hi
      case some c =>
        cases hd : c.isDel
        case true  => simpa [hd] using hi
        case false =>
          simp only [Option.isNone_some, Bool.false_eq_true, if_false, Option.any_some, hd,
            Bool.not_false, if_true, List.flatMap_cons, List.forall_mem_cons, ←hi]
          constructor
          case mp =>
            intro he
            have hv := congrArg List.length he
            rw [List.length_append] at hv
            have hv : v = [] := List.eq_nil_of_length_eq_zero (by omega)
            exact ⟨hv, by simpa [hv] using he⟩
          case mpr =>
            rintro ⟨rfl, he⟩
            exact he

end Streams

end History
