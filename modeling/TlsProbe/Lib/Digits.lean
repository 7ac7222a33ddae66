import Mathlib.Algebra.Group.Nat.Defs
import Mathlib.Data.List.Basic

-- Numbers written in digits, in a base of at most 16.
namespace Digits

variable {b n m k : Nat} {c : Char} {cs : List Char}

def value (c : Char) : Nat :=
  if c.isDigit then c.toNat - '0'.toNat else c.toNat - 'a'.toNat + 10

def read (b : Nat) (cs : List Char) : Nat :=
  cs.foldl (fun n c => b * n + value c) 0

-- At least `k` digits, the first of which are zeros as far as needed.
def padded (b k n : Nat) : List Char :=
  List.replicate (k - (Nat.toDigits b n).length) '0' ++ Nat.toDigits b n

theorem value_digitChar : ∀ d < 16, value (Nat.digitChar d) = d := by
  decide

theorem read_concat : read b (cs ++ [c]) = b * read b cs + value c := by
  simp [read]

theorem read_zero_cons : read b ('0' :: cs) = read b cs := by
  simp [read, value]

theorem read_toDigits (hb : 1 < b) (h : b ≤ 16) : read b (Nat.toDigits b n) = n := by
  induction n using Nat.strongRecOn
  case _ n hi =>
    rw [Nat.toDigits_eq_if hb]
    split
    case isTrue hn => simp [read, value_digitChar n (by omega)]
    case isFalse hn =>
      have hm : n % b < b := Nat.mod_lt n (by omega)
      have hd : n / b < n := Nat.div_lt_self (by omega) hb
      rw [read_concat, hi _ hd, value_digitChar _ (by omega), Nat.div_add_mod]

theorem read_padded (hb : 1 < b) (h : b ≤ 16) : read b (padded b k n) = n := by
  have hz (j : Nat) : read b (List.replicate j '0' ++ Nat.toDigits b n) = n := by
    induction j
    case zero      => exact read_toDigits hb h
    case succ j hi => rw [List.replicate_succ, List.cons_append, read_zero_cons, hi]
  exact hz _

theorem mem_toDigits (hb : 1 < b) (h : c ∈ Nat.toDigits b n) : ∃ d < b, c = Nat.digitChar d := by
  induction n using Nat.strongRecOn
  case _ n hi =>
    rw [Nat.toDigits_eq_if hb] at h
    split at h
    case isTrue hn => exact ⟨n, hn, by simpa using h⟩
    case isFalse hn =>
      obtain h | h := List.mem_append.mp h
      case inl => exact hi _ (Nat.div_lt_self (by omega) hb) h
      case inr => exact ⟨n % b, Nat.mod_lt n (by omega), by simpa using h⟩

theorem mem_padded (hb : 1 < b) (h : c ∈ padded b k n) : ∃ d < b, c = Nat.digitChar d := by
  obtain h | h := List.mem_append.mp h
  case inl => exact ⟨0, by omega, (List.mem_replicate.mp h).2⟩
  case inr => exact mem_toDigits hb h

theorem length_padded (hb : 1 < b) (hk : 0 < k) (h : n < b ^ k) : (padded b k n).length = k := by
  have := (Nat.length_toDigits_le_iff hb hk).mpr h
  rw [padded, List.length_append, List.length_replicate]
  omega

theorem padded_ne_nil : padded b k n ≠ [] := by
  simp [padded]

end Digits
