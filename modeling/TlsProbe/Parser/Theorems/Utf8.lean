import TlsProbe.Parser.Extensions

namespace TlsProbe

def utf8Bytes (s : String) : List UInt8 :=
  s.toByteArray.data.toList

theorem utf8Bytes_ofList (cs : List Char) :
    utf8Bytes (String.ofList cs) = cs.flatMap String.utf8EncodeChar := by
  simp [utf8Bytes, List.utf8Encode]

theorem fromUtf8_utf8Bytes (s : String) : fromUtf8 (utf8Bytes s) = some s := by
  have hb : (⟨(utf8Bytes s).toArray⟩ : ByteArray) = s.toByteArray := by simp [utf8Bytes]
  simp only [fromUtf8, hb, String.fromUTF8?, s.isValidUTF8, dite_true, String.fromUTF8]

theorem fromUtf8_utf8EncodeChar (c : Char) :
    fromUtf8 (String.utf8EncodeChar c) = some (String.ofList [c]) := by
  have h := fromUtf8_utf8Bytes (String.ofList [c])
  rwa [utf8Bytes_ofList, List.flatMap_singleton] at h

theorem utf8Tail_zero (lo hi : UInt8) (bytes : List UInt8) : utf8Tail 0 lo hi bytes = 0 := by
  cases bytes <;> simp [utf8Tail]

theorem utf8Tail_cons {n : Nat} {lo hi b : UInt8} {bytes : List UInt8} (hl : lo ≤ b) (hh : b ≤ hi) :
    utf8Tail (n + 1) lo hi (b :: bytes) = utf8Tail n 0x80 0xbf bytes + 1 := by
  simp [utf8Tail, hl, hh]

-- A continuation byte carries six bits of a character.
theorem continuation_mem (v : Nat) {lo hi : UInt8} (hl : lo.toNat ≤ v % 0x40 + 0x80)
    (hh : v % 0x40 + 0x80 ≤ hi.toNat) :
    lo ≤ UInt8.ofNat (v % 0x40 + 0x80) ∧ UInt8.ofNat (v % 0x40 + 0x80) ≤ hi := by
  simp only [UInt8.le_iff_toNat_le, UInt8.toNat_ofNat']
  omega

theorem utf8Tail_continuation {n : Nat} (v : Nat) {bytes : List UInt8} :
    utf8Tail (n + 1) 0x80 0xbf (UInt8.ofNat (v % 0x40 + 0x80) :: bytes) =
      utf8Tail n 0x80 0xbf bytes + 1 := by
  have ⟨hl, hh⟩ := @continuation_mem v 0x80 0xbf (by simp) (by simp; omega)
  exact utf8Tail_cons hl hh

theorem utf8Lead_two : ∀ n < 0xe0, 0xc2 ≤ n → utf8Lead (UInt8.ofNat n) = (1, 0x80, 0xbf) := by
  decide +kernel

theorem utf8Lead_three : ∀ n < 0xf0, 0xe0 ≤ n → utf8Lead (UInt8.ofNat n) =
    (2, if n = 0xe0 then 0xa0 else 0x80, if n = 0xed then 0x9f else 0xbf) := by
  decide +kernel

theorem utf8Lead_four : ∀ n < 0xf5, 0xf0 ≤ n → utf8Lead (UInt8.ofNat n) =
    (3, if n = 0xf0 then 0x90 else 0x80, if n = 0xf4 then 0x8f else 0xbf) := by
  decide +kernel

-- The bytes of one character: the first one announces just the others.
theorem utf8Tail_utf8EncodeChar (c : Char) (rest : List UInt8) :
    ∃ b tail, String.utf8EncodeChar c = b :: tail ∧
      utf8Tail (utf8Lead b).1 (utf8Lead b).2.1 (utf8Lead b).2.2 (tail ++ rest) = tail.length := by
  have hv : c.val.toNat < 0xd800 ∨ 0xdfff < c.val.toNat ∧ c.val.toNat < 0x110000 := c.valid
  fun_cases String.utf8EncodeChar c
  case case1 v h =>
    have hb : (utf8Lead (UInt8.ofNat v)).1 = 0 := by
      have : UInt8.ofNat v < 0xc2 := by
        simp only [UInt8.lt_iff_toNat_lt, UInt8.toNat_ofNat', UInt8.reduceToNat]
        omega
      simp [utf8Lead, this]
    exact ⟨_, _, rfl, by simp [hb, utf8Tail_zero]⟩
  case case2 v h₁ h₂ =>
    refine ⟨_, _, rfl, ?_⟩
    rw [utf8Lead_two _ (by omega) (by omega)]
    simp only [List.cons_append, List.nil_append, utf8Tail_continuation, utf8Tail_zero,
      List.length_cons, List.length_nil]
  case case3 v h₁ h₂ h₃ =>
    refine ⟨_, _, rfl, ?_⟩
    rw [utf8Lead_three _ (by omega) (by omega)]
    have ⟨hl, hh⟩ := @continuation_mem (v / 64)
      (if v / 4096 % 16 + 0xe0 = 0xe0 then 0xa0 else 0x80)
      (if v / 4096 % 16 + 0xe0 = 0xed then 0x9f else 0xbf)
      (by split <;> simp; omega) (by split <;> (simp; omega))
    simp only [List.cons_append, List.nil_append, utf8Tail_cons hl hh, utf8Tail_continuation,
      utf8Tail_zero, List.length_cons, List.length_nil]
  case case4 v h₁ h₂ h₃ =>
    refine ⟨_, _, rfl, ?_⟩
    rw [utf8Lead_four _ (by omega) (by omega)]
    have ⟨hl, hh⟩ := @continuation_mem (v / 4096)
      (if v / 262144 % 8 + 0xf0 = 0xf0 then 0x90 else 0x80)
      (if v / 262144 % 8 + 0xf0 = 0xf4 then 0x8f else 0xbf)
      (by split <;> simp; omega) (by split <;> (simp; omega))
    simp only [List.cons_append, List.nil_append, utf8Tail_cons hl hh, utf8Tail_continuation,
      utf8Tail_zero, List.length_cons, List.length_nil]

theorem fromUtf8Lossy_utf8Bytes (s : String) : fromUtf8Lossy (utf8Bytes s) = s := by
  obtain ⟨cs, rfl⟩ := s.exists_eq_ofList
  rw [utf8Bytes_ofList]
  induction cs
  case nil => simp [fromUtf8Lossy]
  case cons c cs hi =>
    obtain ⟨b, tail, hc, ht⟩ := utf8Tail_utf8EncodeChar c (cs.flatMap String.utf8EncodeChar)
    simp only [List.flatMap_cons, hc, List.cons_append]
    rw [fromUtf8Lossy]
    simp only [ht, List.take_left, List.drop_left, hi, ←hc, fromUtf8_utf8EncodeChar,
      Option.getD_some]
    rw [←String.ofList_append, List.singleton_append]

theorem utf8Lead_low (b : UInt8) : 0x80 ≤ (utf8Lead b).2.1 := by
  unfold utf8Lead
  repeat' split
  all_goals decide

theorem utf8Tail_le (n : Nat) (lo hi : UInt8) (bytes : List UInt8) :
    utf8Tail n lo hi bytes ≤ bytes.length := by
  fun_induction utf8Tail n lo hi bytes
  case case1 => exact Nat.le_refl 0
  case case2 ih => exact Nat.succ_le_succ ih
  case case3 => exact Nat.zero_le _

-- An ASCII character does not continue another one.
theorem utf8Tail_append {c : UInt8} (hc : c < 0x80) (n : Nat) {lo hi : UInt8} (hl : 0x80 ≤ lo)
    (bytes : List UInt8) : utf8Tail n lo hi (bytes ++ [c]) = utf8Tail n lo hi bytes := by
  fun_induction utf8Tail n lo hi bytes
  case case1 =>
    rw [List.nil_append, utf8Tail, if_neg]
    exact fun h => absurd (UInt8.le_trans hl h.2.1) (UInt8.not_le.mpr hc)
  case case2 h ih => rw [List.cons_append, utf8Tail, if_pos h, ih (by decide)]
  case case3 h => rw [List.cons_append, utf8Tail, if_neg h]

theorem fromUtf8Lossy_append {c : UInt8} (hc : c < 0x80) (bytes : List UInt8) :
    fromUtf8Lossy (bytes ++ [c]) = fromUtf8Lossy bytes ++ fromUtf8Lossy [c] := by
  fun_induction fromUtf8Lossy bytes
  case case1 => simp
  case case2 b rest n lo hi hu k ih =>
    have hl : 0x80 ≤ lo := by
      have := utf8Lead_low b
      rwa [hu] at this
    have hk : k ≤ rest.length := utf8Tail_le n lo hi rest
    rw [List.cons_append, fromUtf8Lossy, hu]
    simp only [utf8Tail_append hc n hl]
    rw [List.take_append_of_le_length hk, List.drop_append_of_le_length hk, ih, String.append_assoc]

end TlsProbe
