import Mathlib.Tactic.IntervalCases
import TlsProbe.Listeners.Proc

namespace TlsProbe.Listeners

open Process (Endian)

section Numbers

variable {bits n k : Nat} {c : Char} {cs : Text}

-- The digits that `hex` prints, before they are upper case.
def Digit (c : Char) : Prop :=
  ∃ d < 16, c = Nat.digitChar d

-- A character of a number, and none of those that the lines are taken apart at.
def Plain (c : Char) : Prop :=
  c ≠ '+' ∧ c ≠ ':' ∧ isWhitespace c = false ∧ c.utf8Size = 1

theorem Digit.plain_toUpper : Digit c → Plain c.toUpper := by
  rintro ⟨d, hd, rfl⟩
  revert d
  unfold Plain
  decide

theorem digit_of_mem_padded (h : c ∈ Digits.padded 16 k n) : Digit c :=
  Digits.mem_padded (by decide) h

theorem plain_of_mem_hex (h : c ∈ hex k n) : Plain c := by
  obtain ⟨c, hc, rfl⟩ := List.mem_map.mp h
  exact (digit_of_mem_padded hc).plain_toUpper

theorem toDigit_toUpper : ∀ d < 16, toDigit (Nat.digitChar d).toUpper = some d := by
  decide

theorem fromStrRadix_eq (hc : cs ≠ []) (h : ∀ c ∈ cs, Plain c) :
    fromStrRadix bits cs = cs.foldlM (fromStrRadix.step bits) 0 := by
  obtain ⟨c, cs, rfl⟩ := List.exists_cons_of_ne_nil hc
  have hp : c ≠ '+' := (h c List.mem_cons_self).1
  unfold fromStrRadix
  split <;> simp_all

theorem foldlM_toUpper (h : ∀ c ∈ cs, Digit c) (hn : Digits.read 16 cs < 2 ^ bits) :
    (cs.map Char.toUpper).foldlM (fromStrRadix.step bits) 0 = some (Digits.read 16 cs) := by
  induction cs using List.reverseRecOn
  case nil => rfl
  case append_singleton cs c hi =>
    obtain ⟨d, hd, rfl⟩ := h c (by simp)
    rw [Digits.read_concat, Digits.value_digitChar d hd] at hn ⊢
    have hs := hi (fun c hc => h c (List.mem_append_left _ hc)) (by omega)
    rw [List.map_append, List.foldlM_append, hs]
    simp [fromStrRadix.step, toDigit_toUpper d hd, hn]

theorem foldlM_hex (h : n < 2 ^ bits) :
    (hex k n).foldlM (fromStrRadix.step bits) 0 = some n := by
  have hr : Digits.read 16 (Digits.padded 16 k n) = n := Digits.read_padded (by decide) le_rfl
  rw [hex, foldlM_toUpper (fun _ => digit_of_mem_padded) (by rwa [hr]), hr]

-- Zeros in front make no difference.
theorem foldlM_dropWhile : (cs.dropWhile (· = '0')).foldlM (fromStrRadix.step bits) 0 =
    cs.foldlM (fromStrRadix.step bits) 0 := by
  induction cs
  case nil => rfl
  case cons c cs hi =>
    by_cases hc : c = '0'
    case pos =>
      have hz : fromStrRadix.step bits 0 '0' = some 0 := if_pos (Nat.two_pow_pos bits)
      rw [List.dropWhile_cons_of_pos (by simpa using hc), hi, hc, List.foldlM_cons, hz]
      rfl
    case neg => rw [List.dropWhile_cons_of_neg (by simpa using hc)]

theorem hex_ne_nil : hex k n ≠ [] := by
  simp [hex, Digits.padded_ne_nil]

theorem fromStrRadix_hex (h : n < 2 ^ bits) : fromStrRadix bits (hex k n) = some n := by
  rw [fromStrRadix_eq hex_ne_nil fun _ => plain_of_mem_hex, foldlM_hex h]

theorem fromStrRadix_trimmed (h : n < 2 ^ bits) : let trimmed := (hex k n).dropWhile (· = '0')
    fromStrRadix bits (if trimmed.isEmpty then ['0'] else trimmed) = some n := by
  intro trimmed
  have hf : trimmed.foldlM (fromStrRadix.step bits) 0 = some n := foldlM_dropWhile.trans (foldlM_hex h)
  by_cases ht : trimmed = []
  case pos =>
    rw [ht] at hf ⊢
    have hz : fromStrRadix bits ['0'] = some 0 := by
      simp [fromStrRadix, fromStrRadix.step, toDigit]
    exact hz.trans hf
  case neg =>
    have hp : ∀ c ∈ trimmed, Plain c := fun _ hc =>
      plain_of_mem_hex ((List.dropWhile_sublist _).subset hc)
    rw [if_neg (by simpa using ht), fromStrRadix_eq ht hp, hf]

end Numbers

section Slices

variable {s l m r : Text} {n : Nat}

theorem splitAtByte_eq (h : ∀ c ∈ s, Plain c) (hn : n ≤ s.length) :
    splitAtByte s n = .ok (s.take n, s.drop n) := by
  induction s generalizing n
  case nil =>
    obtain rfl := Nat.le_zero.mp hn
    rfl
  case cons c s hi =>
    cases n
    case zero => rfl
    case succ n =>
      obtain ⟨hc, hs⟩ := List.forall_mem_cons.mp h
      have hu : c.utf8Size = 1 := hc.2.2.2
      have hl := hi hs (Nat.le_of_succ_le_succ hn)
      simp only [splitAtByte, hu, Nat.le_add_left, if_true, Nat.add_sub_cancel, hl]
      rfl

theorem sliceStr_eq (h : ∀ c ∈ l ++ m ++ r, Plain c) :
    sliceStr (l ++ m ++ r) l.length (l.length + m.length) = .ok m := by
  have hm : ∀ c ∈ l ++ m, Plain c := fun c hc => h c (List.mem_append_left _ hc)
  have hn : l.length + m.length = (l ++ m).length := List.length_append.symm
  rw [sliceStr, hn, splitAtByte_eq h (by simp), List.take_left, Checked.ok_bind]
  simp only
  rw [splitAtByte_eq hm (by simp), List.drop_left]
  rfl

theorem byteLen_eq (h : ∀ c ∈ s, Plain c) : byteLen s = s.length := by
  have hu : s.map Char.utf8Size = s.map fun _ => 1 :=
    List.map_congr_left fun c hc => (h c hc).2.2.2
  rw [byteLen, hu, List.map_const', List.sum_replicate_nat, Nat.mul_one]

end Slices

section Addresses

variable {endian : Endian} {bytes : Vector UInt8 4} {octets : Vector UInt8 16} {addr : IpAddr}

theorem exists_bytes : ∃ a b c d, bytes = #v[a, b, c, d] := by
  refine ⟨bytes[0], bytes[1], bytes[2], bytes[3], Vector.ext fun i hi => ?_⟩
  interval_cases i <;> rfl

theorem leValue_eq {a b c d : UInt8} : leValue #v[a, b, c, d] =
    a.toNat + 0x100 * (b.toNat + 0x100 * (c.toNat + 0x100 * d.toNat)) := by
  simp [leValue]

theorem leValue_lt : leValue bytes < 2 ^ 32 := by
  obtain ⟨a, b, c, d, rfl⟩ := @exists_bytes bytes
  have ha := a.toNat_lt
  have hb := b.toNat_lt
  have hc := c.toNat_lt
  have hd := d.toNat_lt
  rw [leValue_eq]
  omega

-- What is read with the least byte first and written with it last is turned around.
theorem u32ToBeBytes_leValue : u32ToBeBytes (.ofNat (leValue bytes)) = bytes.reverse := by
  have hv : (UInt32.ofNat (leValue bytes)).toNat = leValue bytes :=
    UInt32.toNat_ofNat_of_lt' leValue_lt
  obtain ⟨a, b, c, d, rfl⟩ := @exists_bytes bytes
  have ha := a.toNat_lt
  have hb := b.toNat_lt
  have hc := c.toNat_lt
  have h₁ {n : Nat} : (a.toNat + 0x100 * n) / 0x100 = n := by omega
  have h₂ {n : Nat} : (a.toNat + 0x100 * (b.toNat + 0x100 * n)) / 0x10000 = n := by omega
  have h₃ {n : Nat} :
      (a.toNat + 0x100 * (b.toNat + 0x100 * (c.toNat + 0x100 * n))) / 0x1000000 = n := by
    omega
  -- A byte is what is left of the integer when the ones before it are gone.
  have hx {x : UInt8} {n : Nat} : UInt8.ofNat (x.toNat + 0x100 * n) = x := by
    refine UInt8.toNat_inj.mp (UInt8.toNat_ofNat'.trans ?_)
    have := x.toNat_lt
    omega
  simp only [u32ToBeBytes, hv]
  simp only [leValue_eq, h₁, h₂, h₃, hx, UInt8.ofNat_toNat]
  simp

theorem parseIpv4Hex_hexAddr :
    (parseIpv4Hex (hexAddr (.v4 bytes))).run = .ok (.ok (.v4 bytes.reverse)) := by
  have ha : hexAddr (.v4 bytes) = hex 8 (leValue bytes) := List.flatMap_singleton ..
  have ht := @fromStrRadix_trimmed 32 _ 8 (@leValue_lt bytes)
  simp only [parseIpv4Hex, ha, ht, u32ToBeBytes_leValue]
  rfl

theorem length_hex_leValue : (hex 8 (leValue bytes)).length = 8 := by
  rw [hex, List.length_map, Digits.length_padded (by decide) (by decide) (by exact leValue_lt)]

theorem plain_of_mem_hexAddr : ∀ c ∈ hexAddr addr, Plain c := by
  intro c hc
  obtain ⟨bytes, _, hb⟩ := List.mem_flatMap.mp hc
  exact plain_of_mem_hex hb

theorem parseIpv6Word_eq {s l r : Text} {i : Nat} (hs : s = l ++ hex 8 (leValue bytes) ++ r)
    (hl : l.length = i * 8) (h : ∀ c ∈ s, Plain c) :
    (parseIpv6Word .little s i).run = .ok (.ok bytes.reverse) := by
  have hc := sliceStr_eq (hs ▸ h)
  rw [length_hex_leValue, hl, ←hs, ←Nat.succ_mul] at hc
  rw [parseIpv6Word, Checked.run_lift_bind hc, fromStrRadix_hex leValue_lt]
  simp only [u32FromLe, u32ToBeBytes_leValue]
  rfl

theorem parseIpv6Hex_hexAddr :
    (parseIpv6Hex .little (hexAddr (.v6 octets))).run = .ok (.ok (IpAddr.v6 octets).swapped) := by
  let w (i : Fin 4) := hex 8 (leValue (word octets i))
  have hw (i : Fin 4) : (w i).length = 8 := length_hex_leValue
  have ha : hexAddr (.v6 octets) = w 0 ++ w 1 ++ w 2 ++ w 3 := by
    simp [hexAddr, IpAddr.words, w]
  have hp := @plain_of_mem_hexAddr (.v6 octets)
  have hn : byteLen (hexAddr (.v6 octets)) = 32 := by
    rw [byteLen_eq hp, ha]
    simp [hw]
  have h₀ := @parseIpv6Word_eq (word octets 0) _ [] (w 1 ++ w 2 ++ w 3) 0 (by simp [ha, w]) rfl hp
  have h₁ := @parseIpv6Word_eq (word octets 1) _ (w 0) (w 2 ++ w 3) 1 (by simp [ha, w]) (hw 0) hp
  have h₂ := @parseIpv6Word_eq (word octets 2) _ (w 0 ++ w 1) (w 3) 2 (by simp [ha, w])
    (by simp [hw]) hp
  have h₃ := @parseIpv6Word_eq (word octets 3) _ (w 0 ++ w 1 ++ w 2) [] 3 (by simp [ha, w])
    (by simp [hw]) hp
  simp only [parseIpv6Hex, hn, ne_eq, not_true_eq_false, if_false]
  rw [Checked.run_bind_ok h₀, Checked.run_bind_ok h₁, Checked.run_bind_ok h₂,
    Checked.run_bind_ok h₃]
  rfl

theorem parser_hexAddr : (addr.parser (hexAddr addr)).run = .ok (.ok addr.swapped) := by
  cases addr
  case v4 => exact parseIpv4Hex_hexAddr
  case v6 => exact parseIpv6Hex_hexAddr

theorem words_append : word octets 0 ++ word octets 1 ++ word octets 2 ++ word octets 3 = octets := by
  refine Vector.ext fun i hi => ?_
  simp only [Vector.getElem_append, word, Vector.getElem_ofFn]
  interval_cases i <;> rfl

theorem swapped_eq_iff : addr.swapped = addr ↔ ∀ bytes ∈ addr.words, bytes.reverse = bytes := by
  cases addr
  case v4 => simp [IpAddr.swapped, IpAddr.words]
  case v6 octets =>
    simp only [IpAddr.swapped, IpAddr.words, IpAddr.v6.injEq, List.forall_mem_cons]
    constructor
    case mp =>
      intro h
      obtain ⟨h, h₃⟩ := Vector.append_inj (h.trans words_append.symm)
      obtain ⟨h, h₂⟩ := Vector.append_inj h
      obtain ⟨h₀, h₁⟩ := Vector.append_inj h
      exact ⟨h₀, h₁, h₂, h₃, List.forall_mem_nil _⟩
    case mpr =>
      rintro ⟨h₀, h₁, h₂, h₃, -⟩
      rw [h₀, h₁, h₂, h₃, words_append]

end Addresses

section Lines

variable {sl n : Nat} {addr remAddr : IpAddr} {port remPort : UInt16} {part rest fields : Text}

theorem splitWhitespace_space : splitWhitespace (' ' :: rest) = splitWhitespace rest := by
  rw [splitWhitespace, List.splitOnP_cons_eq_if_modifyHead, if_pos (by decide),
    List.filter_cons_of_neg (by simp)]
  rfl

theorem splitWhitespace_part (hp : part ≠ []) (h : ∀ c ∈ part, isWhitespace c = false) :
    splitWhitespace (part ++ ' ' :: rest) = part :: splitWhitespace rest := by
  rw [splitWhitespace, List.splitOnP_append_cons_of_forall_mem h ' ' (by decide),
    List.filter_cons_of_pos (by simpa using hp)]
  rfl

theorem splitWhitespace_lineNumber : splitWhitespace (lineNumber sl ++ rest) =
    (Nat.toDigits 10 sl ++ [':']) :: splitWhitespace rest := by
  have hd : ∀ c ∈ Nat.toDigits 10 sl ++ [':'], isWhitespace c = false := by
    intro c hc
    obtain hc | hc := List.mem_append.mp hc
    case inl =>
      obtain ⟨d, hd, rfl⟩ := Digits.mem_toDigits (by decide) hc
      have hs : ∀ d < 10, isWhitespace (Nat.digitChar d) = false := by decide
      exact hs d hd
    case inr => exact List.mem_singleton.mp hc ▸ rfl
  have hs (n : Nat) (rest : Text) :
      splitWhitespace (List.replicate n ' ' ++ rest) = splitWhitespace rest := by
    induction n
    case zero      => rfl
    case succ n hi => rw [List.replicate_succ, List.cons_append, splitWhitespace_space, hi]
  have hl : lineNumber sl ++ rest = List.replicate (4 - (Nat.toDigits 10 sl).length) ' ' ++
      (Nat.toDigits 10 sl ++ [':'] ++ ' ' :: rest) := by simp [lineNumber]
  rw [hl, hs, splitWhitespace_part (by simp) hd]

theorem splitWhitespace_hexSocket : splitWhitespace (hexSocket addr port ++ ' ' :: rest) =
    hexSocket addr port :: splitWhitespace rest := by
  refine splitWhitespace_part (by simp [hexSocket]) fun c hc => ?_
  obtain hc | hc := List.mem_append.mp hc
  case inl => exact (plain_of_mem_hexAddr c hc).2.2.1
  case inr =>
    obtain rfl | hc := List.mem_cons.mp hc
    case inl => rfl
    case inr => exact (plain_of_mem_hex hc).2.2.1

theorem splitWhitespace_procLine :
    splitWhitespace (procLine sl addr port remAddr remPort fields) =
      (Nat.toDigits 10 sl ++ [':']) :: hexSocket addr port :: hexSocket remAddr remPort ::
        hex 2 stateListen :: splitWhitespace fields := by
  rw [procLine, List.append_assoc, splitWhitespace_lineNumber, splitWhitespace_hexSocket,
    splitWhitespace_hexSocket,
    splitWhitespace_part hex_ne_nil fun c hc => (plain_of_mem_hex hc).2.2.1]

theorem splitOn_hexSocket :
    (hexSocket addr port).splitOn ':' = [hexAddr addr, hex 4 port.toNat] := by
  have ha : ':' ∉ hexAddr addr := fun h => (plain_of_mem_hexAddr _ h).2.1 rfl
  have hp : ':' ∉ hex 4 port.toNat := fun h => (plain_of_mem_hex h).2.1 rfl
  rw [hexSocket, List.splitOn_append_cons_self_of_not_mem ha, List.splitOn_eq_singleton hp]

theorem parseHexPort_hex : parseHexPort (hex 4 port.toNat) = .ok port := by
  rw [parseHexPort, fromStrRadix_hex port.toNat_lt]
  exact congrArg Except.ok (UInt16.ofNat_toNat)

theorem parseListenLine_procLine :
    parseListenLine (procLine sl addr port remAddr remPort fields) addr.parser =
      .ok (some (.ok ⟨addr.swapped, port⟩)) := by
  have hs : fromStrRadix 8 (hex 2 stateListen) = some stateListen := fromStrRadix_hex (by decide)
  simp only [parseListenLine, splitWhitespace_procLine, hs, if_true, splitOn_hexSocket,
    parseHexPort_hex, parser_hexAddr]
  rfl

-- A listening socket is read as the one that it is if and only if each word of its address reads
-- the same in both directions.
theorem parseListenLine_iff :
    parseListenLine (procLine sl addr port remAddr remPort fields) addr.parser =
      .ok (some (.ok ⟨addr, port⟩)) ↔ ∀ bytes ∈ addr.words, bytes.reverse = bytes := by
  rw [parseListenLine_procLine, ←swapped_eq_iff]
  simp

-- `127.0.0.1` is taken for `1.0.0.127`.
theorem parseListenLine_loopback :
    procLine 0 (.v4 #v[127, 0, 0, 1]) 8080 (.v4 #v[0, 0, 0, 0]) 0 [] =
      "   0: 0100007F:1F90 00000000:0000 0A ".toList ∧
    parseListenLine (procLine 0 (.v4 #v[127, 0, 0, 1]) 8080 (.v4 #v[0, 0, 0, 0]) 0 [])
      parseIpv4Hex = .ok (some (.ok ⟨.v4 #v[1, 0, 0, 127], 8080⟩)) ∧
    ¬∀ sl addr port remAddr remPort fields,
      parseListenLine (procLine sl addr port remAddr remPort fields) addr.parser =
        .ok (some (.ok ⟨addr, port⟩)) := by
  have hp := @parseListenLine_procLine 0 (.v4 #v[127, 0, 0, 1]) (.v4 #v[0, 0, 0, 0]) 8080 0 []
  have hs : (IpAddr.v4 #v[127, 0, 0, 1]).swapped = .v4 #v[1, 0, 0, 127] := by decide +kernel
  rw [hs] at hp
  refine ⟨by decide +kernel, hp, fun h => ?_⟩
  have hl := h 0 (.v4 #v[127, 0, 0, 1]) 8080 (.v4 #v[0, 0, 0, 0]) 0 []
  exact absurd (hp.symm.trans hl) (by decide)

end Lines

end TlsProbe.Listeners
