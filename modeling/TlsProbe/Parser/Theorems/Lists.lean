import TlsProbe.Lib.Elements
import TlsProbe.Parser.Theorems.Utf8

namespace TlsProbe

open Elements

-- The 16-bit code that the bytes start with.
def codeAt : List UInt8 → UInt16
  | hi :: lo :: _ => u16FromBeBytes hi lo
  | _             => 0

def codeSize : List UInt8 → Option Nat
  | _ :: _ :: _ => some 2
  | _           => none

-- A key share's group comes first, then the length of the key and the key. The key's bytes need not
-- be there.
def keyShareSize : List UInt8 → Option Nat
  | _ :: _ :: k₁ :: k₂ :: _ => some (4 + (u16FromBeBytes k₁ k₂).toNat)
  | _                       => none

def protocolSize : List UInt8 → Option Nat
  | protoLen :: rest => if protoLen.toNat ≤ rest.length then some (1 + protoLen.toNat) else none
  | []               => none

def protocolAt : List UInt8 → String
  | protoLen :: rest => fromUtf8Lossy (rest.take protoLen.toNat)
  | []               => ""

theorem codeSize_pos {l : List UInt8} {k : Nat} (h : codeSize l = some k) : 0 < k := by
  unfold codeSize at h
  split at h
  case h_1 => simp at h; omega
  case h_2 => contradiction

theorem keyShareSize_pos {l : List UInt8} {k : Nat} (h : keyShareSize l = some k) : 0 < k := by
  unfold keyShareSize at h
  split at h
  case h_1 => simp at h; omega
  case h_2 => contradiction

theorem protocolSize_pos {l : List UInt8} {k : Nat} (h : protocolSize l = some k) : 0 < k := by
  unfold protocolSize at h
  split at h
  case h_1 => simp at h; omega
  case h_2 => contradiction

def codeElements : Elements UInt8 UInt16 where
  size     := codeSize
  value    := codeAt
  width    := fun _ => 2
  size_pos := codeSize_pos

-- Of a key share only the group is returned.
def keyShareElements : Elements UInt8 UInt16 where
  size     := keyShareSize
  value    := codeAt
  width    := fun _ => 2
  size_pos := keyShareSize_pos

def protocolElements : Elements UInt8 String where
  size     := protocolSize
  value    := protocolAt
  width    := id
  size_pos := protocolSize_pos

section Loops

variable {n k : Nat} {data : List UInt8}

-- The three loops of the extractors read such lists.
theorem codeList_eq : codeList n data = codeElements.list n data := by
  fun_induction codeList n data
  case case1 n hi lo rest hn ih =>
    have hs : codeElements.size (hi :: lo :: rest) = some 2 := rfl
    rw [list_some hs, if_pos hn, ih]
    rfl
  case case2 n hi lo rest hn =>
    have hs : codeElements.size (hi :: lo :: rest) = some 2 := rfl
    rw [list_some hs, if_neg hn]
  case case3 data n h =>
    have hs : codeElements.size data = none := by
      simp only [codeElements]
      unfold codeSize
      split
      case h_1 => exact absurd rfl (h _ _ _)
      case h_2 => rfl
    rw [list_none hs]

theorem keyShares_eq : keyShares n data = keyShareElements.list n data := by
  fun_induction keyShares n data
  case case1 n g₁ g₂ k₁ k₂ rest keyLen hn ih =>
    have hs : keyShareElements.size (g₁ :: g₂ :: k₁ :: k₂ :: rest) = some (4 + keyLen) := rfl
    rw [list_some hs, if_pos hn, ih, ←List.drop_drop]
    rfl
  case case2 n g₁ g₂ k₁ k₂ rest hn =>
    have hs : keyShareElements.size (g₁ :: g₂ :: k₁ :: k₂ :: rest) =
        some (4 + (u16FromBeBytes k₁ k₂).toNat) := rfl
    rw [list_some hs, if_neg hn]
  case case3 n data h =>
    have hs : keyShareElements.size data = none := by
      simp only [keyShareElements]
      unfold keyShareSize
      split
      case h_1 => exact absurd rfl (h _ _ _ _ _)
      case h_2 => rfl
    rw [list_none hs]

theorem alpnProtocols_eq : alpnProtocols n data = protocolElements.list n data := by
  fun_induction alpnProtocols n data
  case case1 n protoLen rest h ih =>
    have hs : protocolElements.size (protoLen :: rest) = some (1 + protoLen.toNat) := if_pos h.2
    rw [list_some hs, if_pos h.1, ih, Nat.add_comm 1, List.drop_succ_cons]
    rfl
  case case2 n protoLen rest h =>
    by_cases hl : protoLen.toNat ≤ rest.length
    case pos =>
      have hs : protocolElements.size (protoLen :: rest) = some (1 + protoLen.toNat) := if_pos hl
      rw [list_some hs, if_neg fun hn => h ⟨hn, hl⟩]
    case neg =>
      have hs : protocolElements.size (protoLen :: rest) = none := if_neg hl
      rw [list_none hs]
  case case3 n => rw [list_none (E := protocolElements) rfl]

end Loops

section Laws

variable {n k : Nat} {data data' : List UInt8}

theorem codeSize_eq : codeSize data = if 2 ≤ data.length then some 2 else none := by
  fun_cases codeSize data
  case case1 => simp
  case case2 h =>
    rw [if_neg]
    exact fun hl => by
      match data with
      | _ :: _ :: _ => exact h _ _ _ rfl

theorem codeAt_take : codeAt (data.take 2) = codeAt data := by
  match data with
  | [] | [_] | _ :: _ :: _ => rfl

theorem codeAt_congr (ha : Agree 2 data data') : codeAt data' = codeAt data := by
  rw [←codeAt_take, ha.2, codeAt_take]

-- A code of which only the first byte is within the list.
theorem codeAt_over (hl : 2 ≤ data.length) :
    ∃ data', Agree 1 data data' ∧ codeAt data' ≠ codeAt data := by
  match data with
  | hi :: lo :: rest =>
    refine ⟨hi :: (lo + 1) :: rest, ⟨rfl, rfl⟩, fun h => ?_⟩
    have := congrArg UInt16.toNat h
    simp only [codeAt, u16FromBeBytes_toNat] at this
    have : lo + 1 = lo := UInt8.toNat_inj.mp (by omega)
    simp at this

theorem codeElements_lawful : Lawful codeElements where
  size  := by
    intro n data data' ha _
    simp only [codeElements, codeSize_eq, ha.1, true_or]
  value := fun _ ha => codeAt_congr ha
  reads := by
    intro n k data hs hn hw
    have hl : 2 ≤ data.length := by
      by_contra hl
      simp only [codeElements, codeSize_eq, if_neg hl] at hs
      contradiction
    obtain rfl : n = 1 := by simp only [codeElements] at hw; omega
    exact codeAt_over hl

theorem keyShareSize_none (hl : data.length < 4) : keyShareSize data = none := by
  match data with
  | [] | [_] | [_, _] | [_, _, _] => rfl
  | _ :: _ :: _ :: _ :: _         => simp at hl; omega

theorem keyShareSize_some (hl : 4 ≤ data.length) : ∃ k, keyShareSize data = some (4 + k) := by
  match data with
  | _ :: _ :: k₁ :: k₂ :: _ => exact ⟨_, rfl⟩

theorem keyShareSize_take : keyShareSize (data.take 4) = keyShareSize data := by
  match data with
  | [] | [_] | [_, _] | [_, _, _] | _ :: _ :: _ :: _ :: _ => rfl

theorem keyShareSize_length (hs : keyShareSize data = some k) : 4 ≤ data.length ∧ 4 ≤ k := by
  have hl : 4 ≤ data.length := by
    by_contra hl
    rw [keyShareSize_none (Nat.lt_of_not_le hl)] at hs
    contradiction
  obtain ⟨j, hj⟩ := keyShareSize_some hl
  obtain rfl := Option.some.inj (hj.symm.trans hs)
  exact ⟨hl, Nat.le_add_right 4 j⟩

theorem keyShareElements_lawful : Lawful keyShareElements where
  size  := by
    intro n data data' ha _
    simp only [keyShareElements]
    by_cases hn : 4 ≤ n
    case pos =>
      refine .inl ?_
      rw [←keyShareSize_take, (ha.mono hn).2, keyShareSize_take]
    case neg =>
      by_cases hl : 4 ≤ data.length
      case pos =>
        -- The length of the key is not within the list, but neither is what comes next.
        obtain ⟨k, hk⟩   := keyShareSize_some hl
        obtain ⟨k', hk'⟩ := keyShareSize_some (ha.1 ▸ hl)
        exact .inr ⟨_, _, hk, hk', by omega, by omega⟩
      case neg =>
        refine .inl ?_
        have hl' : data'.length < 4 := by
          have := ha.1
          omega
        rw [keyShareSize_none hl', keyShareSize_none (Nat.lt_of_not_le hl)]
  value := fun _ ha => codeAt_congr ha
  reads := by
    intro n k data hs hn hw
    obtain ⟨hl, -⟩ := keyShareSize_length hs
    obtain rfl : n = 1 := by simp only [keyShareElements] at hw; omega
    exact codeAt_over (by omega)

theorem protocolSize_eq_some :
    protocolSize data = some k ↔
      ∃ protoLen rest, data = protoLen :: rest ∧ protoLen.toNat ≤ rest.length ∧
        k = 1 + protoLen.toNat := by
  match data with
  | []               => simp [protocolSize]
  | protoLen :: rest =>
    simp only [protocolSize, Option.ite_none_right_eq_some, Option.some.injEq, List.cons.injEq]
    constructor
    case mp =>
      rintro ⟨hl, rfl⟩
      exact ⟨protoLen, rest, ⟨rfl, rfl⟩, hl, rfl⟩
    case mpr =>
      rintro ⟨_, _, ⟨rfl, rfl⟩, hl, rfl⟩
      exact ⟨hl, rfl⟩

-- A protocol whose last byte may be any.
theorem protocolAt_over (hs : protocolSize data = some k) (hn : 0 < n) (hk : n < k) :
    ∃ data', Agree n data data' ∧ protocolAt data' ≠ protocolAt data := by
  obtain ⟨protoLen, rest, rfl, hl, rfl⟩ := protocolSize_eq_some.mp hs
  obtain ⟨len, hp⟩ : ∃ len, protoLen.toNat = len + 1 := Nat.exists_eq_add_of_le' (by omega)
  have hr : (rest.take len).length = len := by rw [List.length_take]; omega
  let change (c : UInt8) := protoLen :: (rest.take len ++ c :: rest.drop (len + 1))
  have ha (c : UInt8) : Agree n (protoLen :: rest) (change c) := by
    refine ⟨by simp [change]; omega, ?_⟩
    obtain ⟨m, rfl⟩ := Nat.exists_eq_add_of_le' hn
    simp only [change, List.take_succ_cons]
    rw [List.take_append_of_le_length (by omega), List.take_take, Nat.min_eq_left (by omega)]
  have hv {c : UInt8} (hc : c < 0x80) :
      protocolAt (change c) = fromUtf8Lossy (rest.take len) ++ fromUtf8Lossy [c] := by
    have ht : (rest.take len ++ c :: rest.drop (len + 1)).take (len + 1) = rest.take len ++ [c] := by
      rw [←List.singleton_append, ←List.append_assoc, List.take_left' (by simp [hr])]
    simp only [change, protocolAt, hp, ht, fromUtf8Lossy_append hc]
  by_cases h : protocolAt (change 0x61) = protocolAt (protoLen :: rest)
  case neg => exact ⟨_, ha _, h⟩
  case pos =>
    refine ⟨_, ha 0x62, fun h' => ?_⟩
    have := h'.trans h.symm
    rw [hv (by decide), hv (by decide), String.append_right_inj] at this
    exact absurd this (by decide +kernel)

theorem protocolElements_lawful : Lawful protocolElements where
  size  := by
    intro n data data' ha hn
    refine .inl ?_
    match data with
    | []               => rw [List.length_eq_zero_iff.mp ha.1]
    | protoLen :: rest =>
      obtain ⟨rest', rfl, hl, -⟩ := ha.cons hn
      simp only [protocolElements, protocolSize, hl]
  value := by
    intro k data data' hs ha
    obtain ⟨protoLen, rest, rfl, -, rfl⟩ := protocolSize_eq_some.mp hs
    obtain ⟨rest', rfl, -, ht⟩ := ha.cons (Nat.add_pos_left Nat.one_pos _)
    have hw : protocolElements.width (1 + protoLen.toNat) - 1 = protoLen.toNat :=
      Nat.add_sub_cancel_left 1 _
    rw [hw] at ht
    simp only [protocolElements, protocolAt, ht]
  reads := protocolAt_over

-- Only the last of the codes of a list of odd length may be read over the list's end.
theorem codeElements_overruns_iff : codeElements.Overruns n data ↔ n % 2 = 1 ∧ n < data.length := by
  induction n using Nat.strongRecOn generalizing data
  case ind n hi =>
    by_cases hn : 0 < n
    case neg =>
      obtain rfl := Nat.eq_zero_of_not_pos hn
      exact iff_of_false not_overruns_zero (by simp)
    case pos =>
      by_cases hl : 2 ≤ data.length
      case pos =>
        have hs : codeElements.size data = some 2 := codeSize_eq.trans (if_pos hl)
        have hw : codeElements.width 2 = 2 := rfl
        rw [overruns_iff hs hn, hi (n - 2) (by omega), hw, List.length_drop]
        omega
      case neg =>
        have hs : codeElements.size data = none := codeSize_eq.trans (if_neg hl)
        refine iff_of_false (not_overruns_none hs) ?_
        omega

end Laws

-- The lists that the extractors read from the body of an extension, after the list's length.
inductive ListKind
  | supportedVersions
  | supportedGroups
  | signatureAlgorithms
  | signatureAlgorithmsCert
  | keyShare
  | alpn

namespace ListKind

def Element : ListKind → Type
  | alpn => String
  | _    => UInt16

def extract : (kind : ListKind) → Extension → List kind.Element
  | supportedVersions,       ext => extractSupportedVersions ext true
  | supportedGroups,         ext => extractSupportedGroups ext
  | signatureAlgorithms,     ext => extractSignatureAlgorithms ext
  | signatureAlgorithmsCert, ext => extractSignatureAlgorithmsCert ext
  | keyShare,                ext => extractKeyShareGroups ext true
  | alpn,                    ext => extractAlpn ext

def elements : (kind : ListKind) → Elements UInt8 kind.Element
  | supportedVersions       => codeElements
  | supportedGroups         => codeElements
  | signatureAlgorithms     => codeElements
  | signatureAlgorithmsCert => codeElements
  | keyShare                => keyShareElements
  | alpn                    => protocolElements

-- How many bytes the length of the list takes.
def lengthSize : ListKind → Nat
  | supportedVersions => 1
  | _                 => 2

-- The declared length of the list.
def listLen : ListKind → List UInt8 → Nat
  | supportedVersions, n :: _        => n.toNat
  | supportedVersions, []            => 0
  | _,                 hi :: lo :: _ => (u16FromBeBytes hi lo).toNat
  | _,                 _             => 0

-- Where the list ends, by its declared length.
def listEnd (kind : ListKind) (data : List UInt8) : Nat :=
  kind.lengthSize + kind.listLen data

-- No change of the bytes behind the list makes a difference.
def StaysInside (kind : ListKind) (ext : Extension) : Prop :=
  ∀ data, Agree (kind.listEnd ext.data) ext.data data →
    kind.extract { ext with data := data } = kind.extract ext

-- No element starts within the list, is all there and ends outside of the list: for the codes this
-- depends on the lengths alone, for the others on the sizes of the elements that come before. Of a
-- key share only the group counts.
def EndsInside (kind : ListKind) (data : List UInt8) : Prop :=
  match kind with
  | keyShare | alpn => ¬kind.elements.Overruns (kind.listLen data) (data.drop kind.lengthSize)
  | _               => kind.listLen data % 2 = 0 ∨ data.length ≤ kind.listEnd data

theorem elements_lawful : (kind : ListKind) → Lawful kind.elements
  | supportedVersions       => codeElements_lawful
  | supportedGroups         => codeElements_lawful
  | signatureAlgorithms     => codeElements_lawful
  | signatureAlgorithmsCert => codeElements_lawful
  | keyShare                => keyShareElements_lawful
  | alpn                    => protocolElements_lawful

variable {kind : ListKind} {t : ExtensionType} {header list : List UInt8}

theorem extract_append (h : header.length = kind.lengthSize) (list : List UInt8) :
    kind.extract ⟨t, header ++ list⟩ = kind.elements.list (kind.listLen header) list := by
  cases kind
  case supportedVersions =>
    obtain ⟨n, rfl⟩ := List.length_eq_one_iff.mp h
    exact codeList_eq
  all_goals obtain ⟨hi, lo, rfl⟩ := List.length_eq_two.mp h
  case keyShare => exact keyShares_eq
  case alpn     => exact alpnProtocols_eq
  all_goals exact codeList_eq

theorem listLen_append (h : header.length = kind.lengthSize) (list : List UInt8) :
    kind.listLen (header ++ list) = kind.listLen header := by
  cases kind
  case supportedVersions =>
    obtain ⟨n, rfl⟩ := List.length_eq_one_iff.mp h
    rfl
  all_goals
    obtain ⟨hi, lo, rfl⟩ := List.length_eq_two.mp h
    rfl

theorem listLen_short {data : List UInt8} (h : data.length < kind.lengthSize) :
    kind.listLen data = 0 := by
  cases kind
  case supportedVersions =>
    rw [List.length_eq_zero_iff.mp (Nat.lt_one_iff.mp h)]
    rfl
  all_goals
    match data with
    | [] | [_]    => rfl
    | _ :: _ :: _ => simp only [lengthSize, List.length_cons] at h; omega

theorem endsInside_iff {data : List UInt8} :
    kind.EndsInside data ↔
      ¬kind.elements.Overruns (kind.listLen data) (data.drop kind.lengthSize) := by
  have hc {n k : Nat} (hn : data.length < k → n = 0) :
      n % 2 = 0 ∨ data.length ≤ k + n ↔ ¬codeElements.Overruns n (data.drop k) := by
    rw [codeElements_overruns_iff, List.length_drop]
    omega
  have hn := @listLen_short kind data
  cases kind
  case keyShare => rfl
  case alpn     => rfl
  all_goals exact hc hn

theorem staysInside_iff (kind : ListKind) (ext : Extension) :
    kind.StaysInside ext ↔ kind.EndsInside ext.data := by
  obtain ⟨t, data⟩ := ext
  by_cases hl : kind.lengthSize ≤ data.length
  case pos =>
    have hh : (data.take kind.lengthSize).length = kind.lengthSize := by
      rw [List.length_take, Nat.min_eq_left hl]
    have hn := listLen_append hh (data.drop kind.lengthSize)
    rw [List.take_append_drop] at hn
    have hc := @confined_header _ _ kind.elements (data.drop kind.lengthSize)
      (kind.listLen (data.take kind.lengthSize)) (fun data => kind.extract ⟨t, data⟩)
      (data.take kind.lengthSize) (extract_append hh)
    rw [List.take_append_drop, hh, ←hn] at hc
    rw [endsInside_iff, ←kind.elements_lawful.confined_iff_not_overruns]
    exact hc
  case neg =>
    have hn := listLen_short (Nat.lt_of_not_le hl)
    refine iff_of_true (fun data' ha => ?_) ?_
    · have he := ha.eq_of_length_le (show data.length ≤ kind.lengthSize + _ by omega)
      simp only [he]
    · rw [endsInside_iff, hn]
      exact not_overruns_zero

-- The second byte of the last group is not within the list.
theorem supportedGroups_leaves :
    ¬supportedGroups.StaysInside ⟨.supportedGroups, [0x00, 0x01, 0x00, 0x1d]⟩ := by
  intro h
  have he : ([0x0017] : List UInt16) = [0x001d] := h [0x00, 0x01, 0x00, 0x17] ⟨rfl, rfl⟩
  exact absurd he (by decide)

end ListKind

end TlsProbe
