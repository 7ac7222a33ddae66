import Mathlib.Data.List.GetD
import TlsProbe.Parser.Theorems.Fields
import TlsProbe.Reassembler.Basic

namespace TlsProbe

open Reader

section Block

variable {t₁ t₂ l₁ l₂ : UInt8} {n d : Nat} {block rest : List UInt8}

theorem parseExtensions_short (h : block.length < 4) : parseExtensions block = [] := by
  rw [parseExtensions.eq_def]
  split
  case h_1 => simp at h; omega
  case h_2 => rfl

theorem extensionIds_short (h : block.length < 4) : extensionIds block = [] := by
  rw [extensionIds.eq_def]
  split
  case h_1 => simp at h; omega
  case h_2 => rfl

-- The two lists for the first `n` bytes of what starts with a whole extension header.
theorem parseExtensions_take (hd : (u16FromBeBytes l₁ l₂).toNat = d) :
    parseExtensions ((t₁ :: t₂ :: l₁ :: l₂ :: rest).take n) =
      if 4 + d ≤ n ∧ d ≤ rest.length then
        { extType := .ofU16 (u16FromBeBytes t₁ t₂), data := rest.take d } ::
          parseExtensions ((rest.drop d).take (n - (4 + d)))
      else
        [] := by
  by_cases hn : n < 4
  case pos =>
    rw [parseExtensions_short (by simp; omega), if_neg (by omega)]
  case neg =>
    obtain ⟨k, rfl⟩ := Nat.exists_eq_add_of_le' (Nat.le_of_not_lt hn)
    have hk : k + 4 - (4 + d) = k - d := by omega
    simp only [List.take_succ_cons, parseExtensions, hd, List.length_take, List.take_take,
      List.drop_take, hk]
    by_cases h : d ≤ k ∧ d ≤ rest.length
    case pos => rw [if_pos (by omega), if_pos (by omega), Nat.min_eq_left h.1]
    case neg => rw [if_neg (by omega), if_neg (by omega)]

theorem extensionIds_take (hd : (u16FromBeBytes l₁ l₂).toNat = d) :
    extensionIds ((t₁ :: t₂ :: l₁ :: l₂ :: rest).take n) =
      if 4 ≤ n then
        u16FromBeBytes t₁ t₂ :: extensionIds ((rest.drop d).take (n - (4 + d)))
      else
        [] := by
  by_cases hn : n < 4
  case pos =>
    rw [extensionIds_short (by simp; omega), if_neg (by omega)]
  case neg =>
    obtain ⟨k, rfl⟩ := Nat.exists_eq_add_of_le' (Nat.le_of_not_lt hn)
    have hk : k + 4 - (4 + d) = k - d := by omega
    rw [if_pos (by omega), hk]
    simp only [List.take_succ_cons, extensionIds, hd, List.drop_take]

end Block

-- What a hello keeps of its extension block. The server's has no list of raw types.
def blockLists (isClientHello : Bool) (block : List UInt8) : List UInt16 × List Extension :=
  (if isClientHello then extensionIds block else [], parseExtensions block)

-- Whether the bytes of a record settle the extension list of `n` bytes that they start: the list
-- is over before the bytes are. It also is when an extension is longer than what is left of the
-- list. For the server, which does not list such an extension, three bytes of its header can do.
def closes (isClientHello : Bool) (n : Nat) : List UInt8 → Bool
  | _ :: _ :: l₁ :: l₂ :: rest =>
    let extLen := (u16FromBeBytes l₁ l₂).toNat
    n < 4 + extLen ||
      extLen ≤ rest.length && closes isClientHello (n - (4 + extLen)) (rest.drop extLen)
  | [_, _, l₁] => n < 4 || !isClientHello && n < 4 + l₁.toNat * 256
  | _          => n < 4
termination_by block => block.length

section BlockLists

variable {isClientHello : Bool} {t₁ t₂ l₁ l₂ : UInt8} {n d : Nat} {block rest : List UInt8}

theorem blockLists_short (h : block.length < 4) : blockLists isClientHello block = ([], []) := by
  simp [blockLists, parseExtensions_short h, extensionIds_short h]

theorem blockLists_overlong (hd : (u16FromBeBytes l₁ l₂).toNat = d) (hn : n < 4 + d) :
    blockLists isClientHello ((t₁ :: t₂ :: l₁ :: l₂ :: rest).take n) =
      (if isClientHello ∧ 4 ≤ n then [u16FromBeBytes t₁ t₂] else [], []) := by
  have hk : n - (4 + d) = 0 := by omega
  have he : ¬(4 + d ≤ n ∧ d ≤ rest.length) := by omega
  simp only [blockLists, parseExtensions_take hd, extensionIds_take hd, hk, List.take_zero,
    extensionIds_short (show ([] : List UInt8).length < 4 by simp), if_neg he]
  cases isClientHello <;> simp

theorem blockLists_whole (hd : (u16FromBeBytes l₁ l₂).toNat = d) (hn : 4 + d ≤ n)
    (hr : d ≤ rest.length) :
    blockLists isClientHello ((t₁ :: t₂ :: l₁ :: l₂ :: rest).take n) =
      let lists := blockLists isClientHello ((rest.drop d).take (n - (4 + d)))
      (if isClientHello then u16FromBeBytes t₁ t₂ :: lists.1 else [],
        { extType := .ofU16 (u16FromBeBytes t₁ t₂), data := rest.take d } :: lists.2) := by
  simp only [blockLists, parseExtensions_take hd, extensionIds_take hd, if_pos (And.intro hn hr),
    if_pos (show 4 ≤ n by omega)]
  cases isClientHello <;> rfl

-- The header of an extension that is there in whole leaves a trace in the lists, and in the case of
-- the client even without the extension's data.
theorem blockLists_ne_nil (hd : (u16FromBeBytes l₁ l₂).toNat = d) (hn : 4 ≤ n)
    (h : isClientHello ∨ 4 + d ≤ n ∧ d ≤ rest.length) :
    blockLists isClientHello ((t₁ :: t₂ :: l₁ :: l₂ :: rest).take n) ≠ ([], []) := by
  simp only [blockLists, parseExtensions_take hd, extensionIds_take hd, if_pos hn]
  cases h
  case inl h => simp [h]
  case inr h => simp [h]

-- Of the header of an extension, only the last byte is missing.
theorem closes_iff_cut : (∀ x, blockLists isClientHello (([t₁, t₂, l₁] ++ x).take n) =
    blockLists isClientHello ([t₁, t₂, l₁].take n)) ↔ closes isClientHello n [t₁, t₂, l₁] := by
  have hw : blockLists isClientHello ([t₁, t₂, l₁].take n) = ([], []) := blockLists_short (by simp)
  simp only [closes, hw, Bool.or_eq_true, Bool.and_eq_true, Bool.not_eq_true', decide_eq_true_eq]
  constructor
  case mp =>
    -- A zero for the missing byte makes the extension as short as the header's start allows.
    intro h
    have hd := u16FromBeBytes_toNat l₁ 0
    by_contra hc
    have hx := h <| 0 :: List.replicate (l₁.toNat * 256) 0
    refine blockLists_ne_nil hd ?_ ?_ hx
    case refine_1 => omega
    case refine_2 => cases isClientHello <;> simp_all
  case mpr =>
    rintro h (_ | ⟨l₂, x⟩)
    case nil => rwa [List.append_nil]
    have hd := u16FromBeBytes_toNat l₁ l₂
    simp only [List.cons_append, List.nil_append]
    rw [blockLists_overlong hd (by omega)]
    simp only [Prod.mk.injEq, ite_eq_right_iff, and_true]
    rintro ⟨hc, hn⟩
    cases h
    case inl h => omega
    case inr h => exact absurd hc (by simp [h.1])

-- Any length can follow, none at all included.
theorem closes_iff_short (hr : rest.length < 3) :
    (∀ x, blockLists isClientHello ((rest ++ x).take n) =
      blockLists isClientHello (rest.take n)) ↔ n < 4 := by
  have hs : (rest.take n).length < 4 := by simp; omega
  rw [blockLists_short hs]
  constructor
  case mp =>
    intro h
    by_contra hn
    match rest with
    | []     => exact blockLists_ne_nil (d := 0) rfl (by omega) (by simp; omega) (h [0, 0, 0, 0])
    | [_]    => exact blockLists_ne_nil (d := 0) rfl (by omega) (by simp; omega) (h [0, 0, 0])
    | [_, _] => exact blockLists_ne_nil (d := 0) rfl (by omega) (by simp; omega) (h [0, 0])
  case mpr => exact fun hn x => blockLists_short (by simp; omega)

theorem closes_iff :
    (∀ x, blockLists isClientHello ((rest ++ x).take n) = blockLists isClientHello (rest.take n)) ↔
      closes isClientHello n rest := by
  induction n, rest using closes.induct
  case case1 n t₁ t₂ l₁ l₂ rest extLen ih =>
    have hd : (u16FromBeBytes l₁ l₂).toNat = extLen := rfl
    rw [closes]
    simp only [List.cons_append, hd, Bool.or_eq_true, Bool.and_eq_true, decide_eq_true_eq, ←ih]
    by_cases h₁ : n < 4 + extLen
    case pos => simp only [blockLists_overlong hd h₁, h₁, true_or, implies_true]
    have hn := Nat.le_of_not_lt h₁
    by_cases h₂ : extLen ≤ rest.length
    case pos =>
      have h₂' (x : List UInt8) : extLen ≤ (rest ++ x).length := by simp; omega
      simp only [blockLists_whole hd hn h₂, blockLists_whole hd hn (h₂' _), h₁, h₂, false_or,
        true_and, List.take_append_of_le_length h₂, List.drop_append_of_le_length h₂]
      cases isClientHello <;> simp [blockLists]
    case neg =>
      simp only [h₁, h₂, false_or, false_and, iff_false, not_forall]
      use List.replicate extLen 0
      simp [blockLists, parseExtensions_take hd, hn, h₂]
  case case2 => exact closes_iff_cut
  case case3 n rest h₁ h₂ =>
    have hr : rest.length < 3 := by
      match rest with
      | [] | [_] | [_, _]     => simp
      | [_, _, _]             => exact absurd rfl (h₂ _ _ _)
      | _ :: _ :: _ :: _ :: _ => exact absurd rfl (h₁ _ _ _ _ _)
    rw [closes_iff_short hr, closes, decide_eq_true_eq]
    case x_2 => exact h₁
    case x_3 => exact h₂

end BlockLists

-- Whether the bytes of a record settle the extension block for which they are all there is.
def blockCloses (isClientHello : Bool) : List UInt8 → Bool
  | hi :: lo :: rest => closes isClientHello (u16FromBeBytes hi lo).toNat rest
  | _                => false

theorem blockCloses_iff {isClientHello : Bool} {tail : List UInt8} :
    (∀ x, blockLists isClientHello (extensionBlock (tail ++ x)) =
      blockLists isClientHello (extensionBlock tail)) ↔ blockCloses isClientHello tail := by
  -- A block of one extension that has no data.
  have hz {n : Nat} (hn : 4 ≤ n) : blockLists isClientHello ([0, 0, 0, 0].take n) ≠ ([], []) :=
    blockLists_ne_nil (d := 0) rfl hn (by simpa using Or.inr hn)
  have h₀ : blockLists isClientHello [] = ([], []) := blockLists_short (by simp)
  match tail with
  | hi :: lo :: rest => exact closes_iff
  | [] =>
    simp only [blockCloses, Bool.false_eq_true, iff_false, not_forall]
    exact ⟨[0, 4, 0, 0, 0, 0], fun h => hz le_rfl (h.trans h₀)⟩
  | [hi] =>
    simp only [blockCloses, Bool.false_eq_true, iff_false, not_forall]
    have hn : (u16FromBeBytes hi 4).toNat = hi.toNat * 256 + 4 := u16FromBeBytes_toNat hi 4
    exact ⟨[4, 0, 0, 0, 0], fun h => hz (by omega) (h.trans h₀)⟩

-- What the parsers of the two hellos have in common: how far the fixed part of the hello reaches is
-- up to the lengths it declares, and the extension block only shows in the lists read from it.
structure Layout {H : Type} (isClientHello : Bool) (fields : Parser H)
    (withExtensions : H → List UInt8 → H) (extensionsAt : List UInt8 → Nat) : Prop where
  extend : Extends fields
  reach  : ∃ k, Reaches k fields
  endsAt : ∀ payload offset, fields.EndsAt payload helloStart offset ↔
    extensionsAt payload = offset ∧ offset ≤ payload.length
  start  : ∀ payload, helloStart + 2 + tlsRandomLen + 1 ≤ extensionsAt payload
  lists  : ∀ hello block block', withExtensions hello block = withExtensions hello block' ↔
    blockLists isClientHello block = blockLists isClientHello block'

namespace Layout

variable {H : Type} {isClientHello : Bool} {fields : Parser H}
variable {withExtensions : H → List UInt8 → H} {extensionsAt : List UInt8 → Nat}
variable {record payload : List UInt8} {hello : H}

theorem extensionsAt_le (L : Layout isClientHello fields withExtensions extensionsAt)
    (h : parseHello fields withExtensions payload = .ok hello) :
    extensionsAt payload ≤ payload.length := by
  unfold parseHello at h
  split_ifs at h
  match hf : fields payload helloStart with
  | .error e            => simp [hf] at h
  | .ok (fixed, offset) =>
    have ⟨ho, hl⟩ := (L.endsAt payload offset).mp ⟨fixed, hf⟩
    exact ho ▸ hl

theorem parse_append (L : Layout isClientHello fields withExtensions extensionsAt)
    (h : extensionsAt record ≤ record.length) : ∃ fixed, ∀ x,
      parseHello fields withExtensions (record ++ x) = .ok (withExtensions fixed <|
        extensionBlock <| record.drop (extensionsAt record) ++ x) := by
  have ⟨fixed, hf⟩ := (L.endsAt record _).mpr ⟨rfl, h⟩
  refine ⟨fixed, fun x => ?_⟩
  have hs := L.start record
  rw [parseHello, if_neg (by rw [List.length_append]; omega), L.extend _ _ _ _ hf x]
  simp only [List.drop_append_of_le_length h]

theorem parse_reaches (L : Layout isClientHello fields withExtensions extensionsAt)
    (payload : List UInt8) :
    ∃ x hello, parseHello fields withExtensions (payload ++ x) = .ok hello := by
  have ⟨k, hk⟩ := L.reach
  let x := List.replicate (helloStart + 2 + tlsRandomLen + 1 + k) (0 : UInt8)
  have hx : helloStart + 2 + tlsRandomLen + 1 + k ≤ (payload ++ x).length := by simp [x]
  have ⟨fixed, offset, hf, _⟩ := hk (payload ++ x) helloStart (by omega)
  use x, withExtensions fixed <| extensionBlock <| (payload ++ x).drop offset
  rw [parseHello, if_neg (by omega), hf]

theorem parse_append_iff (L : Layout isClientHello fields withExtensions extensionsAt) :
    (∀ x, parseHello fields withExtensions (record ++ x) =
      parseHello fields withExtensions record) ↔
        blockCloses isClientHello (record.drop <| extensionsAt record) := by
  by_cases h : extensionsAt record ≤ record.length
  case pos =>
    have ⟨fixed, hf⟩ := L.parse_append h
    have hf₀ := hf []
    rw [List.append_nil, List.append_nil] at hf₀
    simp only [hf, hf₀, Except.ok.injEq, L.lists, blockCloses_iff]
  case neg =>
    have ⟨x, hello, hx⟩ := L.parse_reaches record
    rw [List.drop_eq_nil_of_le (by omega)]
    simp only [blockCloses, Bool.false_eq_true, iff_false]
    exact fun hp => h <| L.extensionsAt_le <| (hp x).symm.trans hx

end Layout

namespace ParsedServerHello

theorem foldl_withExtension (exts : List Extension) (hello : ParsedServerHello) :
    (exts.foldl withExtension hello).extensions = hello.extensions := by
  induction exts generalizing hello
  case nil => rfl
  case cons ext exts ih =>
    rw [List.foldl_cons, ih]
    unfold withExtension
    split <;> rfl

theorem layout : Layout false fields withExtensions extensionsAt where
  extend := fields_extends
  reach  := ⟨_, fields_reaches⟩
  endsAt := fun _ _ => fields_endsAt
  start  := fun _ => by simp only [extensionsAt, sessionIdEnd]; omega
  lists  := by
    intro hello block block'
    simp only [blockLists, Prod.mk.injEq]
    constructor
    case mp =>
      intro h
      have := congrArg extensions h
      simpa [withExtensions, foldl_withExtension] using this
    case mpr =>
      rintro ⟨_, h⟩
      simp only [withExtensions, h]

end ParsedServerHello

namespace ParsedClientHello

theorem foldl_withExtension (exts : List Extension) (hello : ParsedClientHello) :
    (exts.foldl withExtension hello).extensions = hello.extensions ∧
      (exts.foldl withExtension hello).extensionIds = hello.extensionIds := by
  induction exts generalizing hello
  case nil => exact ⟨rfl, rfl⟩
  case cons ext exts ih =>
    rw [List.foldl_cons, (ih _).1, (ih _).2]
    unfold withExtension
    split <;> exact ⟨rfl, rfl⟩

theorem layout : Layout true fields withExtensions extensionsAt where
  extend := fields_extends
  reach  := ⟨_, fields_reaches⟩
  endsAt := fun _ _ => fields_endsAt
  start  := fun _ => by simp only [extensionsAt, compressionAt, sessionIdEnd]; omega
  lists  := by
    intro hello block block'
    simp only [blockLists, Prod.mk.injEq]
    constructor
    case mp =>
      intro h
      have h₁ := congrArg extensions h
      have h₂ := congrArg extensionIds h
      simp only [withExtensions, foldl_withExtension] at h₁ h₂
      exact ⟨h₂, h₁⟩
    case mpr =>
      rintro ⟨h₂, h₁⟩
      simp only [↓reduceIte] at h₂
      simp only [withExtensions, h₁, h₂]

end ParsedClientHello

-- Where the extension block of the hello that `record` holds starts, by the lengths it declares.
def extensionsAt (isClientHello : Bool) (record : List UInt8) : Nat :=
  if isClientHello then
    ParsedClientHello.extensionsAt record
  else
    ParsedServerHello.extensionsAt record

-- Whether the extension block of the hello is there, and settled by the bytes of `record`.
def helloCloses (isClientHello : Bool) (record : List UInt8) : Bool :=
  blockCloses isClientHello <| record.drop <| extensionsAt isClientHello record

def recordVersion (payload : List UInt8) : UInt16 :=
  u16FromBeBytes (payload.getD 1 0) (payload.getD 2 0)

theorem parseTlsPayload_eq (payload : List UInt8) (isClientHello : Bool) :
    parseTlsPayload payload isClientHello =
      if isClientHello then
        (parseClientHello payload).map (.clientHello <| recordVersion payload)
      else
        (parseServerHello payload).map (.serverHello <| recordVersion payload) := by
  unfold parseTlsPayload
  split
  case isTrue h =>
    have hs : payload.length < helloStart + 2 + tlsRandomLen + 1 := by unfold helloStart; omega
    simp [parseClientHello, parseServerHello, parseHello, hs, Except.map]
  case isFalse h =>
    have hl : 9 ≤ payload.length := Nat.le_of_not_lt h
    have h₁ : payload.getD 1 0 = payload[1] := by simp [List.getD, show 1 < payload.length by omega]
    have h₂ : payload.getD 2 0 = payload[2] := by simp [List.getD, show 2 < payload.length by omega]
    simp only [recordVersion, h₁, h₂]

section RecordVersion

variable {H : Type} {fields : Parser H} {withExtensions : H → List UInt8 → H} {hello : H}
variable {record : List UInt8}

theorem parseHello_length_le (h : parseHello fields withExtensions record = .ok hello) :
    helloStart + 2 + tlsRandomLen + 1 ≤ record.length := by
  unfold parseHello at h
  split_ifs at h with hl
  exact Nat.le_of_not_lt hl

theorem recordVersion_append (h : parseHello fields withExtensions record = .ok hello)
    {x : List UInt8} : recordVersion (record ++ x) = recordVersion record := by
  have hl := parseHello_length_le h
  unfold recordVersion
  rw [List.getD_append _ _ _ _ (by omega), List.getD_append _ _ _ _ (by omega)]

theorem map_recordVersion_iff {analysis : UInt16 → H → TlsAnalysis} {x : List UInt8}
    (ha : ∀ v v' hello hello', (analysis v hello = analysis v' hello') → hello = hello') :
    (parseHello fields withExtensions (record ++ x)).map
        (analysis <| recordVersion <| record ++ x) =
      (parseHello fields withExtensions record).map (analysis <| recordVersion record) ↔
        parseHello fields withExtensions (record ++ x) =
          parseHello fields withExtensions record := by
  cases hr : parseHello fields withExtensions record
  case error e => cases parseHello fields withExtensions (record ++ x) <;> simp [Except.map]
  case ok hello =>
    have hv := recordVersion_append hr (x := x)
    cases parseHello fields withExtensions (record ++ x)
    case error e   => simp [Except.map]
    case ok hello' =>
      simp only [Except.map, Except.ok.injEq, hv]
      exact ⟨ha _ _ _ _, congrArg _⟩

end RecordVersion

theorem parseTlsPayload_append_iff {isClientHello : Bool} {record : List UInt8} :
    (∀ x, parseTlsPayload (record ++ x) isClientHello = parseTlsPayload record isClientHello) ↔
      helloCloses isClientHello record := by
  cases isClientHello
  case false =>
    have ha v v' hello hello' (h : TlsAnalysis.serverHello v hello = .serverHello v' hello') :
        hello = hello' := (TlsAnalysis.serverHello.inj h).2
    simp only [parseTlsPayload_eq, Bool.false_eq_true, if_false, parseServerHello,
      map_recordVersion_iff ha]
    exact ParsedServerHello.layout.parse_append_iff
  case true =>
    have ha v v' hello hello' (h : TlsAnalysis.clientHello v hello = .clientHello v' hello') :
        hello = hello' := (TlsAnalysis.clientHello.inj h).2
    simp only [parseTlsPayload_eq, if_true, parseClientHello, map_recordVersion_iff ha]
    exact ParsedClientHello.layout.parse_append_iff

-- The first record of `payload` with its header, if all of it is there.
def firstRecord (payload : List UInt8) : Option (List UInt8) :=
  (recordTotal payload).bind fun total =>
    if total ≤ payload.length then some (payload.take total) else none

theorem isPrefix_of_firstRecord {payload record : List UInt8}
    (h : firstRecord payload = some record) : record <+: payload := by
  have ⟨total, _, ht⟩ := Option.bind_eq_some_iff.mp h
  split_ifs at ht
  exact Option.some.inj ht ▸ List.take_prefix total payload

-- The parser does not look past the first record exactly when that record settles the extensions of
-- its hello: neither its length nor the length of the handshake message is ever consulted.
theorem first_record_only_iff {payload record : List UInt8} {isClientHello : Bool}
    (h : firstRecord payload = some record) :
    (∀ payload', (record <+: payload') →
      parseTlsPayload payload' isClientHello = parseTlsPayload payload isClientHello) ↔
        helloCloses isClientHello record := by
  rw [←parseTlsPayload_append_iff]
  have hp := isPrefix_of_firstRecord h
  constructor
  case mp =>
    intro hl x
    calc
      _ = parseTlsPayload payload isClientHello := hl _ (List.prefix_append record x)
      _ = parseTlsPayload record isClientHello  := (hl _ (List.prefix_refl record)).symm
  case mpr =>
    rintro hl _ ⟨x, rfl⟩
    have ⟨y, hy⟩ := hp
    rw [←hy, hl x, hl y]

-- The test helper `build_server_hello`.
def buildServerHello : List UInt8 :=
  [0x16, 0x03, 0x03, 0x00, 0x38, 0x02, 0x00, 0x00, 0x34, 0x03, 0x03] ++ List.replicate 32 0x00 ++
    [0x00, 0x13, 0x01, 0x00, 0x00, 0x0c, 0x00, 0x2b, 0x00, 0x02, 0x03, 0x04, 0x00, 0x33, 0x00, 0x02,
      0x00, 0x1d]

theorem first_record_only_server_hello :
    helloCloses false buildServerHello ∧ ∀ payload', (buildServerHello <+: payload') →
      parseTlsPayload payload' false = parseTlsPayload buildServerHello false := by
  have h : firstRecord buildServerHello = some buildServerHello := by decide +kernel
  have hc : helloCloses false buildServerHello := by decide +kernel
  exact ⟨hc, (first_record_only_iff h).mpr hc⟩

-- A TLS 1.2 ServerHello, which has no extensions.
def bareServerHello : List UInt8 :=
  [0x16, 0x03, 0x03, 0x00, 0x2a, 0x02, 0x00, 0x00, 0x26, 0x03, 0x03] ++ List.replicate 32 0x5a ++
    [0x00, 0xc0, 0x2f, 0x00]

-- A Certificate message in a record of its own.
def certificateRecord : List UInt8 :=
  [0x16, 0x03, 0x03, 0x01, 0x00, 0x0b, 0x00, 0x00, 0xfc, 0x00, 0x00, 0xf9, 0x00, 0x00, 0xf6,
    0x30, 0x81, 0xf3] ++ List.replicate 243 0x00

theorem certificate_changes_server_hello :
    firstRecord (bareServerHello ++ certificateRecord) = some bareServerHello ∧
      parseTlsPayload (bareServerHello ++ certificateRecord) false ≠
        parseTlsPayload bareServerHello false := by
  decide +kernel

end TlsProbe
