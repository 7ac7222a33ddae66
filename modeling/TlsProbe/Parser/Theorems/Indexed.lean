import TlsProbe.Parser.Indexed
import TlsProbe.Parser.Theorems.Locality

namespace TlsProbe.Indexed

open Checked

section Loops

variable {data : List UInt8} {fuel i n : Nat}

variable {hi lo : UInt8} {rest : List UInt8}

theorem u16At_of_drop (h : data.drop i = hi :: lo :: rest) :
    u16At data i = .ok (u16FromBeBytes hi lo) := by
  rw [u16At, u8At, u8At, index_of_drop h, index_of_drop (drop_of_drop h)]
  rfl

theorem drop_two (h : i + 2 ≤ data.length) :
    ∃ hi lo, data.drop i = hi :: lo :: data.drop (i + 2) := by
  obtain ⟨hi, hh⟩ := drop_of_lt (show i < data.length by omega)
  obtain ⟨lo, hl⟩ := drop_of_lt (show i + 1 < data.length by omega)
  exact ⟨hi, lo, by rw [hh, hl]⟩

theorem drop_four (h : i + 4 ≤ data.length) :
    ∃ b₁ b₂ b₃ b₄, data.drop i = b₁ :: b₂ :: b₃ :: b₄ :: data.drop (i + 4) := by
  obtain ⟨b₁, b₂, h₁⟩ := drop_two (show i + 2 ≤ data.length by omega)
  obtain ⟨b₃, b₄, h₂⟩ := drop_two (show i + 2 + 2 ≤ data.length by omega)
  exact ⟨b₁, b₂, b₃, b₄, by rw [h₁, h₂]⟩

theorem codeList_short (h : data.length < 2) : codeList n data = [] := by
  match data with
  | [] | [_]    => rfl
  | _ :: _ :: l => exact absurd h (Nat.not_lt.mpr (Nat.le_add_left 2 l.length))

theorem keyShares_short (h : data.length < 4) : keyShares n data = [] := by
  rw [keyShares.eq_def]
  split
  case h_1 => simp at h; omega
  case h_2 => rfl

theorem codesFrom_ok {start : Nat} (hf : data.length < fuel) :
    codesFrom fuel data start n = .ok (codeList n (data.drop start)) := by
  have hc := @loop_collect _ fuel (codesFrom.body data start n)
    (fun i => codeList (start + n - i) (data.drop i)) data.length ?_ hf start
  · rwa [Nat.add_sub_cancel_left] at hc
  intro i codes
  simp only [codesFrom.body]
  split
  case isTrue h =>
    obtain ⟨hi, lo, hd⟩ := drop_two h.1
    have hn : start + n - (i + 2) = start + n - i - 2 := by omega
    rw [u16At_of_drop hd, hd, codeList, if_pos (by omega)]
    exact .inr ⟨_, _, rfl, by rw [hn], by omega, by omega⟩
  case isFalse h =>
    refine .inl ⟨rfl, ?_⟩
    by_cases hl : i + 2 ≤ data.length
    case pos =>
      obtain ⟨hi, lo, hd⟩ := drop_two hl
      rw [hd, codeList, if_neg (by omega)]
    case neg => exact codeList_short (by rw [List.length_drop]; omega)

theorem keySharesFrom_ok (hf : data.length < fuel) :
    keySharesFrom fuel data n = .ok (keyShares n (data.drop 2)) := by
  have hc := @loop_collect _ fuel (keySharesFrom.body data n)
    (fun i => keyShares (2 + n - i) (data.drop i)) data.length ?_ hf 2
  · rwa [Nat.add_sub_cancel_left] at hc
  intro i groups
  simp only [keySharesFrom.body]
  split
  case isTrue h =>
    obtain ⟨g₁, g₂, k₁, k₂, hd⟩ := drop_four h.1
    have hk := drop_of_drop (drop_of_drop hd)
    have hn (k : Nat) : 2 + n - (i + (4 + k)) = 2 + n - i - (4 + k) := by omega
    rw [u16At_of_drop hd, u16At_of_drop hk, hd, keyShares, if_pos (by omega), List.drop_drop]
    refine .inr ⟨_, _, rfl, ?_, by omega, by omega⟩
    rw [hn, Nat.add_assoc]
  case isFalse h =>
    refine .inl ⟨rfl, ?_⟩
    by_cases hl : i + 4 ≤ data.length
    case pos =>
      obtain ⟨g₁, g₂, k₁, k₂, hd⟩ := drop_four hl
      rw [hd, keyShares, if_neg (by omega)]
    case neg => exact keyShares_short (by rw [List.length_drop]; omega)

theorem alpnFrom_ok (hf : data.length < fuel) :
    alpnFrom fuel data n = .ok (alpnProtocols n (data.drop 2)) := by
  have hc := @loop_collect _ fuel (alpnFrom.body data n)
    (fun i => alpnProtocols (2 + n - i) (data.drop i)) data.length ?_ hf 2
  · rwa [Nat.add_sub_cancel_left] at hc
  intro i protocols
  simp only [alpnFrom.body]
  by_cases hl : i < data.length
  case neg =>
    rw [if_neg (fun h => hl h.1), List.drop_eq_nil_of_le (Nat.le_of_not_lt hl), alpnProtocols]
    exact .inl ⟨rfl, rfl⟩
  case pos =>
    obtain ⟨protoLen, hd⟩ := drop_of_lt hl
    have hr : (data.drop (i + 1)).length = data.length - (i + 1) := List.length_drop
    rw [hd, alpnProtocols]
    split
    case isFalse h =>
      rw [if_neg (by omega)]
      exact .inl ⟨rfl, rfl⟩
    case isTrue h =>
      rw [if_neg (Nat.not_le.mpr hl), u8At, index_of_drop hd, ok_bind]
      split
      case isTrue hp =>
        rw [if_neg (by omega)]
        exact .inl ⟨rfl, rfl⟩
      case isFalse hp =>
        have hn : 2 + n - (i + 1 + protoLen.toNat) = 2 + n - i - (1 + protoLen.toNat) := by omega
        rw [slice_add (Nat.le_of_not_lt hp), if_pos (by omega), List.drop_drop, ←hn]
        exact .inr ⟨_, _, rfl, rfl, by omega, hl⟩

theorem parseExtensions_ok (hf : data.length < fuel) :
    parseExtensions fuel data = .ok (TlsProbe.parseExtensions data) := by
  refine @loop_collect _ fuel (parseExtensions.body data)
    (fun i => TlsProbe.parseExtensions (data.drop i)) data.length ?_ hf 0
  intro i extensions
  simp only [parseExtensions.body]
  split
  case isFalse h =>
    exact .inl ⟨rfl, parseExtensions_short (by rw [List.length_drop]; omega)⟩
  case isTrue h =>
    obtain ⟨t₁, t₂, l₁, l₂, hd⟩ := drop_four h
    have hr : (data.drop (i + 4)).length = data.length - (i + 4) := List.length_drop
    rw [u16At_of_drop hd, ok_bind, u16At_of_drop (drop_of_drop (drop_of_drop hd)), ok_bind, hd,
      TlsProbe.parseExtensions]
    set extLen := (u16FromBeBytes l₁ l₂).toNat
    split
    case isTrue hl =>
      rw [if_neg (by omega)]
      exact .inl ⟨rfl, rfl⟩
    case isFalse hl =>
      rw [slice_add (Nat.le_of_not_lt hl), if_pos (by omega), List.drop_drop]
      exact .inr ⟨_, _, rfl, rfl, by omega, by omega⟩

-- The first bytes are read as they are in a payload that ends with them.
theorem u16At_take {end_ : Nat} (h : i + 2 ≤ end_) : u16At (data.take end_) i = u16At data i := by
  rw [u16At, u16At, u8At, u8At, u8At, u8At, index_take (by omega), index_take (by omega)]

theorem cipherList_short (h : data.length < 2) : cipherList data = [] := by
  match data with
  | [] | [_]    => rfl
  | _ :: _ :: l => exact absurd h (Nat.not_lt.mpr (Nat.le_add_left 2 l.length))

theorem cipherSuitesFrom_ok {offset len : Nat} (hl : offset + len ≤ data.length)
    (hf : data.length < fuel) :
    cipherSuitesFrom fuel data offset (offset + len) =
      .ok (cipherList ((data.drop offset).take len)) := by
  rw [List.take_drop]
  refine @loop_collect _ fuel (cipherSuitesFrom.body data (offset + len))
    (fun i => cipherList ((data.take (offset + len)).drop i)) data.length ?_ hf offset
  intro i cipherSuites
  have hd : (data.take (offset + len)).length = offset + len := by
    rw [List.length_take, Nat.min_eq_left hl]
  simp only [cipherSuitesFrom.body]
  split
  case isTrue h =>
    obtain ⟨hi, lo, hc⟩ := drop_two (hd.symm ▸ h)
    rw [←u16At_take h, u16At_of_drop hc, hc]
    exact .inr ⟨_, _, rfl, rfl, by omega, by omega⟩
  case isFalse h =>
    exact .inl ⟨rfl, cipherList_short (by rw [List.length_drop, hd]; omega)⟩

theorem extensionIdsFrom_ok {offset len : Nat} (hl : offset + len ≤ data.length)
    (hf : data.length < fuel) :
    extensionIdsFrom fuel data offset len = .ok (extensionIds ((data.drop offset).take len)) := by
  rw [List.take_drop]
  refine @loop_collect _ fuel (extensionIdsFrom.body data offset len)
    (fun i => extensionIds ((data.take (offset + len)).drop i)) data.length ?_ hf offset
  intro i ids
  have hd : (data.take (offset + len)).length = offset + len := by
    rw [List.length_take, Nat.min_eq_left hl]
  simp only [extensionIdsFrom.body]
  split
  case isTrue h =>
    obtain ⟨t₁, t₂, l₁, l₂, hc⟩ := drop_four (hd.symm ▸ h)
    have hl := u16At_of_drop (drop_of_drop (drop_of_drop hc))
    rw [u16At_take (by omega)] at hl
    rw [←u16At_take (show i + 2 ≤ offset + len by omega), u16At_of_drop hc, ok_bind, hl, hc,
      extensionIds, List.drop_drop]
    exact .inr ⟨_, _, rfl, by rw [Nat.add_assoc], by omega, by omega⟩
  case isFalse h =>
    exact .inl ⟨rfl, extensionIds_short (by rw [List.length_drop, hd]; omega)⟩

end Loops

section Extractors

variable {ext : Extension} {fuel : Nat}

theorem extractSupportedVersions_ok (hf : ext.data.length < fuel) (isClient : Bool) :
    extractSupportedVersions fuel ext isClient =
      .ok (TlsProbe.extractSupportedVersions ext isClient) := by
  obtain ⟨t, data⟩ := ext
  cases isClient
  case false =>
    match data with
    | [] | [_]         => rfl
    | hi :: lo :: list =>
      have hl : 2 ≤ (hi :: lo :: list).length := by simp
      simp only [extractSupportedVersions, Bool.false_eq_true, if_false, if_pos hl]
      rfl
  case true =>
    match data with
    | []              => rfl
    | listLen :: list => exact codesFrom_ok hf

theorem extractCodes_ok (hf : ext.data.length < fuel) :
    extractCodes fuel ext = .ok (TlsProbe.extractCodes ext) := by
  obtain ⟨t, data⟩ := ext
  match data with
  | [] | [_]         => rfl
  | hi :: lo :: list =>
    have hl : ¬(hi :: lo :: list).length < 2 := by simp
    simp only [extractCodes, if_neg hl]
    exact codesFrom_ok hf

theorem extractKeyShareGroups_ok (hf : ext.data.length < fuel) (isClient : Bool) :
    extractKeyShareGroups fuel ext isClient = .ok (TlsProbe.extractKeyShareGroups ext isClient) := by
  obtain ⟨t, data⟩ := ext
  cases isClient
  case false =>
    match data with
    | [] | [_]         => rfl
    | hi :: lo :: list =>
      have hl : 2 ≤ (hi :: lo :: list).length := by simp
      simp only [extractKeyShareGroups, Bool.false_eq_true, if_false, if_pos hl]
      rfl
  case true =>
    match data with
    | [] | [_]         => rfl
    | hi :: lo :: list =>
      have hl : ¬(hi :: lo :: list).length < 2 := by simp
      simp only [extractKeyShareGroups, if_neg hl, if_true]
      exact keySharesFrom_ok hf

theorem extractAlpn_ok (hf : ext.data.length < fuel) :
    extractAlpn fuel ext = .ok (TlsProbe.extractAlpn ext) := by
  obtain ⟨t, data⟩ := ext
  match data with
  | [] | [_]         => rfl
  | hi :: lo :: list =>
    have hl : ¬(hi :: lo :: list).length < 2 := by simp
    simp only [extractAlpn, if_neg hl]
    exact alpnFrom_ok hf

theorem extractSni_ok : extractSni ext = .ok (TlsProbe.extractSni ext) := by
  obtain ⟨t, data⟩ := ext
  match data with
  | [] | [_] | [_, _] | [_, _, _] | [_, _, _, _] => rfl
  | b₀ :: b₁ :: nameType :: hi :: lo :: rest     =>
    set nameLen := (u16FromBeBytes hi lo).toNat
    have hl : ¬(b₀ :: b₁ :: nameType :: hi :: lo :: rest).length < 5 := by simp
    simp only [extractSni, if_neg hl, TlsProbe.extractSni]
    change (if nameType ≠ 0 then _ else _) = _
    split
    case isTrue  => rfl
    case isFalse =>
      change (if _ < 5 + nameLen then _ else _) = _
      have hc : (b₀ :: b₁ :: nameType :: hi :: lo :: rest).length < 5 + nameLen ↔
          rest.length < nameLen := by simp only [List.length_cons]; omega
      by_cases hn : rest.length < nameLen
      case pos => rw [if_pos hn, if_pos (hc.mpr hn)]; rfl
      case neg =>
        have hs := mt hc.mp hn
        rw [if_neg hn, if_neg hs, slice_add (Nat.le_of_not_lt hs)]
        rfl

end Extractors

section Extensions

variable {fuel : Nat}

theorem data_length_le {data : List UInt8} {ext : Extension}
    (h : ext ∈ TlsProbe.parseExtensions data) : ext.data.length ≤ data.length := by
  induction data using TlsProbe.parseExtensions.induct
  case case1 t₁ t₂ l₁ l₂ rest extLen hl hi =>
    rw [TlsProbe.parseExtensions, if_pos hl, List.mem_cons] at h
    obtain rfl | h := h
    · simp only [List.length_take, List.length_cons]
      omega
    · have := hi h
      simp only [List.length_drop, List.length_cons] at this ⊢
      omega
  case case2 hl =>
    rw [TlsProbe.parseExtensions, if_neg hl] at h
    contradiction
  case case3 hs =>
    rw [TlsProbe.parseExtensions.eq_def] at h
    split at h
    case h_1 => exact absurd rfl (hs _ _ _ _ _)
    case h_2 => contradiction

theorem ClientHello.withExtension_ok {hello : ParsedClientHello} {ext : Extension}
    (hf : ext.data.length < fuel) :
    withExtension fuel hello ext = .ok (hello.withExtension ext) := by
  have hv := extractSupportedVersions_ok hf true
  have hk := extractKeyShareGroups_ok hf true
  have hc := extractCodes_ok hf
  have ha := extractAlpn_ok hf
  obtain ⟨t, data⟩ := ext
  cases t
  case supportedVersions       => simp only [withExtension, hv, ok_bind]; rfl
  case supportedGroups         => simp only [withExtension, extractSupportedGroups, hc, ok_bind]; rfl
  case signatureAlgorithms     =>
    simp only [withExtension, extractSignatureAlgorithms, hc, ok_bind]
    rfl
  case signatureAlgorithmsCert =>
    simp only [withExtension, extractSignatureAlgorithmsCert, hc, ok_bind]
    rfl
  case keyShare                => simp only [withExtension, hk, ok_bind]; rfl
  case serverName              => simp only [withExtension, extractSni_ok, ok_bind]; rfl
  case applicationLayerProtocolNegotiation => simp only [withExtension, ha, ok_bind]; rfl
  all_goals rfl

theorem ServerHello.withExtension_ok {hello : ParsedServerHello} {ext : Extension}
    (hf : ext.data.length < fuel) :
    withExtension fuel hello ext = .ok (hello.withExtension ext) := by
  have hv := extractSupportedVersions_ok hf false
  have hk := extractKeyShareGroups_ok hf false
  obtain ⟨t, data⟩ := ext
  cases t
  case supportedVersions => simp only [withExtension, hv, ok_bind]; rfl
  case keyShare          => simp only [withExtension, hk, ok_bind]; rfl
  all_goals rfl

-- The block that is parsed takes no more than what is there.
theorem extensionBlock_ok {payload : List UInt8} {offset : Nat} (h : offset + 2 ≤ payload.length) :
    ∃ extLen, u16At payload offset = .ok extLen ∧ extensionBlock (payload.drop offset) =
      (payload.drop (offset + 2)).take (min (payload.length - (offset + 2)) extLen.toNat) := by
  obtain ⟨hi, lo, hd⟩ := drop_two h
  refine ⟨_, u16At_of_drop hd, ?_⟩
  rw [hd, extensionBlock, ←List.length_drop, Nat.min_comm, ←List.take_eq_take_min]

theorem extensionBlock_short {payload : List UInt8} {offset : Nat}
    (h : ¬offset + 2 ≤ payload.length) : extensionBlock (payload.drop offset) = [] := by
  have hl : (payload.drop offset).length < 2 := by
    rw [List.length_drop]
    omega
  match hd : payload.drop offset with
  | [] | [_]    => rfl
  | _ :: _ :: _ => simp only [hd, List.length_cons] at hl; omega

-- What a hello gets from the block, when `k` gets it from so many bytes of the payload.
theorem withBlock_ok {H : Type} {payload : List UInt8} {offset : Nat} {hello : H}
    {f : List UInt8 → H} {k : Nat → Checked H} (hn : f [] = hello)
    (hk : ∀ n, offset + 2 + n ≤ payload.length → 0 < n →
      k n = .ok (f ((payload.drop (offset + 2)).take n))) :
    (if offset + 2 ≤ payload.length then do
      let extLen := (← u16At payload offset).toNat
      let parseLen := min (payload.length - (offset + 2)) extLen
      if 0 < parseLen then k parseLen else return hello
    else
      return hello) = .ok (f (extensionBlock (payload.drop offset))) := by
  split
  case isFalse h =>
    rw [extensionBlock_short h, hn]
    rfl
  case isTrue h =>
    obtain ⟨extLen, hl, hb⟩ := extensionBlock_ok h
    rw [hl, hb, ok_bind]
    dsimp only
    set parseLen := min (payload.length - (offset + 2)) extLen.toNat
    split
    case isFalse hz =>
      rw [Nat.eq_zero_of_not_pos hz, List.take_zero, hn]
      rfl
    case isTrue hz => exact hk _ (by omega) hz

theorem length_block_lt {payload : List UInt8} {i n : Nat} (hf : payload.length < fuel) :
    ((payload.drop i).take n).length < fuel := by
  rw [List.length_take, List.length_drop]
  omega

theorem ClientHello.withExtensions_ok {payload : List UInt8} {hello : ParsedClientHello}
    {offset : Nat} (he : hello.extensions = []) (hi : hello.extensionIds = [])
    (hf : payload.length < fuel) : withExtensions fuel payload hello offset =
      .ok (hello.withExtensions <| extensionBlock <| payload.drop offset) := by
  refine @withBlock_ok _ payload offset hello hello.withExtensions (fun parseLen => do
    let extensionIds ← extensionIdsFrom fuel payload (offset + 2) parseLen
    let extensions ← parseExtensions fuel (← slice payload (offset + 2) (offset + 2 + parseLen))
    extensions.foldlM (withExtension fuel) { hello with extensionIds, extensions }) ?_
    fun parseLen hp _ => ?_
  case refine_1 =>
    have hx : TlsProbe.parseExtensions [] = [] := parseExtensions_short (Nat.zero_lt_succ 3)
    have hs : extensionIds [] = [] := extensionIds_short (Nat.zero_lt_succ 3)
    simp only [ParsedClientHello.withExtensions, hx, hs, List.foldl_nil]
    rw [←he, ←hi]
  case refine_2 =>
    have hb := @length_block_lt fuel payload (offset + 2) parseLen hf
    rw [extensionIdsFrom_ok hp hf, ok_bind, slice_add hp, ok_bind, parseExtensions_ok hb, ok_bind]
    exact foldlM_ok (fun hello ext hm =>
      withExtension_ok <| Nat.lt_of_le_of_lt (data_length_le hm) hb) _

theorem ServerHello.withExtensions_ok {payload : List UInt8} {hello : ParsedServerHello}
    {offset : Nat} (he : hello.extensions = []) (hf : payload.length < fuel) :
    withExtensions fuel payload hello offset =
      .ok (hello.withExtensions <| extensionBlock <| payload.drop offset) := by
  refine @withBlock_ok _ payload offset hello hello.withExtensions (fun parseLen => do
    let extensions ← parseExtensions fuel (← slice payload (offset + 2) (offset + 2 + parseLen))
    extensions.foldlM (withExtension fuel) { hello with extensions }) ?_ fun parseLen hp _ => ?_
  case refine_1 =>
    have hx : TlsProbe.parseExtensions [] = [] := parseExtensions_short (Nat.zero_lt_succ 3)
    simp only [ParsedServerHello.withExtensions, hx, List.foldl_nil]
    rw [←he]
  case refine_2 =>
    have hb := @length_block_lt fuel payload (offset + 2) parseLen hf
    rw [slice_add hp, ok_bind, parseExtensions_ok hb, ok_bind]
    exact foldlM_ok (fun hello ext hm =>
      withExtension_ok <| Nat.lt_of_le_of_lt (data_length_le hm) hb) _

end Extensions

section Reads

variable {α β γ : Type} {payload : List UInt8} {n j fuel : Nat}
variable {err : Nat → ParseError} {g : Vector UInt8 j → γ} {f : γ → Parser α}

-- The checks that the source makes are those of the reads that they precede.
theorem run_guard {c : Prop} [Decidable c] {δ : Type}
    {jp : δ → ExceptT ParseError Checked (α × Nat)} {x : ExceptT ParseError Checked (α × Nat)}
    (hc : c ↔ payload.length < n + j)
    (hk : n + j ≤ payload.length → x.run = .ok ((Reader.read err j g >>= f) payload n)) :
    (if c then throw (err n) >>= jp else x).run =
      .ok ((Reader.read err j g >>= f) payload n) := by
  split
  case isTrue h =>
    rw [Reader.read_bind_apply, dif_neg (Nat.not_le.mpr (hc.mp h))]
    rfl
  case isFalse h => exact hk (Nat.not_lt.mp (mt hc.mpr h))

theorem copyFromSlice_ok {bytes : List UInt8} (h : bytes.length = n) :
    copyFromSlice n bytes = .ok bytes :=
  if_pos h

theorem run_u8 {f : UInt8 → Parser α} {k : UInt8 → ExceptT ParseError Checked (α × Nat)}
    (h : n + 1 ≤ payload.length) (hk : ∀ b, (k b).run = .ok (f b payload (n + 1))) :
    (liftM (u8At payload n) >>= k).run = .ok ((Parser.u8 >>= f) payload n) := by
  have hb : u8At payload n = .ok payload[n] := by
    rw [u8At, index, List.getElem?_eq_getElem h]
  rw [run_lift_bind hb, Parser.u8, Reader.read_bind_apply, dif_pos h]
  simp [Reader.slice, hk]

theorem run_u16 {f : UInt16 → Parser α} {k : UInt16 → ExceptT ParseError Checked (α × Nat)}
    (h : n + 2 ≤ payload.length) (hk : ∀ v, (k v).run = .ok (f v payload (n + 2))) :
    (liftM (u16At payload n) >>= k).run = .ok ((Parser.u16 >>= f) payload n) := by
  have hb : u16At payload n = .ok (u16FromBeBytes payload[n] payload[n + 1]) := by
    rw [u16At, u8At, u8At, index, index, List.getElem?_eq_getElem (by omega),
      List.getElem?_eq_getElem (by omega)]
    rfl
  rw [run_lift_bind hb, Parser.u16, Reader.read_bind_apply, dif_pos h]
  simp [Reader.slice, hk]

theorem run_bytes {f : List UInt8 → Parser α}
    {k : List UInt8 → ExceptT ParseError Checked (α × Nat)} (h : n + j ≤ payload.length)
    (hk : ∀ bytes, (bytes.length = j) → (k bytes).run = .ok (f bytes payload (n + j))) :
    (liftM (slice payload n (n + j)) >>= k).run = .ok ((Parser.bytes j >>= f) payload n) := by
  rw [run_lift_bind (slice_add h), Parser.bytes, Reader.read_bind_apply, dif_pos h,
    Reader.slice_toList]
  exact hk _ (by rw [List.length_take, List.length_drop]; omega)

-- The loop over the cipher suites stands for the read of their bytes.
theorem run_ciphers {f : List UInt8 → Parser α}
    {k : List UInt16 → ExceptT ParseError Checked (α × Nat)} (h : n + j ≤ payload.length)
    (hf : payload.length < fuel)
    (hk : ∀ bytes, (k (cipherList bytes)).run = .ok (f bytes payload (n + j))) :
    (liftM (cipherSuitesFrom fuel payload n (n + j)) >>= k).run =
      .ok ((Parser.bytes j >>= f) payload n) := by
  rw [run_lift_bind (cipherSuitesFrom_ok h hf), Parser.bytes, Reader.read_bind_apply, dif_pos h,
    Reader.slice_toList]
  exact hk _

end Reads

section Hello

variable {payload : List UInt8} {fuel : Nat}

theorem ServerHello.fields_ok (h : helloStart + 2 + tlsRandomLen + 1 ≤ payload.length) :
    (fields payload).run = .ok (ParsedServerHello.fields payload helloStart) := by
  refine run_u16 (by omega) fun legacyVersion => ?_
  refine run_bytes (by omega) fun random hr => ?_
  rw [run_lift_bind (copyFromSlice_ok (show random.length = 32 from hr))]
  refine run_u8 h fun sessionIdLen => ?_
  refine run_guard Iff.rfl fun h₁ => run_bytes h₁ fun sessionId _ => ?_
  refine run_guard Iff.rfl fun h₂ => run_u16 h₂ fun cipherSuite => ?_
  exact run_guard Nat.lt_succ_iff.symm fun h₃ => run_u8 h₃ fun compressionMethod => rfl

theorem ClientHello.fields_ok (h : helloStart + 2 + tlsRandomLen + 1 ≤ payload.length)
    (hf : payload.length < fuel) :
    (fields fuel payload).run = .ok (ParsedClientHello.fields payload helloStart) := by
  refine run_u16 (by omega) fun legacyVersion => ?_
  refine run_bytes (by omega) fun random hr => ?_
  rw [run_lift_bind (copyFromSlice_ok (show random.length = 32 from hr))]
  refine run_u8 h fun sessionIdLen => ?_
  refine run_guard Iff.rfl fun h₁ => run_bytes h₁ fun sessionId _ => ?_
  refine run_guard Iff.rfl fun h₂ => run_u16 h₂ fun cipherLen => ?_
  refine run_guard Iff.rfl fun h₃ => run_ciphers h₃ hf fun ciphers => ?_
  refine run_guard Nat.lt_succ_iff.symm fun h₄ => run_u8 h₄ fun compLen => ?_
  exact run_guard Iff.rfl fun h₅ => run_bytes h₅ fun compressionMethods _ => rfl

theorem ClientHello.fields_lists : Reader.Returns
    (fun hello => hello.extensions = [] ∧ hello.extensionIds = []) ParsedClientHello.fields := by
  repeat refine .bind fun _ => ?_
  exact .pure ⟨rfl, rfl⟩

theorem ServerHello.fields_lists :
    Reader.Returns (fun hello => hello.extensions = []) ParsedServerHello.fields := by
  repeat refine .bind fun _ => ?_
  exact .pure rfl

-- The two hello parsers, by their fields and what they do with the extension block.
theorem parseHello_ok {H : Type} {m : Parser H} {w : H → List UInt8 → H}
    {x : ExceptT ParseError Checked (H × Nat)} {k : H → Nat → Checked H}
    (hm : helloStart + 2 + tlsRandomLen + 1 ≤ payload.length → x.run = .ok (m payload helloStart))
    (hk : ∀ hello offset, m payload helloStart = .ok (hello, offset) →
      k hello offset = .ok (w hello (extensionBlock (payload.drop offset)))) :
    (do
      if payload.length < helloStart + 2 + tlsRandomLen + 1 then
        throw .tooShort
      let (hello, offset) ← x
      k hello offset : ExceptT ParseError Checked H).run = .ok (parseHello m w payload) := by
  rw [parseHello]
  dsimp only
  split
  case isTrue  => rfl
  case isFalse h =>
    have hr := hm (Nat.le_of_not_lt h)
    cases hp : m payload helloStart
    case error e => rw [run_bind_error (hr.trans (congrArg _ hp))]
    case ok read =>
      rw [run_bind_ok (hr.trans (congrArg _ hp)), hk _ _ hp]
      rfl

theorem parseClientHello_ok (hf : payload.length < fuel) :
    (parseClientHello fuel payload).run = .ok (TlsProbe.parseClientHello payload) := by
  refine parseHello_ok (k := ClientHello.withExtensions fuel payload)
    (fun h => ClientHello.fields_ok h hf) fun hello offset hp => ?_
  obtain ⟨he, hi⟩ := ClientHello.fields_lists _ _ _ _ hp
  exact ClientHello.withExtensions_ok he hi hf

theorem parseServerHello_ok (hf : payload.length < fuel) :
    (parseServerHello fuel payload).run = .ok (TlsProbe.parseServerHello payload) := by
  refine parseHello_ok (k := ServerHello.withExtensions fuel payload) ServerHello.fields_ok
    fun hello offset hp => ?_
  exact ServerHello.withExtensions_ok (ServerHello.fields_lists _ _ _ _ hp) hf

-- Whatever lengths the bytes claim, no access is out of bounds, and no loop takes more turns than
-- there are bytes.
theorem parseTlsPayload_ok (isClientHello : Bool) (hf : payload.length < fuel) :
    (parseTlsPayload fuel payload isClientHello).run =
      .ok (TlsProbe.parseTlsPayload payload isClientHello) := by
  rw [parseTlsPayload, TlsProbe.parseTlsPayload]
  dsimp only
  split
  case isTrue  => rfl
  case isFalse h =>
    have hl : 9 ≤ payload.length := Nat.le_of_not_lt h
    have hv : u16At payload 1 = .ok (u16FromBeBytes payload[1] payload[2]) := by
      rw [u16At, u8At, u8At, index, index, List.getElem?_eq_getElem (show 1 < _ by omega),
        List.getElem?_eq_getElem (show 2 < _ by omega)]
      rfl
    rw [run_lift_bind hv]
    cases isClientHello
    case true =>
      have hr := parseClientHello_ok hf
      cases hp : TlsProbe.parseClientHello payload
      case error e  => exact run_bind_error (hr.trans (congrArg _ hp))
      case ok hello => exact run_bind_ok (hr.trans (congrArg _ hp))
    case false =>
      have hr := parseServerHello_ok hf
      cases hp : TlsProbe.parseServerHello payload
      case error e  => exact run_bind_error (hr.trans (congrArg _ hp))
      case ok hello => exact run_bind_ok (hr.trans (congrArg _ hp))

-- The last extension of the ServerHello claims more bytes than there are.
theorem parseTlsPayload_ok_cut_off :
    (parseTlsPayload 59 (buildServerHello.take 58) false).run =
      .ok (TlsProbe.parseTlsPayload (buildServerHello.take 58) false) :=
  parseTlsPayload_ok false (by decide)

end Hello

end TlsProbe.Indexed
