import TlsProbe.Parser.Theorems.Truncation

namespace TlsProbe

-- Going from extension to extension, one reaches a header whose extension is cut off.
inductive EndsInExtension : List UInt8 → Prop
  | here {t₁ t₂ l₁ l₂ : UInt8} {rest : List UInt8} :
    rest.length < (u16FromBeBytes l₁ l₂).toNat → EndsInExtension (t₁ :: t₂ :: l₁ :: l₂ :: rest)
  | next {t₁ t₂ l₁ l₂ : UInt8} {data rest : List UInt8} :
    data.length = (u16FromBeBytes l₁ l₂).toNat → EndsInExtension rest →
      EndsInExtension ([t₁, t₂, l₁, l₂] ++ data ++ rest)

namespace EndsInExtension

variable {t₁ t₂ l₁ l₂ : UInt8} {block rest : List UInt8}

theorem length_le (h : EndsInExtension block) : 4 ≤ block.length := by
  cases h <;> simp +arith

-- The header at hand is either the one that is reached or stands before a whole extension.
theorem cons_iff :
    EndsInExtension (t₁ :: t₂ :: l₁ :: l₂ :: rest) ↔
      rest.length < (u16FromBeBytes l₁ l₂).toNat ∨
        EndsInExtension (rest.drop (u16FromBeBytes l₁ l₂).toNat) := by
  constructor
  case mp =>
    intro h
    generalize hb : t₁ :: t₂ :: l₁ :: l₂ :: rest = block at h
    cases h
    case here hr =>
      simp only [List.cons.injEq] at hb
      obtain ⟨rfl, rfl, rfl, rfl, rfl⟩ := hb
      exact .inl hr
    case next hd hr =>
      simp only [List.cons_append, List.nil_append, List.cons.injEq] at hb
      obtain ⟨rfl, rfl, rfl, rfl, rfl⟩ := hb
      rw [List.drop_left' hd]
      exact .inr hr
  case mpr =>
    intro h
    by_cases hr : rest.length < (u16FromBeBytes l₁ l₂).toNat
    case pos => exact .here hr
    case neg =>
      have hd := h.resolve_left hr
      have hl : (rest.take (u16FromBeBytes l₁ l₂).toNat).length = (u16FromBeBytes l₁ l₂).toNat := by
        rw [List.length_take, Nat.min_eq_left (Nat.le_of_not_lt hr)]
      have hn := @EndsInExtension.next t₁ t₂ _ _ _ _ hl hd
      rwa [List.append_assoc, List.take_append_drop] at hn

end EndsInExtension

-- The scan for raw types lists what the scan for extensions keeps, and the one it is cut off in.
theorem extensionIds_eq (block : List UInt8) :
    ∃ more, extensionIds block = (parseExtensions block).map (·.extType.toU16) ++ more ∧
      more.length ≤ 1 ∧ (more.length = 1 ↔ EndsInExtension block) := by
  induction block using parseExtensions.induct
  case case1 t₁ t₂ l₁ l₂ rest extLen h hi =>
    obtain ⟨more, he, hl, hm⟩ := hi
    refine ⟨more, ?_, hl, ?_⟩
    · simp only [extensionIds, parseExtensions]
      rw [if_pos h, he, List.map_cons, ExtensionType.toU16_ofU16, List.cons_append]
    · rw [hm, EndsInExtension.cons_iff]
      simp only [extLen] at h
      simp only [Nat.not_lt.mpr h, false_or, extLen]
  case case2 t₁ t₂ l₁ l₂ rest extLen h =>
    have hd : rest.drop (u16FromBeBytes l₁ l₂).toNat = [] :=
      List.drop_eq_nil_of_le (Nat.le_of_not_le h)
    refine ⟨[u16FromBeBytes t₁ t₂], ?_, le_rfl, ?_⟩
    · simp only [extensionIds, parseExtensions, hd]
      rw [if_neg h]
      rfl
    · simpa using .here (Nat.lt_of_not_le h)
  case case3 block h =>
    have hs : block.length < 4 := by
      rcases block with _ | ⟨t₁, _ | ⟨t₂, _ | ⟨l₁, _ | ⟨l₂, rest⟩⟩⟩⟩
      case cons.cons.cons.cons => exact absurd rfl (h t₁ t₂ l₁ l₂ rest)
      all_goals simp
    refine ⟨[], ?_, Nat.zero_le 1, ?_⟩
    · rw [extensionIds_short hs, parseExtensions_short hs]
      rfl
    · simp only [List.length_nil, Nat.zero_ne_one, false_iff]
      exact fun he => absurd he.length_le (by omega)

namespace ParsedClientHello

-- The bytes of the extension block that are there.
def availableExtensions (payload : List UInt8) : List UInt8 :=
  extensionBlock <| payload.drop <| extensionsAt payload

theorem withExtensions_lists {payload : List UInt8} {hello : ParsedClientHello}
    (h : parseClientHello payload = .ok hello) :
    hello.extensionIds = TlsProbe.extensionIds (availableExtensions payload) ∧
      hello.extensions = parseExtensions (availableExtensions payload) := by
  have hl := layout.extensionsAt_le h
  obtain ⟨fixed, hf⟩ := layout.parse_append hl
  have h₀ := hf []
  rw [List.append_nil, List.append_nil] at h₀
  obtain rfl := Except.ok.inj (h.symm.trans h₀)
  exact ⟨(foldl_withExtension _ _).2, (foldl_withExtension _ _).1⟩

theorem extensionIds_extensions {payload : List UInt8} {hello : ParsedClientHello}
    (h : parseClientHello payload = .ok hello) :
    ∃ more, hello.extensionIds = hello.extensions.map (·.extType.toU16) ++ more ∧
      more.length ≤ 1 ∧ (more.length = 1 ↔ EndsInExtension (availableExtensions payload)) := by
  obtain ⟨hi, he⟩ := withExtensions_lists h
  rw [hi, he]
  exact extensionIds_eq _

-- The test helper `build_client_hello`.
def buildClientHello : List UInt8 :=
  [0x16, 0x03, 0x01, 0x00, 0x42, 0x01, 0x00, 0x00, 0x3e, 0x03, 0x03] ++ List.replicate 32 0x00 ++
    [0x00, 0x00, 0x06, 0x13, 0x01, 0x13, 0x02, 0x13, 0x03, 0x01, 0x00, 0x00, 0x0f, 0x00, 0x2b, 0x00,
      0x03, 0x02, 0x03, 0x04, 0x00, 0x0a, 0x00, 0x04, 0x00, 0x02, 0x00, 0x1d]

-- The last byte is missing, so the supported groups are only listed by their type.
theorem extensionIds_extensions_cut_off :
    ∃ hello, parseClientHello (buildClientHello.take 70) = .ok hello ∧
      ∃ more, hello.extensionIds = hello.extensions.map (·.extType.toU16) ++ more ∧
        more.length ≤ 1 ∧
        (more.length = 1 ↔ EndsInExtension (availableExtensions <| buildClientHello.take 70)) := by
  have ho : (parseClientHello (buildClientHello.take 70)).isOk := by decide +kernel
  cases h : parseClientHello (buildClientHello.take 70)
  case error    => simp [h, Except.isOk, Except.toBool] at ho
  case ok hello => exact ⟨hello, rfl, extensionIds_extensions h⟩

end ParsedClientHello
end TlsProbe
