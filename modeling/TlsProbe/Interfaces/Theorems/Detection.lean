import TlsProbe.Interfaces.Proc
import TlsProbe.Listeners.Theorems.Table

namespace TlsProbe.Interfaces

open Listeners

section Numbers

variable {bits k n v : Nat} {byte : UInt8} {cs : Text} {octets : Vector UInt8 4}

theorem plain_of_digit {c : Char} : Digit c → Plain c := by
  rintro ⟨d, hd, rfl⟩
  revert d
  unfold Plain
  decide

-- The letters of a number may be lower case.
theorem foldlM_lower (h : ∀ c ∈ cs, Digit c) :
    cs.foldlM (fromStrRadix.step bits) v =
      (cs.map Char.toUpper).foldlM (fromStrRadix.step bits) v := by
  have hd : ∀ d < 16, toDigit (Nat.digitChar d) = some d := by decide
  induction cs generalizing v
  case nil => rfl
  case cons c cs hi =>
    obtain ⟨⟨d, hlt, rfl⟩, hcs⟩ := List.forall_mem_cons.mp h
    have hs : fromStrRadix.step bits v (Nat.digitChar d) =
        fromStrRadix.step bits v (Nat.digitChar d).toUpper := by
      simp only [fromStrRadix.step, hd d hlt, toDigit_toUpper d hlt]
    rw [List.map_cons, List.foldlM_cons, List.foldlM_cons, hs]
    exact congrArg _ (funext fun v => hi hcs)

theorem plain_of_mem_lowerHex : ∀ c ∈ lowerHex byte, Plain c :=
  fun _ hc => plain_of_digit (digit_of_mem_padded hc)

theorem u32FromHex_hex (h : n < 2 ^ 32) : u32FromHex (hex k n) = some (.ofNat n) := by
  rw [u32FromHex, fromStrRadix_hex h]
  rfl

theorem u32FromHex_lowerHex : u32FromHex (lowerHex byte) = some (.ofNat byte.toNat) := by
  have hn : lowerHex byte ≠ [] := Digits.padded_ne_nil
  have hb := byte.toNat_lt
  have hf : (lowerHex byte).foldlM (fromStrRadix.step 32) 0 = some byte.toNat :=
    (foldlM_lower fun _ => digit_of_mem_padded).trans (foldlM_hex (by omega))
  rw [u32FromHex, fromStrRadix_eq hn plain_of_mem_lowerHex, hf]
  rfl

theorem leValue_injective : Function.Injective leValue := by
  intro octets octets' h
  have hr := @u32ToBeBytes_leValue octets
  rw [h, u32ToBeBytes_leValue] at hr
  simpa using congrArg Vector.reverse hr.symm

theorem leValue_zero : leValue (.replicate 4 0) = 0 := by
  decide

theorem hex_eq_defaultRouteDest :
    hex 8 (leValue octets) = defaultRouteDest ↔ octets = .replicate 4 0 := by
  have hd : defaultRouteDest = hex 8 (leValue (.replicate 4 0)) := by decide +kernel
  rw [hd]
  constructor
  case mpr =>
    rintro rfl
    rfl
  case mp =>
    intro h
    have hr := @fromStrRadix_hex 32 _ 8 (@leValue_lt octets)
    rw [h, fromStrRadix_hex leValue_lt] at hr
    exact leValue_injective (Option.some.inj hr.symm)

-- The first two bytes of an address are the last two of the number that is printed.
theorem linkLocal_iff : UInt32.ofNat (leValue octets) &&& ipv4LinkLocalMask = ipv4LinkLocalPrefix ↔
    octets.toList.take 2 = [169, 254] := by
  obtain ⟨a, b, c, d, rfl⟩ := @exists_bytes octets
  have ha := a.toNat_lt
  have hb := b.toNat_lt
  have hv : (UInt32.ofNat (leValue #v[a, b, c, d])).toNat = leValue #v[a, b, c, d] :=
    UInt32.toNat_ofNat_of_lt' leValue_lt
  have hm : leValue #v[a, b, c, d] &&& 0xffff = a.toNat + 0x100 * b.toNat := by
    rw [show 0xffff = 2 ^ 16 - 1 from rfl, Nat.and_two_pow_sub_one_eq_mod, leValue_eq]
    omega
  rw [←UInt32.toNat_inj, UInt32.toNat_and, hv]
  have hl : #v[a, b, c, d].toList.take 2 = [169, 254] ↔ a = 169 ∧ b = 254 := by simp
  change leValue #v[a, b, c, d] &&& 0xffff = 0xfea9 ↔ _
  rw [hm, hl, ←UInt8.toNat_inj, ←UInt8.toNat_inj]
  change a.toNat + 0x100 * b.toNat = 0xfea9 ↔ a.toNat = 169 ∧ b.toNat = 254
  omega

theorem ofNat_leValue_eq_zero : UInt32.ofNat (leValue octets) = 0 ↔ octets = .replicate 4 0 := by
  rw [←leValue_injective.eq_iff, leValue_zero, ←UInt32.toNat_inj,
    UInt32.toNat_ofNat_of_lt' leValue_lt]
  rfl

end Numbers

section Lines

variable {route : Route} {addr : IfAddr} {table : RouteTable} {addrs : List IfAddr} {c : Char}
variable {text rest : Text}

theorem splitWhitespace_word (hw : Words.IsWord isWhitespace text) (hc : isWhitespace c) :
    splitWhitespace (text ++ c :: rest) = text :: splitWhitespace rest :=
  hw.words_append hc

theorem isWord_plain (hn : text ≠ []) (h : ∀ c ∈ text, Plain c) : Words.IsWord isWhitespace text :=
  ⟨hn, fun c hc => (h c hc).2.2.1⟩

theorem onLine_word (h : Words.IsWord isWhitespace text) : OnLine text := by
  intro c hc
  have hw := h.plain c hc
  constructor <;> rintro rfl <;> exact absurd hw (by decide)

theorem isWord_lowerHex {byte : UInt8} : Words.IsWord isWhitespace (lowerHex byte) :=
  isWord_plain Digits.padded_ne_nil plain_of_mem_lowerHex

theorem isWord_octets {octets : Vector UInt8 16} :
    Words.IsWord isWhitespace (octets.toList.flatMap lowerHex) := by
  refine isWord_plain (fun hn => ?_) fun c hc => ?_
  case refine_1 =>
    have h₀ : octets[0] ∈ octets.toList := by simp
    exact isWord_lowerHex.ne_nil (List.flatMap_eq_nil_iff.mp hn _ h₀)
  case refine_2 =>
    obtain ⟨byte, _, hb⟩ := List.mem_flatMap.mp hc
    exact plain_of_mem_lowerHex c hb

theorem isWord_hex {k n : Nat} : Words.IsWord isWhitespace (hex k n) :=
  isWord_plain hex_ne_nil fun _ => plain_of_mem_hex

theorem splitWhitespace_route : splitWhitespace route.line =
    route.iface.val :: hex 8 (leValue route.dest) :: hex 8 (leValue route.gateway) ::
      splitWhitespace route.fields.val := by
  rw [Route.line, splitWhitespace_word route.iface.property rfl,
    splitWhitespace_word isWord_hex rfl, splitWhitespace_word isWord_hex rfl]

theorem splitWhitespace_addr : splitWhitespace addr.line =
    [addr.octets.toList.flatMap lowerHex, lowerHex addr.ifindex, lowerHex addr.prefixLen,
      lowerHex addr.scope, lowerHex addr.flags, addr.iface.val] := by
  have hi : splitWhitespace (List.replicate (8 - addr.iface.val.length) ' ' ++ addr.iface.val) =
      [addr.iface.val] := (Words.words_replicate _ rfl).trans addr.iface.property.words
  have hb : isWhitespace ' ' = true := rfl
  simp only [IfAddr.line, splitWhitespace_word isWord_octets hb,
    splitWhitespace_word isWord_lowerHex hb, hi]

theorem onLine_route : OnLine route.line := by
  have tab {text : Text} (h : OnLine text) : OnLine ('\t' :: text) :=
    List.forall_mem_cons.mpr ⟨by decide, h⟩
  exact (onLine_word route.iface.property).append <| tab <| (onLine_word isWord_hex).append <|
    tab <| (onLine_word isWord_hex).append <| tab route.fields.property

theorem onLine_addr : OnLine addr.line := by
  have hb : OnLine (List.replicate (8 - addr.iface.val.length) ' ') := by
    intro c hc
    obtain rfl := List.eq_of_mem_replicate hc
    decide
  have hl {byte : UInt8} {text : Text} (h : OnLine text) : OnLine (lowerHex byte ++ ' ' :: text) :=
    (onLine_word isWord_lowerHex).append h.blank
  exact (onLine_word isWord_octets).append <| .blank <| hl <| hl <| hl <| hl <|
    hb.append (onLine_word addr.iface.property)

theorem lines_routes : lines table.print = table.titles.val :: table.routes.map Route.line := by
  refine lines_unlines fun l hl => ?_
  obtain rfl | hl := List.mem_cons.mp hl
  case inl => exact table.titles.property
  case inr =>
    obtain ⟨_, _, rfl⟩ := List.mem_map.mp hl
    exact onLine_route

theorem lines_addrs : lines (printAddrs addrs) = addrs.map IfAddr.line := by
  refine lines_unlines fun l hl => ?_
  obtain ⟨_, _, rfl⟩ := List.mem_map.mp hl
  exact onLine_addr

end Lines

namespace Net

variable {net : Net} {iface : Text}

theorem isRoutableRoute_iff {route : Route} :
    isRoutableRoute iface route.line ↔ route.Routable iface := by
  simp only [isRoutableRoute, splitWhitespace_route, u32FromHex_hex leValue_lt, Option.getD_some,
    Bool.and_eq_true, decide_eq_true_eq, Bool.or_eq_true, bne_iff_ne, ne_eq, linkLocal_iff,
    ofNat_leValue_eq_zero]
  rfl

theorem isRoutableAddr_iff {addr : IfAddr} :
    isRoutableAddr iface addr.line ↔ addr.Routable iface := by
  have hs : UInt32.ofNat addr.scope.toNat = ipv6ScopeLinkLocal ↔ addr.scope = 0x20 := by
    have hb := addr.scope.toNat_lt
    rw [←UInt32.toNat_inj, UInt32.toNat_ofNat_of_lt' (hb.trans (by decide)),
      ←UInt8.toNat_inj]
    rfl
  simp only [isRoutableAddr, splitWhitespace_addr, u32FromHex_lowerHex, Bool.and_eq_true,
    decide_eq_true_eq, bne_iff_ne, ne_eq, hs]
  rfl

theorem defaultIface_route {route : Route} : defaultIface route.line =
    if route.dest = .replicate 4 0 then some route.iface.val else none := by
  simp only [defaultIface, splitWhitespace_route, hex_eq_defaultRouteDest]

theorem hasRoutableAddress_iff : net.host.hasRoutableAddress iface ↔
    (∃ route ∈ net.routes.routes, route.Routable iface) ∨
      ∃ addr ∈ net.addrs.getD [], addr.Routable iface := by
  rw [Host.hasRoutableAddress, Bool.or_eq_true]
  refine or_congr ?_ ?_
  case refine_1 =>
    simp [Host.hasRoutableIpv4, host, lines_routes, isRoutableRoute_iff]
  case refine_2 =>
    cases ha : net.addrs
    case none       => simp [Host.hasRoutableIpv6, host, ha]
    case some addrs => simp [Host.hasRoutableIpv6, host, ha, lines_addrs, isRoutableAddr_iff]

theorem isOperationallyUp_iff : net.host.isOperationallyUp iface ↔
    net.operstate iface = some .up ∨ net.operstate iface = some .unknown := by
  cases hs : net.operstate iface
  case none => simp [Host.isOperationallyUp, host, hs]
  case some state =>
    simp only [Host.isOperationallyUp, host, hs]
    cases state <;> decide +kernel

theorem candidate_eq : (iface ≠ loopbackIface && net.host.isOperationallyUp iface &&
    net.host.hasRoutableAddress iface) = decide (net.Watchable iface) := by
  rw [Bool.eq_iff_iff, decide_eq_true_iff, Bool.and_eq_true, Bool.and_eq_true, decide_eq_true_iff,
    isOperationallyUp_iff, hasRoutableAddress_iff, and_assoc]
  rfl

-- All interfaces that are to be watched are found, in the order of the directory, and no others.
theorem detectRoutableInterfaces_eq : net.host.detectRoutableInterfaces =
    if net.devices.filter net.Watchable = [] then
      .error (.loadError "No routable interfaces found. Use --interface to specify explicitly.")
    else
      .ok (net.devices.filter net.Watchable) := by
  have hd : net.host.sysfsNetDir = .ok (net.devices.map some) := rfl
  have hc : (net.devices.map some).filterMap id = net.devices := by simp [List.filterMap_map]
  simp only [Host.detectRoutableInterfaces, hd, hc, List.isEmpty_iff, candidate_eq]

-- The default route is the first one to 0.0.0.0, whatever its mask.
theorem detectDefaultInterface_eq : net.host.detectDefaultInterface =
    match net.routes.routes.find? (·.dest = .replicate 4 0) with
    | some route => .ok route.iface.val
    | none       => .error <| .loadError
      "No default route found. Use --interface to specify explicitly." := by
  have hr : net.host.procRoute = .ok net.routes.print := rfl
  have hf : (net.routes.routes.map Route.line).findSome? defaultIface =
      (net.routes.routes.find? (·.dest = .replicate 4 0)).map (·.iface.val) := by
    induction net.routes.routes
    case nil => rfl
    case cons route routes hi =>
      by_cases hz : route.dest = .replicate 4 0
      case pos => simp [defaultIface_route, hz]
      case neg => simpa [defaultIface_route, hz] using hi
  simp only [Host.detectDefaultInterface, hr, lines_routes, List.drop_one, List.tail_cons, hf]
  cases net.routes.routes.find? (·.dest = .replicate 4 0) <;> rfl

theorem dropWhile_blanks {n : Nat} {text rest : Text} (h : Words.IsWord isWhitespace text) :
    (List.replicate n ' ' ++ (text ++ rest)).dropWhile isWhitespace = text ++ rest := by
  have hb : ∀ c ∈ List.replicate n ' ', isWhitespace c := by
    intro c hc
    obtain rfl := List.eq_of_mem_replicate hc
    rfl
  obtain ⟨c, cs, rfl⟩ := List.exists_cons_of_ne_nil h.ne_nil
  rw [List.dropWhile_append_of_pos hb, List.cons_append, List.dropWhile_cons_of_neg]
  simp [h.plain c (List.mem_cons_self ..)]

theorem trim_print {item : Item} : trim item.print = item.name.val := by
  have hn := item.name.property
  have hr : Words.IsWord isWhitespace item.name.val.reverse :=
    ⟨by simpa using hn.ne_nil, fun c hc => hn.plain c (by simpa using hc)⟩
  have ht := @dropWhile_blanks item.after _ [] hr
  rw [List.append_nil] at ht
  rw [trim, Item.print, dropWhile_blanks hn, List.reverse_append, List.reverse_replicate, ht,
    List.reverse_reverse]

theorem comma_print {item : Item} : ',' ∉ item.print := by
  simp [Item.print, item.single]

theorem detectInterfaces_eq (selection : Selection) :
    net.host.detectInterfaces selection.print = net.selected selection := by
  cases selection
  case auto =>
    simp only [Host.detectInterfaces, Selection.print, if_true, selected, detectDefaultInterface_eq]
    cases net.routes.routes.find? (·.dest = .replicate 4 0) <;> rfl
  case all =>
    have hm : "all".toList ≠ "auto".toList := by decide
    simp only [Host.detectInterfaces, Selection.print, hm, if_false, if_true, selected,
      detectRoutableInterfaces_eq]
  case names items hi ha hb =>
    have hc : ∀ text ∈ items.map Item.print, ',' ∉ text := by
      intro text ht
      obtain ⟨item, _, rfl⟩ := List.mem_map.mp ht
      exact comma_print
    simp only [Host.detectInterfaces, Selection.print, ha, hb, if_false, selected]
    rw [printItems, List.splitOn_intercalate _ hc (by simpa using hi), List.map_map]
    exact congrArg _ (List.map_congr_left fun _ _ => trim_print)

end Net

end TlsProbe.Interfaces
