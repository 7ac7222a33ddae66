import TlsProbe.Lib.Code
import TlsProbe.Lib.Digits
import TlsProbe.Lib.Json

-- How a printer writes the characters of a string: what it writes is printable and can be told from
-- the quote that ends the string.
structure Escaping where
  escape    : Char → List Char
  printable : ∀ c, ∀ d ∈ escape c, ' ' ≤ d
  delimited : Code.Delimited escape Code.Any
  unquoted  : ∀ c k k', escape c ++ k ≠ '"' :: k'

namespace Json

-- The text of a value, without blanks.

def decimal (n : Int) : List Char :=
  (if n < 0 then ['-'] else []) ++ Nat.toDigits 10 n.natAbs

def quoted (e : Escaping) (s : String) : List Char :=
  '"' :: (s.toList.flatMap e.escape ++ ['"'])

mutual

def text (e : Escaping) : Json → List Char
  | null         => "null".toList
  | bool b       => if b then "true".toList else "false".toList
  | num n        => decimal n
  | str s        => quoted e s
  | arr elements => Code.bracketed '[' ',' ']' (elementTexts e elements)
  | obj members  => Code.bracketed '\x7b' ',' '\x7d' (memberTexts e members)

def elementTexts (e : Escaping) : List Json → List (List Char)
  | []            => []
  | value :: rest => text e value :: elementTexts e rest

def memberTexts (e : Escaping) : List (String × Json) → List (List Char)
  | []                    => []
  | (name, value) :: rest => (quoted e name ++ ':' :: text e value) :: memberTexts e rest

end

variable {e : Escaping} {value : Json} {values : List Json} {members : List (String × Json)}
variable {c : Char} {k k' : List Char} {n : Nat}

def memberText (e : Escaping) (member : String × Json) : List Char :=
  quoted e member.1 ++ ':' :: text e member.2

theorem elementTexts_eq : elementTexts e values = values.map (text e) := by
  induction values
  case nil         => rfl
  case cons _ _ hi => rw [elementTexts, hi, List.map_cons]

theorem memberTexts_eq : memberTexts e members = members.map (memberText e) := by
  induction members
  case nil         => rfl
  case cons _ _ hi => rw [memberTexts, hi, List.map_cons, memberText]

section Scalars

theorem isDigit_of_mem_toDigits (h : c ∈ Nat.toDigits 10 n) : c.isDigit = true := by
  have hd : ∀ d < 10, (Nat.digitChar d).isDigit = true := by decide
  obtain ⟨d, hlt, rfl⟩ := Digits.mem_toDigits (by decide) h
  exact hd d hlt

-- What does not go on with the digits of a number.
def Ends (k : List Char) : Prop :=
  ∀ c ∈ k.head?, c.isDigit = false

theorem delimited_toDigits : Code.Delimited (Nat.toDigits 10) Ends :=
  Code.delimited_of_all
    (Function.LeftInverse.injective fun _ => Digits.read_toDigits (by decide) (by decide))
    fun _ _ => isDigit_of_mem_toDigits

theorem decimal_neg {n : Int} (h : n < 0) : decimal n = '-' :: Nat.toDigits 10 n.natAbs := by
  rw [decimal, if_pos h]
  rfl

theorem decimal_nonneg {n : Int} (h : ¬n < 0) : decimal n = Nat.toDigits 10 n.natAbs := by
  rw [decimal, if_neg h, List.nil_append]

theorem toDigits_ne_minus : Nat.toDigits 10 n ++ k ≠ '-' :: k' := by
  intro he
  cases h : Nat.toDigits 10 n
  case nil => exact Nat.toDigits_ne_nil h
  case cons c cs =>
    have hd : c.isDigit = true := isDigit_of_mem_toDigits (h ▸ List.mem_cons_self)
    rw [h, List.cons_append] at he
    rw [List.head_eq_of_cons_eq he] at hd
    contradiction

theorem delimited_decimal : Code.Delimited decimal Ends := by
  intro n n' k k' hk hk' he
  by_cases hn : n < 0
  case pos =>
    rw [decimal_neg hn] at he
    by_cases hn' : n' < 0
    case pos =>
      rw [decimal_neg hn'] at he
      obtain ⟨ha, rfl⟩ := delimited_toDigits n.natAbs hk hk' (List.cons_injective he)
      exact ⟨by omega, rfl⟩
    case neg =>
      rw [decimal_nonneg hn'] at he
      exact absurd he.symm toDigits_ne_minus
  case neg =>
    rw [decimal_nonneg hn] at he
    by_cases hn' : n' < 0
    case pos =>
      rw [decimal_neg hn'] at he
      exact absurd he toDigits_ne_minus
    case neg =>
      rw [decimal_nonneg hn'] at he
      obtain ⟨ha, rfl⟩ := delimited_toDigits n.natAbs hk hk' he
      exact ⟨by omega, rfl⟩

theorem delimited_quoted : Code.Delimited (quoted e) Code.Any := by
  intro s s' k k' _ _ he
  have ⟨hs, hk⟩ := e.delimited.until e.unquoted s.toList trivial trivial (List.cons_injective he)
  exact ⟨String.toList_inj.mp hs, hk⟩

end Scalars

section Values

def kind : Json → Nat
  | null   => 0
  | bool _ => 1
  | num _  => 2
  | str _  => 3
  | arr _  => 4
  | obj _  => 5

-- The kind of the values of which the texts start like this.
def kindOf (c : Char) : Nat :=
  if c = 'n' then 0
  else if c = 't' ∨ c = 'f' then 1
  else if c = '"' then 3
  else if c = '[' then 4
  else if c = '\x7b' then 5
  else if c = '-' ∨ c.isDigit then 2
  else 6

theorem kindOf_of_isDigit (h : c.isDigit = true) : kindOf c = 2 := by
  have hne {d : Char} (hd : d.isDigit = false) : c ≠ d := fun he => by simp [he, hd] at h
  simp [kindOf, hne, h]

theorem kindOf_decimal (n : Int) : ∃ c cs, decimal n = c :: cs ∧ kindOf c = 2 := by
  by_cases h : n < 0
  case pos => exact ⟨_, _, decimal_neg h, rfl⟩
  case neg =>
    rw [decimal_nonneg h]
    cases hd : Nat.toDigits 10 n.natAbs
    case nil       => exact absurd hd Nat.toDigits_ne_nil
    case cons c cs =>
      exact ⟨c, cs, rfl, kindOf_of_isDigit <| isDigit_of_mem_toDigits (hd ▸ List.mem_cons_self)⟩

theorem kindOf_text (value : Json) : ∃ c cs, text e value = c :: cs ∧ kindOf c = value.kind := by
  cases value
  case null  => exact ⟨_, _, rfl, rfl⟩
  case bool b => cases b <;> exact ⟨_, _, rfl, rfl⟩
  case num n => exact kindOf_decimal n
  case str   => exact ⟨_, _, rfl, rfl⟩
  case arr   => exact ⟨_, _, rfl, rfl⟩
  case obj   => exact ⟨_, _, rfl, rfl⟩

-- Texts that start alike are those of values of one kind.
theorem kind_eq {value' : Json} (h : text e value ++ k = text e value' ++ k') :
    value'.kind = value.kind := by
  obtain ⟨c, cs, hc, hk⟩ := kindOf_text (e := e) value
  obtain ⟨c', cs', hc', hk'⟩ := kindOf_text (e := e) value'
  rw [hc, hc'] at h
  rw [←hk, ←hk', List.head_eq_of_cons_eq h]

theorem ends_of_not_isDigit (h : c.isDigit = false) : Ends (c :: k) := by
  simpa [Ends] using h

theorem reads_elements {elements : List Json}
    (h : ∀ element ∈ elements, Code.Reads (text e) Ends element) :
    Code.Reads (fun elements => Code.bracketed '[' ',' ']' (elements.map (text e))) Code.Any
      elements := by
  refine Code.reads_bracketed h (fun _ => ends_of_not_isDigit rfl)
    (fun _ => ends_of_not_isDigit rfl) (by decide) fun element k k' he => ?_
  obtain ⟨c, cs, hc, hk⟩ := kindOf_text (e := e) element
  rw [hc] at he
  rw [List.head_eq_of_cons_eq he] at hk
  cases element <;> exact absurd hk (by simp [kindOf, kind])

theorem reads_member {member : String × Json} (h : Code.Reads (text e) Ends member.2) :
    Code.Reads (memberText e) Ends member := by
  intro member' k k' hk hk' he
  simp only [memberText, List.append_assoc, List.cons_append] at he
  obtain ⟨hn, hr⟩ := delimited_quoted member.1 trivial trivial he
  obtain ⟨hv, rfl⟩ := h hk hk' (List.cons_injective hr)
  exact ⟨Prod.ext hn hv, rfl⟩

theorem reads_members (h : ∀ member ∈ members, Code.Reads (text e) Ends member.2) :
    Code.Reads (fun members => Code.bracketed '\x7b' ',' '\x7d' (members.map (memberText e)))
      Code.Any members := by
  refine Code.reads_bracketed (fun member hm => reads_member (h member hm))
    (fun _ => ends_of_not_isDigit rfl) (fun _ => ends_of_not_isDigit rfl) (by decide) ?_
  intro member k k' he
  exact absurd (List.head_eq_of_cons_eq he) (by decide)

theorem reads_text : ∀ value, Code.Reads (text e) Ends value
  | null => by
    intro value' k k' _ _ he
    have hi := kind_eq he
    cases value' <;> simp [kind] at hi
    exact ⟨rfl, List.append_cancel_left he⟩
  | bool b => by
    intro value' k k' _ _ he
    have hi := kind_eq he
    cases value' <;> simp [kind] at hi
    case bool b' => cases b <;> cases b' <;> simp_all [text]
  | num n => by
    intro value' k k' hk hk' he
    have hi := kind_eq he
    cases value' <;> simp [kind] at hi
    case num n' =>
      obtain ⟨rfl, h⟩ := delimited_decimal n hk hk' he
      exact ⟨rfl, h⟩
  | str s => by
    intro value' k k' _ _ he
    have hi := kind_eq he
    cases value' <;> simp [kind] at hi
    case str s' =>
      obtain ⟨rfl, h⟩ := delimited_quoted s trivial trivial he
      exact ⟨rfl, h⟩
  | arr elements => by
    have hr (element : Json) (h : element ∈ elements) : Code.Reads (text e) Ends element :=
      reads_text element
    intro value' k k' _ _ he
    have hi := kind_eq he
    cases value' <;> simp [kind] at hi
    case arr elements' =>
      simp only [text, elementTexts_eq] at he
      obtain ⟨rfl, h⟩ := reads_elements hr trivial trivial he
      exact ⟨rfl, h⟩
  | obj members => by
    have hr (member : String × Json) (h : member ∈ members) :
        Code.Reads (text e) Ends member.2 := reads_text member.2
    intro value' k k' _ _ he
    have hi := kind_eq he
    cases value' <;> simp [kind] at hi
    case obj members' =>
      simp only [text, memberTexts_eq] at he
      obtain ⟨rfl, h⟩ := reads_members hr trivial trivial he
      exact ⟨rfl, h⟩
decreasing_by
  case _ =>
    have := List.sizeOf_lt_of_mem h
    simp only [arr.sizeOf_spec]
    omega
  case _ =>
    have := List.sizeOf_lt_of_mem h
    cases member
    simp only [obj.sizeOf_spec, Prod.mk.sizeOf_spec] at this ⊢
    omega

end Values

section Lines

def bytes (e : Escaping) (value : Json) : List UInt8 :=
  (text e value).flatMap String.utf8EncodeChar

-- A value on a line of its own.
def line (e : Escaping) (value : Json) : List UInt8 :=
  bytes e value ++ [0x0a]

-- The character that a text starts with.
def readChar (bytes : List UInt8) : Option Char :=
  ByteArray.utf8DecodeChar? bytes.toByteArray 0

theorem readChar_append (c : Char) (k : List UInt8) :
    readChar (String.utf8EncodeChar c ++ k) = some c := by
  rw [readChar, List.toByteArray_append]
  exact ByteArray.utf8DecodeChar?_utf8EncodeChar_append

theorem delimited_utf8EncodeChar : Code.Delimited String.utf8EncodeChar Code.Any :=
  Code.delimited_of_read readChar_append

theorem bytes_injective : Function.Injective (bytes e) := by
  have hn (c : Char) : String.utf8EncodeChar c ≠ [] := by
    intro h
    have := String.length_utf8EncodeChar c
    have := c.utf8Size_pos
    simp_all
  have ht : Function.Injective (text e) :=
    Code.Delimited.injective (K := Ends) reads_text (by simp [Ends])
  exact (delimited_utf8EncodeChar.flatMap_injective hn).comp ht

theorem printable_quoted {s : String} (h : c ∈ quoted e s) : ' ' ≤ c := by
  simp only [quoted, List.mem_cons, List.mem_append, List.mem_flatMap, List.mem_nil_iff,
    or_false] at h
  obtain rfl | ⟨d, -, h⟩ | rfl := h
  · decide
  · exact e.printable d c h
  · decide

theorem printable_bracketed {opening mark close : Char} {words : List (List Char)}
    (ho : ' ' ≤ opening) (hm : ' ' ≤ mark) (hc : ' ' ≤ close)
    (hw : ∀ word ∈ words, ∀ c ∈ word, ' ' ≤ c) :
    ∀ c ∈ Code.bracketed opening mark close words, ' ' ≤ c := by
  have hk : ∀ c ∈ Code.marked mark close words, ' ' ≤ c := by
    intro c h
    simp only [Code.marked, List.mem_append, List.mem_flatMap, List.mem_cons, List.mem_nil_iff,
      or_false] at h
    obtain ⟨word, hword, rfl | h⟩ | rfl := h
    · exact hm
    · exact hw word hword c h
    · exact hc
  intro c h
  obtain rfl | h := List.mem_cons.mp h
  · exact ho
  · exact hk c (List.mem_of_mem_drop h)

theorem printable_decimal {n : Int} (h : c ∈ decimal n) : ' ' ≤ c := by
  have hd {c : Char} (h : c ∈ Nat.toDigits 10 n.natAbs) : ' ' ≤ c := by
    have hp : ∀ d < 10, ' ' ≤ Nat.digitChar d := by decide
    obtain ⟨d, hlt, rfl⟩ := Digits.mem_toDigits (by decide) h
    exact hp d hlt
  by_cases hn : n < 0
  case pos =>
    rw [decimal_neg hn] at h
    obtain rfl | h := List.mem_cons.mp h
    · decide
    · exact hd h
  case neg =>
    rw [decimal_nonneg hn] at h
    exact hd h

theorem printable_text : ∀ value, ∀ c ∈ text e value, ' ' ≤ c
  | null   => by simp [text]
  | bool b => by cases b <;> simp [text]
  | num n  => fun _ => printable_decimal
  | str s => fun _ => printable_quoted
  | arr elements => by
    have hp (element : Json) (h : element ∈ elements) : ∀ c ∈ text e element, ' ' ≤ c :=
      printable_text element
    rw [text, elementTexts_eq]
    exact printable_bracketed (by decide) (by decide) (by decide) (List.forall_mem_map.mpr hp)
  | obj members => by
    have hp (member : String × Json) (h : member ∈ members) : ∀ c ∈ text e member.2, ' ' ≤ c :=
      printable_text member.2
    rw [text, memberTexts_eq]
    refine printable_bracketed (by decide) (by decide) (by decide) (List.forall_mem_map.mpr ?_)
    intro member h c hc
    obtain hc | hc := List.mem_append.mp hc
    · exact printable_quoted hc
    · obtain rfl | hc := List.mem_cons.mp hc
      · decide
      · exact hp member h c hc
decreasing_by
  case _ =>
    have := List.sizeOf_lt_of_mem h
    simp only [arr.sizeOf_spec]
    omega
  case _ =>
    have := List.sizeOf_lt_of_mem h
    cases member
    simp only [obj.sizeOf_spec, Prod.mk.sizeOf_spec] at this ⊢
    omega

theorem printable_utf8EncodeChar (h : ' ' ≤ c) : ∀ b ∈ String.utf8EncodeChar c, 0x20 ≤ b := by
  have hv : 0x20 ≤ c.val.toNat := h
  fun_cases String.utf8EncodeChar c
  all_goals
    simp only [List.forall_mem_cons, List.not_mem_nil, false_imp_iff, implies_true, and_true,
      UInt8.le_iff_toNat_le, UInt8.toNat_ofNat', UInt8.reduceToNat]
    omega

theorem not_mem_bytes : 0x0a ∉ bytes e value := by
  intro h
  obtain ⟨c, hc, hb⟩ := List.mem_flatMap.mp h
  exact absurd (printable_utf8EncodeChar (printable_text value c hc) _ hb) (by decide)

end Lines

end Json
