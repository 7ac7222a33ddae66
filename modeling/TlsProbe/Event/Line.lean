import TlsProbe.Event.Serialize
import TlsProbe.Lib.JsonText

namespace TlsProbe

-- How `serde_json` writes a character of a string.
def escapeChar (c : Char) : List Char :=
  if c = '"' then ['\\', '"']
  else if c = '\\' then ['\\', '\\']
  else if c = '\x08' then ['\\', 'b']
  else if c = '\x0c' then ['\\', 'f']
  else if c = '\n' then ['\\', 'n']
  else if c = '\r' then ['\\', 'r']
  else if c = '\t' then ['\\', 't']
  else if c < ' ' then
    ['\\', 'u', '0', '0', Nat.digitChar (c.toNat / 16), Nat.digitChar (c.toNat % 16)]
  else
    [c]

-- The character that a text starts with.
def unescapeChar : List Char → Option Char
  | '\\' :: 'b' :: _ => some '\x08'
  | '\\' :: 'f' :: _ => some '\x0c'
  | '\\' :: 'n' :: _ => some '\n'
  | '\\' :: 'r' :: _ => some '\r'
  | '\\' :: 't' :: _ => some '\t'
  | '\\' :: 'u' :: _ :: _ :: hi :: lo :: _ =>
    some <| .ofNat (16 * Digits.value hi + Digits.value lo)
  | '\\' :: c :: _ => some c
  | c :: _         => some c
  | []             => none

theorem unescapeChar_escapeChar (c : Char) (k : List Char) :
    unescapeChar (escapeChar c ++ k) = some c := by
  fun_cases escapeChar c
  case case8 hc =>
    have hn : c.toNat < 0x20 := hc
    have hh := Digits.value_digitChar (c.toNat / 16) (by omega)
    have hl := Digits.value_digitChar (c.toNat % 16) (by omega)
    simp only [List.cons_append, unescapeChar, hh, hl, Nat.div_add_mod, Char.ofNat_toNat]
  case case9 =>
    simp only [List.cons_append, List.nil_append]
    unfold unescapeChar
    split <;> simp_all
  all_goals simp_all [unescapeChar]

theorem printable_escapeChar (c : Char) : ∀ d ∈ escapeChar c, ' ' ≤ d := by
  have hd : ∀ n < 16, ' ' ≤ Nat.digitChar n := by decide
  fun_cases escapeChar c
  case case8 hc =>
    have hn : c.toNat < 0x20 := hc
    simp [hd (c.toNat / 16) (by omega), hd (c.toNat % 16) (by omega)]
  case case9 hc => simpa using hc
  all_goals simp

theorem unquoted_escapeChar (c : Char) (k k' : List Char) : escapeChar c ++ k ≠ '"' :: k' := by
  fun_cases escapeChar c
  all_goals simp_all

def serdeJson : Escaping where
  escape    := escapeChar
  printable := printable_escapeChar
  delimited := Code.delimited_of_read unescapeChar_escapeChar
  unquoted  := unquoted_escapeChar

-- The line of an event. `serde_json::to_vec` does not fail on one.
def eventLine (event : CaptureEvent) : List UInt8 :=
  event.toJson.line serdeJson

end TlsProbe
