import TlsProbe.Parser.Hello

namespace TlsProbe

open Reader

namespace Parser

variable {α : Type} {payload : List UInt8} {n m k : Nat}

theorem u8_bind_endsAt {f : UInt8 → Parser α} :
    EndsAt (u8 >>= f) payload n m ↔
      n + 1 ≤ payload.length ∧ EndsAt (f <| payload.getD n 0) payload (n + 1) m := by
  simp only [u8, read_bind_endsAt, slice_getElem (0 : UInt8), exists_prop, Nat.add_zero]

theorem u16_bind_endsAt {f : UInt16 → Parser α} :
    EndsAt (u16 >>= f) payload n m ↔ n + 2 ≤ payload.length ∧
      EndsAt (f <| u16FromBeBytes (payload.getD n 0) (payload.getD (n + 1) 0)) payload (n + 2)
        m := by
  simp only [u16, read_bind_endsAt, slice_getElem (0 : UInt8), exists_prop, Nat.add_zero]

theorem bytes_bind_endsAt {f : List UInt8 → Parser α} :
    EndsAt (bytes k >>= f) payload n m ↔
      n + k ≤ payload.length ∧ EndsAt (f <| (payload.drop n).take k) payload (n + k) m := by
  simp only [bytes, read_bind_endsAt, slice_toList, exists_prop]

end Parser

-- Where the session id ends, by the lengths that `payload` declares.
def sessionIdEnd (payload : List UInt8) : Nat :=
  let offset := helloStart + 2 + tlsRandomLen
  offset + 1 + (payload.getD offset 0).toNat

namespace ParsedServerHello

def extensionsAt (payload : List UInt8) : Nat :=
  sessionIdEnd payload + 2 + 1

theorem fields_extends : Extends fields := by
  repeat refine .bind .read fun _ => ?_
  exact .pure

theorem fields_reaches : Reaches (2 + (32 + (1 + (255 + (2 + (1 + 0)))))) fields := by
  refine .bind .read fun _ => .bind .read fun _ => .bind .read fun sessionIdLen => ?_
  have hs : sessionIdLen.toNat ≤ 255 := Nat.le_of_lt_succ sessionIdLen.toNat_lt
  exact .bind (.mono .read hs) fun _ => .bind .read fun _ => .bind .read fun _ => .pure

theorem fields_endsAt {payload : List UInt8} {offset : Nat} :
    fields.EndsAt payload helloStart offset ↔
      extensionsAt payload = offset ∧ offset ≤ payload.length := by
  simp only [fields, Parser.u8_bind_endsAt, Parser.u16_bind_endsAt, Parser.bytes_bind_endsAt,
    pure_endsAt, extensionsAt, sessionIdEnd]
  omega

end ParsedServerHello

namespace ParsedClientHello

def compressionAt (payload : List UInt8) : Nat :=
  let offset := sessionIdEnd payload
  offset + 2 + (u16FromBeBytes (payload.getD offset 0) (payload.getD (offset + 1) 0)).toNat

def extensionsAt (payload : List UInt8) : Nat :=
  let offset := compressionAt payload
  offset + 1 + (payload.getD offset 0).toNat

theorem fields_extends : Extends fields := by
  repeat refine .bind .read fun _ => ?_
  exact .pure

theorem fields_reaches :
    Reaches (2 + (32 + (1 + (255 + (2 + (65535 + (1 + (255 + 0)))))))) fields := by
  refine .bind .read fun _ => .bind .read fun _ => .bind .read fun sessionIdLen => ?_
  have hs : sessionIdLen.toNat ≤ 255 := Nat.le_of_lt_succ sessionIdLen.toNat_lt
  refine .bind (.mono .read hs) fun _ => .bind .read fun cipherLen => ?_
  have hc : cipherLen.toNat ≤ 65535 := Nat.le_of_lt_succ cipherLen.toNat_lt
  refine .bind (.mono .read hc) fun _ => .bind .read fun compLen => ?_
  have hm : compLen.toNat ≤ 255 := Nat.le_of_lt_succ compLen.toNat_lt
  exact .bind (.mono .read hm) fun _ => .pure

theorem fields_endsAt {payload : List UInt8} {offset : Nat} :
    fields.EndsAt payload helloStart offset ↔
      extensionsAt payload = offset ∧ offset ≤ payload.length := by
  simp only [fields, Parser.u8_bind_endsAt, Parser.u16_bind_endsAt, Parser.bytes_bind_endsAt,
    pure_endsAt, extensionsAt, compressionAt, sessionIdEnd]
  omega

end ParsedClientHello

end TlsProbe
