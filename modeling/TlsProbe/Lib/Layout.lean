import Mathlib.Data.List.Forall2
import Mathlib.Data.Nat.Digits.Defs
import Mathlib.Data.UInt

-- Records in memory: the fields lie in order, each at the next multiple of its alignment.
namespace Layout

structure Field where
  size  : Nat
  align : Nat

-- What is skipped in front of a field.
def padding (start : Nat) (field : Field) : Nat :=
  (field.align - start % field.align) % field.align

def offset (start : Nat) (field : Field) : Nat :=
  start + padding start field

def offsets (start : Nat) : List Field → List Nat
  | []              => []
  | field :: fields => offset start field :: offsets (offset start field + field.size) fields

-- Where a record ends, if there is nothing behind its last field.
def finish (start : Nat) : List Field → Nat
  | []              => start
  | field :: fields => finish (offset start field + field.size) fields

variable {β : Type*}

-- The values of the fields in memory, which holds anything in between.
def pack (filler : Nat → β) (start : Nat) : List Field → List (List β) → List β
  | field :: fields, value :: values =>
    (List.range' start (padding start field)).map filler ++ value ++
      pack filler (offset start field + field.size) fields values
  | _, _ => []

def unpack (start : Nat) (fields : List Field) (memory : List β) : List (List β) :=
  (fields.zip (offsets start fields)).map fun (field, offset) =>
    (memory.drop offset).take field.size

-- A value has the size of its field.
def Fits (fields : List Field) (values : List (List β)) : Prop :=
  List.Forall₂ (fun field value => value.length = field.size) fields values

variable {fields : List Field} {last : Field} {values : List (List β)} {value : List β}
variable {filler : Nat → β} {start : Nat}

theorem unpack_cons {field : Field} {memory : List β} :
    unpack start (field :: fields) memory =
      (memory.drop (offset start field)).take field.size ::
        unpack (offset start field + field.size) fields memory :=
  rfl

theorem length_pack (h : Fits fields values) :
    start + (pack filler start fields values).length = finish start fields := by
  induction h generalizing start
  case nil => rfl
  case cons hv _ hi =>
    rw [finish, ←hi]
    simp only [pack, List.length_append, List.length_map, List.length_range', hv, offset]
    omega

-- Behind the memory in front of the record, each value is found where it has been put.
theorem unpack_pack (h : Fits fields values) {front back : List β} (hf : front.length = start) :
    unpack start fields (front ++ (pack filler start fields values ++ back)) = values := by
  induction h generalizing start front
  case nil => rfl
  case cons field value fields values hv _ hi =>
    let gap := (List.range' start (padding start field)).map filler
    have hg : (front ++ gap).length = offset start field := by simp [gap, hf, offset]
    have hn : (front ++ gap ++ value).length = offset start field + field.size := by
      rw [List.length_append, hg, hv]
    have hm : front ++ (pack filler start (field :: fields) (value :: values) ++ back) =
        (front ++ gap ++ value) ++
          (pack filler (offset start field + field.size) fields values ++ back) := by
      simp only [pack, gap, List.append_assoc]
    rw [unpack_cons, hm, hi hn, List.append_assoc, ←hg, List.drop_left, ←hv, List.take_left]

theorem pack_concat (h : Fits fields values) :
    pack filler start (fields ++ [last]) (values ++ [value]) =
      pack filler start fields values ++
        ((List.range' (finish start fields) (padding (finish start fields) last)).map filler ++
          value) := by
  induction h generalizing start
  case nil => simp [pack, finish]
  case cons hi =>
    simp only [List.cons_append, pack, finish, hi, List.append_assoc]

-- Of a record that is cut within its last field, this field gets the bytes that are left of it, and
-- those that lie in memory behind the cut.
theorem unpack_cut (h : Fits fields values) (hv : value.length = last.size) {n : Nat}
    (hn : n ≤ last.size) {back : List β} (hb : last.size - n ≤ back.length) :
    unpack 0 (fields ++ [last])
      ((pack filler 0 (fields ++ [last]) (values ++ [value])).take
        (offset (finish 0 fields) last + n) ++ back) =
      values ++ [value.take n ++ back.take (last.size - n)] := by
  have hl := @length_pack _ _ _ filler 0 h
  let mixed := value.take n ++ back.take (last.size - n)
  have hm : mixed.length = last.size := by
    simp only [mixed, List.length_append, List.length_take]
    omega
  have hc : (pack filler 0 (fields ++ [last]) (values ++ [value])).take
        (offset (finish 0 fields) last + n) ++ back =
      pack filler 0 (fields ++ [last]) (values ++ [mixed]) ++ back.drop (last.size - n) := by
    have hp : (pack filler 0 fields values ++ (List.range' (finish 0 fields)
        (padding (finish 0 fields) last)).map filler).length = offset (finish 0 fields) last := by
      simp only [List.length_append, List.length_map, List.length_range', offset]
      omega
    rw [pack_concat h, pack_concat h, ←List.append_assoc, ←List.append_assoc, ←hp,
      List.take_length_add_append]
    simp [mixed, List.append_assoc]
  have hf : Fits (fields ++ [last]) (values ++ [mixed]) := List.rel_append h (.cons hm .nil)
  rw [hc, ←List.nil_append (pack ..), List.append_assoc]
  exact unpack_pack hf rfl

section Numbers

-- The bytes of a number, the lowest one first.
def leBytes : Nat → Nat → List UInt8
  | 0,     _ => []
  | n + 1, v => .ofNat v :: leBytes n (v / 256)

def ofLeBytes (bytes : List UInt8) : Nat :=
  Nat.ofDigits 256 (bytes.map UInt8.toNat)

variable {n v : Nat}

@[simp]
theorem length_leBytes : (leBytes n v).length = n := by
  induction n generalizing v
  case zero      => rfl
  case succ n hi => simp [leBytes, hi]

theorem ofLeBytes_leBytes (h : v < 256 ^ n) : ofLeBytes (leBytes n v) = v := by
  induction n generalizing v
  case zero => simp_all [leBytes, ofLeBytes]
  case succ n hi =>
    have hd : v / 256 < 256 ^ n := Nat.div_lt_of_lt_mul (by rwa [Nat.pow_succ'] at h)
    calc
      ofLeBytes (leBytes (n + 1) v) = v % 256 + 256 * ofLeBytes (leBytes n (v / 256)) := by
        simp [leBytes, ofLeBytes, Nat.ofDigits_cons]
      _ = v % 256 + 256 * (v / 256) := by rw [hi hd]
      _ = v := Nat.mod_add_div ..

end Numbers

end Layout
