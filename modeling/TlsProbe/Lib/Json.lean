import Mathlib.Algebra.Group.Nat.Defs
import Mathlib.Data.List.Nodup

-- JSON values, with integers for numbers.
inductive Json
  | null
  | bool (b : Bool)
  | num (n : Int)
  | str (s : String)
  | arr (elements : List Json)
  | obj (members : List (String × Json))

namespace Json

def member (name : String) : Json → Option Json
  | obj members => members.lookup name
  | _           => none

-- The object for a record. A field without a value is left out.
def object (fields : List (String × Option Json)) : Json :=
  obj <| fields.filterMap fun (name, value) => value.map (name, ·)

def nullable {α : Type*} (toJson : α → Json) : Option α → Json
  | some a => toJson a
  | none   => null

variable {fields : List (String × Option Json)} {name : String}

theorem lookup_of_not_mem {β : Type*} {entries : List (String × β)}
    (h : name ∉ entries.map (·.1)) : entries.lookup name = none := by
  rw [List.lookup_eq_none_iff]
  rintro ⟨name', value⟩ he
  refine bne_iff_ne.mpr fun hn => h ?_
  exact List.mem_map.mpr ⟨_, he, hn.symm⟩

theorem member_object (h : (fields.map (·.1)).Nodup) :
    (object fields).member name = (fields.lookup name).join := by
  simp only [object, member]
  induction fields
  case nil => rfl
  case cons field fields hi =>
    obtain ⟨name', value⟩ := field
    rw [List.map_cons, List.nodup_cons] at h
    have hi := hi h.2
    by_cases hn : name = name'
    case neg =>
      have hb : (name == name') = false := by simpa using hn
      cases value <;> simp [hb, hi, List.lookup_cons]
    case pos =>
      subst hn
      have hl := lookup_of_not_mem h.1
      cases value <;> simp [hi, hl]

theorem not_mem_members {fields : List (String × Option Json)} {name : String} {value : Json}
    (h : name ∉ fields.map (·.1)) :
    (name, value) ∉ fields.filterMap fun (name, value) => value.map (name, ·) := by
  simp only [List.mem_filterMap, Option.map_eq_some_iff, not_exists, not_and]
  rintro ⟨_, _⟩ hf _ - he
  obtain ⟨rfl, -⟩ := Prod.mk.inj he
  exact h (List.mem_map_of_mem hf)

-- The fields of a record can be told from its object.
theorem object_injective {fields fields' : List (String × Option Json)}
    (hn : fields.map (·.1) = fields'.map (·.1)) (hd : (fields.map (·.1)).Nodup)
    (h : object fields = object fields') : fields = fields' := by
  replace h := obj.inj h
  induction fields generalizing fields'
  case nil =>
    cases fields'
    case nil  => rfl
    case cons => simp at hn
  case cons field fields hi =>
    cases fields'
    case nil => simp at hn
    case cons field' fields' =>
      obtain ⟨name, value⟩ := field
      obtain ⟨name', value'⟩ := field'
      simp only [List.map_cons, List.cons.injEq] at hn
      obtain ⟨rfl, hn⟩ := hn
      obtain ⟨ho, hd'⟩ := List.nodup_cons.mp hd
      cases value <;> cases value'
      case none.none => rw [hi hn hd' h]
      case none.some value' =>
        refine absurd (?_ : (name, value') ∈ _) (not_mem_members ho)
        simp only [List.filterMap_cons, Option.map_none, Option.map_some] at h
        exact h ▸ List.mem_cons_self
      case some.none value =>
        refine absurd (?_ : (name, value) ∈ _) (not_mem_members (hn ▸ ho))
        simp only [List.filterMap_cons, Option.map_none, Option.map_some] at h
        exact h ▸ List.mem_cons_self
      case some.some value value' =>
        simp only [List.filterMap_cons, Option.map_some, List.cons.injEq, Prod.mk.injEq,
          true_and] at h
        rw [h.1, hi hn hd' h.2]

theorem nullable_injective {α : Type*} {toJson : α → Json} (h : Function.Injective toJson)
    (hn : ∀ a, toJson a ≠ null) : Function.Injective (nullable toJson) := by
  intro a b he
  cases a <;> cases b
  case none.none => rfl
  case none.some b => exact absurd he.symm (hn b)
  case some.none a => exact absurd he (hn a)
  case some.some   => exact congrArg some (h he)

end Json

-- A schema is given by the values that it accepts.
abbrev Schema := Json → Bool

namespace Schema

def null : Schema
  | .null => true
  | _     => false

def boolean : Schema
  | .bool _ => true
  | _       => false

def string : Schema
  | .str _ => true
  | _      => false

-- An integer with minimum 0 of the format `uint` with the given number of bits.
def uint (bits : Nat) : Schema
  | .num n => 0 ≤ n ∧ n.toNat < 2 ^ bits
  | _      => false

def array (items : Schema) : Schema
  | .arr elements => elements.all items
  | _             => false

def anyOf (schemas : List Schema) : Schema :=
  fun value => schemas.any (· value)

def nullable (schema : Schema) : Schema :=
  anyOf [schema, null]

-- Properties that are not listed may have any value.
def object (required : List String) (properties : List (String × Schema)) : Schema
  | .obj members =>
    required.all (fun name => (members.lookup name).isSome) &&
      properties.all fun (name, schema) => (members.lookup name).all schema
  | _ => false

variable {required : List String} {properties : List (String × Schema)} {s : Schema}
variable {fields : List (String × Option Json)}

-- The record has what the schema requires, and its fields are of the declared types.
theorem object_object (h : (fields.map (·.1)).Nodup) :
    object required properties (Json.object fields) ↔
      (∀ name ∈ required, (fields.lookup name).join.isSome) ∧
      ∀ property ∈ properties, (fields.lookup property.1).join.all property.2 := by
  have hm (name : String) :
      (Json.object fields).member name = (fields.lookup name).join := Json.member_object h
  simp only [Json.object, Json.member] at hm
  simp only [Json.object, object, hm, Bool.and_eq_true, List.all_eq_true]

@[simp]
theorem boolean_bool (b : Bool) : boolean (.bool b) := by
  simp [boolean]

@[simp]
theorem string_str (str : String) : string (.str str) := by
  simp [string]

theorem uint_num {bits n : Nat} (h : n < 2 ^ bits) : uint bits (.num n) := by
  simpa [uint] using h

@[simp]
theorem uint_uint16 {n : UInt16} : uint 16 (.num n.toNat) :=
  uint_num n.toNat_lt

@[simp]
theorem uint_uint32 {n : UInt32} : uint 32 (.num n.toNat) :=
  uint_num n.toNat_lt

@[simp]
theorem uint_uint64 {n : UInt64} : uint 64 (.num n.toNat) :=
  uint_num n.toNat_lt

section Optional

variable {α : Type*} {toJson : α → Json} {value : Json}

@[simp]
theorem array_map {as : List α} (h : ∀ a, s (toJson a)) : array s (.arr (as.map toJson)) := by
  simp [array, h]

theorem nullable_iff : nullable s value ↔ s value ∨ value = .null := by
  cases value <;> simp [nullable, anyOf, null]

@[simp]
theorem nullable_of (h : s value) : nullable s value :=
  nullable_iff.mpr (.inl h)

@[simp]
theorem nullable_object : nullable s (Json.object fields) ↔ s (Json.object fields) := by
  simp [nullable_iff, Json.object]

@[simp]
theorem nullable_nullable {a : Option α} (h : ∀ a, s (toJson a)) :
    nullable s (Json.nullable toJson a) := by
  cases a <;> simp [nullable_iff, Json.nullable, h]

@[simp]
theorem all_map {a : Option α} (h : ∀ a, s (toJson a)) : (a.map toJson).all s := by
  cases a <;> simp [h]

end Optional

end Schema
