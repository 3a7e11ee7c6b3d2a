import KuzuEventBus.Lib.HashMap
import Mathlib.Data.List.Sort
import Mathlib.Data.String.Basic

/-!
# JSON values

JSON values as `serde_json` holds them: a number is a non-negative integer, a
negative integer or a float, and an object is a list of fields in the order of
their keys, without repetition.

## Main definitions

* `JsonNumber`, `Json` — values.
* `JsonNumber.asU64`, `JsonNumber.asI64`, `JsonNumber.asF64` — a number as a machine number.
* `Json.get`, `Json.asArray`, `Json.asStr` — the accessors.
* `Json.ofMap`, `Json.ofStrings` — a hash map as an object, a list of strings as an array.
* `Json.text`, `Json.prettyText` — compact text, and text on several lines.

## Main results

* `asI64_ofInt64` — an integer reads back as itself.
* `mem_ofMap` — the object of a map has the fields of the map.
-/

/-- `serde_json::Number`. -/
inductive JsonNumber where
  | posInt (n : ℕ)
  | negInt (i : Int64)
  | float (f : Float)
  deriving DecidableEq

/-- `serde_json::Value`. -/
inductive Json where
  | null
  | bool (b : Bool)
  | number (n : JsonNumber)
  | string (s : String)
  | array (items : List Json)
  | object (fields : List (String × Json))

/-! ### Equality -/

mutual

/-- Equality of values is decidable. -/
def Json.decEq : (a b : Json) → Decidable (a = b)
  | .null, .null => isTrue rfl
  | .bool a, .bool b => decidable_of_iff (a = b) (by simp)
  | .number a, .number b => decidable_of_iff (a = b) (by simp)
  | .string a, .string b => decidable_of_iff (a = b) (by simp)
  | .array as, .array bs =>
    have := Json.decEqItems as bs
    decidable_of_iff (as = bs) (by simp)
  | .object as, .object bs =>
    have := Json.decEqFields as bs
    decidable_of_iff (as = bs) (by simp)
  | .null, .bool _ | .null, .number _ | .null, .string _ | .null, .array _ | .null, .object _
  | .bool _, .null | .bool _, .number _ | .bool _, .string _ | .bool _, .array _
  | .bool _, .object _ | .number _, .null | .number _, .bool _ | .number _, .string _
  | .number _, .array _ | .number _, .object _ | .string _, .null | .string _, .bool _
  | .string _, .number _ | .string _, .array _ | .string _, .object _ | .array _, .null
  | .array _, .bool _ | .array _, .number _ | .array _, .string _ | .array _, .object _
  | .object _, .null | .object _, .bool _ | .object _, .number _ | .object _, .string _
  | .object _, .array _ => isFalse nofun

/-- Equality of the items of two arrays. -/
def Json.decEqItems : (as bs : List Json) → Decidable (as = bs)
  | [], [] => isTrue rfl
  | a :: as, b :: bs =>
    have := Json.decEq a b
    have := Json.decEqItems as bs
    decidable_of_iff (a = b ∧ as = bs) (by simp)
  | [], _ :: _ | _ :: _, [] => isFalse nofun

/-- Equality of the fields of two objects. -/
def Json.decEqFields : (as bs : List (String × Json)) → Decidable (as = bs)
  | [], [] => isTrue rfl
  | (k, a) :: as, (l, b) :: bs =>
    have := Json.decEq a b
    have := Json.decEqFields as bs
    decidable_of_iff (k = l ∧ a = b ∧ as = bs) (by simp [and_assoc])
  | [], _ :: _ | _ :: _, [] => isFalse nofun

end

instance : DecidableEq Json := Json.decEq

/-! ### Numbers -/

namespace JsonNumber

/-- `Number::from(i64)`. -/
def ofInt64 (i : Int64) : JsonNumber :=
  if i < 0 then .negInt i else .posInt i.toInt.toNat

/-- `Number::as_u64`. -/
def asU64 : JsonNumber → Option ℕ
  | .posInt n => some n
  | _ => none

/-- `Number::as_i64`. -/
def asI64 : JsonNumber → Option Int64
  | .posInt n => if n < 2 ^ 63 then some (Int64.ofNat n) else none
  | .negInt i => some i
  | .float _ => none

/-- `Number::as_f64`. -/
def asF64 : JsonNumber → Option Float
  | .posInt n => some (UInt64.ofNat n).toFloat
  | .negInt i => some i.toFloat
  | .float f => some f

/-- **An integer reads back as itself.** -/
theorem asI64_ofInt64 (i : Int64) : (ofInt64 i).asI64 = some i := by
  unfold ofInt64
  split
  · rfl
  · next hneg =>
    have hnonneg : 0 ≤ i.toInt := by
      rw [Int64.lt_iff_toInt_lt] at hneg
      simpa using hneg
    have hlt : i.toInt < 2 ^ 63 := i.toInt_lt
    have hcast : ((i.toInt.toNat : ℕ) : ℤ) = i.toInt := Int.toNat_of_nonneg hnonneg
    rw [asI64, if_pos (by omega)]
    congr 1
    apply Int64.toInt_inj.mp
    rw [Int64.toInt_ofNat_of_lt (by omega), hcast]

end JsonNumber

/-! ### Accessors -/

namespace Json

/-- `Value::get` with a string: the field of an object. -/
def get (j : Json) (key : String) : Option Json :=
  match j with
  | .object fields => fields.lookup key
  | _ => none

/-- `Value::as_array`. -/
def asArray : Json → Option (List Json)
  | .array items => some items
  | _ => none

/-- `Value::as_object`. -/
def asObject : Json → Option (List (String × Json))
  | .object fields => some fields
  | _ => none

/-- `Value::as_str`. -/
def asStr : Json → Option String
  | .string s => some s
  | _ => none

/-- `Value::as_u64`. -/
def asU64 : Json → Option ℕ
  | .number n => n.asU64
  | _ => none

/-- `Value[key]`: what is not there is `null`. -/
def index (j : Json) (key : String) : Json := (j.get key).getD .null

/-- `from_value::<Vec<String>>`. -/
def asStrings (j : Json) : Option (List String) :=
  j.asArray.bind fun items => items.mapM asStr

/-- A list of strings as an array. -/
def ofStrings (xs : List String) : Json := .array (xs.map .string)

theorem asStrings_ofStrings (xs : List String) : (ofStrings xs).asStrings = some xs := by
  change (xs.map Json.string).mapM asStr = some xs
  induction xs with
  | nil => rfl
  | cons x xs ih => rw [List.map_cons, List.mapM_cons, ih]; rfl

/-! ### Maps as objects -/

variable {ν : Type*} (toJson : ν → Json) (m : HashMap String ν)

/-- A map as the fields of an object, in the order of the keys. -/
def ofMap : List (String × Json) :=
  (m.toPairs.map fun kv => (kv.1, toJson kv.2)).insertionSort fun a b => a.1 ≤ b.1

theorem ofMap_perm : (ofMap toJson m).Perm (m.toPairs.map fun kv => (kv.1, toJson kv.2)) :=
  List.perm_insertionSort _ _

theorem nodup_ofMap_keys : ((ofMap toJson m).map Prod.fst).Nodup := by
  rw [((ofMap_perm toJson m).map Prod.fst).nodup_iff, List.map_map]
  exact m.nodup_toPairs_keys

/-- The object of a map holds the bindings of the map. -/
theorem mem_ofMap {k : String} {j : Json} :
    (k, j) ∈ ofMap toJson m ↔ ∃ x, m.lookup k = some x ∧ toJson x = j := by
  rw [(ofMap_perm toJson m).mem_iff, List.mem_map]
  constructor
  · rintro ⟨⟨k', x⟩, hmem, heq⟩
    simp only [Prod.mk.injEq] at heq
    obtain ⟨rfl, rfl⟩ := heq
    exact ⟨x, AList.mem_toPairs.mp hmem, rfl⟩
  · rintro ⟨x, hx, rfl⟩
    exact ⟨(k, x), AList.mem_toPairs.mpr hx, rfl⟩

/-! ### Text -/

/-- A character inside a string literal. -/
def escapeChar (c : Char) : List Char :=
  match c with
  | '\x22' => ['\\', '\x22']
  | '\\' => ['\\', '\\']
  | '\n' => ['\\', 'n']
  | '\r' => ['\\', 'r']
  | '\t' => ['\\', 't']
  | _ =>
    if c.toNat = 8 then ['\\', 'b']
    else if c.toNat = 12 then ['\\', 'f']
    else if c.toNat < 32 then
      ['\\', 'u', '0', '0', Nat.digitChar (c.toNat / 16), Nat.digitChar (c.toNat % 16)]
    else [c]

/-- A string literal. -/
def quote (s : String) : List Char := '\x22' :: s.toList.flatMap escapeChar ++ ['\x22']

/-- The text of a number. -/
def numberText : JsonNumber → List Char
  | .posInt n => (toString n).toList
  | .negInt i => (toString i.toInt).toList
  | .float f => (toString f).toList

mutual

/-- The text of a value, without white space. -/
def text : Json → List Char
  | .null => "null".toList
  | .bool true => "true".toList
  | .bool false => "false".toList
  | .number n => numberText n
  | .string s => quote s
  | .array items => '[' :: itemsText items ++ [']']
  | .object fields => '\x7b' :: fieldsText fields ++ ['\x7d']

/-- The text of the items of an array. -/
def itemsText : List Json → List Char
  | [] => []
  | [j] => text j
  | j :: js => text j ++ ',' :: itemsText js

/-- The text of the fields of an object. -/
def fieldsText : List (String × Json) → List Char
  | [] => []
  | [(k, j)] => quote k ++ ':' :: text j
  | (k, j) :: fields => quote k ++ ':' :: text j ++ ',' :: fieldsText fields

end

/-- A line break, and the white space in front of a line at a depth. -/
def newline (depth : ℕ) : List Char := '\n' :: List.replicate (2 * depth) ' '

mutual

/-- The text of a value over several lines, at a depth. -/
def prettyText (depth : ℕ) : Json → List Char
  | .array (j :: js) => '[' :: prettyItems (depth + 1) (j :: js) ++ newline depth ++ [']']
  | .object (f :: fs) =>
    '\x7b' :: prettyFields (depth + 1) (f :: fs) ++ newline depth ++ ['\x7d']
  | j => text j

/-- The items of an array, each on a line of its own. -/
def prettyItems (depth : ℕ) : List Json → List Char
  | [] => []
  | [j] => newline depth ++ prettyText depth j
  | j :: js => newline depth ++ prettyText depth j ++ ',' :: prettyItems depth js

/-- The fields of an object, each on a line of its own. -/
def prettyFields (depth : ℕ) : List (String × Json) → List Char
  | [] => []
  | [(k, j)] => newline depth ++ quote k ++ ':' :: ' ' :: prettyText depth j
  | (k, j) :: fields =>
    newline depth ++ quote k ++ ':' :: ' ' :: prettyText depth j ++ ',' :: prettyFields depth fields

end

end Json
