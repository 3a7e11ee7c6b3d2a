import KuzuEventBus.Core
import KuzuEventBus.Lib.Json

/-!
# Property values

The values of properties and of query variables, and their JSON form.

## Main definitions

* `Value` — the executor's values; `i64` is `Int64`, `f64` is `Float`.
* `Value.toJson`, `Value.fromJson` — to and from JSON.

## Main results

* `fromJson_toJson` — the values a segment can hold read back as themselves.
-/

namespace KuzuEventBus

/-- A node id, a `u64`. -/
abbrev NodeId := ℕ

/-- `Value`. -/
inductive Value where
  | string (s : String)
  | int (i : Int64)
  | float (f : Float)
  | bool (b : Bool)
  | null
  | nodeId (id : NodeId)
  deriving DecidableEq

/-- The properties of a node or an edge. -/
abbrev Properties := HashMap String Value

/-- `Value::to_json`: a float that is no number becomes `null`, a node id a number. -/
def Value.toJson : Value → Json
  | .string s => .string s
  | .int i => .number (.ofInt64 i)
  | .float f => if f.isFinite then .number (.float f) else .null
  | .bool b => .bool b
  | .null => .null
  | .nodeId id => .number (.posInt id)

/-- `Value::from_json`. -/
def Value.fromJson : Json → Option Value
  | .string s => some (.string s)
  | .number n =>
    match n.asI64 with
    | some i => some (.int i)
    | none => n.asF64.map .float
  | .bool b => some (.bool b)
  | .null => some .null
  | _ => none

/-- The values a segment keeps: strings, integers, booleans and null. -/
def Value.Storable : Value → Prop
  | .string _ | .int _ | .bool _ | .null => True
  | .float _ | .nodeId _ => False

/-- **Strings, integers, booleans and null read back as themselves.** -/
theorem Value.fromJson_toJson {v : Value} (h : v.Storable) : Value.fromJson v.toJson = some v := by
  cases v with
  | int i => simp only [toJson, fromJson, JsonNumber.asI64_ofInt64]
  | float f => exact h.elim
  | nodeId id => exact h.elim
  | _ => rfl

end KuzuEventBus
