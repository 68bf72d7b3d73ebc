import Outpunch.Library.JsonRoundTrip

/-!
# Protocol — JSON values

`serde_json` is a dependency, so its text format is a parameter of the model (`SerdeJson`): a
parser from text, a printer to text, and the wording of its errors.  What the protocol code does
with a parsed value is modelled here: `Value::get`, `as_str`, and the reads the derived
`Deserialize` instances make for the field types the messages use.

A Rust `HashMap<String, String>` is `StringMap`: equal when equal at every key.
-/

/-- `HashMap<String, String>`. -/
abbrev StringMap := Std.ExtTreeMap String String

namespace Json

/-- The value of the last member called `key`: reading an object into `serde_json`'s map lets a
later member replace an earlier one. -/
def lookupLast (key : String) : List (String × Json) → Option Json
  | [] => none
  | (k, v) :: rest => (lookupLast key rest).or (if k = key then some v else none)

/-- `Value::get`. -/
def get (value : Json) (key : String) : Option Json :=
  match value with
  | .object members => lookupLast key members
  | _ => none

/-- `Value::as_str`, and the read of a `String` field. -/
def asStr : Json → Option String
  | .str s => some s
  | _ => none

/-- The read of an `Option<String>` field that is present. -/
def asOptionString : Json → Option (Option String)
  | .null => some none
  | .str s => some (some s)
  | _ => none

/-- The read of a `u16` field: the integer has to be the value of some `u16`. -/
def asU16 : Json → Option UInt16
  | .int n => if (UInt16.ofNat n.toNat).toNat = n then some (UInt16.ofNat n.toNat) else none
  | _ => none

/-- The members of an object all of whose values are strings. -/
def stringMembers : List (String × Json) → Option (List (String × String))
  | [] => some []
  | (k, v) :: rest => do return (k, ← v.asStr) :: (← stringMembers rest)

/-- The read of a `HashMap<String, String>` field that is present. -/
def asStringMap : Json → Option StringMap
  | .object members => (stringMembers members).map fun l => .ofList l
  | _ => none

/-- A field without a default: it has to be present. -/
def field {α : Type} (read : Json → Option α) (value : Json) (key : String) : Option α :=
  (value.get key).bind read

/-- A field marked `#[serde(default)]`: an absent one is `d`. -/
def fieldOr {α : Type} (d : α) (read : Json → Option α) (value : Json) (key : String) :
    Option α :=
  match value.get key with
  | none => some d
  | some v => read v

/-- How an `Option<String>` is written. -/
def ofOptionString : Option String → Json
  | none => .null
  | some s => .str s

/-- How a `HashMap<String, String>` is written. -/
def ofStringMap (m : StringMap) : Json := .object (m.toList.map fun p => (p.1, .str p.2))

/-- The members the protocol writes: nulls, strings, `u16`s and string maps. -/
inductive Member : Json → Prop where
  | null : Member .null
  | str (s : String) : Member (.str s)
  | u16 (n : UInt16) : Member (.int n.toNat)
  | map (m : StringMap) : Member (ofStringMap m)

/-- The values the protocol writes: objects of such members, each named once. -/
inductive Plain : Json → Prop where
  | object {members : List (String × Json)} (hkeys : (members.map Prod.fst).Nodup)
      (h : ∀ p ∈ members, Member p.2) : Plain (.object members)

/-! ### A field reads back what was written -/

@[simp] theorem asOptionString_ofOptionString (o : Option String) :
    asOptionString (ofOptionString o) = some o := by
  cases o <;> rfl

@[simp] theorem asU16_int (n : UInt16) : asU16 (.int n.toNat) = some n := by
  simp [asU16]

theorem stringMembers_str (l : List (String × String)) :
    stringMembers (l.map fun p => (p.1, .str p.2)) = some l := by
  induction l with
  | nil => rfl
  | cons p l ih => simp [stringMembers, ih, asStr]

/-- Collecting the entries of a map gives the map. -/
theorem ofList_toList (m : StringMap) : Std.ExtTreeMap.ofList m.toList = m := by
  refine Std.ExtTreeMap.ext_getElem? fun k => ?_
  cases h : m[k]? with
  | none =>
      refine Std.ExtTreeMap.getElem?_ofList_of_contains_eq_false ?_
      rw [Std.ExtTreeMap.map_fst_toList_eq_keys]
      simpa using h
  | some v =>
      exact Std.ExtTreeMap.getElem?_ofList_of_mem Std.ReflCmp.compare_self
        Std.ExtTreeMap.distinct_keys_toList
        (Std.ExtTreeMap.mem_toList_iff_getElem?_eq_some.mpr h)

@[simp] theorem asStringMap_ofStringMap (m : StringMap) :
    asStringMap (ofStringMap m) = some m := by
  simp [asStringMap, ofStringMap, stringMembers_str, ofList_toList]

theorem member_ofOptionString (o : Option String) : Member (ofOptionString o) := by
  cases o with
  | none => exact .null
  | some s => exact .str s

end Json

namespace Outpunch

/-- The part of `serde_json` the protocol calls. -/
structure SerdeJson where
  /-- `serde_json::from_str::<Value>`, with the text of its error. -/
  fromStr : String → Except String Json
  /-- `serde_json::to_string`. -/
  toString : Json → String
  /-- What `serde_json::from_value` reports when a value does not fit the named message type. -/
  fromValueError : String → Json → String

/-- **`serde_json` reads back what it wrote**, on the values the protocol writes. -/
def SerdeJson.RoundTrips (serde : SerdeJson) : Prop :=
  ∀ v : Json, v.Plain → serde.fromStr (serde.toString v) = .ok v

/-- `serde_json` as far as it is the JSON text format: the compact text, read by its grammar.  The
wording of its errors is left out. -/
def compactJson : SerdeJson where
  fromStr text := (Json.parse text).elim (.error "not JSON") .ok
  toString := Json.render
  fromValueError _ _ := ""

theorem compactJson_roundTrips : compactJson.RoundTrips := by
  intro v _
  simp [compactJson, Json.parse_render]

end Outpunch
