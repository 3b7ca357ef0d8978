import Mathlib.Algebra.GroupWithZero.Nat
import Mathlib.Data.List.Nodup
import Mathlib.Data.Rat.Defs
import Qubicl.Foundation.StringMap

/-!
# Values of JSON texts

What `JSON.parse` gives. Writing such a value and reading the text gives the value back, so that a text and its value are
not told apart.
-/

namespace Qubicl.Foundation
open List

inductive Json
  | null
  | boolean (value : Bool)
  | number (value : ℚ)
  | string (text : String)
  | array (items : List Json)
  | object (fields : List (String × Json))

/-- The fields of an object literal; what is undefined or spread only sometimes is not written into a text. -/
def properties {α : Type} (fields : List (String × Option α)) : List (String × α) :=
  fields.filterMap fun field => field.2.map fun value => (field.1,value)

section
variable {α : Type} {fields : List (String × Option α)} {key : String}

theorem mem_properties {value : α} : (key,value) ∈ properties fields ↔ (key,some value) ∈ fields := by
  unfold properties
  rw [mem_filterMap]
  constructor
  · intro ⟨⟨key',value?⟩,hmem,hval⟩
    obtain ⟨value',rfl,heq⟩ := Option.map_eq_some_iff.1 hval
    obtain ⟨rfl,rfl⟩ := Prod.mk.inj heq
    exact hmem
  · exact fun hmem => ⟨(key,some value),hmem,rfl⟩

theorem keys_properties : key ∈ (properties fields).map Prod.fst ↔ ∃ value, (key,some value) ∈ fields := by
  rw [mem_map]
  constructor
  · rintro ⟨⟨key',value⟩,hmem,rfl⟩
    exact ⟨value,mem_properties.1 hmem⟩
  · intro ⟨value,hmem⟩
    exact ⟨(key,value),mem_properties.2 hmem,rfl⟩

theorem properties_cons (name : String) (value : Option α) :
    properties ((name,value)::fields)=(value.map fun v => (name,v)).toList++properties fields := by
  cases value with
  | none => rfl
  | some v => rfl

theorem lookup_properties (h : (fields.map Prod.fst).Nodup) : (properties fields).lookup key=(fields.lookup key).join := by
  induction fields with
  | nil => rfl
  | cons field fields ih =>
    obtain ⟨name,value⟩ := field
    obtain ⟨hfre,hres⟩ := nodup_cons.1 h
    rw [properties_cons]
    by_cases hkey : key=name
    · subst hkey
      cases value with
      | none =>
        have habs : fields.lookup key=none := by
          rw [lookup_eq_none_iff]
          intro field hmem
          have hne : key≠field.1 := fun heq => hfre (mem_map.2 ⟨field,hmem,heq.symm⟩)
          simpa using hne
        rw [Option.map_none,Option.toList_none,nil_append,ih hres,habs]
        simp
      | some v => simp
    · have hne : (key == name)=false := beq_eq_false_iff_ne.2 hkey
      cases value with
      | none => simpa [lookup_cons,hne] using ih hres
      | some v => simpa [lookup_cons,hne] using ih hres

end

namespace Json

def get (value : Json) (key : String) : Option Json :=
  match value with
  | .object fields => fields.lookup key
  | _ => none

def keys : Json → List String
  | .object fields => fields.map Prod.fst
  | _ => []

def assign (value : Json) (fields : List (String × Json)) : Json :=
  match value with
  | .object own => .object (fields.foldl (fun own field => mapSet field.1 field.2 own) own)
  | _ => .object fields

theorem mapSet_of_lookup {α : Type} {key : String} {value : α} {map : List (String × α)} (h : map.lookup key=some value) :
    mapSet key value map=map := by
  induction map with
  | nil => cases h
  | cons head rest ih =>
    obtain ⟨k,v⟩ := head
    by_cases hk : key=k
    · subst hk
      simp only [lookup_cons,beq_self_eq_true] at h
      simp [mapSet,Option.some.inj h]
    · rw [lookup_cons,beq_eq_false_iff_ne.2 hk] at h
      rw [mapSet,if_neg fun heq => hk heq.symm,ih h]

theorem assign_self {own fields : List (String × Json)} (h : ∀ field ∈ fields, own.lookup field.1=some field.2) :
    (Json.object own).assign fields=.object own := by
  unfold assign
  dsimp only
  induction fields with
  | nil => rfl
  | cons field fields ih =>
    obtain ⟨hfie,hres⟩ := forall_mem_cons.1 h
    rw [foldl_cons,mapSet_of_lookup hfie]
    exact ih hres

mutual

/-- The text of a value, where `numberText` writes a number. An object with a `toString` of its own has none; its text
here is that of every object. -/
def text (numberText : ℚ → String) : Json → String
  | .null => "null"
  | .boolean value => if value then "true" else "false"
  | .number value => numberText value
  | .string text => text
  | .array items => ",".intercalate (itemTexts numberText items)
  | .object _ => "[object Object]"

/- A `null` in an array has the empty text. -/
def itemTexts (numberText : ℚ → String) : List Json → List String
  | [] => []
  | .null::items => "" :: itemTexts numberText items
  | item::items => text numberText item::itemTexts numberText items

end

/- The text of a field, which may be undefined. -/
def fieldText (numberText : ℚ → String) : Option Json → String
  | none => "undefined"
  | some value => value.text numberText

def isRecord : Json → Bool
  | .object _ => true
  | _ => false

def isString : Json → Bool
  | .string _ => true
  | _ => false

def isNumber : Json → Bool
  | .number _ => true
  | _ => false

def isBoolean : Json → Bool
  | .boolean _ => true
  | _ => false

def isNull : Json → Bool
  | .null => true
  | _ => false

/- `value === text`. -/
def isText (expected : String) : Json → Bool
  | .string text => text == expected
  | _ => false

def MAX_SAFE_INTEGER : ℕ := 2 ^ 53 - 1

def SafeInteger (value : ℚ) : Prop := value.den=1 ∧ value.num.natAbs≤MAX_SAFE_INTEGER

instance (value : ℚ) : Decidable (SafeInteger value) := inferInstanceAs (Decidable (_ ∧ _))

def isSafeInteger (value : Json) : Bool :=
  match value with
  | .number value => decide (SafeInteger value)
  | _ => false

def atLeast (minimum : ℚ) : Json → Bool
  | .number value => decide (minimum≤value)
  | _ => false

def absentOr (accepts : Json → Bool) : Option Json → Bool
  | none => true
  | some value => accepts value

/- `value !== undefined && …` -/
def presentAnd (accepts : Json → Bool) : Option Json → Bool
  | none => false
  | some value => accepts value

end Json

theorem safeInteger_natCast {n : ℕ} : Json.SafeInteger n ↔ n≤Json.MAX_SAFE_INTEGER := by
  simp [Json.SafeInteger]

theorem safeInteger_intCast {n : ℤ} : Json.SafeInteger n ↔ n.natAbs≤Json.MAX_SAFE_INTEGER := by
  simp [Json.SafeInteger]

end Qubicl.Foundation
