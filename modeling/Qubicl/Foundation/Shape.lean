import Qubicl.Foundation.Json

/-!
# Values as JSON and back

A codec writes a value and reads what it has written.
-/

namespace Qubicl.Foundation
open List

structure Codec (α : Type) where
  write : α → Json
  read : Json → Option α
  read_write : ∀ a, read (write a)=some a

structure Shape (α : Type) where
  keys : List String
  write : α → List (String × Option Json)
  read : (String → Option Json) → Option α
  write_keys : ∀ a, (write a).map Prod.fst=keys
  /- A value is read from whatever agrees with its fields. -/
  read_write : ∀ a get, (∀ field ∈ write a, get field.1=field.2) → read get=some a

namespace Codec
variable {α : Type}

def string : Codec String where
  write := .string
  read
    | .string text => some text
    | _ => none
  read_write _ := rfl

def number : Codec ℚ where
  write := .number
  read
    | .number value => some value
    | _ => none
  read_write _ := rfl

/-- The numbers that are natural; a schema with a minimum rejects the other integers. -/
def natural : Codec ℕ where
  write n := .number n
  read
    | .number value => if value.den=1 ∧ 0≤value.num then some value.num.toNat else none
    | _ => none
  read_write n := by simp

/-- `z.enum`, where `text` tells the values apart. -/
def enum (values : List α) (text : α → String) (h : ∀ a, values.find? (fun b => text b=text a)=some a) : Codec α where
  write a := .string (text a)
  read
    | .string found => values.find? fun b => text b=found
    | _ => none
  read_write a := h a

def array (c : Codec α) : Codec (List α) where
  write items := .array (items.map c.write)
  read
    | .array items => items.mapM c.read
    | _ => none
  read_write items := by
    induction items with
    | nil => rfl
    | cons item items ih => simp only [map_cons,mapM_cons,c.read_write,ih,Option.bind_eq_bind,Option.bind_some,
        Option.pure_def]

def readStrict (s : Shape α) : Json → Option α
  | .object fields => if fields.all fun field => field.1 ∈ s.keys then s.read fun key => fields.lookup key else none
  | _ => none

/-- An object with the fields of a value is read as the value, in whatever order they are. -/
theorem readStrict_object {s : Shape α} {a : α} {fields : List (String × Option Json)} (hkes : s.keys.Nodup)
    (hfis : fields.Perm (s.write a)) : readStrict s (.object (properties fields))=some a := by
  have hnod : (fields.map Prod.fst).Nodup := by
    rw [(hfis.map Prod.fst).nodup_iff,s.write_keys]
    exact hkes
  have hkno : (properties fields).all (fun field => field.1 ∈ s.keys)=true := by
    rw [all_eq_true]
    intro ⟨key,value⟩ hfie
    have hmem : (key,some value) ∈ s.write a := hfis.mem_iff.1 (mem_properties.1 hfie)
    have hkey : key ∈ (s.write a).map Prod.fst := mem_map.2 ⟨_,hmem,rfl⟩
    rw [s.write_keys] at hkey
    simpa using hkey
  rw [readStrict,if_pos hkno]
  refine s.read_write a _ ?_
  intro field hfie
  rw [lookup_properties hnod,lookup_of_mem hnod (hfis.mem_iff.2 hfie)]
  rfl

/-- `z.strictObject` -/
def strictObject (s : Shape α) (hkeys : s.keys.Nodup) : Codec α where
  write a := .object (properties (s.write a))
  read := readStrict s
  read_write _ := readStrict_object hkeys (List.Perm.refl _)

end Codec

namespace Shape
variable {α β : Type}

def required (key : String) (c : Codec α) : Shape α where
  keys := [key]
  write a := [(key,some (c.write a))]
  read get := (get key).bind c.read
  write_keys _ := rfl
  read_write a get h := by
    have hget : get key=some (c.write a) := h _ mem_cons_self
    rw [hget,Option.bind_some,c.read_write]

/-- `.optional()`: an absent value is not written. -/
def optional (key : String) (c : Codec α) : Shape (Option α) where
  keys := [key]
  write a := [(key,a.map c.write)]
  read get :=
    match get key with
    | none => some none
    | some value => (c.read value).map some
  write_keys _ := rfl
  read_write a get h := by
    have hget : get key=a.map c.write := h _ mem_cons_self
    rw [hget]
    cases a with
    | none => rfl
    | some a =>
      simp only [Option.map_some]
      rw [c.read_write]
      rfl

/-- The fields of `s` before those of `t`. -/
def both (s : Shape α) (t : Shape β) : Shape (α × β) where
  keys := s.keys++t.keys
  write a := s.write a.1++t.write a.2
  read get := (s.read get).bind fun a => (t.read get).map fun b => (a,b)
  write_keys a := by rw [map_append,s.write_keys,t.write_keys]
  read_write a get h := by
    rw [s.read_write a.1 get fun field hfield => h field (mem_append_left _ hfield),
      t.read_write a.2 get fun field hfield => h field (mem_append_right _ hfield)]
    rfl

def as (s : Shape α) (f : α → β) (g : β → α) (h : ∀ b, f (g b)=b) : Shape β where
  keys := s.keys
  write b := s.write (g b)
  read get := (s.read get).map f
  write_keys b := s.write_keys (g b)
  read_write b get hget := by
    rw [s.read_write (g b) get hget,Option.map_some,h]

section
variable {s : Shape α} {t : Shape β} {get : String → Option Json} {a : α} {b : β}

theorem read_required {key : String} {c : Codec α} {value : Json} (hget : get key=some value) (hrea : c.read value=some a) :
    (required key c).read get=some a := by
  simp only [required,hget,Option.bind_some,hrea]

theorem read_both (hs : s.read get=some a) (ht : t.read get=some b) : (s.both t).read get=some (a,b) := by
  simp only [both,hs,ht,Option.bind_some,Option.map_some]

theorem read_as {f : α → β} {g : β → α} {h : ∀ b, f (g b)=b} (hs : s.read get=some a) :
    (s.as f g h).read get=some (f a) := by
  simp only [as,hs,Option.map_some]

end
end Shape
end Qubicl.Foundation
