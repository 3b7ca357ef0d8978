import Mathlib.Data.List.Forall2

/-!
# Schemas that normalise

A schema reads a value and returns it in normal form, or rejects it.
-/

namespace Qubicl.Foundation
open List Option

section
variable {α β : Type*} {R : α → β → Prop} {xs : List α} {ys : List β} (h : List.Forall₂ R xs ys)
include h

theorem forall₂_mem_left {x : α} (hx : x ∈ xs) : ∃ y ∈ ys, R x y := by
  induction h with
  | nil => cases hx
  | cons hhea _ ih =>
    rcases mem_cons.1 hx with rfl | hx
    · exact ⟨_,mem_cons_self,hhea⟩
    · obtain ⟨y,hy,hR⟩ := ih hx
      exact ⟨y,mem_cons_of_mem _ hy,hR⟩

theorem forall₂_mem_right {y : β} (hy : y ∈ ys) : ∃ x ∈ xs, R x y :=
  forall₂_mem_left h.flip hy

end

structure Schema (α : Type) where
  parse : α → Option α
  stable : ∀ {x y}, parse x=some y → parse y=some y

/-- An object with unique keys, in the order of its entries. -/
structure Record (α : Type) where
  entries : List (String × α)
  nodup : (entries.map Prod.fst).Nodup
  deriving DecidableEq, Repr

namespace Record
variable {α β : Type}

def keys (r : Record α) : List String := r.entries.map Prod.fst

def empty : Record α := ⟨[],nodup_nil⟩

/-- `record[key]` -/
def get (r : Record α) (key : String) : Option α :=
  (r.entries.find? fun entry => entry.1=key).map Prod.snd

variable {r : Record α} {key : String}

theorem mem_keys : key ∈ r.keys ↔ ∃ x, (key,x) ∈ r.entries := by
  simp [keys]

theorem get_isSome (h : key ∈ r.keys) : ∃ x, r.get key=some x := by
  obtain ⟨x,hx⟩ := mem_keys.1 h
  unfold get
  cases hf : r.entries.find? fun entry => entry.1=key with
  | some entry => exact ⟨entry.2,rfl⟩
  | none =>
    rw [find?_eq_none] at hf
    simpa using hf _ hx

def mapEntry (f : α → Option β) (entry : String × α) : Option (String × β) :=
  (f entry.2).map fun y => (entry.1,y)

variable {f : α → Option β}

theorem mapM_keys {xs : List (String × α)} {ys : List (String × β)}
    (h : xs.mapM (mapEntry f)=some ys) : ys.map Prod.fst=xs.map Prod.fst := by
  induction xs generalizing ys with
  | nil =>
    cases h
    rfl
  | cons x xs ih =>
    simp only [mapM_cons,bind_eq_bind,bind_eq_some_iff] at h
    obtain ⟨y,hy,zs,hzs,hret⟩ := h
    cases hret
    obtain ⟨v,-,rfl⟩ := map_eq_some_iff.1 hy
    simp [ih hzs]

/-- Apply a partial function to every value. -/
def traverse (f : α → Option β) (r : Record α) : Option (Record β) :=
  match h : r.entries.mapM (mapEntry f) with
  | none => none
  | some entries => some ⟨entries,by rw [mapM_keys h]; exact r.nodup⟩

variable {t : Record β}

theorem traverse_eq_some : r.traverse f=some t ↔ r.entries.mapM (mapEntry f)=some t.entries := by
  unfold traverse
  split
  · rename_i h
    simp [h]
  · rename_i entries h
    constructor
    · intro heq
      rw [h,← Option.some.inj heq]
    · intro heq
      have : entries=t.entries := Option.some.inj (h.symm.trans heq)
      cases t
      cases this
      rfl

theorem mapM_mem {xs : List (String × α)} {ys : List (String × β)}
    (h : xs.mapM (mapEntry f)=some ys) {x : α} (hx : (key,x) ∈ xs) :
    ∃ y, f x=some y ∧ (key,y) ∈ ys := by
  induction xs generalizing ys with
  | nil => cases hx
  | cons head rest ih =>
    simp only [mapM_cons,bind_eq_bind,bind_eq_some_iff] at h
    obtain ⟨entry,hent,zs,hzs,hret⟩ := h
    cases hret
    rcases mem_cons.1 hx with rfl | hrest
    · obtain ⟨y,hy,rfl⟩ := map_eq_some_iff.1 hent
      exact ⟨y,hy,mem_cons_self⟩
    · obtain ⟨y,hy,hmem⟩ := ih hzs hrest
      exact ⟨y,hy,mem_cons_of_mem _ hmem⟩

theorem mem_traverse (h : r.traverse f=some t) {x : α} (hx : (key,x) ∈ r.entries) :
    ∃ y, f x=some y ∧ (key,y) ∈ t.entries :=
  mapM_mem (traverse_eq_some.1 h) hx

theorem traverse_keys (h : r.traverse f=some t) : t.keys=r.keys := mapM_keys (traverse_eq_some.1 h)

end Record

namespace Schema
variable {α β : Type}

def Accepts (s : Schema α) (x : α) : Prop := (s.parse x).isSome

/-- A value in the normal form of its schema. -/
def Normal (s : Schema α) (x : α) : Prop := s.parse x=some x

instance (s : Schema α) (x : α) : Decidable (s.Accepts x) := by unfold Accepts; infer_instance

instance [DecidableEq α] (s : Schema α) (x : α) : Decidable (s.Normal x) := by
  unfold Normal
  infer_instance

variable {s : Schema α}

variable {x y : α}

theorem normal_of_parse (h : s.parse x=some y) : s.Normal y := s.stable h

/-- A schema that changes nothing. -/
def check (p : α → Bool) : Schema α where
  parse x := if p x then some x else none
  stable {x y} h := by
    rw [ite_none_right_eq_some] at h
    obtain ⟨hp,hxy⟩ := h
    cases hxy
    exact if_pos hp

@[simp] theorem parse_check {p : α → Bool} : (check p).parse x=some y ↔ p x=true ∧ x=y := by
  simp [check,ite_none_right_eq_some]

/-- A further condition on what a schema returns. -/
def refine (s : Schema α) (p : α → Bool) : Schema α where
  parse x := (s.parse x).filter p
  stable {x y} h := by
    obtain ⟨hy,hp⟩ := filter_eq_some_iff.1 h
    rw [s.stable hy]
    exact filter_eq_some_iff.2 ⟨rfl,hp⟩

@[simp] theorem parse_refine {p : α → Bool} :
    (s.refine p).parse x=some y ↔ s.parse x=some y ∧ p y=true := filter_eq_some_iff

def optional (s : Schema α) : Schema (Option α) where
  parse
    | none => some none
    | some x => (s.parse x).map some
  stable {x y} h := by
    cases x with
    | none => cases h; rfl
    | some x =>
      obtain ⟨y,hy,rfl⟩ := map_eq_some_iff.1 h
      simp [s.stable hy]

theorem parse_optional_some {y : Option α} : s.optional.parse (some x)=some y ↔ ∃ z, s.parse x=some z ∧ y=some z := by
  show (s.parse x).map some=some y ↔ _
  rw [map_eq_some_iff]
  simp only [eq_comm (a := y)]

theorem mapM_stable {f : α → Option α} (hf : ∀ {x y}, f x=some y → f y=some y) :
    ∀ {xs ys : List α}, xs.mapM f=some ys → ys.mapM f=some ys := by
  intro xs
  induction xs with
  | nil =>
    intro ys h
    cases h
    rfl
  | cons x xs ih =>
    intro ys h
    simp only [mapM_cons,bind_eq_bind,bind_eq_some_iff] at h
    obtain ⟨y,hy,zs,hzs,hret⟩ := h
    cases hret
    simp [mapM_cons,hf hy,ih hzs]

def array (s : Schema α) : Schema (List α) where
  parse xs := xs.mapM s.parse
  stable h := mapM_stable s.stable h

theorem parse_array_forall₂ {xs ys : List α} :
    s.array.parse xs=some ys ↔ List.Forall₂ (fun x y => s.parse x=some y) xs ys := by
  show xs.mapM s.parse=some ys ↔ _
  induction xs generalizing ys with
  | nil => cases ys <;> simp
  | cons x xs ih =>
    simp only [mapM_cons,bind_eq_bind,bind_eq_some_iff,ih]
    constructor
    · rintro ⟨y,hy,zs,hzs,hret⟩
      cases hret
      exact .cons hy hzs
    · intro h
      cases h with
      | cons hy hzs => exact ⟨_,hy,_,hzs,rfl⟩

theorem array_normal {xs : List α} : s.array.Normal xs ↔ ∀ x ∈ xs, s.Normal x := by
  unfold Normal
  rw [parse_array_forall₂,List.forall₂_same]

/-- `z.record(key, value)` -/
def record (key : String → Bool) (s : Schema α) : Schema (Record α) where
  parse r := if r.keys.all key then r.traverse s.parse else none
  stable {x y} h := by
    rw [ite_none_right_eq_some] at h
    obtain ⟨hkeys,hy⟩ := h
    have hentry : ∀ {e e' : String × α}, Record.mapEntry s.parse e=some e' →
        Record.mapEntry s.parse e'=some e' := by
      intro e e' he
      obtain ⟨v,hv,rfl⟩ := map_eq_some_iff.1 he
      simp [Record.mapEntry,s.stable hv]
    rw [Record.traverse_keys hy,if_pos hkeys,Record.traverse_eq_some]
    exact mapM_stable hentry (Record.traverse_eq_some.1 hy)

end Schema
end Qubicl.Foundation
