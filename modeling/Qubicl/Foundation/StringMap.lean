import Mathlib.Data.List.Basic

/-!
# Maps from strings

A `Map` with string keys as the list of its pairs in the order of insertion.
-/

namespace Qubicl.Foundation
open List

variable {α : Type*}

/-- `map.set(key, value)`: a key that is there keeps its place. -/
def mapSet (key : String) (value : α) : List (String × α) → List (String × α)
  | [] => [(key,value)]
  | (k,v)::rest => if k=key then (key,value)::rest else (k,v)::mapSet key value rest

theorem lookup_mapSet (key k : String) (value : α) (map : List (String × α)) :
    (mapSet key value map).lookup k=if k=key then some value else map.lookup k := by
  induction map with
  | nil =>
    by_cases hk : k=key
    · simp [mapSet,hk]
    · simp [mapSet,lookup_cons,hk,beq_eq_false_iff_ne.2 hk]
  | cons head rest ih =>
    obtain ⟨k',v⟩ := head
    by_cases hset : k'=key
    · subst hset
      by_cases hk : k=k'
      · simp [mapSet,hk]
      · simp [mapSet,lookup_cons,hk,beq_eq_false_iff_ne.2 hk]
    · by_cases hk : k=k'
      · subst hk
        simp [mapSet,hset]
      · simp [mapSet,hset,lookup_cons,beq_eq_false_iff_ne.2 hk,ih]

theorem mem_mapSet_self (key : String) (value : α) (map : List (String × α)) : (key,value) ∈ mapSet key value map := by
  induction map with
  | nil => exact mem_cons_self
  | cons head rest ih =>
    unfold mapSet
    split
    · exact mem_cons_self
    · exact mem_cons_of_mem _ ih

theorem length_mapSet (key : String) (value : α) (map : List (String × α)) :
    (mapSet key value map).length=map.length+if (map.lookup key).isSome then 0 else 1 := by
  induction map with
  | nil => simp [mapSet]
  | cons head rest ih =>
    obtain ⟨k,v⟩ := head
    by_cases hk : k=key
    · simp [mapSet,hk]
    · have hne : ¬ key=k := fun h => hk h.symm
      simp only [mapSet,hk,if_false,length_cons,ih,lookup_cons,
        beq_eq_false_iff_ne.2 hne]
      omega

/-- `map.delete(key)` -/
def mapDelete (key : String) (map : List (String × α)) : List (String × α) := map.filter (·.1≠key)

theorem lookup_mapDelete (key k : String) (map : List (String × α)) :
    (mapDelete key map).lookup k=if k=key then none else map.lookup k := by
  induction map with
  | nil => simp [mapDelete]
  | cons head rest ih =>
    obtain ⟨k',v⟩ := head
    unfold mapDelete at ih ⊢
    by_cases hdel : k'=key
    · subst hdel
      by_cases hk : k=k'
      · simpa [hk] using ih
      · simpa [lookup_cons,hk,beq_eq_false_iff_ne.2 hk] using ih
    · by_cases hk : k=k'
      · subst hk
        simp [hdel]
      · simpa [hdel,lookup_cons,beq_eq_false_iff_ne.2 hk] using ih

variable {map : List (String × α)} {key : String} {value : α}

variable {entry : String × α}

theorem mem_mapSet (h : entry ∈ mapSet key value map) : entry=(key,value) ∨ entry ∈ map := by
  induction map with
  | nil => exact Or.inl (mem_singleton.1 h)
  | cons head rest ih =>
    obtain ⟨k,v⟩ := head
    unfold mapSet at h
    split at h
    next =>
      rcases mem_cons.1 h with heq | hrest
      · exact Or.inl heq
      · exact Or.inr (mem_cons_of_mem _ hrest)
    next =>
      rcases mem_cons.1 h with heq | hrest
      · exact Or.inr (by rw [heq]; exact mem_cons_self)
      · exact (ih hrest).imp id (mem_cons_of_mem _)

theorem mem_mapDelete : entry ∈ mapDelete key map ↔ entry ∈ map ∧ entry.1≠key := by
  unfold mapDelete
  rw [mem_filter]
  simp

theorem mem_of_lookup (h : map.lookup key=some value) :
    (key,value) ∈ map := by
  induction map with
  | nil => cases h
  | cons head rest ih =>
    obtain ⟨k,v⟩ := head
    by_cases hk : key=k
    · subst hk
      have hv : v=value := by simpa using h
      rw [hv]
      exact mem_cons_self
    · exact mem_cons_of_mem _ (ih (by simpa [lookup_cons,beq_eq_false_iff_ne.2 hk] using h))

theorem lookup_of_mem (hnod : (map.map Prod.fst).Nodup)
    (h : (key,value) ∈ map) : map.lookup key=some value := by
  induction map with
  | nil => exact absurd h not_mem_nil
  | cons head rest ih =>
    obtain ⟨k,v⟩ := head
    obtain ⟨hfre,hres⟩ := nodup_cons.1 hnod
    rcases mem_cons.1 h with heq | hmem
    · cases heq
      simp
    · have hne : key≠k := by
        rintro rfl
        exact hfre (mem_map.2 ⟨_,hmem,rfl⟩)
      rw [lookup_cons,beq_eq_false_iff_ne.2 hne]
      exact ih hres hmem

theorem nodup_mapSet (h : (map.map Prod.fst).Nodup) :
    ((mapSet key value map).map Prod.fst).Nodup := by
  induction map with
  | nil => simp [mapSet]
  | cons head rest ih =>
    obtain ⟨k,v⟩ := head
    obtain ⟨hfre,hres⟩ := nodup_cons.1 h
    unfold mapSet
    split
    next heq =>
      subst heq
      exact nodup_cons.2 ⟨hfre,hres⟩
    next hne =>
      refine nodup_cons.2 ⟨fun hmem => ?_,ih hres⟩
      obtain ⟨entry,hent,hk⟩ := mem_map.1 hmem
      rcases mem_mapSet hent with rfl | hold
      · exact hne hk.symm
      · exact hfre (mem_map.2 ⟨entry,hold,hk⟩)

theorem nodup_filter (h : (map.map Prod.fst).Nodup) (p : String × α → Bool) :
    ((map.filter p).map Prod.fst).Nodup :=
  h.sublist (filter_sublist.map _)

theorem mapSet_of_fresh (h : ∀ entry ∈ map, entry.1≠key) (value : α) :
    mapSet key value map=map++[(key,value)] := by
  induction map with
  | nil => rfl
  | cons head rest ih =>
    obtain ⟨k,v⟩ := head
    have hne : ¬ k=key := h (k,v) mem_cons_self
    rw [mapSet,if_neg hne,ih fun entry hent => h entry (mem_cons_of_mem _ hent)]
    rfl

theorem map_mapSet {β : Type*} {f : String × α → β} {old : α} (h : map.lookup key=some old)
    (hsam : f (key,value)=f (key,old)) : (mapSet key value map).map f=map.map f := by
  induction map with
  | nil => cases h
  | cons head rest ih =>
    obtain ⟨k,v⟩ := head
    by_cases hk : k=key
    · subst hk
      have hv : v=old := by simpa using h
      simp [mapSet,hsam,hv]
    · have hne : ¬ key=k := fun heq => hk heq.symm
      rw [lookup_cons,beq_eq_false_iff_ne.2 hne] at h
      simp [mapSet,hk,ih h]

theorem mem_mapSet_of_nodup (hnod : (map.map Prod.fst).Nodup) (h : entry ∈ mapSet key value map) :
    entry=(key,value) ∨ entry ∈ map ∧ entry.1≠key := by
  have hloo:=lookup_of_mem (nodup_mapSet hnod) h
  rcases mem_mapSet h with heq | hold
  · exact Or.inl heq
  · by_cases hkey : entry.1=key
    · left
      rw [lookup_mapSet,if_pos hkey] at hloo
      rw [← hkey,Option.some.inj hloo]
    · exact Or.inr ⟨hold,hkey⟩

theorem length_mapDelete_lt (h : map.lookup key=some value) :
    (mapDelete key map).length < map.length := by
  unfold mapDelete
  rw [length_filter_lt_length_iff_exists]
  exact ⟨_,mem_of_lookup h,by simp⟩

/-- `f` of the value of a key, if there is one. -/
def mapModify (key : String) (f : α → α) (map : List (String × α)) : List (String × α) :=
  map.map fun entry => if entry.1=key then (entry.1,f entry.2) else entry

theorem lookup_mapModify (key k : String) (f : α → α) (map : List (String × α)) :
    (mapModify key f map).lookup k=if k=key then (map.lookup k).map f else map.lookup k := by
  induction map with
  | nil => simp [mapModify]
  | cons head rest ih =>
    obtain ⟨k',v⟩ := head
    unfold mapModify at ih ⊢
    by_cases hk : k=k'
    · subst hk
      by_cases hset : k=key
      · simp [hset]
      · simp [hset]
    · by_cases hset : k'=key
      · subst hset
        simpa [lookup_cons,hk,beq_eq_false_iff_ne.2 hk] using ih
      · simpa [lookup_cons,hset,beq_eq_false_iff_ne.2 hk] using ih

end Qubicl.Foundation
