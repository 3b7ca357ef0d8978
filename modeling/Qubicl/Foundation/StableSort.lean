import Mathlib.Data.List.Sort

/-!
# Sorting with a comparison

What `sort` does with a comparison that is a preorder, and how many elements it puts before another, said of the list
as it was before.
-/

namespace Qubicl.Foundation
open List

/-- Elements compared by what `f` says of them. -/
def comparing {α β : Type} (f : α → β) (cmp : β → β → Ordering) (a b : α) : Ordering := cmp (f a) (f b)

instance {α β : Type} (f : α → β) (cmp : β → β → Ordering) [Std.TransCmp cmp] : Std.TransCmp (comparing f cmp) where
  eq_swap {a b} := by
    have hswa : cmp (f a) (f b)=(cmp (f b) (f a)).swap := Std.OrientedCmp.eq_swap
    exact hswa
  isLE_trans {a b c} hab hbc := by
    have htra : (cmp (f a) (f c)).isLE=true := Std.TransCmp.isLE_trans hab hbc
    exact htra

section
variable {α : Type} {cmp : α → α → Ordering} {l s t : List α} {a b : α}

def sorted (cmp : α → α → Ordering) (l : List α) : List α := l.insertionSort fun a b => (cmp a b).isLE=true

theorem mem_sorted : a ∈ sorted cmp l ↔ a ∈ l := mem_insertionSort _

theorem sorted_perm (cmp : α → α → Ordering) (l : List α) : (sorted cmp l).Perm l := perm_insertionSort _ l

/- What comes before an element in a list that a strict relation orders is what it relates to the element. -/
theorem mem_drop_iff_countP {R : α → α → Prop} [DecidableRel R] (hR : ∀ a b, R a b → ¬ R b a)
    (hs : s.Pairwise R) (hb : b ∈ s) (k : ℕ) : b ∈ s.drop k ↔ k ≤ s.countP fun a => decide (R a b) := by
  have hirr : ∀ a, ¬ R a a := fun a h => hR a a h h
  induction s generalizing k with
  | nil => cases hb
  | cons x s ih =>
    obtain ⟨hx,hs⟩ := pairwise_cons.1 hs
    by_cases hmem : b ∈ s
    · rw [countP_cons_of_pos (by simpa using hx b hmem)]
      cases k with
      | zero => simp [hmem]
      | succ k =>
        rw [drop_succ_cons]
        exact (ih hs hmem k).trans Nat.succ_le_succ_iff.symm
    · have hbx : b=x := (mem_cons.1 hb).resolve_right hmem
      subst hbx
      have hcou : (b::s).countP (fun a => decide (R a b))=0 := by
        rw [countP_eq_zero]
        intro a ha
        rcases mem_cons.1 ha with rfl | ha
        · simpa using hirr a
        · simpa using hR _ _ (hx a ha)
      rw [hcou]
      cases k with
      | zero => simp
      | succ k =>
        refine ⟨fun h => ?_,fun h => by omega⟩
        rw [drop_succ_cons] at h
        exact absurd (mem_of_mem_drop h) hmem

/-- The elements of the rank of `a`. -/
def level (cmp : α → α → Ordering) (a : α) (l : List α) : List α := l.filter fun b => cmp a b == .eq

theorem mem_level : b ∈ level cmp a l ↔ b ∈ l ∧ cmp a b=.eq := by
  unfold level
  rw [mem_filter,beq_iff_eq]

theorem level_cons_of_eq (h : cmp a b=.eq) (l : List α) : level cmp a (b::l)=b::level cmp a l :=
  filter_cons_of_pos (beq_iff_eq.2 h)

theorem level_cons_of_ne (h : cmp a b≠.eq) (l : List α) : level cmp a (b::l)=level cmp a l :=
  filter_cons_of_neg fun heq => h (beq_iff_eq.1 heq)

section
variable [Std.TransCmp cmp]

theorem pairwise_sorted_isLE (l : List α) : (sorted cmp l).Pairwise fun a b => (cmp a b).isLE=true := by
  have : Std.Total fun a b => (cmp a b).isLE=true := ⟨fun a b => by
    have hswa : cmp a b=(cmp b a).swap := Std.OrientedCmp.eq_swap
    cases h : cmp b a <;> simp_all⟩
  have : IsTrans α fun a b => (cmp a b).isLE=true := ⟨fun _ _ _ => Std.TransCmp.isLE_trans⟩
  exact pairwise_insertionSort _ l

/- Elements of one rank are in the sorted list as they were. -/
theorem level_sorted (a : α) (l : List α) : level cmp a (sorted cmp l)=level cmp a l := by
  have hequ : (level cmp a l).Pairwise fun b c => (cmp b c).isLE=true := by
    rw [pairwise_iff_forall_sublist]
    intro b c hbc
    have hb:=(mem_level.1 (hbc.subset mem_cons_self)).2
    have hc:=(mem_level.1 (hbc.subset (mem_cons_of_mem _ mem_cons_self))).2
    rw [Std.TransCmp.congr_left (Std.OrientedCmp.eq_symm hb),hc]
    rfl
  have hsub : (level cmp a l).Sublist (level cmp a (sorted cmp l)) := by
    have hsub:=(sublist_insertionSort hequ filter_sublist).filter fun b => cmp a b == .eq
    rw [level,filter_filter] at hsub
    simp only [Bool.and_self] at hsub
    exact hsub
  exact (hsub.eq_of_length ((sorted_perm cmp l).filter _).length_eq.symm).symm

theorem mem_iff_of_level (h : level cmp a s=level cmp a t) : a ∈ s ↔ a ∈ t := by
  have hsel : cmp a a=.eq := Std.ReflCmp.compare_self
  have hlev : a ∈ level cmp a s ↔ a ∈ level cmp a t := by rw [h]
  simpa only [mem_level,hsel,and_true] using hlev

/- A list in order is known from its elements of each rank. -/
theorem eq_of_level (hs : s.Pairwise fun a b => (cmp a b).isLE=true)
    (ht : t.Pairwise fun a b => (cmp a b).isLE=true) (h : ∀ a, level cmp a s=level cmp a t) : s=t := by
  have hsel : ∀ a : α, cmp a a=.eq := fun a => Std.ReflCmp.compare_self
  induction s generalizing t with
  | nil => exact (eq_nil_iff_forall_not_mem.2 fun a ha => by cases (mem_iff_of_level (h a)).2 ha).symm
  | cons x s ih =>
    cases t with
    | nil => cases (mem_iff_of_level (h x)).1 mem_cons_self
    | cons y t =>
      obtain ⟨hx,hres⟩ := pairwise_cons.1 hs
      obtain ⟨hy,hres'⟩ := pairwise_cons.1 ht
      have hle : ∀ a : α, (cmp a a).isLE=true := fun a => by rw [hsel a]; rfl
      have hyx : (cmp y x).isLE=true := by
        rcases mem_cons.1 ((mem_iff_of_level (h x)).1 mem_cons_self) with heq | hmem
        · rw [heq]
          exact hle y
        · exact hy x hmem
      have hxy : (cmp x y).isLE=true := by
        rcases mem_cons.1 ((mem_iff_of_level (h y)).2 mem_cons_self) with heq | hmem
        · rw [heq]
          exact hle x
        · exact hx y hmem
      have heq : cmp x y=.eq := Std.OrientedCmp.isLE_antisymm hxy hyx
      have hfir:=h x
      rw [level_cons_of_eq (hsel x),level_cons_of_eq heq] at hfir
      obtain ⟨rfl,-⟩ := List.cons.inj hfir
      refine congrArg (x :: ·) (ih hres hres' fun a => ?_)
      have ha:=h a
      by_cases hax : cmp a x=.eq
      · rw [level_cons_of_eq hax,level_cons_of_eq hax] at ha
        exact (List.cons.inj ha).2
      · rwa [level_cons_of_ne hax,level_cons_of_ne hax] at ha

theorem sorted_eq (hs : s.Pairwise fun a b => (cmp a b).isLE=true)
    (h : ∀ a, level cmp a l=level cmp a s) : sorted cmp l=s :=
  eq_of_level (pairwise_sorted_isLE l) hs fun a => (level_sorted a l).trans (h a)

end

variable [DecidableEq α]

theorem idxOf_lt_of_sublist (hnod : l.Nodup) (h : [a,b].Sublist l) : l.idxOf a<l.idxOf b := by
  induction l with
  | nil => cases h
  | cons x l ih =>
    obtain ⟨hx,hnod⟩ := nodup_cons.1 hnod
    cases h with
    | cons _ h =>
      have ha : a ∈ l := h.subset mem_cons_self
      have hb : b ∈ l := h.subset (mem_cons_of_mem _ mem_cons_self)
      have hxa : x≠a := fun heq => hx (heq ▸ ha)
      have hxb : x≠b := fun heq => hx (heq ▸ hb)
      rw [idxOf_cons_ne _ hxa,idxOf_cons_ne _ hxb]
      exact Nat.succ_lt_succ (ih hnod h)
    | cons_cons _ h =>
      have hb : b ∈ l := h.subset mem_cons_self
      have hab : a≠b := fun heq => hx (heq ▸ hb)
      rw [idxOf_cons_self,idxOf_cons_ne _ hab]
      exact Nat.succ_pos _

theorem sublist_of_idxOf_lt (hb : b ∈ l) (h : l.idxOf a<l.idxOf b) : [a,b].Sublist l := by
  induction l with
  | nil => cases hb
  | cons x l ih =>
    by_cases hxb : x=b
    · rw [hxb,idxOf_cons_self] at h
      omega
    · have hb : b ∈ l := (mem_cons.1 hb).resolve_left fun heq => hxb heq.symm
      by_cases hxa : x=a
      · rw [hxa]
        exact (singleton_sublist.2 hb).cons_cons a
      · rw [idxOf_cons_ne _ hxa,idxOf_cons_ne _ hxb] at h
        exact (ih hb (by omega)).cons x

/-- The sorted list has `a` before `b`. -/
def Precedes (cmp : α → α → Ordering) (l : List α) (a b : α) : Prop :=
  cmp a b=.lt ∨ cmp a b=.eq ∧ l.idxOf a<l.idxOf b

instance (cmp : α → α → Ordering) (l : List α) (a b : α) : Decidable (Precedes cmp l a b) := by
  unfold Precedes
  infer_instance

/-- How many of the elements with `p` it has before `b`. -/
def rank (cmp : α → α → Ordering) (l : List α) (p : α → Bool) (b : α) : ℕ :=
  (l.filter p).countP fun a => decide (Precedes cmp l a b)

variable [Std.TransCmp cmp]

theorem Precedes.asymm (h : Precedes cmp l a b) : ¬ Precedes cmp l b a := by
  intro h'
  have hswa : cmp a b=(cmp b a).swap := Std.OrientedCmp.eq_swap
  rcases h with hlt | ⟨heq,hind⟩
  · rcases h' with hlt' | ⟨heq',-⟩
    · rw [hlt,hlt'] at hswa
      cases hswa
    · rw [hlt,heq'] at hswa
      cases hswa
  · rcases h' with hlt' | ⟨-,hind'⟩
    · rw [heq,hlt'] at hswa
      cases hswa
    · omega

theorem pairwise_sorted (hnod : l.Nodup) : (sorted cmp l).Pairwise (Precedes cmp l) := by
  have hper:=sorted_perm cmp l
  rw [pairwise_iff_forall_sublist]
  intro a b hab
  have hle : (cmp a b).isLE=true := pairwise_iff_forall_sublist.1 (pairwise_sorted_isLE l) hab
  have hlt:=idxOf_lt_of_sublist (hper.nodup_iff.2 hnod) hab
  have ha : a ∈ l := hper.subset (hab.subset mem_cons_self)
  cases hcmp : cmp a b with
  | lt => exact .inl hcmp
  | gt =>
    rw [hcmp] at hle
    cases hle
  | eq =>
    refine .inr ⟨hcmp,?_⟩
    by_contra hge
    have hne : l.idxOf b≠l.idxOf a := fun heq => by
      have hb : b ∈ l := hper.subset (hab.subset (mem_cons_of_mem _ mem_cons_self))
      rw [(idxOf_inj hb).1 heq] at hlt
      exact Nat.lt_irrefl _ hlt
    have hbac : (cmp b a).isLE=true := by
      have hswa : cmp b a=(cmp a b).swap := Std.OrientedCmp.eq_swap
      rw [hswa,hcmp]
      rfl
    have := idxOf_lt_of_sublist (hper.nodup_iff.2 hnod)
      (pair_sublist_insertionSort hbac (sublist_of_idxOf_lt ha (by omega)))
    omega

/-- What is left of the elements with `p` when the list is sorted and the first `k` of them go. -/
theorem mem_drop_sorted {p : α → Bool} (hnod : l.Nodup) (hb : b ∈ l) (hp : p b=true) (k : ℕ) :
    b ∈ ((sorted cmp l).filter p).drop k ↔ k≤rank cmp l p b := by
  have hpai : ((sorted cmp l).filter p).Pairwise (Precedes cmp l) := (pairwise_sorted hnod).filter p
  have hmem : b ∈ (sorted cmp l).filter p := mem_filter.2 ⟨mem_sorted.2 hb,hp⟩
  rw [mem_drop_iff_countP (fun _ _ h => h.asymm) hpai hmem,((sorted_perm cmp l).filter p).countP_eq,rank]

end
end Qubicl.Foundation
