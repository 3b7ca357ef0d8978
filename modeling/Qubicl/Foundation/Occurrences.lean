import Mathlib.Data.List.Infix

/-!
# The occurrences of a pattern

The leftmost occurrences of a pattern in a text that do not overlap, as a search from left to right finds them, and what the
text becomes when they are replaced.
-/

namespace Qubicl.Foundation
open List

section Occurrences
variable {α : Type} [DecidableEq α] (pattern : List α)

def occurrencesFrom : ℕ → ℕ → List α → List ℕ
  | _, _, [] => []
  | skip+1, position, _::rest => occurrencesFrom skip (position+1) rest
  | 0, position, a::rest =>
    if pattern <+: a::rest then position::occurrencesFrom (pattern.length - 1) (position+1) rest
    else occurrencesFrom 0 (position+1) rest

def occurrences (text : List α) : List ℕ := occurrencesFrom pattern 0 0 text

variable {pattern} {skip position : ℕ} {text : List α}

/-- An occurrence lies in what is left of the text. -/
theorem occurrencesFrom_bounds (hpat : pattern≠[]) {start : ℕ} (h : start ∈ occurrencesFrom pattern skip position text) :
    position+skip ≤ start ∧ start+pattern.length≤position+text.length := by
  induction text generalizing skip position with
  | nil =>
    unfold occurrencesFrom at h
    cases h
  | cons a rest ih =>
    have hpos:=length_pos_iff.2 hpat
    rw [length_cons]
    cases skip with
    | succ skip =>
      unfold occurrencesFrom at h
      have := ih h
      omega
    | zero =>
      unfold occurrencesFrom at h
      split at h
      next hpre =>
        have hlen := hpre.length_le
        rw [length_cons] at hlen
        rcases mem_cons.1 h with rfl | hlater
        · omega
        · have := ih hlater
          omega
      · have := ih h
        omega

/-- Each occurrence ends before the next one starts. -/
theorem occurrencesFrom_pairwise (hpat : pattern≠[]) :
    (occurrencesFrom pattern skip position text).Pairwise fun s t => s+pattern.length≤t := by
  induction text generalizing skip position with
  | nil =>
    unfold occurrencesFrom
    exact .nil
  | cons a rest ih =>
    cases skip with
    | succ skip =>
      unfold occurrencesFrom
      exact ih
    | zero =>
      unfold occurrencesFrom
      split
      · refine .cons (fun t ht => ?_) ih
        have hbou:=(occurrencesFrom_bounds hpat ht).1
        have hpos:=length_pos_iff.2 hpat
        omega
      · exact ih

theorem occurrencesFrom_shift (skip position offset : ℕ) (text : List α) :
    occurrencesFrom pattern skip (offset+position) text=(occurrencesFrom pattern skip position text).map (offset + ·) := by
  induction text generalizing skip position with
  | nil =>
    unfold occurrencesFrom
    rfl
  | cons a rest ih =>
    cases skip with
    | succ skip =>
      unfold occurrencesFrom
      exact ih skip (position+1)
    | zero =>
      unfold occurrencesFrom
      split
      · rw [map_cons]
        exact congrArg _ (ih (pattern.length - 1) (position+1))
      · exact ih 0 (position+1)

theorem occurrencesFrom_zero (position : ℕ) (text : List α) :
    occurrencesFrom pattern 0 position text=(occurrences pattern text).map (position + ·) :=
  occurrencesFrom_shift 0 0 position text

/-- Where no occurrence crosses the border of two texts, the search goes through the one and then through the other. -/
theorem occurrencesFrom_append (hpat : pattern≠[]) {left right : List α} (hski : skip≤left.length)
    (h : ∀ start ∈ occurrencesFrom pattern skip position (left++right),
      start+pattern.length≤position+left.length ∨ position+left.length ≤ start) :
    occurrencesFrom pattern skip position (left++right) =
      occurrencesFrom pattern skip position left++occurrencesFrom pattern 0 (position+left.length) right := by
  induction left generalizing skip position with
  | nil =>
    obtain rfl : skip=0 := Nat.le_zero.1 hski
    rfl
  | cons a rest ih =>
    rw [length_cons] at hski h ⊢
    have hpos:=length_pos_iff.2 hpat
    have hend : position+1+rest.length=position+(rest.length+1) := by omega
    rw [cons_append] at h ⊢
    cases skip with
    | succ skip =>
      unfold occurrencesFrom at h
      have hres:=@ih skip (position+1) (by omega) (by rwa [hend])
      rw [hend] at hres
      conv_lhs => unfold occurrencesFrom
      conv_rhs => enter [1]; unfold occurrencesFrom
      exact hres
    | zero =>
      by_cases hpre : pattern <+: a::(rest++right)
      · unfold occurrencesFrom at h
        rw [if_pos hpre] at h
        -- the occurrence here ends before the border
        have hfit : pattern.length≤(a::rest).length := by
          have := h position mem_cons_self
          rw [length_cons]
          omega
        have hlef : pattern <+: a::rest := by
          rw [← cons_append] at hpre
          exact prefix_of_prefix_length_le hpre (prefix_append _ _) hfit
        rw [length_cons] at hfit
        have hres:=@ih (pattern.length - 1) (position+1) (by omega)
          (by rw [hend]; exact fun start hmem => h start (mem_cons_of_mem _ hmem))
        rw [hend] at hres
        conv_lhs => unfold occurrencesFrom
        conv_rhs => enter [1]; unfold occurrencesFrom
        rw [if_pos hpre,if_pos hlef,hres,cons_append]
      · unfold occurrencesFrom at h
        rw [if_neg hpre] at h
        have hlef : ¬ pattern <+: a::rest := by
          intro hlef
          exact hpre (hlef.trans (by rw [← cons_append]; exact prefix_append _ _))
        have hres:=@ih 0 (position+1) (by omega) (by rwa [hend])
        rw [hend] at hres
        conv_lhs => unfold occurrencesFrom
        conv_rhs => enter [1]; unfold occurrencesFrom
        rw [if_neg hpre,if_neg hlef,hres]

theorem occurrences_append (hpat : pattern≠[]) {left right : List α}
    (h : ∀ start ∈ occurrences pattern (left++right), start+pattern.length≤left.length ∨ left.length ≤ start) :
    occurrences pattern (left++right)=occurrences pattern left++(occurrences pattern right).map (left.length + ·) := by
  unfold occurrences at h ⊢
  rw [occurrencesFrom_append hpat (Nat.zero_le _) (by simpa using h),Nat.zero_add]
  exact congrArg (occurrencesFrom pattern 0 0 left ++ ·) (occurrencesFrom_zero left.length right)

end Occurrences

section Replaced
variable {α : Type} (length : ℕ) (new : List α) (starts : List ℕ)

/-- What the letter at a position becomes. -/
def replacedAt (position : ℕ) (a : α) : List α :=
  if position ∈ starts then new
  else if ∃ start ∈ starts, start≤position ∧ position<start+length then []
  else [a]

def replacedFrom : ℕ → List α → List α
  | _, [] => []
  | position, a::rest => replacedAt length new starts position a++replacedFrom (position+1) rest

variable {length new starts}

theorem replacedFrom_append (position : ℕ) (left right : List α) :
    replacedFrom length new starts position (left++right) =
      replacedFrom length new starts position left++replacedFrom length new starts (position+left.length) right := by
  induction left generalizing position with
  | nil => rfl
  | cons a rest ih =>
    show replacedAt length new starts position a++replacedFrom length new starts (position+1) (rest++right)=_
    rw [ih,← append_assoc,length_cons,show position+1+rest.length=position+(rest.length+1) by omega]
    rfl

theorem replacedFrom_outside (hlen : 0<length) {position : ℕ} {text : List α}
    (h : ∀ start ∈ starts, start+length≤position ∨ position+text.length ≤ start) :
    replacedFrom length new starts position text=text := by
  induction text generalizing position with
  | nil => rfl
  | cons a rest ih =>
    have hres : replacedFrom length new starts (position+1) rest=rest := by
      refine ih fun start hmem => ?_
      have := h start hmem
      rw [length_cons] at this
      omega
    have hher : ∀ start ∈ starts, ¬ (start≤position ∧ position<start+length) := by
      intro start hmem
      have := h start hmem
      rw [length_cons] at this
      omega
    show replacedAt length new starts position a++_=_
    unfold replacedAt
    rw [hres,if_neg (fun hmem => hher position hmem ⟨Nat.le_refl _,by omega⟩),
      if_neg (fun ⟨start,hmem,hin⟩ => hher start hmem hin)]
    rfl

theorem replacedFrom_congr {starts' : List ℕ} {position position' : ℕ} {text : List α}
    (hmem : ∀ i<text.length, (position+i ∈ starts ↔ position'+i ∈ starts'))
    (hcov : ∀ i<text.length, ((∃ start ∈ starts, start≤position+i ∧ position+i<start+length) ↔
      ∃ start ∈ starts', start≤position'+i ∧ position'+i<start+length)) :
    replacedFrom length new starts position text=replacedFrom length new starts' position' text := by
  induction text generalizing position position' with
  | nil => rfl
  | cons a rest ih =>
    have hres : replacedFrom length new starts (position+1) rest=replacedFrom length new starts' (position'+1) rest := by
      refine ih (fun i hi => ?_) (fun i hi => ?_)
      · have := hmem (i+1) (by rw [length_cons]; omega)
        rwa [show position+(i+1)=position+1+i by omega,show position'+(i+1)=position'+1+i by omega] at this
      · have := hcov (i+1) (by rw [length_cons]; omega)
        rwa [show position+(i+1)=position+1+i by omega,show position'+(i+1)=position'+1+i by omega] at this
    have hher : replacedAt length new starts position a=replacedAt length new starts' position' a := by
      have hme₀:=hmem 0 (by rw [length_cons]; omega)
      have hco₀:=hcov 0 (by rw [length_cons]; omega)
      rw [Nat.add_zero,Nat.add_zero] at hme₀ hco₀
      unfold replacedAt
      simp only [hme₀,hco₀]
    show replacedAt length new starts position a++_=replacedAt length new starts' position' a++_
    rw [hher,hres]

section Cons
variable {start position : ℕ} {later : List ℕ} (hlater : ∀ t ∈ later, start+length≤t)
include hlater

/-- Inside an occurrence, only its first letter gives something. -/
theorem replacedFrom_covered {text : List α} (hsta : start≤position) (hsto : position+text.length ≤ start+length) :
    replacedFrom length new (start::later) position text=if position=start ∧ text≠[] then new else [] := by
  induction text generalizing position with
  | nil => rw [if_neg (fun h => h.2 rfl)]; rfl
  | cons a rest ih =>
    rw [length_cons] at hsto
    have hres:=@ih (position+1) (by omega) (by omega)
    rw [if_neg (by omega)] at hres
    show replacedAt length new (start::later) position a++_=_
    rw [hres,append_nil]
    unfold replacedAt
    by_cases heq : position=start
    · rw [if_pos (by rw [heq]; exact mem_cons_self),if_pos ⟨heq,cons_ne_nil _ _⟩]
    · have hmem : position ∉ start::later := by
        refine not_mem_cons_of_ne_of_not_mem heq fun hmem => ?_
        have := hlater position hmem
        omega
      rw [if_neg hmem,if_pos ⟨start,mem_cons_self,hsta,by omega⟩,if_neg (fun h => heq h.1)]

omit hlater in
theorem replacedFrom_untouched {text : List α} (hlen : 0<length)
    (h : position+text.length ≤ start ∨ start+length≤position) :
    replacedFrom length new (start::later) position text=replacedFrom length new later position text := by
  refine replacedFrom_congr (fun i _ => ?_) (fun i _ => ?_)
  · constructor
    · intro hmem
      rcases mem_cons.1 hmem with heq | hold
      · omega
      · exact hold
    · exact mem_cons_of_mem _
  · constructor
    · rintro ⟨t,hmem,hle,hlt⟩
      rcases mem_cons.1 hmem with rfl | hold
      · omega
      · exact ⟨t,hold,hle,hlt⟩
    · rintro ⟨t,hmem,hle,hlt⟩
      exact ⟨t,mem_cons_of_mem _ hmem,hle,hlt⟩

/-- The later occurrences leave the text before them as it is. -/
theorem replacedFrom_later (hlen : 0<length) {text : List α} (htou : position<start+length) :
    replacedFrom length new later position text =
      text.take (start+length - position) ++
        replacedFrom length new later (start+length) (text.drop (start+length - position)) := by
  by_cases hfit : start+length - position≤text.length
  · have hoff : position+(text.take (start+length - position)).length=start+length := by
      rw [length_take,Nat.min_eq_left hfit]
      omega
    conv_lhs => rw [← take_append_drop (start+length - position) text]
    rw [replacedFrom_append,hoff,replacedFrom_outside hlen]
    intro t ht
    have := hlater t ht
    omega
  · rw [take_of_length_le (by omega),drop_eq_nil_of_le (by omega)]
    rw [replacedFrom_outside hlen]
    · exact (append_nil _).symm
    · intro t ht
      have := hlater t ht
      omega

/-- What the first occurrence and the later ones make of a text that it touches. -/
theorem replacedFrom_cons (hleh : 0<length) {text : List α} (hsta : start<position+text.length) (htou : position<start+length) :
    replacedFrom length new (start::later) position text =
      text.take (start - position)++(if position ≤ start then new else []) ++
        replacedFrom length new later (start+length) (text.drop (start+length - position)) := by
  have hbef : replacedFrom length new (start::later) position (text.take (start - position)) =
      text.take (start - position) := by
    by_cases hle : position ≤ start
    · refine replacedFrom_outside hleh fun t ht => ?_
      rw [length_take]
      rcases mem_cons.1 ht with rfl | hold
      · omega
      · have := hlater t hold
        omega
    · rw [show start - position=0 by omega]
      rfl
  have hres : replacedFrom length new (start::later) (max position start) (text.drop (start - position)) =
      (if position ≤ start then new else []) ++
        replacedFrom length new later (start+length) (text.drop (start+length - position)) := by
    have hspl : text.drop (start - position) =
        (text.drop (start - position)).take (start+length - max position start) ++
          text.drop (start+length - position) := by
      conv_lhs => rw [← take_append_drop (start+length - max position start) (text.drop (start - position))]
      rw [drop_drop,show start - position+(start+length - max position start)=start+length - position by omega]
    have hins : replacedFrom length new (start::later) (max position start)
        ((text.drop (start - position)).take (start+length - max position start)) =
          if position ≤ start then new else [] := by
      rw [replacedFrom_covered hlater (by omega) (by rw [length_take]; omega)]
      refine if_congr ?_ rfl rfl
      constructor
      · rintro ⟨heq,-⟩
        omega
      · intro hle
        refine ⟨by omega,fun hnil => ?_⟩
        have hlen:=congrArg List.length hnil
        rw [length_take,length_drop,length_nil] at hlen
        omega
    rw [hspl,replacedFrom_append,hins]
    congr 1
    by_cases hfit : start+length - position≤text.length
    · rw [show max position start+((text.drop (start - position)).take (start+length - max position start)).length =
        start+length by rw [length_take,length_drop]; omega]
      exact replacedFrom_untouched hleh (Or.inr (Nat.le_refl _))
    · have hnil : text.drop (start+length - position)=[] := drop_eq_nil_of_le (by omega)
      rw [hnil]
      rfl
  conv_lhs => rw [← take_append_drop (start - position) text]
  rw [replacedFrom_append,hbef,append_assoc]
  congr 1
  rw [show position+(text.take (start - position)).length=max position start by rw [length_take]; omega]
  exact hres

end Cons

end Replaced

end Qubicl.Foundation
