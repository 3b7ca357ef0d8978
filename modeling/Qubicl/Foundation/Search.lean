import Mathlib.Data.List.Infix

/-!
# The first place of a pattern

Where a pattern begins in a text for the first time, and where that is when the text was put together.
-/

namespace Qubicl.Foundation
open List

variable {α : Type} [DecidableEq α]

/-- `indexOf`, of a pattern that is not empty. -/
def indexOf (pattern : List α) : List α → Option ℕ
  | [] => none
  | c::text => if pattern.isPrefixOf (c::text) then some 0 else (indexOf pattern text).map (· + 1)

/-- `indexOf` with the place where the search begins. -/
def indexFrom (pattern text : List α) (start : ℕ) : Option ℕ := (indexOf pattern (text.drop start)).map (start + ·)

variable {rest tail : List α}

section
variable {pattern text : List α}

theorem indexOf_prefix (hpat : pattern≠[]) : indexOf pattern (pattern++rest)=some 0 := by
  cases htex : pattern++rest with
  | nil => exact absurd (append_eq_nil_iff.1 htex).1 hpat
  | cons c more =>
    have hsta : pattern.isPrefixOf (c::more)=true := by
      rw [List.isPrefixOf_iff_prefix,← htex]
      exact prefix_append pattern rest
    rw [indexOf,if_pos hsta]

/-- Where the pattern does not begin in the first part, the first part may be skipped. -/
theorem indexOf_skip (first : List α) (h : ∀ i<first.length, ¬ pattern <+: (first++text).drop i) :
    indexOf pattern (first++text)=(indexOf pattern text).map (· + first.length) := by
  induction first with
  | nil => simp
  | cons c first ih =>
    have hhea : ¬ pattern.isPrefixOf (c::(first++text))=true := by
      rw [List.isPrefixOf_iff_prefix]
      exact h 0 (by simp)
    rw [cons_append,indexOf,if_neg hhea,ih,Option.map_map]
    · congr 1
    · intro i hi
      exact h (i+1) (by simpa using hi)

theorem indexOf_skip_of_not_mem {c : α} {first : List α} (hc : c ∉ first) (text : List α) :
    indexOf (c::tail) (first++text)=(indexOf (c::tail) text).map (· + first.length) := by
  refine indexOf_skip first fun i hi hpre => ?_
  rw [drop_append_of_le_length (Nat.le_of_lt hi),drop_eq_getElem_cons hi,cons_append] at hpre
  obtain ⟨rfl,-⟩ := cons_prefix_cons.1 hpre
  exact hc (getElem_mem hi)

theorem indexOf_le {i : ℕ} (h : indexOf pattern text=some i) : i<text.length := by
  induction text generalizing i with
  | nil => cases h
  | cons c text ih =>
    rw [indexOf] at h
    split at h
    · obtain rfl := Option.some.inj h
      simp
    · obtain ⟨j,hj,rfl⟩ := Option.map_eq_some_iff.1 h
      have := ih hj
      simp only [length_cons]
      omega

/-- A pattern whose first symbol does not come again in it is found right behind a part without it. -/
theorem indexOf_append {c : α} {before : List α} (hc : c ∉ tail) (hbef : ¬ (c::tail) <:+: before) :
    indexOf (c::tail) (before++((c::tail)++rest))=some before.length := by
  rw [indexOf_skip before, indexOf_prefix (by simp)]
  · simp
  · intro i hi hpre
    rw [drop_append_of_le_length (Nat.le_of_lt hi)] at hpre
    have hinf : before.drop i <:+: before := (drop_suffix i before).isInfix
    rcases prefix_or_prefix_of_prefix hpre (prefix_append (before.drop i) _) with hins | ⟨more,hmor⟩
    · exact hbef (hins.isInfix.trans hinf)
    · cases hdro : before.drop i with
      | nil =>
        have hlen:=congrArg List.length hdro
        rw [length_drop,length_nil] at hlen
        omega
      | cons d inside =>
        rw [hdro] at hpre hmor hinf
        obtain rfl : d=c := (List.cons.inj hmor).1
        have htai : inside++more=tail := (List.cons.inj hmor).2
        cases more with
        | nil =>
          rw [append_nil] at htai
          exact hbef (htai ▸ hinf)
        | cons e more =>
          -- the rest of the pattern begins where the next occurrence begins
          rw [← hmor, prefix_append_right_inj,cons_append] at hpre
          obtain ⟨rfl,-⟩ := cons_prefix_cons.1 hpre
          exact hc (htai ▸ mem_append_right inside mem_cons_self)

end
end Qubicl.Foundation
