import Mathlib.Computability.Language
import Qubicl.Foundation.Regex

/-!
# What a regular expression accepts

`test` decides the language of an expression, and from the language follow the characters
and the length of the texts that are accepted.
-/

namespace Qubicl.Foundation.Regex
open Computability List

def language : Regex → Language Char
  | never => 0
  | done => 1
  | char p => {cs | ∃ c, p c=true ∧ cs=[c]}
  | seq r s => r.language*s.language
  | alt r s => r.language+s.language
  | star r => r.language∗

section Membership
variable {r s : Regex} {c : Char} {cs : List Char}

@[simp] theorem mem_never : cs ∈ never.language ↔ False := Iff.rfl

@[simp] theorem mem_done : cs ∈ done.language ↔ cs=[] := Iff.rfl

@[simp] theorem mem_char {p : Char → Bool} : cs ∈ (char p).language ↔ ∃ c, p c=true ∧ cs=[c] := Iff.rfl

@[simp] theorem mem_seq : cs ∈ (seq r s).language ↔ ∃ a ∈ r.language, ∃ b ∈ s.language, a++b=cs :=
  Language.mem_mul

@[simp] theorem mem_alt : cs ∈ (alt r s).language ↔ cs ∈ r.language ∨ cs ∈ s.language := Iff.rfl

theorem nil_mem_star : [] ∈ (star r).language := Language.nil_mem_kstar _

theorem append_mem_star {a b : List Char} (ha : a ∈ r.language) (hb : b ∈ (star r).language) :
    a++b ∈ (star r).language := by
  obtain ⟨parts,rfl,hpar⟩ := Language.mem_kstar.1 hb
  refine Language.mem_kstar.2 ⟨a::parts,rfl,fun y hy => ?_⟩
  rcases mem_cons.1 hy with rfl | hy
  · exact ha
  · exact hpar y hy

theorem cons_mem_star : c::cs ∈ (star r).language ↔
    ∃ a b, c::a ∈ r.language ∧ b ∈ (star r).language ∧ a++b=cs := by
  constructor
  · intro h
    obtain ⟨parts,hpar,hmem⟩ := Language.mem_kstar_iff_exists_nonempty.1 h
    cases parts with
    | nil => cases hpar
    | cons part rest =>
      obtain ⟨hpat,hne⟩ := hmem part mem_cons_self
      cases part with
      | nil => exact absurd rfl hne
      | cons d a =>
        obtain ⟨rfl,rfl⟩ := List.cons.inj hpar
        exact ⟨a,rest.flatten,hpat,Language.join_mem_kstar fun y hy => (hmem y (mem_cons_of_mem _ hy)).1,rfl⟩
  · rintro ⟨a,b,ha,hb,rfl⟩
    exact append_mem_star ha hb

@[simp] theorem language_andThen : (r.andThen s).language=(seq r s).language := by
  cases r with
  | never => exact (zero_mul _).symm
  | done => exact (one_mul _).symm
  | _ => rfl

@[simp] theorem language_orElse : (r.orElse s).language=(alt r s).language := by
  cases r with
  | never => exact (zero_add _).symm
  | _ =>
    cases s with
    | never => exact (add_zero _).symm
    | _ => rfl

theorem nullable_iff (r : Regex) : r.nullable=true ↔ [] ∈ r.language := by
  induction r with
  | never => simp [nullable]
  | done => simp [nullable]
  | char p => simp [nullable]
  | seq r s ihr ihs => simp [nullable,ihr,ihs]
  | alt r s ihr ihs => simp [nullable,ihr,ihs]
  | star r => simp [nullable,nil_mem_star]

theorem mem_derivative (r : Regex) : cs ∈ (r.derivative c).language ↔ c::cs ∈ r.language := by
  induction r generalizing cs with
  | never => simp [derivative]
  | done => simp [derivative]
  | char p =>
    by_cases hp : p c=true
    · simp [derivative,hp]
    · simp only [derivative,hp,Bool.false_eq_true,if_false,mem_never,mem_char,false_iff]
      rintro ⟨d,hd,heq⟩
      rw [(List.cons.inj heq).1] at hp
      exact hp hd
  | seq r s ihr ihs =>
    have hfir : cs ∈ ((r.derivative c).andThen s).language ↔
        ∃ a b, c::a ∈ r.language ∧ b ∈ s.language ∧ a++b=cs := by
      simp only [language_andThen,mem_seq,ihr]
      constructor
      · rintro ⟨a,ha,b,hb,heq⟩
        exact ⟨a,b,ha,hb,heq⟩
      · rintro ⟨a,b,ha,hb,heq⟩
        exact ⟨a,ha,b,hb,heq⟩
    have hseq : c::cs ∈ (seq r s).language ↔
        ([] ∈ r.language ∧ c::cs ∈ s.language) ∨
          ∃ a b, c::a ∈ r.language ∧ b ∈ s.language ∧ a++b=cs := by
      rw [mem_seq]
      constructor
      · rintro ⟨a,ha,b,hb,heq⟩
        cases a with
        | nil => exact Or.inl ⟨ha,by rwa [← heq]⟩
        | cons d a =>
          obtain ⟨rfl,rfl⟩ := List.cons.inj heq
          exact Or.inr ⟨a,b,ha,hb,rfl⟩
      · rintro (⟨hnil,hs⟩ | ⟨a,b,ha,hb,rfl⟩)
        · exact ⟨[],hnil,_,hs,rfl⟩
        · exact ⟨_,ha,b,hb,rfl⟩
    rw [hseq,← nullable_iff,derivative]
    split
    next hnul => rw [language_orElse,mem_alt,hfir,ihs,or_comm,and_iff_right hnul]
    next hnul => rw [hfir,or_iff_right (fun h => hnul h.1)]
  | alt r s ihr ihs => simp only [derivative,language_orElse,mem_alt,ihr,ihs]
  | star r ih =>
    rw [cons_mem_star,derivative,language_andThen,mem_seq]
    simp only [ih]
    constructor
    · rintro ⟨a,ha,b,hb,heq⟩
      exact ⟨a,b,ha,hb,heq⟩
    · rintro ⟨a,b,ha,hb,heq⟩
      exact ⟨a,ha,b,hb,heq⟩

theorem test_iff (r : Regex) (t : String) : r.test t=true ↔ t.toList ∈ r.language := by
  have hfol : ∀ (cs : List Char) (r : Regex),
      (cs.foldl (fun r c => r.derivative c) r).nullable=true ↔ cs ∈ r.language := by
    intro cs
    induction cs with
    | nil => exact fun r => nullable_iff r
    | cons c cs ih => exact fun r => (ih _).trans (mem_derivative r)
  exact hfol t.toList r

end Membership

/- The characters that an expression can match. -/
def allows (c : Char) : Regex → Bool
  | never => false
  | done => false
  | char p => p c
  | seq r s => r.allows c || s.allows c
  | alt r s => r.allows c || s.allows c
  | star r => r.allows c

theorem allows_of_mem {r : Regex} {cs : List Char} (h : cs ∈ r.language) : ∀ c ∈ cs, r.allows c=true := by
  induction r generalizing cs with
  | never => exact h.elim
  | done =>
    rw [mem_done.1 h]
    simp
  | char p =>
    obtain ⟨d,hd,rfl⟩ := mem_char.1 h
    simpa [allows] using hd
  | seq r s ihr ihs =>
    obtain ⟨a,ha,b,hb,rfl⟩ := mem_seq.1 h
    intro c hc
    rw [allows,Bool.or_eq_true]
    exact (mem_append.1 hc).imp (ihr ha c) (ihs hb c)
  | alt r s ihr ihs =>
    intro c hc
    rw [allows,Bool.or_eq_true]
    exact (mem_alt.1 h).imp (fun ha => ihr ha c hc) (fun hb => ihs hb c hc)
  | star r ih =>
    obtain ⟨parts,rfl,hpar⟩ := Language.mem_kstar.1 h
    intro c hc
    obtain ⟨part,hpat,hmem⟩ := mem_flatten.1 hc
    exact ih (hpar part hpat) c hmem

theorem allows_upTo {r : Regex} {c : Char} {n : ℕ} (h : (upTo n r).allows c=true) : r.allows c=true := by
  induction n with
  | zero => cases h
  | succ n ih =>
    simp only [upTo,maybe,allows,Bool.false_or,Bool.or_eq_true] at h
    exact h.elim id ih

/-- A repeated class accepts whatever has only its characters. -/
theorem mem_star_of_forall {r : Regex} {cs : List Char} (h : ∀ c ∈ cs, [c] ∈ r.language) : cs ∈ (star r).language := by
  induction cs with
  | nil => exact nil_mem_star
  | cons c cs ih =>
    exact append_mem_star (h c mem_cons_self) (ih fun d hd => h d (mem_cons_of_mem _ hd))

theorem mem_oneOrMore_of_forall {r : Regex} {cs : List Char} (hne : cs≠[]) (h : ∀ c ∈ cs, [c] ∈ r.language) :
    cs ∈ (oneOrMore r).language := by
  cases cs with
  | nil => exact absurd rfl hne
  | cons c cs =>
    exact mem_seq.2 ⟨[c],h c mem_cons_self,cs,
      mem_star_of_forall fun d hd => h d (mem_cons_of_mem _ hd),rfl⟩

theorem mem_times_of_forall {r : Regex} {cs : List Char} (h : ∀ c ∈ cs, [c] ∈ r.language) :
    cs ∈ (times cs.length r).language := by
  induction cs with
  | nil => exact mem_done.2 rfl
  | cons c cs ih =>
    exact mem_seq.2 ⟨[c],h c mem_cons_self,cs,ih fun d hd => h d (mem_cons_of_mem _ hd),rfl⟩

end Qubicl.Foundation.Regex
