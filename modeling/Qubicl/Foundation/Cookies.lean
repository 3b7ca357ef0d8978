import Mathlib.Algebra.GroupWithZero.Nat
import Mathlib.Algebra.Order.BigOperators.Group.List
import Mathlib.Algebra.Order.Group.Nat
import Mathlib.Data.List.DropRight

/-!
# Cookies as a user agent reads them (RFC 6265, section 5.2)

The pair and the attributes are separated by semicolons, a name ends at the first equals sign, and blanks
around names and values do not count. An attribute is known by its name in lower case. Trimming more than
blanks changes what is read exactly where it takes more than blanks away.
-/

namespace Qubicl.Foundation.Cookies
open List

def isBlank (c : Char) : Bool := c == ' ' || c == '\t'

def trimBy (p : Char → Bool) (cs : List Char) : List Char := (cs.dropWhile p).rdropWhile p

def keyOf (t : List Char) : List Char := t.takeWhile (· ≠ '=')

def valueOf (t : List Char) : List Char := (t.dropWhile (· ≠ '=')).drop 1

def pairOf (t : List Char) : List Char × List Char := (trimBy isBlank (keyOf t),trimBy isBlank (valueOf t))

/- The name of an attribute in lower case, and its value. -/
def cookieAv (t : List Char) : List Char × List Char := ((pairOf t).1.map Char.toLower,(pairOf t).2)

structure SetCookie where
  name : List Char
  value : List Char
  attributes : List (List Char × List Char)
  deriving DecidableEq, Repr

/- An attribute without a name is none. -/
def attributesOf (parts : List (List Char)) : List (List Char × List Char) :=
  (parts.map cookieAv).filter fun found => found.1≠[]

/- What is not accepted is ignored. -/
def parse (text : List Char) : Option SetCookie :=
  match text.splitOn ';' with
  | [] => none
  | pair::attributes =>
    if '=' ∈ pair ∧ (pairOf pair).1≠[] then some ⟨(pairOf pair).1,(pairOf pair).2,attributesOf attributes⟩
    else none

section Trimming
variable {p : Char → Bool} {a b x cs : List Char}

/- A text that does not start or end with what is trimmed. -/
def Tight (p : Char → Bool) (x : List Char) : Prop := (∀ c ∈ x.head?, p c=false) ∧ ∀ c ∈ x.getLast?, p c=false

theorem rdropWhile_append_of_pos (hb : ∀ c ∈ b, p c=true) : (x++b).rdropWhile p=x.rdropWhile p := by
  rw [List.rdropWhile,reverse_append,dropWhile_append_of_pos fun c hc => hb c (mem_reverse.1 hc)]
  rfl

theorem Tight.trimBy_eq (hx : Tight p x) (ha : ∀ c ∈ a, p c=true) (hb : ∀ c ∈ b, p c=true) :
    trimBy p (a++x++b)=x := by
  have hfro : x.dropWhile p=x := by
    cases x with
    | nil => rfl
    | cons c rest =>
      have hc : ¬ p c=true := by simp [hx.1 c rfl]
      exact dropWhile_cons_of_neg hc
  have hbac : x.rdropWhile p=x := by
    rw [rdropWhile_eq_self_iff]
    intro hne
    simp [hx.2 _ (getLast?_eq_getLast_of_ne_nil hne)]
  rw [trimBy,append_assoc,dropWhile_append_of_pos ha,dropWhile_append,hfro]
  cases x with
  | nil =>
    rw [isEmpty_nil,if_pos rfl,dropWhile_eq_nil_iff.2 hb]
    rfl
  | cons c rest =>
    rw [isEmpty_cons,if_neg Bool.false_ne_true,rdropWhile_append_of_pos hb,hbac]

theorem trimBy_spec (p : Char → Bool) (cs : List Char) :
    ∃ a b, cs=a++trimBy p cs++b ∧ (∀ c ∈ a, p c=true) ∧ (∀ c ∈ b, p c=true) ∧ Tight p (trimBy p cs) := by
  have hfro : cs=cs.takeWhile p++cs.dropWhile p := takeWhile_append_dropWhile.symm
  have hbac : cs.dropWhile p=trimBy p cs++(cs.dropWhile p).rtakeWhile p :=
    (rdropWhile_append_rtakeWhile ..).symm
  refine ⟨cs.takeWhile p,(cs.dropWhile p).rtakeWhile p,?_,?_,?_,?_,?_⟩
  · rw [append_assoc,← hbac,← hfro]
  · exact fun c hc => mem_takeWhile_imp hc
  · exact fun c hc => mem_rtakeWhile_imp hc
  · intro c hc
    have hhea : c ∈ (cs.dropWhile p).head? := by
      rw [hbac,head?_append,Option.mem_def.1 hc]
      rfl
    have hnot:=head?_dropWhile_not p cs
    rw [Option.mem_def.1 hhea] at hnot
    exact hnot
  · intro c hc
    have hne : trimBy p cs≠[] := by
      rintro hnil
      rw [hnil] at hc
      cases hc
    have hlas:=rdropWhile_last_not p (cs.dropWhile p) hne
    rw [Option.mem_def,getLast?_eq_getLast_of_ne_nil hne,Option.some.injEq] at hc
    rw [← hc]
    exact Bool.eq_false_iff.2 hlas

theorem trimBy_append (cs : List Char) (ha : ∀ c ∈ a, p c=true) (hb : ∀ c ∈ b, p c=true) :
    trimBy p (a++cs++b)=trimBy p cs := by
  obtain ⟨front,back,hcs,hfro,hbac,htig⟩ := trimBy_spec p cs
  have hall : a++cs++b=(a++front)++trimBy p cs++(back++b) := by
    conv => lhs; rw [hcs]
    simp only [append_assoc]
  rw [hall]
  refine htig.trimBy_eq (fun c hc => ?_) fun c hc => ?_
  · exact (mem_append.1 hc).elim (ha c) (hfro c)
  · exact (mem_append.1 hc).elim (hbac c) (hb c)

theorem Tight.mono {q : Char → Bool} (h : Tight p x) (hq : ∀ c, q c=true → p c=true) : Tight q x := by
  have hnot : ∀ c, p c=false → q c=false := fun c hc =>
    Bool.eq_false_iff.2 fun hyes => Bool.eq_false_iff.1 hc (hq c hyes)
  exact ⟨fun c hc => hnot c (h.1 c hc),fun c hc => hnot c (h.2 c hc)⟩

theorem filter_trimBy (p : Char → Bool) (cs : List Char) :
    ((trimBy p cs).filter fun c => !p c)=cs.filter fun c => !p c := by
  obtain ⟨a,b,hcs,ha,hb,-⟩ := trimBy_spec p cs
  have hgon : ∀ {xs : List Char}, (∀ c ∈ xs, p c=true) → (xs.filter fun c => !p c)=[] := by
    intro xs hxs
    rw [filter_eq_nil_iff]
    intro c hc
    simp [hxs c hc]
  conv => rhs; rw [hcs,filter_append,filter_append,hgon ha,hgon hb,nil_append,append_nil]

end Trimming

section Weight
variable {wide : Char → Bool} {t x : List Char}

def weight (cs : List Char) : ℕ := (cs.filter fun c => !isBlank c).length

theorem weight_append (a b : List Char) : weight (a++b)=weight a+weight b := by
  simp [weight]

theorem weight_eq_zero : weight x=0 ↔ ∀ c ∈ x, isBlank c=true := by
  simp [weight,filter_eq_nil_iff]

theorem weight_trimBlank (x : List Char) : weight (trimBy isBlank x)=weight x :=
  congrArg List.length (filter_trimBy isBlank x)

theorem weight_trimBy_le (x : List Char) : weight (trimBy wide x)≤weight x := by
  obtain ⟨a,b,hx,-,-,-⟩ := trimBy_spec wide x
  conv => rhs; rw [hx,weight_append,weight_append]
  omega

/-- Trimming more than blanks keeps the weight only if it takes nothing but blanks away. -/
theorem trimBy_eq_trimBlank (hwid : ∀ c, isBlank c=true → wide c=true)
    (h : weight (trimBy wide x)=weight x) : trimBy wide x=trimBy isBlank x := by
  obtain ⟨a,b,hx,ha,hb,htig⟩ := trimBy_spec wide x
  have hsum : weight x=weight a+weight (trimBy wide x)+weight b := by
    conv => lhs; rw [hx,weight_append,weight_append]
  have hblankA:=weight_eq_zero.1 (by omega : weight a=0)
  have hblankB:=weight_eq_zero.1 (by omega : weight b=0)
  conv => rhs; rw [hx]
  exact ((htig.mono hwid).trimBy_eq hblankA hblankB).symm

end Weight

section Pairs
variable {wide : Char → Bool} {t a b k v : List Char}

theorem keyOf_split (h : '=' ∉ k) : keyOf (k ++ '=' :: v)=k ∧ valueOf (k ++ '=' :: v)=v := by
  have hall : ∀ c ∈ k, decide (c ≠ '=')=true := by
    intro c hc
    refine decide_eq_true ?_
    rintro rfl
    exact h hc
  refine ⟨?_,?_⟩
  · rw [keyOf,takeWhile_append_of_pos hall]
    simp
  · rw [valueOf,dropWhile_append_of_pos hall]
    simp

theorem keyOf_of_not_mem (h : '=' ∉ t) : keyOf t=t ∧ valueOf t=[] := by
  have hall : ∀ c ∈ t, decide (c ≠ '=')=true := by
    intro c hc
    refine decide_eq_true ?_
    rintro rfl
    exact h hc
  refine ⟨takeWhile_eq_self_iff.2 hall,?_⟩
  rw [valueOf,dropWhile_eq_nil_iff.2 hall]
  rfl

theorem pairOf_split (h : '=' ∉ k) : pairOf (k ++ '=' :: v)=(trimBy isBlank k,trimBy isBlank v) := by
  rw [pairOf,(keyOf_split h).1,(keyOf_split h).2]

theorem pairOf_of_not_mem (h : '=' ∉ t) : pairOf t=(trimBy isBlank t,[]) := by
  rw [pairOf,(keyOf_of_not_mem h).1,(keyOf_of_not_mem h).2]
  rfl

theorem not_mem_of_blank (h : ∀ c ∈ a, isBlank c=true) : '=' ∉ a := fun hmem => absurd (h _ hmem) (by decide)

theorem pairOf_append (ha : ∀ c ∈ a, isBlank c=true) (hb : ∀ c ∈ b, isBlank c=true) :
    pairOf (a++t++b)=pairOf t := by
  have hnon : ∀ c ∈ ([] : List Char), isBlank c=true := by simp
  by_cases ht : '=' ∈ t
  · obtain ⟨k,v,rfl,hk⟩ := eq_append_cons_of_mem ht
    have hak : '=' ∉ a++k := by
      rw [mem_append]
      rintro (h | h)
      · exact not_mem_of_blank ha h
      · exact hk h
    have hall : a++(k ++ '=' :: v)++b=(a++k) ++ '=' :: (v++b) := by simp
    have hkey : trimBy isBlank (a++k)=trimBy isBlank k := by simpa using trimBy_append k ha hnon
    have hval : trimBy isBlank (v++b)=trimBy isBlank v := by simpa using trimBy_append v hnon hb
    rw [hall,pairOf_split hak,pairOf_split hk,hkey,hval]
  · have hall : '=' ∉ a++t++b := by
      rw [mem_append,mem_append]
      rintro ((h | h) | h)
      · exact not_mem_of_blank ha h
      · exact ht h
      · exact not_mem_of_blank hb h
    rw [pairOf_of_not_mem hall,pairOf_of_not_mem ht,trimBy_append _ ha hb]

theorem pairOf_trimBlank (t : List Char) : pairOf (trimBy isBlank t)=pairOf t := by
  obtain ⟨a,b,ht,ha,hb,-⟩ := trimBy_spec isBlank t
  conv => rhs; rw [ht,pairOf_append ha hb]

def pairWeight (t : List Char) : ℕ := weight (pairOf t).1+weight (pairOf t).2

theorem pairWeight_eq (t : List Char) : pairWeight t+(if '=' ∈ t then 1 else 0)=weight t := by
  rw [pairWeight]
  by_cases ht : '=' ∈ t
  · obtain ⟨k,v,rfl,hk⟩ := eq_append_cons_of_mem ht
    have hequ : weight ('=' :: v)=1+weight v := by
      rw [← singleton_append,weight_append]
      rfl
    rw [if_pos ht,pairOf_split hk,weight_trimBlank,weight_trimBlank,weight_append,hequ]
    omega
  · rw [if_neg ht,pairOf_of_not_mem ht,weight_trimBlank]
    rfl

theorem mem_trimBy (hequ : wide '=' = false) : '=' ∈ trimBy wide t ↔ '=' ∈ t := by
  obtain ⟨a,b,ht,ha,hb,-⟩ := trimBy_spec wide t
  conv => rhs; rw [ht,mem_append,mem_append]
  have hnot : ∀ {cs : List Char}, (∀ c ∈ cs, wide c=true) → '=' ∉ cs := by
    intro cs hcs hmem
    have := hcs _ hmem
    rw [hequ] at this
    cases this
  simp [hnot ha,hnot hb]

/-- Trimming more than blanks leaves the name and the value as they are, or takes away from them. -/
theorem pairOf_trimBy (hwid : ∀ c, isBlank c=true → wide c=true) (hequ : wide '=' = false) (t : List Char) :
    trimBy wide t=trimBy isBlank t ∧ pairOf (trimBy wide t)=pairOf t ∨
      trimBy wide t≠trimBy isBlank t ∧ pairWeight (trimBy wide t)<pairWeight t := by
  by_cases hsam : trimBy wide t=trimBy isBlank t
  · exact Or.inl ⟨hsam,by rw [hsam,pairOf_trimBlank]⟩
  · refine Or.inr ⟨hsam,?_⟩
    have hles:=lt_of_le_of_ne (weight_trimBy_le t) fun h => hsam (trimBy_eq_trimBlank hwid h)
    have htri:=pairWeight_eq (trimBy wide t)
    have hwho:=pairWeight_eq t
    simp only [mem_trimBy hequ] at htri
    omega

theorem mem_trimBlank {c : Char} (hc : c ∈ t) (hbla : isBlank c=false) : c ∈ trimBy isBlank t := by
  obtain ⟨a,b,ht,ha,hb,-⟩ := trimBy_spec isBlank t
  rw [ht,mem_append,mem_append] at hc
  rcases hc with (hc | hc) | hc
  · exact absurd (ha c hc) (by simp [hbla])
  · exact hc
  · exact absurd (hb c hc) (by simp [hbla])

theorem blank_of_plain {cs : List Char} (ha : ∀ c ∈ a, wide c=true) (hsub : ∀ c ∈ a, c ∈ cs)
    (hpla : ∀ c ∈ trimBy isBlank cs, wide c=false) : ∀ c ∈ a, isBlank c=true := by
  intro c hc
  by_contra hbla
  have hlef:=hpla c (mem_trimBlank (hsub c hc) (Bool.eq_false_iff.2 hbla))
  rw [ha c hc] at hlef
  cases hlef

theorem name_trimBy (hequ : wide '=' = false) (hpla : ∀ c ∈ (pairOf t).1, wide c=false) :
    (pairOf (trimBy wide t)).1=(pairOf t).1 := by
  have hnon : ∀ c ∈ ([] : List Char), isBlank c=true := by simp
  obtain ⟨a,b,ht,ha,hb,-⟩ := trimBy_spec wide t
  have hnot : ∀ {cs : List Char}, (∀ c ∈ cs, wide c=true) → '=' ∉ cs := by
    intro cs hcs hmem
    have := hcs _ hmem
    rw [hequ] at this
    cases this
  generalize trimBy wide t=x at ht
  subst ht
  by_cases hx : '=' ∈ x
  · obtain ⟨k,v,rfl,hk⟩ := eq_append_cons_of_mem hx
    have hak : '=' ∉ a++k := by
      rw [mem_append]
      rintro (h | h)
      · exact hnot ha h
      · exact hk h
    have hall : a++(k ++ '=' :: v)++b=(a++k) ++ '=' :: (v++b) := by simp
    rw [hall,pairOf_split hak] at hpla ⊢
    have hbla:=blank_of_plain ha (fun c hc => mem_append_left k hc) hpla
    have hkey : trimBy isBlank (a++k)=trimBy isBlank k := by simpa using trimBy_append k hbla hnon
    rw [pairOf_split hk,hkey]
  · have hall : '=' ∉ a++x++b := by
      rw [mem_append,mem_append]
      rintro ((h | h) | h)
      · exact hnot ha h
      · exact hx h
      · exact hnot hb h
    rw [pairOf_of_not_mem hall] at hpla ⊢
    have hfro:=blank_of_plain ha (fun c hc => mem_append_left b (mem_append_left x hc)) hpla
    have hbac:=blank_of_plain hb (fun c hc => mem_append_right (a++x) hc) hpla
    rw [pairOf_of_not_mem hx,trimBy_append _ hfro hbac]

end Pairs

section Lists
variable {α β : Type} (mass : β → ℕ)

def massOf : Option β → ℕ
  | none => 0
  | some b => mass b+1

theorem sum_filterMap (f : α → Option β) (xs : List α) :
    ((xs.filterMap f).map fun b => mass b+1).sum=(xs.map fun a => massOf mass (f a)).sum := by
  induction xs with
  | nil => rfl
  | cons a xs ih =>
    cases hf : f a with
    | none => simp [hf,ih,massOf]
    | some b => simp [hf,ih,massOf]

/-- Two lists, one of which is nowhere heavier, are equal only if they are so element by element. -/
theorem filterMap_eq_iff {f g : α → Option β} {xs : List α}
    (h : ∀ a ∈ xs, g a=f a ∨ massOf mass (g a) < massOf mass (f a)) :
    xs.filterMap g=xs.filterMap f ↔ ∀ a ∈ xs, g a=f a := by
  constructor
  · intro heq a ha
    rcases h a ha with hsam | hlt
    · exact hsam
    · have hsum:=congrArg (fun ys => (ys.map fun b => mass b+1).sum) heq
      simp only [sum_filterMap] at hsum
      have hles : (xs.map fun a => massOf mass (g a)).sum<(xs.map fun a => massOf mass (f a)).sum := by
        refine sum_lt_sum _ _ (fun b hb => ?_) ⟨a,ha,hlt⟩
        rcases h b hb with hsam | hlt
        · rw [hsam]
        · exact hlt.le
      omega
  · exact fun hall => filterMap_congr hall

end Lists

end Qubicl.Foundation.Cookies
