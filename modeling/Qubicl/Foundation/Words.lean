import Qubicl.Foundation.Cookies

/-!
# The words of a text

What is left of a text when it does not matter which separators stand between its words and how many.
-/

namespace Qubicl.Foundation
open Cookies List

def wordsBy (p : Char → Bool) (cs : List Char) : List (List Char) := (cs.splitOnP p).filter fun word => !word.isEmpty

/-- Every run of `blank` becomes one `mark`; the flag says whether a run is under way. -/
def collapseFrom (blank : Char → Bool) (mark : Char) : Bool → List Char → List Char
  | _, [] => []
  | inRun, c::cs =>
    if blank c then (if inRun then [] else [mark])++collapseFrom blank mark true cs
    else c::collapseFrom blank mark false cs

variable {w : List Char}

section
variable {p blank : Char → Bool} {mark c : Char} {cs a b : List Char}

theorem wordsBy_append (hc : p c=true) (front : List Char) :
    wordsBy p (front++c::cs)=wordsBy p front++wordsBy p cs := by
  unfold wordsBy
  rw [splitOnP_append_cons _ _ hc,filter_append]

theorem wordsBy_nil : wordsBy p []=[] := by
  unfold wordsBy
  rw [splitOnP_nil]
  rfl

theorem wordsBy_cons (hc : p c=true) : wordsBy p (c::cs)=wordsBy p cs := by
  have h : wordsBy p ([]++c::cs)=wordsBy p []++wordsBy p cs := wordsBy_append hc []
  rwa [nil_append,wordsBy_nil,nil_append] at h

theorem wordsBy_separators (ha : ∀ c ∈ a, p c=true) : wordsBy p (a++cs)=wordsBy p cs := by
  induction a with
  | nil => rfl
  | cons c a ih =>
    rw [cons_append,wordsBy_cons (ha c mem_cons_self)]
    exact ih fun d hd => ha d (mem_cons_of_mem c hd)

theorem wordsBy_append_separators (hb : ∀ c ∈ b, p c=true) : wordsBy p (cs++b)=wordsBy p cs := by
  cases b with
  | nil => rw [append_nil]
  | cons c b =>
    have hres : wordsBy p (b++[])=wordsBy p [] := wordsBy_separators fun d hd => hb d (mem_cons_of_mem c hd)
    rw [append_nil,wordsBy_nil] at hres
    rw [wordsBy_append (hb c mem_cons_self),hres,append_nil]

theorem wordsBy_map {f : Char → Char} (h : ∀ c, f c=c ∨ p c=true ∧ p (f c)=true) (front : List Char) :
    wordsBy p (front++cs.map f)=wordsBy p (front++cs) := by
  induction cs generalizing front with
  | nil => rfl
  | cons c cs ih =>
    rw [map_cons]
    rcases h c with heq | ⟨hc,hf⟩
    · have hnex:=ih (front++[c])
      rw [heq]
      simpa using hnex
    · have hnex:=ih []
      rw [nil_append,nil_append] at hnex
      rw [wordsBy_append hf,wordsBy_append hc,hnex]

/- The induction carries both states of the flag: inside a run something has been separated already. -/
theorem wordsBy_collapseFrom (hbla : ∀ c, blank c=true → p c=true) (hmar : p mark=true) :
    (∀ front, wordsBy p (front++collapseFrom blank mark false cs)=wordsBy p (front++cs)) ∧
      ∀ front, wordsBy p (front++mark::collapseFrom blank mark true cs)=wordsBy p (front++mark::cs) := by
  induction cs with
  | nil => exact ⟨fun _ => rfl,fun _ => rfl⟩
  | cons c cs ih =>
    obtain ⟨hout,hin⟩ := ih
    cases hc : blank c with
    | true =>
      have hsep:=hbla c hc
      constructor
      · intro front
        have hste : collapseFrom blank mark false (c::cs)=mark::collapseFrom blank mark true cs := by
          simp [collapseFrom,hc]
        rw [hste,hin front,wordsBy_append hmar,wordsBy_append hsep]
      · intro front
        have hste : collapseFrom blank mark true (c::cs)=collapseFrom blank mark true cs := by
          simp [collapseFrom,hc]
        rw [hste,hin front,wordsBy_append hmar,wordsBy_append hmar,wordsBy_cons hsep]
    | false =>
      have hste : ∀ flag, collapseFrom blank mark flag (c::cs)=c::collapseFrom blank mark false cs := by
        intro flag
        simp [collapseFrom,hc]
      constructor
      · intro front
        have hnex:=hout (front++[c])
        rw [hste]
        simpa using hnex
      · intro front
        have hnex:=hout (front++[mark,c])
        rw [hste]
        simpa using hnex

theorem wordsBy_trimBy (hbla : ∀ c, blank c=true → p c=true) (cs : List Char) :
    wordsBy p (trimBy blank cs)=wordsBy p cs := by
  obtain ⟨a,b,hcs,ha,hb,-⟩ := trimBy_spec blank cs
  have hsid : wordsBy p cs=wordsBy p (a++trimBy blank cs++b) := by rw [← hcs]
  rw [hsid,wordsBy_append_separators fun c hc => hbla c (hb c hc),wordsBy_separators fun c hc => hbla c (ha c hc)]

theorem wordsBy_ne_nil (hc : p c=false) : wordsBy p (c::cs)≠[] := by
  unfold wordsBy
  rw [splitOnP_cons_eq_if_modifyHead,if_neg (by simp [hc])]
  cases hpie : cs.splitOnP p with
  | nil => exact absurd hpie (splitOnP_ne_nil p cs)
  | cons first others => simp

theorem wordsBy_ne_nil_of_mem (hmem : c ∈ cs) (hc : p c=false) : wordsBy p cs≠[] := by
  induction cs with
  | nil => cases hmem
  | cons d cs ih =>
    cases hd : p d with
    | true =>
      rw [wordsBy_cons hd]
      refine ih ((mem_cons.1 hmem).resolve_left ?_)
      rintro rfl
      rw [hc] at hd
      cases hd
    | false => exact wordsBy_ne_nil hd

theorem wordsBy_word (hw : ∀ c ∈ w, p c=false) (hne : w≠[]) : wordsBy p w=[w] := by
  unfold wordsBy
  rw [splitOnP_eq_singleton hw]
  simp [hne]

theorem ne_nil_of_mem_wordsBy (h : w ∈ wordsBy p cs) : w≠[] := by
  have hkep:=(mem_filter.1 h).2
  simpa using hkep

theorem intercalate_wordsBy_eq_nil : [mark].intercalate (wordsBy p cs)=[] ↔ wordsBy p cs=[] := by
  constructor
  · intro hnil
    cases hwor : wordsBy p cs with
    | nil => rfl
    | cons w ws =>
      have hw : w≠[] := ne_nil_of_mem_wordsBy (by rw [hwor]; exact mem_cons_self)
      rw [hwor] at hnil
      cases ws with
      | nil => exact absurd (by simpa using hnil) hw
      | cons v vs =>
        rw [intercalate_cons_cons] at hnil
        simp [hw] at hnil
  · intro hnil
    rw [hnil]
    rfl

theorem rdropWhile_append : (a++b).rdropWhile p=if b.rdropWhile p=[] then a.rdropWhile p else a++b.rdropWhile p := by
  unfold List.rdropWhile
  rw [reverse_append,dropWhile_append]
  cases hb : b.reverse.dropWhile p with
  | nil => simp
  | cons c rest => simp

theorem rdropWhile_word (hw : ∀ c ∈ w, p c=false) : w.rdropWhile p=w := by
  rw [rdropWhile_eq_self_iff]
  intro hne
  simp [hw _ (getLast_mem hne)]

/- The induction carries both states of the flag: between two words, and in a word `w` that is under way. -/
theorem rdropWhile_collapseFrom (hmar : p mark=true) :
    (collapseFrom p mark true cs).rdropWhile p=[mark].intercalate (wordsBy p cs) ∧
      ∀ w, w≠[] → (∀ c ∈ w, p c=false) →
        (w++collapseFrom p mark false cs).rdropWhile p=[mark].intercalate (wordsBy p (w++cs)) := by
  induction cs with
  | nil =>
    refine ⟨by rw [wordsBy_nil]; rfl,fun w hne hw => ?_⟩
    have hemp : collapseFrom p mark false []=[] := rfl
    rw [hemp,append_nil,wordsBy_word hw hne,intercalate_singleton,rdropWhile_word hw]
  | cons c cs ih =>
    obtain ⟨hout,hin⟩ := ih
    cases hc : p c with
    | true =>
      constructor
      · have hste : collapseFrom p mark true (c::cs)=collapseFrom p mark true cs := by
          simp [collapseFrom,hc]
        rw [hste,wordsBy_cons hc,hout]
      · intro w hne hw
        have hste : collapseFrom p mark false (c::cs)=mark::collapseFrom p mark true cs := by
          simp [collapseFrom,hc]
        have hfir : wordsBy p (w++c::cs)=w::wordsBy p cs := by
          rw [wordsBy_append hc,wordsBy_word hw hne]
          rfl
        rw [hste,hfir,append_cons,rdropWhile_append,hout]
        by_cases hnil : wordsBy p cs=[]
        · have hbla : [mark].rdropWhile p=[] := by
            simp [rdropWhile_singleton,hmar]
          rw [hnil,intercalate_nil,if_pos rfl,rdropWhile_append,if_pos hbla,rdropWhile_word hw,intercalate_singleton]
        · rw [if_neg fun h => hnil (intercalate_wordsBy_eq_nil.1 h),intercalate_cons_of_ne_nil hnil]
    | false =>
      have hste : ∀ flag, collapseFrom p mark flag (c::cs)=c::collapseFrom p mark false cs := by
        intro flag
        simp [collapseFrom,hc]
      constructor
      · have hwor:=hin [c] (by simp) (by simpa using hc)
        rw [hste]
        simpa using hwor
      · intro w hne hw
        have hwor:=hin (w++[c]) (by simp) fun d hd => by
          rcases mem_append.1 hd with hd | hd
          · exact hw d hd
          · rw [mem_singleton.1 hd]
            exact hc
        rw [hste]
        simpa using hwor

theorem dropWhile_collapseFrom : (collapseFrom p mark true cs).dropWhile p=collapseFrom p mark true cs := by
  induction cs with
  | nil => rfl
  | cons c cs ih =>
    cases hc : p c with
    | true => simpa [collapseFrom,hc] using ih
    | false => simp [collapseFrom,hc]

/-- A text without runs and blanks at its ends is that of its words. -/
theorem trimBy_collapseFrom (hmar : p mark=true) :
    trimBy p (collapseFrom p mark false cs)=[mark].intercalate (wordsBy p cs) := by
  unfold trimBy
  cases cs with
  | nil =>
    rw [wordsBy_nil]
    rfl
  | cons c cs =>
    cases hc : p c with
    | true =>
      have hste : collapseFrom p mark false (c::cs)=mark::collapseFrom p mark true cs := by
        simp [collapseFrom,hc]
      rw [hste,dropWhile_cons_of_pos hmar,wordsBy_cons hc,dropWhile_collapseFrom]
      exact (rdropWhile_collapseFrom hmar).1
    | false =>
      have hste : collapseFrom p mark false (c::cs)=c::collapseFrom p mark false cs := by
        simp [collapseFrom,hc]
      have hwor : ([c]++collapseFrom p mark false cs).rdropWhile p=[mark].intercalate (wordsBy p ([c]++cs)) :=
        (rdropWhile_collapseFrom hmar).2 [c] (by simp) (by simpa using hc)
      rw [hste,dropWhile_cons_of_neg (by simp [hc])]
      simpa using hwor

end
end Qubicl.Foundation
