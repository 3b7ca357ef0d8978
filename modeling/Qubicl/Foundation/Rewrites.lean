import Qubicl.Foundation.Durable
import Qubicl.Foundation.Path

/-!
# Files of lines that are rewritten in place

A file is truncated and what it keeps is appended. Between the two steps the file is empty, and what it keeps is nowhere
on disk.
-/

namespace Qubicl.Foundation
open Durable List

/-- The files that exist, with their contents. -/
abbrev Files (κ α : Type) := κ → Option (List α)

section
variable {α : Type} [DecidableEq α] {newline : α} {line content : List α}

/- `split` and `filter(Boolean)` -/
def linesOf (newline : α) (content : List α) : List (List α) := (content.splitOn newline).filter fun line => !line.isEmpty

def unlines (newline : α) (lines : List (List α)) : List α := lines.flatMap (· ++ [newline])

theorem mem_linesOf (h : line ∈ linesOf newline content) : line≠[] ∧ newline ∉ line := by
  obtain ⟨hmem,hne⟩ := mem_filter.1 h
  exact ⟨by simpa using hne,splitOn_no_separator hmem⟩

theorem linesOf_append (before after : List α) :
    linesOf newline (before++newline::after)=linesOf newline before++linesOf newline after := by
  unfold linesOf
  rw [splitOn_append_cons_self,filter_append]

theorem linesOf_unlines {lines : List (List α)} (h : ∀ line ∈ lines, line≠[] ∧ newline ∉ line) :
    linesOf newline (unlines newline lines)=lines := by
  induction lines with
  | nil => simp [linesOf,unlines]
  | cons line lines ih =>
    obtain ⟨hlin,hres⟩ := forall_mem_cons.1 h
    have hfir : linesOf newline line=[line] := by
      rw [linesOf,splitOn_eq_singleton hlin.2]
      simpa using hlin.1
    have hspl : unlines newline (line::lines)=line++newline::unlines newline lines := by simp [unlines]
    rw [hspl,linesOf_append,hfir,ih hres]
    rfl

theorem length_linesOf_le (content : List α) : (linesOf newline content).length≤content.length+1 := by
  have hspl : (content.splitOn newline).length≤content.length+1 := by
    induction content with
    | nil => simp
    | cons x content ih =>
      rw [splitOn_cons_eq_if_modifyHead]
      split <;> simp <;> omega
  exact Nat.le_trans (length_filter_le _ _) hspl

end

section
variable {κ α E : Type} [DecidableEq κ]

/- A file that is missing stays missing. -/
def truncate (path : κ) : Durable (Files κ α) E Unit :=
  write fun files => Function.update files path ((files path).map fun _ => [])

def appendFile (path : κ) (content : List α) : Durable (Files κ α) E Unit :=
  write fun files => Function.update files path (some ((files path).getD []++content))

/- What is appended is one string, which may be too long to be built. -/
def rewriteFile (fits : List α → Bool) (error : E) (path : κ) (content : List α) : Durable (Files κ α) E Unit := do
  truncate path
  when (!content.isEmpty) do
    ofExcept (if fits content then .ok () else .error error)
    appendFile path content

/-- What a rewritten file has. -/
def rewritten (content : κ → List α) (files : Files κ α) (path : κ) : Option (List α) :=
  if content path=[] then (files path).map fun _ => [] else some (content path)

/-- Each file is as before or rewritten; one may stand truncated. -/
def Rewriting (content : κ → List α) (files now : Files κ α) : Prop :=
  ∃ rewriting, ∀ path, now path=files path ∨ now path=rewritten content files path ∨
    path=rewriting ∧ now path=(files path).map fun _ => []

/- The files before `rest` in the list are rewritten. -/
structure RewrittenTo (fits : List α → Bool) (content : κ → List α) (files : Files κ α) (sources rest : List κ)
    (now : Files κ α) : Prop where
  nodup : rest.Nodup
  sub : ∀ path ∈ rest, path ∈ sources
  fit : ∀ path ∈ sources, path ∉ rest → content path=[] ∨ fits (content path)=true
  now_eq : ∀ path, now path=if path ∈ sources ∧ path ∉ rest then rewritten content files path else files path

variable {fits : List α → Bool} {error : E} {content : κ → List α} {files : Files κ α} {sources : List κ}

theorem wp_rewriteFile (path : κ) (now : Files κ α) (hnow : now path=files path) (Q : Condition (Files κ α) E Unit) :
    wp (rewriteFile fits error path (content path)) Q now ↔
      Q.cut (Function.update now path ((files path).map fun _ => [])) ∧
      if content path=[] ∨ fits (content path)=true then
        (content path≠[] → Q.cut (Function.update now path (rewritten content files path))) ∧
          Q.returns () (Function.update now path (rewritten content files path))
      else Q.throws error (Function.update now path ((files path).map fun _ => [])) := by
  unfold rewriteFile truncate appendFile rewritten
  by_cases hemp : content path=[]
  · simp [hemp,hnow,when]
  · have hkep : ((files path).map fun _ => ([] : List α)).getD []=[] := by cases files path <;> rfl
    cases hfit : fits (content path) <;> simp [hemp,hnow,when,hkep]

/-- A cut leaves all files but one as they were or rewritten, and that one may be empty. -/
theorem wp_rewriteEach (hnod : sources.Nodup) :
    wp (forEach sources fun path => rewriteFile fits error path (content path))
      ⟨Rewriting content files,fun _ now => RewrittenTo fits content files sources [] now,
        fun _ now => Rewriting content files now⟩ files := by
  have hste : ∀ path rest now, RewrittenTo fits content files sources (path::rest) now →
      wp (rewriteFile fits error path (content path)) ⟨Rewriting content files,
        fun _ now => RewrittenTo fits content files sources rest now,fun _ now => Rewriting content files now⟩ now := by
    intro path rest now ⟨hnod,hsub,hfit,hnow⟩
    obtain ⟨hfre,hnod⟩ := nodup_cons.1 hnod
    have hpat : now path=files path := by rw [hnow,if_neg fun h => h.2 mem_cons_self]
    have hoth : ∀ p, now p=files p ∨ now p=rewritten content files p := fun p => by
      rw [hnow]
      split
      · exact .inr rfl
      · exact .inl rfl
    have htru : Rewriting content files (Function.update now path ((files path).map fun _ => [])) :=
      ⟨path,fun p => by
        by_cases hp : p=path
        · rw [hp,Function.update_self]
          exact .inr (.inr ⟨rfl,rfl⟩)
        · rw [Function.update_of_ne hp]
          exact (hoth p).imp id .inl⟩
    have hdon : Rewriting content files (Function.update now path (rewritten content files path)) := ⟨path,fun p => by
      by_cases hp : p=path
      · rw [hp,Function.update_self]
        exact .inr (.inl rfl)
      · rw [Function.update_of_ne hp]
        exact (hoth p).imp id .inl⟩
    rw [wp_rewriteFile path now hpat]
    refine ⟨htru,?_⟩
    split
    case isFalse => exact htru
    case isTrue hfis =>
      refine ⟨fun _ => hdon,hnod,fun p hp => hsub p (mem_cons_of_mem _ hp),fun p hp hres => ?_,fun p => ?_⟩
      · by_cases heq : p=path
        · rw [heq]
          exact hfis
        · exact hfit p hp (by simp [heq,hres])
      · by_cases hp : p=path
        · rw [hp,Function.update_self,if_pos ⟨hsub path mem_cons_self,hfre⟩]
        · rw [Function.update_of_ne hp,hnow]
          simp only [mem_cons,hp,false_or]
  exact wp_forEach (I := RewrittenTo fits content files sources) hste (fun now h => h) sources
    ⟨hnod,fun _ h => h,fun p hp hres => absurd hp hres,fun p => by rw [if_neg fun h => h.2 h.1]⟩

end
end Qubicl.Foundation
