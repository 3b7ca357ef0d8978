import Qubicl.Foundation.CodeUnits
import Qubicl.Foundation.Number
import Qubicl.Foundation.Text

/-!
# The diff of an edit (packages/control/src/executor.ts:1371-1392)

Texts are sequences of UTF-16 code units.
-/

namespace Qubicl.Control.Files
open Foundation List

def newline : ℕ := '\n'.toNat

def minus : ℕ := '-'.toNat

def plus : ℕ := '+'.toNat

structure ResolvedEdit where
  oldText : List ℕ
  newText : List ℕ
  start : ℕ
  stop : ℕ
  deriving DecidableEq, Repr

/-- The loop over the edits from the last to the first. -/
def applyEdits (original : List ℕ) (edits : List ResolvedEdit) : List ℕ :=
  edits.foldr (fun edit updated => updated.take edit.start++edit.newText++updated.drop edit.stop) original

/-- `text.match(/[^\n]*\n|[^\n]+$/gu) ?? []` -/
def splitLines : List ℕ → List (List ℕ)
  | [] => []
  | c::rest =>
    if c=newline then [newline]::splitLines rest
    else match splitLines rest with
      | [] => [[c]]
      | line::lines => (c::line)::lines

/-- How far two lists agree. -/
def agreement {α : Type} [DecidableEq α] : List α → List α → ℕ
  | a::before, b::after => if a=b then agreement before after+1 else 0
  | _, _ => 0

def noNewline : List ℕ := codeUnits "\\ No newline at end of file"

def diffLines (mark : ℕ) (source : List (List ℕ)) : List (List ℕ) :=
  source.flatMap fun line => if line.getLast? = some newline then [mark::line.dropLast] else [mark::line,noNewline]

/-- `lines.length ? start + 1 : start` -/
def lineNumber (start : ℕ) (lines : List (List ℕ)) : ℕ := if lines=[] then start else start+1

/-- A number in the header of a hunk. -/
def decimal (n : ℕ) : List ℕ := (Nat.toDigits 10 n).map Char.toNat

def sideRange (start : ℕ) (lines : List (List ℕ)) : List ℕ :=
  decimal (lineNumber start lines)++codeUnits ","++decimal lines.length

def fileHeader (path : List ℕ) : List ℕ := codeUnits "--- "++path++codeUnits "\n+++ "++path++[newline]

def withBom (hasBom : Bool) (text : List ℕ) : List ℕ := if hasBom then 0xfeff::text else text

def middle (start tail : ℕ) (lines : List (List ℕ)) : List (List ℕ) := (lines.take (lines.length-tail)).drop start

def renderEditDiff (path original : List ℕ) (edits : List ResolvedEdit) (hasBom : Bool) : List ℕ :=
  let before:=splitLines (withBom hasBom original)
  let after:=splitLines (withBom hasBom (applyEdits original edits))
  let start:=agreement before after
  if start=before.length ∧ start=after.length then []
  else
    let tail:=agreement (before.drop start).reverse (after.drop start).reverse
    let start:=start - 3
    let tail:=tail - 3
    let oldLines:=middle start tail before
    let newLines:=middle start tail after
    fileHeader path++(codeUnits "@@ -"++sideRange start oldLines++codeUnits " +"++sideRange start newLines++codeUnits " @@\n"++
      (diffLines minus oldLines++diffLines plus newLines).flatMap (· ++ [newline]))

/-- What a hunk says: where the lines of each side begin, how many there are, and the lines with their ends. -/
structure Hunk where
  oldStart : ℕ
  oldCount : ℕ
  newStart : ℕ
  newCount : ℕ
  oldLines : List (List ℕ)
  newLines : List (List ℕ)
  deriving DecidableEq, Repr

def expect (word text : List ℕ) : Option (List ℕ) := if word <+: text then some (text.drop word.length) else none

def isDigit (unit : ℕ) : Bool := '0'.toNat≤unit && unit ≤ '9'.toNat

def number (text : List ℕ) : ℕ × List ℕ :=
  (Number.natOfDigits ((text.takeWhile isDigit).map Char.ofNat),text.dropWhile isDigit)

/-- The lines of a hunk from the last to the first, with whether the marker of an open line was last. -/
def readLine (line : List ℕ) : Option (Bool × List (List ℕ) × List (List ℕ)) →
    Option (Bool × List (List ℕ) × List (List ℕ))
  | none => none
  | some (unended,old,new) =>
    let text:=if unended then line.tail else line.tail++[newline]
    if line=noNewline then some (true,old,new)
    else if line.head?=some minus then some (false,text::old,new)
    else if line.head?=some plus then some (false,old,text::new)
    else none

def readPatch (path patch : List ℕ) : Option Hunk := do
  let text ← expect (fileHeader path++codeUnits "@@ -") patch
  let (oldStart,text) := number text
  let text ← expect (codeUnits ",") text
  let (oldCount,text) := number text
  let text ← expect (codeUnits " +") text
  let (newStart,text) := number text
  let text ← expect (codeUnits ",") text
  let (newCount,text) := number text
  let text ← expect (codeUnits " @@\n") text
  let (_,oldLines,newLines) ← (text.splitOn newline).dropLast.foldr readLine (some (false,[],[]))
  some ⟨oldStart,oldCount,newStart,newCount,oldLines,newLines⟩

/-- How many lines stand in front of a side. -/
def ahead (start count : ℕ) : ℕ := if count=0 then start else start - 1

namespace Hunk

def reverse (hunk : Hunk) : Hunk :=
  ⟨hunk.newStart,hunk.newCount,hunk.oldStart,hunk.oldCount,hunk.newLines,hunk.oldLines⟩

/-- A hunk fits where it says, or not at all. -/
def apply (hunk : Hunk) (text : List ℕ) : Option (List ℕ) :=
  let lines:=splitLines text
  let front:=ahead hunk.oldStart hunk.oldCount
  if hunk.oldLines.length=hunk.oldCount ∧ hunk.newLines.length=hunk.newCount ∧ ahead hunk.newStart hunk.newCount=front ∧
      front≤lines.length ∧ hunk.oldLines <+: lines.drop front then
    some (lines.take front++hunk.newLines++lines.drop (front+hunk.oldCount)).flatten
  else none

end Hunk

section
variable {text : List ℕ}

theorem flatten_splitLines (text : List ℕ) : (splitLines text).flatten=text := by
  induction text with
  | nil => rfl
  | cons c rest ih =>
    unfold splitLines
    split
    next hc => rw [flatten_cons,ih,hc,singleton_append]
    next =>
      split
      next hnone =>
        rw [hnone] at ih
        rw [← ih]
        rfl
      next line lines hlines =>
        rw [hlines] at ih
        rw [← ih]
        rfl

theorem splitLines_inj {other : List ℕ} (h : splitLines text=splitLines other) : text=other := by
  rw [← flatten_splitLines text,h,flatten_splitLines]

/-- A line feed ends its line. -/
theorem splitLines_ends (text : List ℕ) : ∀ line ∈ splitLines text, newline ∉ line.dropLast := by
  induction text with
  | nil => exact fun line hline => absurd hline not_mem_nil
  | cons c rest ih =>
    intro line hline
    unfold splitLines at hline
    split at hline
    next =>
      rcases mem_cons.1 hline with rfl | hline
      · exact not_mem_nil
      · exact ih line hline
    next hc =>
      split at hline
      next =>
        rw [mem_singleton.1 hline]
        exact not_mem_nil
      next first lines hlines =>
        rw [hlines] at ih
        rcases mem_cons.1 hline with rfl | hline
        · have hfirst:=ih first mem_cons_self
          cases first with
          | nil => exact not_mem_nil
          | cons d first =>
            intro hmem
            rcases mem_cons.1 hmem with heq | hmem
            · exact hc heq.symm
            · exact hfirst hmem
        · exact ih line (mem_cons_of_mem _ hline)

end

section
variable {α : Type} [DecidableEq α] {before after : List α}

theorem agreement_le (before after : List α) : agreement before after≤before.length ∧ agreement before after≤after.length := by
  induction before generalizing after with
  | nil => exact ⟨Nat.zero_le _,Nat.zero_le _⟩
  | cons a before ih =>
    cases after with
    | nil => exact ⟨Nat.zero_le _,Nat.zero_le _⟩
    | cons b after =>
      unfold agreement
      have hrest:=ih after
      split
      · exact ⟨Nat.succ_le_succ hrest.1,Nat.succ_le_succ hrest.2⟩
      · exact ⟨Nat.zero_le _,Nat.zero_le _⟩

theorem take_agreement {n : ℕ} (h : n≤agreement before after) : before.take n=after.take n := by
  induction before generalizing after n with
  | nil =>
    rw [Nat.le_zero.1 h]
    rfl
  | cons a before ih =>
    cases after with
    | nil =>
      rw [Nat.le_zero.1 h]
      rfl
    | cons b after =>
      unfold agreement at h
      split at h
      next heq =>
        cases n with
        | zero => rfl
        | succ n => rw [take_succ_cons,take_succ_cons,heq,ih (Nat.le_of_succ_le_succ h)]
      next =>
        rw [Nat.le_zero.1 h]
        rfl

theorem agreement_self (l : List α) : agreement l l=l.length := by
  induction l with
  | nil => rfl
  | cons a l ih =>
    unfold agreement
    rw [if_pos rfl,ih]
    rfl

end

/-- The two sides have the lines in front and the lines behind in common. -/
theorem middle_spec {before after : List (List ℕ)} {start tail : ℕ} (hstart : start≤agreement before after)
    (htail : tail≤agreement (before.drop (agreement before after)).reverse (after.drop (agreement before after)).reverse) :
    ∃ front back, front.length=start ∧ before=front++middle start tail before++back ∧
      after=front++middle start tail after++back := by
  have hfront:=agreement_le before after
  have hback:=agreement_le (before.drop (agreement before after)).reverse (after.drop (agreement before after)).reverse
  rw [length_reverse,length_reverse,length_drop,length_drop] at hback
  have hsplit : ∀ lines : List (List ℕ), start+tail≤lines.length →
      lines=lines.take start++middle start tail lines++lines.drop (lines.length-tail) := by
    intro lines hle
    unfold middle
    have htake : lines.take start=(lines.take (lines.length-tail)).take start := by
      rw [take_take,Nat.min_eq_left (by omega)]
    rw [htake,take_append_drop,take_append_drop]
  have hsame : before.drop (before.length-tail)=after.drop (after.length-tail) := by
    have hlast:=take_agreement htail
    rw [take_reverse,take_reverse,length_drop,length_drop,drop_drop,drop_drop] at hlast
    have hends:=reverse_inj.1 hlast
    rwa [show agreement before after+(before.length-agreement before after-tail)=before.length-tail by omega,
      show agreement before after+(after.length-agreement before after-tail)=after.length-tail by omega] at hends
  refine ⟨before.take start,before.drop (before.length-tail),?_,hsplit before (by omega),?_⟩
  · rw [length_take,Nat.min_eq_left (by omega)]
  · rw [take_agreement hstart,hsame]
    exact hsplit after (by omega)

section
variable {hunk : Hunk} {front back oldLines newLines : List (List ℕ)}

/-- A side in the middle of a text is found there and replaced. -/
theorem apply_middle {old new : List ℕ} (hold : splitLines old=front++oldLines++back)
    (hnew : splitLines new=front++newLines++back) :
    (Hunk.mk (lineNumber front.length oldLines) oldLines.length (lineNumber front.length newLines) newLines.length
      oldLines newLines).apply old=some new := by
  have hahead : ∀ lines, ahead (lineNumber front.length lines) lines.length=front.length := by
    intro lines
    cases lines with
    | nil => rfl
    | cons => rfl
  have hfit : front.length≤(splitLines old).length ∧ oldLines <+: (splitLines old).drop front.length := by
    rw [hold,append_assoc,drop_left,length_append]
    exact ⟨Nat.le_add_right _ _,prefix_append _ _⟩
  have hrest : (splitLines old).drop (front.length+oldLines.length)=back := by
    rw [hold,append_assoc,← drop_drop,drop_left,drop_left]
  unfold Hunk.apply
  simp only [hahead]
  rw [if_pos ⟨trivial,trivial,trivial,hfit⟩,hrest,hold,append_assoc front oldLines,take_left,← hnew,flatten_splitLines]

theorem expect_append (word text : List ℕ) : expect word (word++text)=some text := by
  unfold expect
  rw [if_pos (prefix_append _ _),drop_left]

/-- A number ends where no digit follows. -/
theorem number_append (n : ℕ) {word : List ℕ} (h : word.head?.all isDigit=false) (text : List ℕ) :
    number (decimal n++(word++text))=(n,word++text) := by
  have hdig : ∀ d ∈ decimal n, isDigit d=true := by
    intro d hd
    obtain ⟨c,hc,rfl⟩ := mem_map.1 hd
    exact digits_isDigit hc
  have hback : (decimal n).map Char.ofNat=Nat.toDigits 10 n := by
    unfold decimal
    rw [map_map]
    exact (map_congr_left fun c _ => Char.ofNat_toNat c).trans (map_id _)
  cases word with
  | nil => cases h
  | cons c word =>
    have hc : ¬isDigit c=true := ne_true_of_eq_false h
    unfold number
    rw [cons_append,takeWhile_append_of_pos hdig,dropWhile_append_of_pos hdig,takeWhile_cons_of_neg hc,
      dropWhile_cons_of_neg hc,append_nil,hback,Number.natOfDigits_toDigits]

theorem diffLines_clean {mark : ℕ} (hmark : mark ≠ newline) (hlines : ∀ line ∈ oldLines, newline ∉ line.dropLast) :
    ∀ line ∈ diffLines mark oldLines, newline ∉ line := by
  intro line hline
  obtain ⟨source,hsource,hmem⟩ := mem_flatMap.1 hline
  split at hmem
  next =>
    rw [mem_singleton.1 hmem]
    exact not_mem_cons_of_ne_of_not_mem hmark.symm (hlines source hsource)
  next hlast =>
    rcases mem_cons.1 hmem with rfl | hmem
    · refine not_mem_cons_of_ne_of_not_mem hmark.symm fun hnew => ?_
      cases hsource' : source.getLast? with
      | none =>
        rw [getLast?_eq_none_iff.1 hsource'] at hnew
        cases hnew
      | some last =>
        obtain ⟨init,hinit⟩ := getLast?_eq_some_iff.1 hsource'
        rw [hinit] at hnew
        rcases mem_append.1 hnew with hnew | hnew
        · exact hlines source hsource (by rw [hinit,dropLast_concat]; exact hnew)
        · exact hlast (by rw [hsource',mem_singleton.1 hnew])
    · rw [mem_singleton.1 hmem]
      decide

theorem splitOn_lines {lines : List (List ℕ)} (h : ∀ line ∈ lines, newline ∉ line) :
    ((lines.flatMap (· ++ [newline])).splitOn newline).dropLast=lines := by
  have hsplit : (lines.flatMap (· ++ [newline])).splitOn newline=lines++[[]] := by
    induction lines with
    | nil => rfl
    | cons line lines ih =>
      rw [flatMap_cons,append_assoc,singleton_append,splitOn_append_cons_self_of_not_mem (h line mem_cons_self),
        ih fun line hline => h line (mem_cons_of_mem _ hline)]
      rfl
  rw [hsplit,dropLast_concat]

/-- The lines of a side, read back: the marker of an open line is read before the line. -/
theorem readLine_side {mark : ℕ} {put : List ℕ → List (List ℕ) × List (List ℕ) → List (List ℕ) × List (List ℕ)}
    (hput : ∀ unended text sides, readLine (mark::text) (some (unended,sides)) =
      some (false,put (if unended then text else text++[newline]) sides)) (sides : List (List ℕ) × List (List ℕ)) :
    (diffLines mark oldLines).foldr readLine (some (false,sides))=some (false,oldLines.foldr put sides) := by
  induction oldLines with
  | nil => rfl
  | cons line lines ih =>
    have hcons : diffLines mark (line::lines) =
        (if line.getLast? = some newline then [mark::line.dropLast] else [mark::line,noNewline])++diffLines mark lines := rfl
    rw [hcons,foldr_append,ih]
    split
    next hlast =>
      obtain ⟨init,hinit⟩ := getLast?_eq_some_iff.1 hlast
      rw [foldr_cons,foldr_nil,hput,hinit,dropLast_concat]
      rfl
    next =>
      have hmarker : ∀ sides, readLine noNewline (some (false,sides))=some (true,sides) := by
        intro sides
        unfold readLine
        exact if_pos rfl
      rw [foldr_cons,foldr_cons,foldr_nil,hmarker,hput]
      rfl

theorem readLine_lines (oldLines newLines : List (List ℕ)) :
    (diffLines minus oldLines++diffLines plus newLines).foldr readLine (some (false,[],[]))=some (false,oldLines,newLines) := by
  have hput : ∀ (lines : List (List ℕ)) (sides : List (List ℕ) × List (List ℕ)),
      lines.foldr (fun line sides => (sides.1,line::sides.2)) sides=(sides.1,lines++sides.2) ∧
        lines.foldr (fun line sides => (line::sides.1,sides.2)) sides=(lines++sides.1,sides.2) := by
    intro lines sides
    induction lines with
    | nil => exact ⟨rfl,rfl⟩
    | cons line lines ih =>
      rw [foldr_cons,foldr_cons,ih.1,ih.2]
      exact ⟨rfl,rfl⟩
  have hline : ∀ {mark : ℕ} (text : List ℕ), mark ≠ '\\'.toNat → ¬mark::text=noNewline := by
    intro mark text hmark heq
    exact hmark (cons.inj heq).1
  have hnew:=@readLine_side newLines plus (fun line sides => (sides.1,line::sides.2)) (by
    intro unended text sides
    simp only [readLine]
    rw [if_neg (hline text (by decide)),head?_cons,if_neg (by decide),if_pos rfl]
    rfl) ([],[])
  have hold:=@readLine_side oldLines minus (fun line sides => (line::sides.1,sides.2)) (by
    intro unended text sides
    simp only [readLine]
    rw [if_neg (hline text (by decide)),head?_cons,if_pos rfl]
    rfl) ([],newLines)
  rw [(hput newLines ([],[])).1,append_nil] at hnew
  rw [(hput oldLines ([],newLines)).2,append_nil] at hold
  rw [foldr_append,hnew,hold]

theorem readPatch_render (path : List ℕ) {start : ℕ} (hold : ∀ line ∈ oldLines, newline ∉ line.dropLast)
    (hnew : ∀ line ∈ newLines, newline ∉ line.dropLast) :
    readPatch path (fileHeader path++(codeUnits "@@ -"++sideRange start oldLines++codeUnits " +"++sideRange start newLines++codeUnits " @@\n"++
      (diffLines minus oldLines++diffLines plus newLines).flatMap (· ++ [newline]))) =
      some ⟨lineNumber start oldLines,oldLines.length,lineNumber start newLines,newLines.length,oldLines,newLines⟩ := by
  have hclean : ∀ line ∈ diffLines minus oldLines++diffLines plus newLines, newline ∉ line := by
    intro line hline
    rcases mem_append.1 hline with hline | hline
    · exact diffLines_clean (by decide) hold line hline
    · exact diffLines_clean (by decide) hnew line hline
  have hbody:=splitOn_lines hclean
  generalize (diffLines minus oldLines++diffLines plus newLines).flatMap (· ++ [newline])=body at hbody
  unfold readPatch sideRange
  simp only [append_assoc]
  rw [← append_assoc (fileHeader path),expect_append,Option.bind_eq_bind,Option.bind_some,number_append _ (by decide)]
  simp only [expect_append,Option.bind_some]
  rw [number_append _ (by decide)]
  simp only [expect_append,Option.bind_some]
  rw [number_append _ (by decide)]
  simp only [expect_append,Option.bind_some]
  rw [number_append _ (by decide)]
  simp only [expect_append,Option.bind_some]
  rw [hbody,readLine_lines]
  rfl

end

/-- A diff is empty where nothing changes, and else is a hunk that makes each text of the other. -/
theorem diff_is_patch (path original : List ℕ) (edits : List ResolvedEdit) (hasBom : Bool) :
    (renderEditDiff path original edits hasBom=[] ↔ applyEdits original edits=original) ∧
      (renderEditDiff path original edits hasBom≠[] → ∃ hunk,
        readPatch path (renderEditDiff path original edits hasBom)=some hunk ∧
          hunk.apply (withBom hasBom original)=some (withBom hasBom (applyEdits original edits)) ∧
          hunk.reverse.apply (withBom hasBom (applyEdits original edits))=some (withBom hasBom original)) := by
  have hbom : ∀ {text other : List ℕ}, withBom hasBom text=withBom hasBom other → text=other := by
    intro text other h
    cases hasBom with
    | false => exact h
    | true => exact (cons.inj h).2
  generalize hafter : applyEdits original edits=updated
  unfold renderEditDiff
  simp only [hafter]
  split
  next hsame =>
    refine ⟨⟨fun _ => ?_,fun _ => rfl⟩,fun hne => absurd rfl hne⟩
    have hlines:=take_agreement (Nat.le_refl (agreement (splitLines (withBom hasBom original)) (splitLines (withBom hasBom updated))))
    rw [take_of_length_le (Nat.le_of_eq hsame.1.symm),take_of_length_le (Nat.le_of_eq hsame.2.symm)] at hlines
    exact (hbom (splitLines_inj hlines)).symm
  next hdiffer =>
    constructor
    · constructor
      · intro hnil
        cases (append_eq_nil_iff.1 hnil).1
      · intro heq
        refine absurd ?_ hdiffer
        rw [heq,agreement_self]
        exact ⟨rfl,rfl⟩
    · intro _
      obtain ⟨front,back,hlength,hold,hnew⟩ := middle_spec (Nat.sub_le _ 3) (Nat.sub_le _ 3)
      rw [← hlength] at hold hnew ⊢
      have hends : ∀ {text : List ℕ} {start tail : ℕ}, ∀ line ∈ middle start tail (splitLines text),
          newline ∉ line.dropLast := fun line hline =>
        splitLines_ends _ line (mem_of_mem_take (mem_of_mem_drop hline))
      exact ⟨_,readPatch_render path hends hends,apply_middle hold hnew,apply_middle hnew hold⟩

end Qubicl.Control.Files
