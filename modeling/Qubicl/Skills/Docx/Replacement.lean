import Mathlib.Data.List.Forall2
import Qubicl.Skills.Docx.Segments

/-!
# What a replacement leaves of a paragraph

A paragraph is read as a sequence of items, so that where each letter and each element stands is part of it.
-/

namespace Qubicl.Skills.Docx
open Foundation List

inductive Item
  | opened
  | char (run : ℕ) (c : Char)
  | tab (run : ℕ)
  | lineBreak (run : ℕ)
  | element (run : ℕ) (child : RunChild)
  | outside (child : Child)
  deriving DecidableEq

def letter (run : ℕ) (c : Char) : Item := if c = '\t' then .tab run else if c = '\n' then .lineBreak run else .char run c

def RunChild.items (run : ℕ) : RunChild → List Item
  | text node => node.chars.map (.char run)
  | tab => [.tab run]
  | lineBreak => [.lineBreak run]
  | child => [.element run child]

def Paragraph.items : ℕ → Paragraph → List Item
  | _, [] => []
  | n, .run children::rest => .opened::(children.flatMap (RunChild.items n)++items (n+1) rest)
  | n, child::rest => .outside child::items n rest

section Replaced
variable (length : ℕ) (new : List Char) (starts : List ℕ)

/-- A text node with its occurrences replaced. Every other element stays. -/
def RunChild.replaced (run position : ℕ) : RunChild → List Item
  | text node => (replacedFrom length new starts position node.chars).map
    (if touching length position (position+node.chars.length) starts=[] then Item.char run else letter run)
  | child => child.items run

def replacedRun (run : ℕ) : ℕ → List RunChild → List Item
  | _, [] => []
  | position, child::rest => child.replaced length new starts run position++replacedRun run (position+child.visible.length) rest

def Paragraph.replaced : ℕ → ℕ → Paragraph → List Item
  | _, _, [] => []
  | n, position, .run children::rest =>
    .opened::(replacedRun length new starts n position children ++
      replaced (n+1) (position+(Child.run children).visible.length) rest)
  | n, position, child::rest => .outside child::replaced n (position+child.visible.length) rest

end Replaced

/-- The count is that of the occurrences in the text of the paragraph, and they and nothing else have been replaced; or there
is an error, and the paragraph is as it was. -/
def ReplacesExactly (para : Paragraph) (old new : List Char) : Prop :=
  match replaceInParagraph para old new with
  | (after,.error _) => after=para
  | (after,.ok count) => count=(occurrences old para.text).length ∧
    after.text=replacedFrom old.length (normalized new) (occurrences old para.text) 0 para.text ∧
    after.items 0=para.replaced old.length (normalized new) (occurrences old para.text) 0 0

def beforeFirstEdit (old : List Char) : List (List XmlText) → Option (List Char)
  | [] => none
  | nodes::rest =>
    match (occurrences old (segmentText nodes)).getLast? with
    | none => beforeFirstEdit old rest
    | some start => ((slots 0 nodes).find? fun slot => decide (start<slot.stop)).map fun slot =>
      slot.node.chars.take (start - slot.start)

def ordinary (c : Char) : Bool := c ≠ '\t' && c ≠ '\n' && c ≠ '\r'

def leading (text : List Char) : List Char := text.takeWhile ordinary

/-- The replacement is refused because of its first piece, before anything is changed. -/
def RefusedFirst (para : Paragraph) (old new : List Char) : Prop :=
  ∃ before ∈ beforeFirstEdit old (segments para), ∃ c ∈ leading (before++new), xmlChar c=false

/-- Every occurrence lies in one segment, and no node loses the places of its matches or one of its line ends. -/
def Replaceable (para : Paragraph) (old new : List Char) : Prop :=
  (∀ start ∈ occurrences old para.text, Within old.length (paragraphPlaces para) start) ∧
    ∀ place ∈ paragraphPlaces para, ∀ slot ∈ slots 0 place.2,
      Clean old.length new slot.start slot.node.chars
        (touching old.length slot.start slot.stop (occurrences old (segmentText place.2)))

def Raises (para : Paragraph) (old : List Char) : Prop :=
  ((segments para).map fun nodes => (occurrences old (segmentText nodes)).length).sum≠(occurrences old para.text).length

def Sound (para : Paragraph) (old new : List Char) : Prop :=
  Raises para old ∨ RefusedFirst para old new ∨
    Replaceable para old new ∧ ((∀ c ∈ new, xmlChar c=true) ∨ occurrences old para.text=[])

def Aligned : ℕ → List Slot → Prop
  | _, [] => True
  | position, slot::rest => slot.start=position ∧ slot.start ≤ slot.stop ∧ Aligned slot.stop rest

theorem aligned_slots (position : ℕ) (nodes : List XmlText) : Aligned position (slots position nodes) := by
  induction nodes generalizing position with
  | nil => trivial
  | cons node rest ih => exact ⟨rfl,Nat.le_add_right _ _,ih _⟩

variable {before current : List Slot} {nodes : List XmlText} {slot : Slot} {left right : List Mark}

section Matches
variable {length start : ℕ} {new : List Char}

theorem edit_valid (hnew : ∀ c ∈ new, xmlChar c=true) (slot : Slot) (a b : ℕ) (first : Bool) :
    ∀ c ∈ slot.node.chars.take a++(if first then new else [])++slot.node.chars.drop b, xmlChar c=true := by
  intro c hc
  rcases mem_append.1 hc with hc | hc
  · rcases mem_append.1 hc with hc | hc
    · exact slot.node.valid c (mem_of_mem_take hc)
    · split at hc
      · exact hnew c hc
      · cases hc
  · exact slot.node.valid c (mem_of_mem_drop hc)

/-- The inner loop edits each node by itself: the one with the first letter of the match is the first that is touched. -/
theorem editSlots_ok (hlen : 0<length) (hnew : ∀ c ∈ new, xmlChar c=true) {first : Bool} {position : ℕ}
    {current : List Slot} (hali : Aligned position current) (hfir : first=true → position ≤ start)
    (hlat : first=false → start<position) :
    ∃ edited, editSlots start (start+length) new first current=.ok edited ∧
      List.Forall₂ (Edit length start new) current edited := by
  induction current generalizing first position with
  | nil => exact ⟨[],rfl,.nil⟩
  | cons slot rest ih =>
    obtain ⟨hsta,hle,hres⟩ := hali
    unfold editSlots
    split
    next hski =>
      obtain ⟨edited,hedi,hfor⟩ := @ih first _ hres
        (fun htru => by have := hfir htru; omega) (fun hfal => by have := hlat hfal; omega)
      rw [hedi]
      refine ⟨slot::edited,rfl,.cons ?_ hfor⟩
      unfold Edit
      rw [if_pos hski]
    next htou =>
      have hrep : (if first=true then new else [])=if slot.start ≤ start then new else [] := by
        cases first with
        | true => rw [if_pos rfl,if_pos (by have := hfir rfl; omega)]
        | false => rw [if_neg (by decide),if_neg (by have := hlat rfl; omega)]
      have hval:=edit_valid hnew slot (max slot.start start - slot.start) (min slot.stop (start+length) - slot.start) first
      obtain ⟨slot',more,hass,-⟩ := assign_ok slot hval
      obtain ⟨edited,hedi,hfor⟩ := @ih false _ hres (fun h => by cases h) (fun _ => by omega)
      dsimp only
      rw [hass]
      dsimp only
      rw [hedi]
      refine ⟨slot'::edited,rfl,.cons ?_ hfor⟩
      unfold Edit
      rw [if_neg htou,← hrep,← hass]
      rw [show max slot.start start - slot.start=start - slot.start by omega]

theorem editMatches_append (replacement : List Char → List Char) (text : List Char) (xs ys : List (ℕ × ℕ)) (current : List Slot) :
    editMatches replacement text (xs++ys) current=(editMatches replacement text xs current).bind
      (editMatches replacement text ys) := by
  induction xs generalizing current with
  | nil => rfl
  | cons x rest ih =>
    obtain ⟨start,stop⟩ := x
    show editMatches replacement text ((start,stop)::(rest++ys)) current=_
    unfold editMatches
    split
    · exact ih _
    · rfl

def Progressed (length : ℕ) (new : List Char) (starts : List ℕ) (slot slot' : Slot) : Prop :=
  Progress length new starts slot.start slot.node slot'

theorem aligned_progressed {starts : List ℕ} {position : ℕ}
    (h : List.Forall₂ (Progressed length new starts) (slots position nodes) current) : Aligned position current := by
  induction nodes generalizing position current with
  | nil =>
    cases h
    trivial
  | cons node rest ih =>
    cases h with
    | cons hslo hres =>
      have hsto:=hslo.stop
      have hsta:=hslo.start
      dsimp only at hsto hsta
      refine ⟨hsta,by omega,?_⟩
      rw [hsto]
      exact ih hres

theorem forall₂_step {starts : List ℕ} {edited : List Slot} (hlen : 0<length) (hnew : ∀ c ∈ new, xmlChar c=true)
    (hlat : ∀ t ∈ starts, start+length≤t) (hcle : ∀ slot ∈ before, slot.stop=slot.start+slot.node.chars.length ∧
      Clean length new slot.start slot.node.chars (touching length slot.start slot.stop (start::starts)))
    (h : List.Forall₂ (Progressed length new starts) before current)
    (hedi : List.Forall₂ (Edit length start new) current edited) :
    List.Forall₂ (Progressed length new (start::starts)) before edited := by
  induction h generalizing edited with
  | nil =>
    cases hedi
    exact .nil
  | cons hslo _ ih =>
    cases hedi with
    | cons hher hres =>
      obtain ⟨hsto,hcleanSlot⟩ := hcle _ mem_cons_self
      rw [hsto] at hcleanSlot
      exact .cons (hslo.step hlen hlat hnew hcleanSlot hher)
        (ih (fun slot hmem => hcle slot (mem_cons_of_mem _ hmem)) hres)

theorem slots_stop {position : ℕ} (h : slot ∈ slots position nodes) :
    slot.stop=slot.start+slot.node.chars.length := by
  induction nodes generalizing position with
  | nil => cases h
  | cons node rest ih =>
    rcases mem_cons.1 h with rfl | hrest
    · rfl
    · exact ih hrest

theorem forall₂_progress_nil (length : ℕ) (new : List Char) (position : ℕ) (nodes : List XmlText) :
    List.Forall₂ (Progressed length new []) (slots position nodes) (slots position nodes) := by
  induction nodes generalizing position with
  | nil => exact .nil
  | cons node rest ih => exact .cons (progress_nil length new position node) (ih _)

theorem clean_tail {position : ℕ} {text : List Char} {later : List ℕ}
    (h : Clean length new position text (start::later)) : Clean length new position text later := by
  cases later with
  | nil => trivial
  | cons next rest => exact h.2

/-- The matches of a segment are replaced, each at its place. -/
theorem editMatches_ok {starts : List ℕ} (hlen : 0<length) (hnew : starts≠[] → ∀ c ∈ new, xmlChar c=true)
    (hpai : starts.Pairwise fun s t => s+length≤t) (text : List Char) (nodes : List XmlText)
    (hcle : ∀ slot ∈ slots 0 nodes,
      Clean length new slot.start slot.node.chars (touching length slot.start slot.stop starts)) :
    ∃ edited, editMatches (fun _ => new) text ((starts.map fun start => (start,start+length)).reverse) (slots 0 nodes) =
        .ok edited ∧
      List.Forall₂ (Progressed length new starts) (slots 0 nodes) edited := by
  induction starts with
  | nil => exact ⟨slots 0 nodes,rfl,forall₂_progress_nil length new 0 nodes⟩
  | cons start later ih =>
    have hval:=hnew (cons_ne_nil _ _)
    obtain ⟨hlat,hpai⟩ := pairwise_cons.1 hpai
    obtain ⟨current,hcur,hpro⟩ := ih (fun _ => hval) hpai (by
      intro slot hslo
      have h:=hcle slot hslo
      have hsto:=slots_stop hslo
      rw [hsto] at h ⊢
      by_cases htou : start<slot.start+slot.node.chars.length ∧ slot.start<start+length
      · rw [touching_cons htou] at h
        exact clean_tail h
      · rwa [touching_cons_untouched htou] at h)
    obtain ⟨edited,hedi,hedt⟩ := @editSlots_ok length start new hlen hval true _ _
      (aligned_progressed hpro) (fun _ => Nat.zero_le _) (fun h => by cases h)
    refine ⟨edited,?_,forall₂_step hlen hval hlat (fun slot hslo => ⟨slots_stop hslo,hcle slot hslo⟩)
      hpro hedt⟩
    rw [map_cons,reverse_cons,editMatches_append,hcur]
    show editMatches (fun _ => new) text [(start,start+length)] current=_
    unfold editMatches
    rw [hedi]
    rfl

end Matches

section Fits
variable (length : ℕ) (new : List Char) (starts : List ℕ)

def Slot.items (run : ℕ) (slot : Slot) : List Item :=
  slot.node.chars.map (.char run)++slot.behind.flatMap (RunChild.items run)

/-- A slot is what a text node at this place should become. -/
structure SlotFits (position : ℕ) (node : XmlText) (slot : Slot) : Prop where
  text : slot.node.chars++behindText slot.behind=replacedFrom length new starts position node.chars
  items : ∀ run, slot.items run=(RunChild.text node).replaced length new starts run position

/- One slot for each text node, and nothing to be replaced in a gap. -/
inductive Fits : ℕ → List Mark → List Slot → Prop
  | nil (position : ℕ) : Fits position [] []
  | text {position : ℕ} {node : XmlText} {slot : Slot} {marks : List Mark} {current : List Slot} :
      SlotFits length new starts position node slot → Fits (position+node.chars.length) marks current →
        Fits position (.text node::marks) (slot::current)
  | gap {position : ℕ} {visible : List Char} {marks : List Mark} {current : List Slot} :
      replacedFrom length new starts position visible=visible → Fits (position+visible.length) marks current →
        Fits position (.gap visible::marks) current

variable {length new starts}

theorem Fits.split {position : ℕ} (h : Fits length new starts position (left++right) current) :
    ∃ before after, current=before++after ∧ Fits length new starts position left before ∧
      Fits length new starts (position+(left.flatMap Mark.visible).length) right after := by
  induction left generalizing position current with
  | nil => exact ⟨[],current,rfl,.nil position,h⟩
  | cons mark rest ih =>
    cases h with
    | text hslo hres =>
      obtain ⟨before,after,hcur,hbef,haft⟩ := ih hres
      refine ⟨_::before,after,by rw [hcur]; rfl,.text hslo hbef,?_⟩
      rwa [Nat.add_assoc,← length_append] at haft
    | gap hgap hres =>
      obtain ⟨before,after,hcur,hbef,haft⟩ := ih hres
      refine ⟨before,after,hcur,.gap hgap hbef,?_⟩
      rwa [Nat.add_assoc,← length_append] at haft

theorem Fits.append {position : ℕ} {after : List Slot} (h : Fits length new starts position left before)
    (h' : Fits length new starts (position+(left.flatMap Mark.visible).length) right after) :
    Fits length new starts position (left++right) (before++after) := by
  induction h with
  | nil position => exact h'
  | @text position node slot marks current hslo _ ih =>
    refine .text hslo (ih ?_)
    rwa [Nat.add_assoc,← length_append]
  | @gap position visible marks current hgap _ ih =>
    refine .gap hgap (ih ?_)
    rwa [Nat.add_assoc,← length_append]

theorem rebuildRun_fits {position : ℕ} {children : List RunChild}
    (h : Fits length new starts position (children.flatMap RunChild.marks) current) (left : List Slot) :
    (rebuildRun children (current++left)).2=left ∧
      (rebuildRun children (current++left)).1.flatMap RunChild.visible =
        replacedFrom length new starts position (children.flatMap RunChild.visible) ∧
      ∀ run, (rebuildRun children (current++left)).1.flatMap (RunChild.items run) =
        replacedRun length new starts run position children := by
  induction children generalizing position current with
  | nil =>
    cases h
    exact ⟨rfl,rfl,fun _ => rfl⟩
  | cons child rest ih =>
    -- an element that is no text stands where it stood
    have hoth : ∀ current', child.marks=[] ∧ child.visible=[] ∨ child.marks=[.gap child.visible] →
        rebuildRun (child::rest) current'=(child::(rebuildRun rest current').1,(rebuildRun rest current').2) →
        (∀ run, child.replaced length new starts run position=child.items run) →
        Fits length new starts position ((child::rest).flatMap RunChild.marks) current → current'=current++left →
        (rebuildRun (child::rest) current').2=left ∧
          (rebuildRun (child::rest) current').1.flatMap RunChild.visible =
            replacedFrom length new starts position ((child::rest).flatMap RunChild.visible) ∧
          ∀ run, (rebuildRun (child::rest) current').1.flatMap (RunChild.items run) =
            replacedRun length new starts run position (child::rest) := by
      intro current' hmar hreb hrep hfit hcur
      obtain ⟨hres,hher⟩ : Fits length new starts (position+child.visible.length) (rest.flatMap RunChild.marks) current ∧
          replacedFrom length new starts position child.visible=child.visible := by
        rw [flatMap_cons] at hfit
        rcases hmar with ⟨hnon,hemp⟩ | hgap
        · rw [hnon] at hfit
          rw [hemp]
          exact ⟨hfit,rfl⟩
        · rw [hgap] at hfit
          cases hfit with
          | gap hgap hres => exact ⟨hres,hgap⟩
      obtain ⟨hlef,hvis,hite⟩ := ih hres
      rw [hreb,hcur]
      refine ⟨hlef,?_,fun run => ?_⟩
      · rw [flatMap_cons,flatMap_cons,replacedFrom_append,hher,hvis]
      · rw [flatMap_cons,hite]
        show _=child.replaced length new starts run position++_
        rw [hrep]
    cases child with
    | text node =>
      rw [flatMap_cons] at h
      cases h with
      | @text _ _ slot _ current hslo hres =>
        obtain ⟨hlef,hvis,hite⟩ := ih hres
        have hreb : rebuildRun (.text node::rest) ((slot::current)++left) =
            (.text slot.node::(slot.behind++(rebuildRun rest (current++left)).1),(rebuildRun rest (current++left)).2) :=
          rfl
        rw [hreb]
        refine ⟨hlef,?_,fun run => ?_⟩
        · rw [flatMap_cons,flatMap_append,flatMap_cons,replacedFrom_append,hvis,← append_assoc]
          exact congrArg (· ++ _) hslo.text
        · rw [flatMap_cons,flatMap_append,hite,← append_assoc]
          exact congrArg (· ++ _) (hslo.items run)
    | tab => exact hoth _ (Or.inr rfl) rfl (fun _ => rfl) h rfl
    | lineBreak => exact hoth _ (Or.inr rfl) rfl (fun _ => rfl) h rfl
    | properties markup => exact hoth _ (Or.inl ⟨rfl,rfl⟩) rfl (fun _ => rfl) h rfl
    | other element => exact hoth _ (Or.inr rfl) rfl (fun _ => rfl) h rfl

theorem rebuild_fits {position : ℕ} {para : Paragraph}
    (h : Fits length new starts position (Paragraph.marks para) current) :
    Paragraph.text (rebuild para current)=replacedFrom length new starts position (Paragraph.text para) ∧
      ∀ n, Paragraph.items n (rebuild para current)=Paragraph.replaced length new starts n position para := by
  induction para generalizing position current with
  | nil => exact ⟨rfl,fun _ => rfl⟩
  | cons child rest ih =>
    have hmar : Paragraph.marks (child::rest)=child.marks++Paragraph.marks rest := flatMap_cons
    have htex : Paragraph.text (child::rest)=child.visible++Paragraph.text rest := flatMap_cons
    rw [hmar] at h
    obtain ⟨before,after,rfl,hbef,haft⟩ := h.split
    rw [Child.visible_marks] at haft
    obtain ⟨hvis,hite⟩ := ih haft
    rw [htex,replacedFrom_append]
    cases child with
    | run children =>
      obtain ⟨hlef,hrunVisible,hrunItems⟩ := rebuildRun_fits hbef after
      have hreb : rebuild (.run children::rest) (before++after) =
          .run (rebuildRun children (before++after)).1::rebuild rest (rebuildRun children (before++after)).2 := rfl
      rw [hreb,hlef]
      refine ⟨?_,fun n => ?_⟩
      · show (rebuildRun children (before++after)).1.flatMap RunChild.visible++Paragraph.text (rebuild rest after)=_
        rw [hrunVisible,hvis]
        rfl
      · show Item.opened::((rebuildRun children (before++after)).1.flatMap (RunChild.items n) ++
          Paragraph.items (n+1) (rebuild rest after))=_
        rw [hrunItems,hite]
        rfl
    | properties markup =>
      cases hbef
      refine ⟨hvis,fun n => ?_⟩
      exact congrArg (Item.outside (.properties markup) :: ·) (hite n)
    | other element =>
      cases hbef with
      | gap hgap hres =>
        cases hres
        refine ⟨?_,fun n => ?_⟩
        · show element.visible++Paragraph.text (rebuild rest after)=_
          rw [hvis,show (Child.other element).visible=element.visible from rfl,hgap]
        · exact congrArg (Item.outside (.other element) :: ·) (hite n)

end Fits

section Place
variable {length : ℕ} {new : List Char}

/- Within a segment, the occurrences of the whole text are those of the segment. -/
structure Agrees (length : ℕ) (starts : List ℕ) (position size : ℕ) (own : List ℕ) : Prop where
  mem : ∀ start ∈ own, position+start ∈ starts
  only : ∀ start ∈ starts, start+length≤position ∨ position+size ≤ start ∨ ∃ t ∈ own, start=position+t

section
variable {starts own : List ℕ} {position size i : ℕ} (h : Agrees length starts position size own)
include h

theorem Agrees.mem_iff
    (hlen : 0<length) (hi : i<size) : position+i ∈ starts ↔ i ∈ own := by
  constructor
  · intro hmem
    rcases h.only _ hmem with hbef | hafter | ⟨t,ht,heq⟩
    · omega
    · omega
    · obtain rfl : i=t := by omega
      exact ht
  · exact h.mem i

theorem Agrees.covered_iff (hi : i<size) :
    (∃ start ∈ starts, start≤position+i ∧ position+i<start+length) ↔ ∃ start ∈ own, start ≤ i ∧ i<start+length := by
  constructor
  · rintro ⟨start,hmem,hle,hlt⟩
    rcases h.only _ hmem with hbef | hafter | ⟨t,ht,rfl⟩
    · omega
    · omega
    · exact ⟨t,ht,by omega,by omega⟩
  · rintro ⟨start,hmem,hle,hlt⟩
    exact ⟨position+start,h.mem start hmem,by omega,by omega⟩

end

theorem Agrees.touching_iff {starts own : List ℕ} {position size low high : ℕ} (h : Agrees length starts position size own)
    (hhig : high ≤ size) :
    touching length (position+low) (position+high) starts=[] ↔ touching length low high own=[] := by
  unfold touching
  rw [filter_eq_nil_iff,filter_eq_nil_iff]
  simp only [Bool.and_eq_true,decide_eq_true_eq]
  constructor
  · intro hnon start hmem hin
    exact hnon (position+start) (h.mem start hmem) (by omega)
  · intro hnon start hmem hin
    rcases h.only _ hmem with hbef | hafter | ⟨t,ht,rfl⟩
    · omega
    · omega
    · exact hnon t ht (by omega)

theorem behind_items {behind : List RunChild} (h : Behind behind) (run : ℕ) :
    behind.flatMap (RunChild.items run)=(behindText behind).map (letter run) := by
  induction behind with
  | nil => rfl
  | cons child rest ih =>
    have hres:=ih fun child hmem => h child (mem_cons_of_mem _ hmem)
    rw [flatMap_cons,hres]
    show _=(child.visible++behindText rest).map (letter run)
    rw [map_append]
    congr 1
    rcases h child mem_cons_self with rfl | rfl | ⟨node,rfl,hpla⟩
    · rfl
    · rfl
    · refine map_congr_left fun c hc => ?_
      obtain ⟨htab,hlin,-⟩ := hpla c hc
      unfold letter
      rw [if_neg htab,if_neg hlin]

theorem slotFits_of_progress {starts own : List ℕ} {position size low : ℕ} {node : XmlText} (hlen : 0<length)
    (h : Agrees length starts position size own) (hsiz : low+node.chars.length ≤ size)
    (hpro : Progress length new own low node slot) :
    SlotFits length (normalized new) starts (position+low) node slot := by
  have hrep : replacedFrom length (normalized new) starts (position+low) node.chars =
      replacedFrom length (normalized new) own low node.chars := by
    refine replacedFrom_congr (fun i hi => ?_) (fun i hi => ?_)
    · rw [Nat.add_assoc]
      exact h.mem_iff hlen (by omega)
    · rw [Nat.add_assoc]
      exact h.covered_iff (by omega)
  refine ⟨hpro.text.trans hrep.symm,fun run => ?_⟩
  show slot.node.chars.map (.char run)++slot.behind.flatMap (RunChild.items run) =
    (replacedFrom length (normalized new) starts (position+low) node.chars).map
      (if touching length (position+low) (position+low+node.chars.length) starts=[] then Item.char run else letter run)
  rw [hrep,← hpro.text]
  by_cases hnon : touching length low (low+node.chars.length) own=[]
  · have hnon' : touching length (position+low) (position+low+node.chars.length) starts=[] := by
      rw [Nat.add_assoc]
      exact (h.touching_iff hsiz).2 hnon
    rw [if_pos hnon',(hpro.untouched hnon).2,map_append]
    rfl
  · have hsom : touching length (position+low) (position+low+node.chars.length) starts≠[] := by
      rw [Nat.add_assoc]
      exact fun hemp => hnon ((h.touching_iff hsiz).1 hemp)
    obtain ⟨hpla,hbeh⟩ := hpro.edited hnon
    rw [if_neg hsom,map_append,behind_items hbeh]
    congr 1
    refine map_congr_left fun c hc => ?_
    obtain ⟨htab,hlin,-⟩ := hpla c hc
    unfold letter
    rw [if_neg htab,if_neg hlin]

theorem fits_of_progress {starts own : List ℕ} {position size low : ℕ} {nodes : List XmlText} {edited : List Slot}
    (hleh : 0<length) (h : Agrees length starts position size own) (hsiz : low+(segmentText nodes).length ≤ size)
    (hpro : List.Forall₂ (Progressed length new own) (slots low nodes) edited) :
    Fits length (normalized new) starts (position+low) (nodes.map Mark.text) edited := by
  induction nodes generalizing low edited with
  | nil =>
    cases hpro
    exact .nil _
  | cons node rest ih =>
    have hlen : (segmentText (node::rest)).length=node.chars.length+(segmentText rest).length := by
      rw [← length_append]
      rfl
    rw [hlen] at hsiz
    cases hpro with
    | cons hslo hres =>
      refine .text (slotFits_of_progress hleh h (by omega) hslo) ?_
      rw [Nat.add_assoc]
      exact ih (by omega) hres

end Place

theorem marks_layout (marks : List Mark) :
    marks=(layout marks).1.map Mark.text++(layout marks).2.flatMap fun other => .gap other.1::other.2.map Mark.text := by
  induction marks with
  | nil => rfl
  | cons mark rest ih =>
    cases mark with
    | text node =>
      conv_lhs => rw [ih]
      rfl
    | gap visible =>
      conv_lhs => rw [ih]
      rfl

theorem slots_filter (all : List (List XmlText)) : (all.filter (!·.isEmpty)).flatMap (slots 0)=all.flatMap (slots 0) := by
  induction all with
  | nil => rfl
  | cons nodes rest ih =>
    cases nodes with
    | nil => exact ih
    | cons node more =>
      rw [filter_cons_of_pos (by simp),flatMap_cons,flatMap_cons,ih]

theorem editSegments_filter {pattern : Pattern} (hnon : pattern []=[]) (replacement : List Char → List Char)
    (all : List (List XmlText)) :
    editSegments pattern replacement (all.filter (!·.isEmpty))=editSegments pattern replacement all := by
  induction all with
  | nil => rfl
  | cons nodes rest ih =>
    cases nodes with
    | nil =>
      have hemp : editMatches replacement (segmentText []) (pattern (segmentText [])).reverse (slots 0 [])=.ok [] := by
        show editMatches replacement [] (pattern []).reverse []=_
        rw [hnon]
        rfl
      rw [filter_cons_of_neg (by simp),ih]
      conv_rhs => unfold editSegments
      rw [hemp]
      dsimp only
      cases editSegments pattern replacement rest with
      | ok more => rfl
      | error more => rfl
    | cons node more =>
      rw [filter_cons_of_pos (by simp)]
      unfold editSegments
      rw [ih]
      split
      · congr 1
        rw [slots_filter]
      · rfl

section Segments
variable {old new : List Char} (hold : old≠[]) {starts : List ℕ} (hnew : starts≠[] → ∀ c ∈ new, xmlChar c=true)
include hold hnew

theorem editMatches_segment {position : ℕ}
    (hmem : ∀ start ∈ occurrences old (segmentText nodes), position+start ∈ starts)
    (hcle : ∀ slot ∈ slots 0 nodes, Clean old.length new slot.start slot.node.chars
      (touching old.length slot.start slot.stop (occurrences old (segmentText nodes)))) :
    ∃ edited, editMatches (fun _ => new) (segmentText nodes) (literal old (segmentText nodes)).reverse (slots 0 nodes)=.ok edited ∧
      List.Forall₂ (Progressed old.length new (occurrences old (segmentText nodes))) (slots 0 nodes) edited := by
  refine editMatches_ok (length_pos_iff.2 hold) (fun hsom => hnew ?_) (occurrencesFrom_pairwise hold) _ nodes hcle
  obtain ⟨start,hsta⟩ := exists_mem_of_ne_nil _ hsom
  exact ne_nil_of_mem (hmem start hsta)

/-- Segment by segment, all text nodes become what the paragraph asks for. -/
theorem editSegments_fits {position : ℕ} {first : List XmlText} {others : List (List Char × List XmlText)}
    (hwit : ∀ start ∈ occurrences old (layoutText first others),
      Within old.length (places position first others) (position+start))
    (hcle : ∀ place ∈ places position first others, ∀ slot ∈ slots 0 place.2, Clean old.length new slot.start slot.node.chars
      (touching old.length slot.start slot.stop (occurrences old (segmentText place.2))))
    (hmem : ∀ start ∈ occurrences old (layoutText first others), position+start ∈ starts)
    (honl : ∀ start ∈ starts, start+old.length≤position ∨
      ∃ t ∈ occurrences old (layoutText first others), start=position+t) :
    ∃ edited, editSegments (literal old) (fun _ => new) (first::others.map Prod.snd)=.ok edited ∧
      Fits old.length (normalized new) starts position
        (first.map Mark.text++others.flatMap fun other => .gap other.1::other.2.map Mark.text) edited := by
  have hlen:=length_pos_iff.2 hold
  induction others generalizing position first with
  | nil =>
    have htex : layoutText first []=segmentText first := append_nil _
    rw [htex] at hwit hmem honl
    obtain ⟨edited,hedi,hpro⟩ := editMatches_segment hold hnew hmem (hcle (position,first) mem_cons_self)
    have hagr : Agrees old.length starts position (segmentText first).length (occurrences old (segmentText first)) :=
      ⟨hmem,fun start hsta => (honl start hsta).imp id Or.inr⟩
    refine ⟨edited++[],?_,?_⟩
    · show editSegments (literal old) (fun _ => new) [first]=_
      unfold editSegments
      rw [hedi]
      rfl
    · have hfit:=@fits_of_progress _ new _ _ _ _ 0 _ _ hlen hagr (Nat.le_of_eq (Nat.zero_add _)) hpro
      rw [append_nil]
      rwa [show first.map Mark.text++([] : List (List Char × List XmlText)).flatMap
        (fun other => .gap other.1::other.2.map Mark.text)=first.map Mark.text from append_nil _]
  | cons other rest ih =>
    obtain ⟨visible,next⟩ := other
    have hspl:=occurrences_split hold hwit
    rw [hspl] at hmem honl
    have hown : ∀ start ∈ occurrences old (segmentText first), position+start ∈ starts :=
      fun start hsta => hmem start (mem_append_left _ hsta)
    have hbou : ∀ start ∈ occurrences old (segmentText first), start+old.length≤(segmentText first).length := by
      intro start hsta
      have := (occurrencesFrom_bounds hold hsta).2
      omega
    -- an occurrence is one of this segment, or comes after the gap
    have hcas : ∀ start ∈ starts, start+old.length≤position ∨
        (∃ t ∈ occurrences old (segmentText first), start=position+t) ∨
        ∃ t ∈ occurrences old (layoutText next rest), start=position+(segmentText first).length+visible.length+t := by
      intro start hsta
      rcases honl start hsta with hbef | ⟨t,ht,rfl⟩
      · exact Or.inl hbef
      · rcases mem_append.1 ht with ht | ht
        · exact Or.inr (Or.inl ⟨t,ht,rfl⟩)
        · obtain ⟨u,hu,rfl⟩ := mem_map.1 ht
          exact Or.inr (Or.inr ⟨u,hu,by omega⟩)
    obtain ⟨edited,hedi,hpro⟩ := editMatches_segment hold hnew hown (hcle (position,first) mem_cons_self)
    have hagr : Agrees old.length starts position (segmentText first).length (occurrences old (segmentText first)) := by
      refine ⟨hown,fun start hsta => ?_⟩
      rcases hcas start hsta with hbef | howned | ⟨t,-,rfl⟩
      · exact Or.inl hbef
      · exact Or.inr (Or.inr howned)
      · exact Or.inr (Or.inl (by omega))
    obtain ⟨more,hmor,hfit⟩ := @ih (position+(segmentText first).length+visible.length) next
      (fun start hsta => within_rest hold hwit hsta)
      (fun place hpla => hcle place (mem_cons_of_mem _ hpla))
      (fun start hsta => by
        have := hmem ((segmentText first).length+visible.length+start)
          (mem_append_right _ (mem_map.2 ⟨start,hsta,rfl⟩))
        rwa [show position+((segmentText first).length+visible.length+start) =
          position+(segmentText first).length+visible.length+start by omega] at this)
      (fun start hsta => by
        rcases hcas start hsta with hbef | ⟨t,ht,rfl⟩ | hlater
        · exact Or.inl (by omega)
        · have := hbou t ht
          exact Or.inl (by omega)
        · exact Or.inr hlater)
    refine ⟨edited++more,?_,?_⟩
    · rw [map_cons]
      unfold editSegments
      rw [hedi]
      dsimp only
      rw [hmor]
    · have hfir:=@fits_of_progress _ new _ _ _ _ 0 _ _ hlen hagr (Nat.le_of_eq (Nat.zero_add _)) hpro
      have hwid : ((first.map Mark.text).flatMap Mark.visible).length=(segmentText first).length := by
        rw [flatMap_map]
        rfl
      refine hfir.append ?_
      rw [hwid]
      refine .gap (replacedFrom_outside hlen fun start hsta => ?_) hfit
      rcases hcas start hsta with hbef | ⟨t,ht,rfl⟩ | ⟨t,-,rfl⟩
      · exact Or.inl (by omega)
      · have := hbou t ht
        exact Or.inl (by omega)
      · dsimp only
        exact Or.inr (by omega)

end Segments

theorem pieces_normalized (text : List Char) : (pieces (normalized text)).1=leading text := by
  induction text with
  | nil => rfl
  | cons c rest ih =>
    by_cases hret : c = '\r'
    · -- a carriage return becomes a line feed, which ends the first piece
      subst hret
      have hlin : ∃ more, normalized ('\r' :: rest) = '\n' :: more := by
        unfold normalized
        split
        · exact ⟨_,rfl⟩
        · exact ⟨_,rfl⟩
        next h hcr heq => exact absurd (List.cons.inj heq).1.symm hcr
        next heq => cases heq
      obtain ⟨more,hmor⟩ := hlin
      rw [hmor]
      rfl
    · rw [normalized_cons hret]
      by_cases hsep : c = '\t' ∨ c = '\n'
      · rcases hsep with rfl | rfl
        · rfl
        · rfl
      · obtain ⟨htab,hlin⟩ := not_or.1 hsep
        rw [pieces_cons htab hlin,ih]
        unfold leading
        rw [takeWhile_cons_of_pos (by simp [ordinary,htab,hlin,hret])]

theorem mem_leading_append {left : List Char} {c : Char} (h : c ∈ leading left) (right : List Char) :
    c ∈ leading (left++right) := by
  induction left with
  | nil => cases h
  | cons d rest ih =>
    unfold leading at h ih ⊢
    rw [cons_append]
    by_cases hd : ordinary d=true
    · rw [takeWhile_cons_of_pos hd] at h ⊢
      rcases mem_cons.1 h with rfl | hrest
      · exact mem_cons_self
      · exact mem_cons_of_mem _ (ih hrest)
    · rw [takeWhile_cons_of_neg hd] at h
      cases h

section Refused
variable {old new : List Char} (hold : old≠[])
include hold

/-- The first node that a match touches is not given a text that is no XML. -/
theorem editSlots_refused {start position : ℕ} (hali : Aligned position current) (hpos : position ≤ start)
    (hslo : current.find? (fun slot => decide (start<slot.stop))=some slot) {c : Char}
    (hc : c ∈ leading (slot.node.chars.take (start - slot.start)++new)) (hinv : xmlChar c=false) :
    editSlots start (start+old.length) new true current=.error current := by
  have hlen:=length_pos_iff.2 hold
  induction current generalizing position with
  | nil => cases hslo
  | cons other rest ih =>
    obtain ⟨hsta,hle,hres⟩ := hali
    unfold editSlots
    by_cases hher : start<other.stop
    · rw [find?_cons_of_pos (by simpa using hher)] at hslo
      obtain rfl : other=slot := Option.some.inj hslo
      rw [if_neg (by omega)]
      dsimp only
      have hass : other.assign (other.node.chars.take (max other.start start - other.start)++(if true=true then new else []) ++
          other.node.chars.drop (min other.stop (start+old.length) - other.start))=.error other := by
        unfold Slot.assign
        dsimp only
        have hnon : XmlText.ofChars? (pieces (normalized (other.node.chars.take (max other.start start - other.start) ++
            (if true=true then new else []) ++
              other.node.chars.drop (min other.stop (start+old.length) - other.start)))).1=none := by
          rw [pieces_normalized]
          refine dif_neg fun hval => ?_
          have hmem:=mem_leading_append hc (other.node.chars.drop (min other.stop (start+old.length) - other.start))
          rw [show start - other.start=max other.start start - other.start by omega] at hmem
          rw [hval c hmem] at hinv
          cases hinv
        rw [hnon]
      rw [hass]
    · rw [find?_cons_of_neg (by simpa using hher)] at hslo
      rw [if_pos (by omega),ih hres (by omega) hslo]

theorem editSegments_refused {all : List (List XmlText)} {before : List Char} (hbef : beforeFirstEdit old all=some before)
    {c : Char} (hc : c ∈ leading (before++new)) (hinv : xmlChar c=false) :
    editSegments (literal old) (fun _ => new) all=.error (all.flatMap (slots 0)) := by
  induction all with
  | nil => cases hbef
  | cons nodes rest ih =>
    unfold beforeFirstEdit at hbef
    unfold editSegments
    split at hbef
    next hnon =>
      have hemp : occurrences old (segmentText nodes)=[] := getLast?_eq_none_iff.1 hnon
      have hedi : editMatches (fun _ => new) (segmentText nodes) (literal old (segmentText nodes)).reverse (slots 0 nodes) =
          .ok (slots 0 nodes) := by
        unfold literal
        rw [hemp]
        rfl
      rw [hedi,ih hbef]
      rfl
    next start hlas =>
      obtain ⟨slot,hslo,rfl⟩ := Option.map_eq_some_iff.1 hbef
      obtain ⟨earlier,hear⟩ := getLast?_eq_some_iff.1 hlas
      have hedi : editMatches (fun _ => new) (segmentText nodes) (literal old (segmentText nodes)).reverse (slots 0 nodes) =
          .error (slots 0 nodes) := by
        unfold literal
        rw [hear,map_append,reverse_append]
        show editMatches (fun _ => new) (segmentText nodes) ((start,start+old.length)::_) (slots 0 nodes)=_
        unfold editMatches
        rw [editSlots_refused hold (aligned_slots 0 nodes) (Nat.zero_le _) hslo hc hinv]
      rw [hedi]
      rfl

end Refused

def Untouched (node : XmlText) (slot : Slot) : Prop := slot.node=node ∧ slot.behind=[]

def Mark.node? : Mark → Option XmlText
  | text node => some node
  | gap _ => none

theorem rebuildRun_untouched (children : List RunChild) {rest : List XmlText}
    (h : List.Forall₂ Untouched ((children.flatMap RunChild.marks).filterMap Mark.node? ++ rest) current) :
    (rebuildRun children current).1=children ∧ List.Forall₂ Untouched rest (rebuildRun children current).2 := by
  induction children generalizing current with
  | nil => exact ⟨rfl,h⟩
  | cons child more ih =>
    rw [flatMap_cons,filterMap_append] at h
    cases child with
    | text node =>
      cases h with
      | @cons _ slot _ current hslo hres =>
        obtain ⟨hchi,hlef⟩ := ih hres
        have hreb : rebuildRun (.text node::more) (slot::current) =
            (.text slot.node::(slot.behind++(rebuildRun more current).1),(rebuildRun more current).2) := rfl
        rw [hreb,hslo.1,hslo.2,hchi]
        exact ⟨rfl,hlef⟩
    | tab =>
      obtain ⟨hchi,hlef⟩ := ih h
      exact ⟨congrArg (RunChild.tab :: ·) hchi,hlef⟩
    | lineBreak =>
      obtain ⟨hchi,hlef⟩ := ih h
      exact ⟨congrArg (RunChild.lineBreak :: ·) hchi,hlef⟩
    | properties markup =>
      obtain ⟨hchi,hlef⟩ := ih h
      exact ⟨congrArg (RunChild.properties markup :: ·) hchi,hlef⟩
    | other element =>
      obtain ⟨hchi,hlef⟩ := ih h
      exact ⟨congrArg (RunChild.other element :: ·) hchi,hlef⟩

theorem rebuild_untouched (para : Paragraph)
    (h : List.Forall₂ Untouched ((Paragraph.marks para).filterMap Mark.node?) current) :
    rebuild para current=para := by
  induction para generalizing current with
  | nil => rfl
  | cons child rest ih =>
    rw [show Paragraph.marks (child::rest)=child.marks++Paragraph.marks rest from flatMap_cons,
      filterMap_append] at h
    cases child with
    | run children =>
      obtain ⟨hchi,hlef⟩ := rebuildRun_untouched children h
      show Child.run (rebuildRun children current).1::rebuild rest (rebuildRun children current).2=_
      rw [hchi,ih hlef]
    | properties markup => exact congrArg (Child.properties markup :: ·) (ih h)
    | other element => exact congrArg (Child.other element :: ·) (ih h)

theorem untouched_slots (position : ℕ) (nodes : List XmlText) : List.Forall₂ Untouched nodes (slots position nodes) := by
  induction nodes generalizing position with
  | nil => exact .nil
  | cons node rest ih => exact .cons ⟨rfl,rfl⟩ (ih _)

theorem untouched_segments (all : List (List XmlText)) : List.Forall₂ Untouched all.flatten (all.flatMap (slots 0)) := by
  induction all with
  | nil => exact .nil
  | cons nodes rest ih =>
    rw [flatten_cons,flatMap_cons]
    exact rel_append (untouched_slots 0 nodes) ih

theorem nodes_layout (marks : List Mark) :
    marks.filterMap Mark.node? = ((layout marks).1::(layout marks).2.map Prod.snd).flatten := by
  induction marks with
  | nil => rfl
  | cons mark rest ih =>
    cases mark with
    | text node =>
      show node::rest.filterMap Mark.node? = _
      rw [ih]
      rfl
    | gap visible => exact ih

theorem rebuild_slots (para : Paragraph) : rebuild para ((segments para).flatMap (slots 0))=para := by
  refine rebuild_untouched para ?_
  rw [segments_layout,slots_filter,nodes_layout]
  exact untouched_segments _

/-- A replacement does what it should wherever it raises, is refused at its first piece, or finds every occurrence in one
segment and every node as its edits need it. -/
theorem replacesExactly_of_sound {para : Paragraph} {old new : List Char} (hold : old≠[]) (h : Sound para old new) :
    ReplacesExactly para old new := by
  have hlen : ∀ text, (literal old text).length=(occurrences old text).length := fun text => length_map _
  unfold ReplacesExactly replaceInParagraph
  rw [if_neg hold]
  unfold replaceMatchesInParagraph
  simp only [hlen]
  by_cases hcou : ((segments para).map fun nodes => (occurrences old (segmentText nodes)).length).sum =
      (occurrences old (Paragraph.text para)).length
  swap
  · rw [if_pos hcou]
  rw [if_neg (not_not.2 hcou)]
  rcases h with hrai | ⟨before,hbef,c,hc,hinv⟩ | ⟨⟨hwit,hcle⟩,hnew⟩
  · exact absurd hcou hrai
  · rw [editSegments_refused hold hbef hc hinv]
    exact rebuild_slots para
  · have htex : Paragraph.text para=layoutText (layout (Paragraph.marks para)).1 (layout (Paragraph.marks para)).2 := by
      rw [← visible_layout,Paragraph.visible_marks]
    obtain ⟨edited,hedi,hfit⟩ := @editSegments_fits old new hold (occurrences old (Paragraph.text para))
      (fun hsom => hnew.resolve_right hsom) 0 (layout (Paragraph.marks para)).1 (layout (Paragraph.marks para)).2
      (fun start hsta => by
        rw [← htex] at hsta
        rw [Nat.zero_add]
        exact hwit start hsta)
      hcle
      (fun start hsta => by
        rw [Nat.zero_add,htex]
        exact hsta)
      (fun start hsta => by
        rw [htex] at hsta
        exact Or.inr ⟨start,hsta,(Nat.zero_add start).symm⟩)
    rw [← marks_layout] at hfit
    have hnon : literal old []=[] := rfl
    rw [segments_layout,editSegments_filter hnon,hedi]
    obtain ⟨hvis,hite⟩ := rebuild_fits hfit
    refine ⟨?_,hvis,hite 0⟩
    rw [← hcou,segments_layout]

instance decidableClean (length : ℕ) (new : List Char) (position : ℕ) (text : List Char) :
    ∀ starts, Decidable (Clean length new position text starts)
  | [] => .isTrue trivial
  | [_] => inferInstanceAs (Decidable (_ ∧ _ ∧ (_ → _ → _)))
  | _::next::later =>
    have := decidableClean length new position text (next::later)
    inferInstanceAs (Decidable (_ ∧ _))

instance (length : ℕ) (segments : List (ℕ × List XmlText)) (start : ℕ) : Decidable (Within length segments start) :=
  inferInstanceAs (Decidable (∃ _ ∈ _, _))

instance (para : Paragraph) (old new : List Char) : Decidable (Replaceable para old new) :=
  inferInstanceAs (Decidable ((∀ _ ∈ _, _) ∧ ∀ _ ∈ _, ∀ _ ∈ _, _))

instance (para : Paragraph) (old new : List Char) : Decidable (ReplacesExactly para old new) :=
  match hres : replaceInParagraph para old new with
  | (after,.error _) => decidable_of_iff (after=para) (by unfold ReplacesExactly; rw [hres])
  | (after,.ok count) => decidable_of_iff (count=(occurrences old para.text).length ∧
      after.text=replacedFrom old.length (normalized new) (occurrences old para.text) 0 para.text ∧
      after.items 0=para.replaced old.length (normalized new) (occurrences old para.text) 0 0)
    (by unfold ReplacesExactly; rw [hres])

def textNode (text : String) (valid : ∀ c ∈ text.toList, xmlChar c=true) : RunChild := .text ⟨text.toList,valid⟩

def bookmark : Child := .other ⟨"w:bookmarkStart",[]⟩

/-- A match across a bookmark that one within a text node makes up for in the count; two matches in a node behind a tab; a
carriage return elsewhere in the node; a control character behind a tab of the replacement. -/
theorem replacements_gone_wrong :
    ¬ ReplacesExactly [.run [textNode "a" (by decide)],bookmark,.run [textNode "aa" (by decide)]] "aa".toList "X".toList ∧
    ¬ ReplacesExactly [.run [textNode "\tfoo and foo" (by decide)]] "foo".toList "X".toList ∧
    ¬ ReplacesExactly [.run [textNode "foo\rbar" (by decide)]] "foo".toList "X".toList ∧
    ¬ ReplacesExactly [.run [textNode "foo" (by decide)]] "foo".toList ['X','\t',Char.ofNat 1] := by
  decide

/-- A match over two runs and one in the second of them. -/
def greeting : Paragraph :=
  [.properties "w:pStyle",.run [.properties "w:b",textNode "hel" (by decide)],.run [textNode "lo and hello" (by decide)]]

theorem replacesExactly_greeting : ReplacesExactly greeting "hello".toList "x\ty".toList := by
  have hrep : Replaceable greeting "hello".toList "x\ty".toList := by decide
  have hval : ∀ c ∈ "x\ty".toList, xmlChar c=true := by decide
  exact replacesExactly_of_sound (by decide) (Or.inr (Or.inr ⟨hrep,Or.inl hval⟩))

end Qubicl.Skills.Docx
