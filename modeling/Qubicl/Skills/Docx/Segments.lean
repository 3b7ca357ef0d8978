import Qubicl.Skills.Docx.Nodes

/-!
# The segments of a paragraph in its flattened text

The text of a paragraph is that of its segments, with what other elements show between them. Where no occurrence leaves the
segment in which it starts, the occurrences of the text are those of the segments.
-/

namespace Qubicl.Skills.Docx
open Foundation List

inductive Mark
  | text (node : XmlText)
  | gap (visible : List Char)

def Mark.visible : Mark → List Char
  | text node => node.chars
  | gap visible => visible

def RunChild.marks : RunChild → List Mark
  | text node => [.text node]
  | properties _ => []
  | child => [.gap child.visible]

def Child.marks : Child → List Mark
  | properties _ => []
  | run children => children.flatMap RunChild.marks
  | other element => [.gap element.visible]

def Paragraph.marks (para : Paragraph) : List Mark := para.flatMap Child.marks

theorem RunChild.visible_marks (child : RunChild) : child.marks.flatMap Mark.visible=child.visible := by
  cases child with
  | properties markup => rfl
  | text node => exact append_nil _
  | tab => rfl
  | lineBreak => rfl
  | other element => exact append_nil _

theorem Child.visible_marks (child : Child) : child.marks.flatMap Mark.visible=child.visible := by
  cases child with
  | properties markup => rfl
  | other element => exact append_nil _
  | run children =>
    show (children.flatMap RunChild.marks).flatMap Mark.visible=children.flatMap RunChild.visible
    rw [flatMap_assoc]
    simp only [RunChild.visible_marks]

theorem Paragraph.visible_marks (para : Paragraph) : (Paragraph.marks para).flatMap Mark.visible=Paragraph.text para := by
  unfold Paragraph.marks Paragraph.text
  rw [flatMap_assoc]
  simp only [Child.visible_marks]

def layout : List Mark → List XmlText × List (List Char × List XmlText)
  | [] => ([],[])
  | .text node::rest => (node::(layout rest).1,(layout rest).2)
  | .gap visible::rest => ([],(visible,(layout rest).1)::(layout rest).2)

def Segments.mark (s : Segments) : Mark → Segments
  | .text node => { s with current := s.current++[node] }
  | .gap _ => s.boundary

theorem foldl_node (s : Segments) (child : RunChild) : s.node child=child.marks.foldl Segments.mark s := by
  cases child with
  | properties markup => rfl
  | text node => rfl
  | tab => rfl
  | lineBreak => rfl
  | other element => rfl

theorem foldl_child (s : Segments) (child : Child) : s.child child=child.marks.foldl Segments.mark s := by
  cases child with
  | properties markup => rfl
  | other element => rfl
  | run children =>
    show children.foldl Segments.node s=(children.flatMap RunChild.marks).foldl Segments.mark s
    rw [foldl_flatMap]
    exact congrArg (fun f => children.foldl f s) (funext fun s => funext (foldl_node s))

theorem foldl_layout (marks : List Mark) (s : Segments) :
    (marks.foldl Segments.mark s).boundary.segments =
      s.segments++((s.current++(layout marks).1)::(layout marks).2.map Prod.snd).filter (!·.isEmpty) := by
  have hbou : ∀ s : Segments, s.boundary.segments=s.segments++[s.current].filter (!·.isEmpty) := by
    intro s
    unfold Segments.boundary
    cases hcur : s.current with
    | nil => simp
    | cons node rest => simp
  induction marks generalizing s with
  | nil =>
    show s.boundary.segments=_
    rw [hbou]
    show _=s.segments++[s.current++[]].filter (!·.isEmpty)
    rw [append_nil]
  | cons mark rest ih =>
    rw [foldl_cons,ih]
    cases mark with
    | text node =>
      show s.segments++(((s.current++[node])++(layout rest).1)::_).filter _=_
      rw [append_assoc]
      rfl
    | gap visible =>
      show s.boundary.segments++((s.boundary.current++(layout rest).1)::(layout rest).2.map Prod.snd).filter _=_
      have hcur : s.boundary.current=[] := by
        unfold Segments.boundary
        split
        next hemp => exact List.isEmpty_iff.1 hemp
        · rfl
      rw [hbou,hcur,append_assoc,← filter_append]
      show _=s.segments++((s.current++[])::(layout rest).1::(layout rest).2.map Prod.snd).filter _
      rw [append_nil]
      rfl

theorem segments_layout (para : Paragraph) :
    segments para=((layout (Paragraph.marks para)).1::(layout (Paragraph.marks para)).2.map Prod.snd).filter (!·.isEmpty) := by
  unfold segments Paragraph.marks
  rw [show Segments.child=fun s child => (Child.marks child).foldl Segments.mark s from
    funext fun s => funext (foldl_child s),← foldl_flatMap,foldl_layout]
  rfl

def layoutText (first : List XmlText) (others : List (List Char × List XmlText)) : List Char :=
  segmentText first++others.flatMap fun other => other.1++segmentText other.2

theorem visible_layout (marks : List Mark) : marks.flatMap Mark.visible=layoutText (layout marks).1 (layout marks).2 := by
  induction marks with
  | nil => rfl
  | cons mark rest ih =>
    rw [flatMap_cons,ih]
    cases mark with
    | text node => exact (append_assoc _ _ _).symm
    | gap visible =>
      show visible++(segmentText _++_)=[]++((visible++segmentText _)++_)
      rw [append_assoc]
      rfl

/-- Where each segment begins in the flattened text. -/
def places : ℕ → List XmlText → List (List Char × List XmlText) → List (ℕ × List XmlText)
  | position, first, [] => [(position,first)]
  | position, first, (visible,next)::others =>
    (position,first)::places (position+(segmentText first).length+visible.length) next others

def paragraphPlaces (para : Paragraph) : List (ℕ × List XmlText) :=
  places 0 (layout (Paragraph.marks para)).1 (layout (Paragraph.marks para)).2

/-- The occurrence lies in one segment. -/
def Within (length : ℕ) (segments : List (ℕ × List XmlText)) (start : ℕ) : Prop :=
  ∃ place ∈ segments, place.1 ≤ start ∧ start+length≤place.1+(segmentText place.2).length

theorem le_of_mem_places {position : ℕ} {first : List XmlText} {others : List (List Char × List XmlText)}
    {place : ℕ × List XmlText} (h : place ∈ places position first others) : position≤place.1 := by
  induction others generalizing position first with
  | nil => rw [mem_singleton.1 h]
  | cons other rest ih =>
    rcases mem_cons.1 h with rfl | hrest
    · exact Nat.le_refl _
    · have := ih hrest
      omega

section Split
variable {old : List Char} (hold : old≠[]) {position : ℕ} {first next : List XmlText} {visible : List Char}
  {others : List (List Char × List XmlText)}
  (h : ∀ start ∈ occurrences old (layoutText first ((visible,next)::others)),
    Within old.length (places position first ((visible,next)::others)) (position+start))
include hold h

omit hold in
theorem within_split {start : ℕ} (hsta : start ∈ occurrences old (layoutText first ((visible,next)::others))) :
    start+old.length≤(segmentText first).length ∨ (segmentText first).length+visible.length ≤ start := by
  obtain ⟨place,hpla,hle,hend⟩ := h start hsta
  rcases mem_cons.1 hpla with rfl | hrest
  · left
    dsimp only at hle hend
    omega
  · right
    have := le_of_mem_places hrest
    omega

theorem occurrences_split : occurrences old (layoutText first ((visible,next)::others)) =
    occurrences old (segmentText first) ++
      (occurrences old (layoutText next others)).map ((segmentText first).length+visible.length + ·) := by
  have hpos:=length_pos_iff.2 hold
  have htex : layoutText first ((visible,next)::others)=segmentText first++(visible++layoutText next others) := by
    unfold layoutText
    rw [flatMap_cons,append_assoc]
  have hspl:=fun start hsta => @within_split old position first next visible others h start hsta
  rw [htex] at hspl ⊢
  have hfir:=@occurrences_append _ _ _ hold (segmentText first) (visible++layoutText next others)
    (fun start hsta => (hspl start hsta).imp id fun hle => by omega)
  rw [hfir] at hspl
  have hres : ∀ start ∈ occurrences old (visible++layoutText next others), visible.length ≤ start := by
    intro start hsta
    have := hspl ((segmentText first).length+start)
      (mem_append_right _ (mem_map.2 ⟨start,hsta,rfl⟩))
    omega
  have hsec:=@occurrences_append _ _ _ hold visible (layoutText next others)
    (fun start hsta => Or.inr (hres start hsta))
  have hnon : occurrences old visible=[] := by
    refine eq_nil_iff_forall_not_mem.2 fun start hsta => ?_
    have hle:=hres start (by rw [hsec]; exact mem_append_left _ hsta)
    have hbou:=(occurrencesFrom_bounds hold hsta).2
    omega
  rw [hfir,hsec,hnon,nil_append,map_map]
  congr 1
  refine map_congr_left fun start _ => ?_
  exact (Nat.add_assoc _ _ _).symm

theorem within_rest {start : ℕ} (hsta : start ∈ occurrences old (layoutText next others)) :
    Within old.length (places (position+(segmentText first).length+visible.length) next others)
      (position+(segmentText first).length+visible.length+start) := by
  have hpos:=length_pos_iff.2 hold
  have hmem : (segmentText first).length+visible.length+start ∈
      occurrences old (layoutText first ((visible,next)::others)) := by
    rw [occurrences_split hold h]
    exact mem_append_right _ (mem_map.2 ⟨start,hsta,rfl⟩)
  obtain ⟨place,hpla,hle,hend⟩ := h _ hmem
  rcases mem_cons.1 hpla with rfl | hrest
  · dsimp only at hle hend
    omega
  · exact ⟨place,hrest,by omega,by omega⟩

end Split

end Qubicl.Skills.Docx
