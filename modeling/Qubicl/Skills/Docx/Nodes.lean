import Qubicl.Skills.Docx.Paragraph

/-!
# What the edits make of one text node

The matches of a segment are replaced from the last to the first, each at the place it had in the text before the first edit.
-/

namespace Qubicl.Skills.Docx
open Foundation List

/- What `re.split` separates at, or what `replace` turns into it. -/
def Plain (chars : List Char) : Prop := ∀ c ∈ chars, c ≠ '\t' ∧ c ≠ '\n' ∧ c ≠ '\r'

variable {chars left text : List Char}

theorem Plain.no_return (h : Plain chars) : '\r' ∉ chars := fun hmem => (h _ hmem).2.2 rfl

theorem normalized_cons {c : Char} (hc : c ≠ '\r') (rest : List Char) : normalized (c::rest)=c::normalized rest :=
  normalized.eq_3 c rest (fun _ h => absurd h hc) hc

theorem normalized_append (hlef : '\r' ∉ left) (right : List Char) :
    normalized (left++right)=left++normalized right := by
  induction left with
  | nil => rfl
  | cons c rest ih =>
    rw [cons_append,normalized_cons (Ne.symm (ne_of_not_mem_cons hlef)),ih (not_mem_of_not_mem_cons hlef),
      cons_append]

theorem normalized_eq_self (h : '\r' ∉ chars) : normalized chars=chars := by
  have happ:=normalized_append h []
  rwa [append_nil,show normalized []=[] from rfl,append_nil] at happ

theorem return_not_mem_normalized (chars : List Char) : '\r' ∉ normalized chars := by
  induction chars using normalized.induct with
  | case1 rest ih =>
    unfold normalized
    exact not_mem_cons_of_ne_of_not_mem (by decide) ih
  | case2 rest hres ih =>
    rw [normalized.eq_2 rest hres]
    exact not_mem_cons_of_ne_of_not_mem (by decide) ih
  | case3 c rest h₁ h₂ ih =>
    rw [normalized.eq_3 c rest h₁ h₂]
    exact not_mem_cons_of_ne_of_not_mem (fun heq => h₂ heq.symm) ih
  | case4 =>
    unfold normalized
    exact not_mem_nil

theorem normalized_append_right {right : List Char} (hrig : '\r' ∉ right)
    (h : left.getLast? = some '\r' → right.head? ≠ some '\n') : normalized (left++right)=normalized left++right := by
  induction left using normalized.induct with
  | case1 rest ih =>
    have hmor:=ih (by
      intro hlas
      refine h ?_
      cases rest with
      | nil => cases hlas
      | cons c rest => simpa [getLast?_cons_cons] using hlas)
    rw [cons_append,cons_append,normalized.eq_1,hmor,normalized.eq_1,cons_append]
  | case2 rest hres ih =>
    have hmor:=ih (by
      intro hlas
      refine h ?_
      cases rest with
      | nil => cases hlas
      | cons c rest => simpa [getLast?_cons_cons] using hlas)
    have hnex : ∀ more, rest++right = '\n' :: more → False := by
      intro more heq
      cases rest with
      | nil => exact h rfl (by rw [nil_append] at heq; rw [heq]; rfl)
      | cons c rest => exact hres rest (by rw [(List.cons.inj heq).1])
    rw [cons_append,normalized.eq_2 _ hnex,normalized.eq_2 rest hres,hmor,cons_append]
  | case3 c rest h₁ h₂ ih =>
    have hmor:=ih (by
      intro hlas
      refine h ?_
      cases rest with
      | nil => cases hlas
      | cons c rest => simpa [getLast?_cons_cons] using hlas)
    rw [cons_append,normalized_cons h₂,hmor,normalized_cons h₂,cons_append]
  | case4 =>
    rw [nil_append,normalized_eq_self hrig]
    rfl

theorem xmlChar_normalized (h : ∀ c ∈ chars, xmlChar c=true) : ∀ c ∈ normalized chars, xmlChar c=true := by
  induction chars using normalized.induct with
  | case1 rest ih =>
    rw [normalized.eq_1]
    intro c hc
    rcases mem_cons.1 hc with rfl | hc
    · decide
    · exact ih (fun c hc => h c (mem_cons_of_mem _ (mem_cons_of_mem _ hc))) c hc
  | case2 rest hres ih =>
    rw [normalized.eq_2 rest hres]
    intro c hc
    rcases mem_cons.1 hc with rfl | hc
    · decide
    · exact ih (fun c hc => h c (mem_cons_of_mem _ hc)) c hc
  | case3 d rest h₁ h₂ ih =>
    rw [normalized.eq_3 d rest h₁ h₂]
    intro c hc
    rcases mem_cons.1 hc with rfl | hc
    · exact h _ mem_cons_self
    · exact ih (fun c hc => h c (mem_cons_of_mem _ hc)) c hc
  | case4 =>
    rw [normalized.eq_4]
    exact fun c hc => by cases hc

def joined (others : List (Char × List Char)) : List Char := others.flatMap fun piece => piece.1::piece.2

theorem pieces_joined (text : List Char) : (pieces text).1++joined (pieces text).2=text := by
  induction text with
  | nil => rfl
  | cons c rest ih =>
    unfold pieces
    dsimp only
    split
    · show []++c::((pieces rest).1++joined (pieces rest).2)=_
      rw [ih,nil_append]
    · show c::((pieces rest).1++joined (pieces rest).2)=_
      rw [ih]

theorem pieces_cons {c : Char} (htab : c ≠ '\t') (hlin : c ≠ '\n') (rest : List Char) :
    pieces (c::rest)=(c::(pieces rest).1,(pieces rest).2) := by
  conv_lhs => unfold pieces
  exact if_neg (not_or.2 ⟨htab,hlin⟩)

theorem pieces_append (hlef : Plain left) (right : List Char) :
    pieces (left++right)=(left++(pieces right).1,(pieces right).2) := by
  induction left with
  | nil => rfl
  | cons c rest ih =>
    obtain ⟨htab,hlin,-⟩ := hlef c mem_cons_self
    rw [cons_append,pieces_cons htab hlin,ih fun d hd => hlef d (mem_cons_of_mem _ hd),cons_append]

/- No piece has a separator in it, and nothing else stands between two of them. -/
theorem pieces_plain (h : '\r' ∉ text) :
    Plain (pieces text).1 ∧ ∀ piece ∈ (pieces text).2, (piece.1 = '\t' ∨ piece.1 = '\n') ∧ Plain piece.2 := by
  induction text with
  | nil =>
    constructor
    · intro c hc
      cases hc
    · intro piece hpie
      cases hpie
  | cons c rest ih =>
    have hc : '\r' ≠ c := ne_of_not_mem_cons h
    obtain ⟨hfir,hoth⟩ := ih (not_mem_of_not_mem_cons h)
    unfold pieces
    dsimp only
    split
    next hsep =>
      refine ⟨fun d hd => (by cases hd),fun piece hpie => ?_⟩
      rcases mem_cons.1 hpie with rfl | hold
      · exact ⟨hsep,hfir⟩
      · exact hoth piece hold
    next hsep =>
      refine ⟨fun d hd => ?_,hoth⟩
      rcases mem_cons.1 hd with rfl | hold
      · exact ⟨fun heq => hsep (Or.inl heq),fun heq => hsep (Or.inr heq),Ne.symm hc⟩
      · exact hfir d hold

def behindText (behind : List RunChild) : List Char := behind.flatMap RunChild.visible

def Behind (behind : List RunChild) : Prop :=
  ∀ child ∈ behind, child=.tab ∨ child=.lineBreak ∨ ∃ node, child=.text node ∧ Plain node.chars

theorem ofChars?_valid (h : ∀ c ∈ chars, xmlChar c=true) :
    XmlText.ofChars? chars=some ⟨chars,h⟩ := dif_pos h

theorem visible_separator {c : Char} (h : c = '\t' ∨ c = '\n') : (separator c).visible=[c] := by
  rcases h with rfl | rfl
  · rfl
  · rfl

theorem elements_ok {others : List (Char × List Char)} (hval : ∀ c ∈ joined others, xmlChar c=true)
    (hpla : ∀ piece ∈ others, (piece.1 = '\t' ∨ piece.1 = '\n') ∧ Plain piece.2) :
    ∃ more, elements others=.ok more ∧ behindText more=joined others ∧ Behind more := by
  induction others with
  | nil => exact ⟨[],rfl,rfl,fun child hchild => by cases hchild⟩
  | cons piece rest ih =>
    obtain ⟨c,text⟩ := piece
    obtain ⟨hc,htex⟩ := hpla (c,text) mem_cons_self
    have hjoi : joined ((c,text)::rest)=c::(text++joined rest) := rfl
    rw [hjoi] at hval
    have hher : ∀ d ∈ text, xmlChar d=true :=
      fun d hd => hval d (mem_cons_of_mem _ (mem_append_left _ hd))
    obtain ⟨more,hmor,hvis,hbeh⟩ := ih
      (fun d hd => hval d (mem_cons_of_mem _ (mem_append_right _ hd)))
      (fun piece hpie => hpla piece (mem_cons_of_mem _ hpie))
    refine ⟨separator c::.text ⟨text,hher⟩::more,?_,?_,?_⟩
    · unfold elements
      rw [ofChars?_valid hher]
      dsimp only
      rw [hmor]
    · show (separator c).visible++(text++behindText more)=_
      rw [visible_separator hc,hvis,hjoi]
      rfl
    · intro child hchild
      rcases mem_cons.1 hchild with rfl | hchild
      · unfold separator
        split
        · exact Or.inl rfl
        · exact Or.inr (Or.inl rfl)
      rcases mem_cons.1 hchild with rfl | hchild
      · exact Or.inr (Or.inr ⟨_,rfl,htex⟩)
      · exact hbeh child hchild

/-- An assignment of XML text succeeds, and the text is that of the node and of what is behind it. -/
theorem assign_ok (slot : Slot) (hval : ∀ c ∈ text, xmlChar c=true) :
    ∃ slot' more, slot.assign text=.ok slot' ∧ slot'.start=slot.start ∧ slot'.stop=slot.stop ∧
      slot'.node.chars=(pieces (normalized text)).1 ∧ slot'.behind=more++slot.behind ∧
      slot'.node.chars++behindText more=normalized text ∧ Plain slot'.node.chars ∧ Behind more := by
  have hret:=return_not_mem_normalized text
  obtain ⟨hfir,hoth⟩ := pieces_plain hret
  have hjoi:=pieces_joined (normalized text)
  have hall:=xmlChar_normalized hval
  rw [← hjoi] at hall
  have hnod : ∀ c ∈ (pieces (normalized text)).1, xmlChar c=true := fun c hc => hall c (mem_append_left _ hc)
  obtain ⟨more,hmor,hvis,hbeh⟩ := elements_ok (fun c hc => hall c (mem_append_right _ hc)) hoth
  refine ⟨{ slot with node := ⟨_,hnod⟩, behind := more++slot.behind },more,?_,rfl,rfl,rfl,rfl,?_,hfir,hbeh⟩
  · unfold Slot.assign
    dsimp only
    rw [ofChars?_valid hnod]
    dsimp only
    rw [hmor]
  · show (pieces (normalized text)).1++behindText more=_
    rw [hvis,hjoi]

instance (chars : List Char) : Decidable (Plain chars) := List.decidableBAll _ chars

def touching (length position stop : ℕ) (starts : List ℕ) : List ℕ :=
  starts.filter fun start => decide (start<stop) && decide (position<start+length)

/-- No tab and no line end of the node comes before the end of a match that is followed by another one, no carriage return of
it is left, and the last match makes no line end with what follows it. -/
def Clean (length : ℕ) (new : List Char) (position : ℕ) (text : List Char) : List ℕ → Prop
  | [] => True
  | [start] => '\r' ∉ text.take (start - position) ∧ '\r' ∉ text.drop (start+length - position) ∧
      (position ≤ start → new.getLast? = some '\r' → (text.drop (start+length - position)).head? ≠ some '\n')
  | start::next::later => Plain (text.take (start+length - position)) ∧ Clean length new position text (next::later)

def Edit (length start : ℕ) (new : List Char) (slot slot' : Slot) : Prop :=
  if slot.stop ≤ start ∨ start+length ≤ slot.start then slot'=slot
  else slot.assign (slot.node.chars.take (start - slot.start)++(if slot.start ≤ start then new else []) ++
    slot.node.chars.drop (min slot.stop (start+length) - slot.start))=.ok slot'

/-- A node after the later matches have been replaced. -/
structure Progress (length : ℕ) (new : List Char) (later : List ℕ) (position : ℕ) (node : XmlText) (slot : Slot) : Prop where
  start : slot.start=position
  stop : slot.stop=position+node.chars.length
  untouched : touching length position (position+node.chars.length) later=[] → slot.node=node ∧ slot.behind=[]
  text : slot.node.chars++behindText slot.behind=replacedFrom length (normalized new) later position node.chars
  edited : touching length position (position+node.chars.length) later≠[] → Plain slot.node.chars ∧ Behind slot.behind
  kept : ∀ count, (∀ start ∈ touching length position (position+node.chars.length) later, position+count ≤ start) →
    Plain (node.chars.take count) → node.chars.take count <+: slot.node.chars

theorem progress_nil (length : ℕ) (new : List Char) (position : ℕ) (node : XmlText) :
    Progress length new [] position node ⟨node,position,position+node.chars.length,[]⟩ where
  start := rfl
  stop := rfl
  untouched _ := ⟨rfl,rfl⟩
  text := by
    show node.chars++[]=_
    rw [append_nil]
    have hout : replacedFrom length (normalized new) [] position node.chars=node.chars := by
      generalize node.chars=text
      induction text generalizing position with
      | nil => rfl
      | cons a rest ih =>
        show replacedAt length (normalized new) [] position a++_=_
        rw [ih]
        simp [replacedAt]
    exact hout.symm
  edited h := absurd rfl h
  kept count _ _ := take_prefix _ _

section Step
variable {length start position : ℕ} {new : List Char} {later : List ℕ} {node : XmlText} {slot slot' : Slot}

theorem touching_cons (h : start<position+node.chars.length ∧ position<start+length) :
    touching length position (position+node.chars.length) (start::later) =
      start::touching length position (position+node.chars.length) later := by
  unfold touching
  rw [filter_cons_of_pos (by simp [h.1,h.2])]

theorem touching_cons_untouched (h : ¬ (start<position+node.chars.length ∧ position<start+length)) :
    touching length position (position+node.chars.length) (start::later) =
      touching length position (position+node.chars.length) later := by
  unfold touching
  rw [filter_cons_of_neg (by simpa using h)]

theorem normalized_if (c : Prop) [Decidable c] : normalized (if c then new else [])=if c then normalized new else [] := by
  split
  · rfl
  · rfl

/-- One more match: what is before it stands in the node still, what is behind it has been edited. -/
theorem Progress.step (hlen : 0<length) (hlat : ∀ t ∈ later, start+length≤t)
    (hnew : ∀ c ∈ new, xmlChar c=true)
    (hcle : Clean length new position node.chars (touching length position (position+node.chars.length) (start::later)))
    (h : Progress length new later position node slot) (hedi : Edit length start new slot slot') :
    Progress length new (start::later) position node slot' := by
  unfold Edit at hedi
  rw [h.start,h.stop] at hedi
  by_cases htou : start<position+node.chars.length ∧ position<start+length
  swap
  · rw [if_pos (by omega)] at hedi
    subst hedi
    have htog:=@touching_cons_untouched _ _ _ later _ htou
    refine ⟨h.start,h.stop,fun hnon => h.untouched (htog ▸ hnon),?_,fun hsom => h.edited (htog ▸ hsom),
      fun count hcou => h.kept count (htog ▸ hcou)⟩
    rw [h.text,replacedFrom_untouched hlen (by omega)]
  rw [if_neg (by omega)] at hedi
  rw [touching_cons htou] at hcle
  -- what the assigned text is, after the line ends: the text before the match, the replacement, and what was behind it
  obtain ⟨rest,hnor,hres⟩ : ∃ rest, normalized (slot.node.chars.take (start - position) ++
        (if position ≤ start then new else []) ++
          slot.node.chars.drop (min (position+node.chars.length) (start+length) - position)) =
      node.chars.take (start - position)++((if position ≤ start then normalized new else [])++rest) ∧
      rest++behindText slot.behind =
        replacedFrom length (normalized new) later (start+length) (node.chars.drop (start+length - position)) := by
    by_cases hnon : touching length position (position+node.chars.length) later=[]
    · obtain ⟨hnod,hbeh⟩ := h.untouched hnon
      rw [hnon] at hcle
      obtain ⟨hbef,haft,hjon⟩ := hcle
      refine ⟨node.chars.drop (start+length - position),?_,?_⟩
      · have hdro : node.chars.drop (min (position+node.chars.length) (start+length) - position) =
            node.chars.drop (start+length - position) := by
          by_cases hfit : start+length≤position+node.chars.length
          · rw [Nat.min_eq_right hfit]
          · rw [Nat.min_eq_left (by omega),drop_eq_nil_of_le (by omega),drop_eq_nil_of_le (by omega)]
        rw [hnod,hdro,append_assoc,normalized_append hbef,← normalized_if]
        rw [normalized_append_right haft]
        intro hlas
        split at hlas
        next hle => exact hjon hle hlas
        · cases hlas
      · rw [hbeh]
        show node.chars.drop (start+length - position)++[]=_
        rw [append_nil]
        refine (replacedFrom_outside hlen fun t ht => Or.inr ?_).symm
        have hafterStart:=hlat t ht
        have hnot : ¬ (t<position+node.chars.length ∧ position<t+length) := by
          intro hin
          have hmem : t ∈ touching length position (position+node.chars.length) later :=
            mem_filter.2 ⟨ht,by simp [hin.1,hin.2]⟩
          rw [hnon] at hmem
          cases hmem
        rw [length_drop]
        omega
    · obtain ⟨next,others,hnex⟩ := exists_cons_of_ne_nil hnon
      rw [hnex] at hcle
      have hpla : Plain (node.chars.take (start+length - position)) := hcle.1
      obtain ⟨tail,htai⟩ := h.kept (start+length - position) (by
        intro t ht
        have := hlat t (mem_of_mem_filter ht)
        omega) hpla
      have hfit : start+length<position+node.chars.length := by
        have hmem : next ∈ touching length position (position+node.chars.length) later := by
          rw [hnex]
          exact mem_cons_self
        obtain ⟨hin,hlt⟩ := mem_filter.1 hmem
        have := hlat next hin
        have hlt' : next<position+node.chars.length := of_decide_eq_true (Bool.and_eq_true_iff.1 hlt).1
        omega
      have hcou : (node.chars.take (start+length - position)).length=start+length - position := by
        rw [length_take]
        omega
      have hplainTail : Plain tail := by
        intro c hc
        refine (h.edited hnon).1 c ?_
        rw [← htai]
        exact mem_append_right _ hc
      refine ⟨tail,?_,?_⟩
      · have htak : slot.node.chars.take (start - position)=node.chars.take (start - position) := by
          rw [← htai,take_append_of_le_length (by rw [hcou]; omega),take_take]
          congr 1
          omega
        have hdro : slot.node.chars.drop (min (position+node.chars.length) (start+length) - position)=tail := by
          rw [Nat.min_eq_right (by omega),← htai]
          exact drop_left' hcou
        have hbef : '\r' ∉ node.chars.take (start - position) := by
          intro hmem
          refine hpla.no_return (take_subset_take_left _ ?_ hmem)
          omega
        rw [htak,hdro,append_assoc,normalized_append hbef,← normalized_if]
        rw [normalized_append_right hplainTail.no_return]
        intro _ hhea
        exact (hplainTail '\n' (mem_of_mem_head? hhea)).2.1 rfl
      · have htex:=h.text
        rw [replacedFrom_later hlat hlen htou.2,← htai,append_assoc] at htex
        exact append_cancel_left htex
  have hval : ∀ c ∈ slot.node.chars.take (start - position)++(if position ≤ start then new else []) ++
      slot.node.chars.drop (min (position+node.chars.length) (start+length) - position), xmlChar c=true := by
    intro c hc
    rcases mem_append.1 hc with hc | hc
    · rcases mem_append.1 hc with hc | hc
      · exact slot.node.valid c (mem_of_mem_take hc)
      · split at hc
        · exact hnew c hc
        · cases hc
    · exact slot.node.valid c (mem_of_mem_drop hc)
  obtain ⟨slot'',more,hass,hsta,hsto,hfir,hbeh,hjoi,hpla,hmor⟩ := assign_ok slot hval
  obtain rfl : slot''=slot' := Except.ok.inj (hass.symm.trans hedi)
  rw [hnor] at hfir hjoi
  refine ⟨hsta.trans h.start,hsto.trans h.stop,fun hnon => ?_,?_,fun _ => ⟨hpla,?_⟩,fun count hcou hplainCount => ?_⟩
  · rw [touching_cons htou] at hnon
    cases hnon
  · rw [hbeh,replacedFrom_cons hlat hlen htou.1 htou.2,← hres]
    show _++(more++slot.behind).flatMap RunChild.visible=_
    rw [flatMap_append,← append_assoc]
    show slot''.node.chars++behindText more++behindText slot.behind=_
    rw [hjoi]
    simp only [append_assoc]
  · rw [hbeh]
    intro child hchild
    rcases mem_append.1 hchild with hchild | hchild
    · exact hmor child hchild
    · by_cases hnon : touching length position (position+node.chars.length) later=[]
      · rw [(h.untouched hnon).2] at hchild
        cases hchild
      · exact (h.edited hnon).2 child hchild
  · have hle : count ≤ start - position := by
      have := hcou start (by rw [touching_cons htou]; exact mem_cons_self)
      omega
    have hspl : node.chars.take (start - position) =
        node.chars.take count++(node.chars.take (start - position)).drop count := by
      conv_lhs => rw [← take_append_drop count (node.chars.take (start - position))]
      rw [take_take,Nat.min_eq_left hle]
    rw [hfir,hspl,append_assoc,pieces_append hplainCount]
    exact prefix_append _ _

end Step

end Qubicl.Skills.Docx
