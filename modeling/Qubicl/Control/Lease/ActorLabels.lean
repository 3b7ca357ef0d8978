import Qubicl.Control.Lease.Manager
import Qubicl.Foundation.Number
import Qubicl.Foundation.Text
import Qubicl.Foundation.Words

/-!
# Labels of lease actors (packages/control/src/server.ts:297-314)
-/

namespace Qubicl.Control
open Qubicl.Foundation List

def isControl (c : Char) : Bool := c.val≤0x1f || c.val == 0x7f

def displayLabel (value fallback : String) : String :=
  let spaced:=value.toList.map fun c => if isControl c then ' ' else c
  let normalized:=Number.trim (collapseFrom Number.isSpace ' ' false spaced)
  if normalized=[] then fallback else String.ofList (normalized.take 120)

/-- The client has a name and a version. -/
def mcpLeaseActor (client : Option (String × String)) (userAgent : Option String) (label : String) : LeaseActor :=
  let fallback:=userAgent.getD "MCP client"
  let protocolClient:=displayLabel (client.elim fallback fun c => c.1++" "++c.2) "MCP client"
  ⟨.mcp,displayLabel (label++"; "++protocolClient) "MCP client"⟩

def openApiLeaseActor (userAgent : Option String) (label : String) : LeaseActor :=
  ⟨.openapi,displayLabel (label++"; "++userAgent.getD "OpenAPI client") "OpenAPI client"⟩

def isBreak (c : Char) : Bool := isControl c || Number.isSpace c

/-- The words between control characters and white space, with single blanks between them. -/
def spoken (text : List Char) : List Char :=
  [' '].intercalate (wordsBy isBreak text)

/-- The characters that are shown, those with two code units counted twice, are not more than 120. -/
def Fits (text : List Char) : Prop :=
  ((spoken text).take 120).length+((spoken text).take 120).countP (fun c => 0x10000≤c.val)≤120

variable {protocol : LeaseActorProtocol}

section
variable {value label : String} {text cs : List Char} {ws : List (List Char)} {c : Char} {n : ℕ}

theorem wordsBy_congr {p q : Char → Bool} (h : ∀ c ∈ cs, p c=q c) : wordsBy p cs=wordsBy q cs := by
  have hpie : cs.splitOnP p=cs.splitOnP q := by
    induction cs with
    | nil => rfl
    | cons c cs ih =>
      rw [splitOnP_cons_eq_if_modifyHead,splitOnP_cons_eq_if_modifyHead,h c mem_cons_self,
        ih fun d hd => h d (mem_cons_of_mem c hd)]
  unfold wordsBy
  rw [hpie]

theorem normalized_eq : Number.trim (collapseFrom Number.isSpace ' ' false
    (text.map fun c => if isControl c then ' ' else c))=spoken text := by
  have htri : ∀ cs, Number.trim cs=Cookies.trimBy Number.isSpace cs := fun _ => rfl
  rw [htri,trimBy_collapseFrom (by decide)]
  unfold spoken
  congr 1
  have hspa : ∀ c ∈ text.map (fun c => if isControl c then ' ' else c),
      Number.isSpace c=isBreak c := by
    intro c hc
    obtain ⟨d,-,rfl⟩ := mem_map.1 hc
    cases hd : isControl d with
    | true => rfl
    | false => simp [isBreak,hd]
  rw [wordsBy_congr hspa]
  refine wordsBy_map (fun c => ?_) []
  cases hc : isControl c with
  | true => exact Or.inr ⟨by simp [isBreak,hc],rfl⟩
  | false => exact Or.inl (by simp)

theorem displayLabel_eq (value fallback : String) :
    displayLabel value fallback=if spoken value.toList=[] then fallback else String.ofList ((spoken value.toList).take 120) := by
  unfold displayLabel
  dsimp only
  rw [normalized_eq]

theorem of_mem_wordsBy {p : Char → Bool} {w : List Char} (h : w ∈ wordsBy p cs) : w≠[] ∧ ∀ c ∈ w, p c=false := by
  refine ⟨ne_nil_of_mem_wordsBy h,?_⟩
  have hpiece : w ∈ cs.splitOnP p := mem_of_mem_filter h
  clear h
  induction cs generalizing w with
  | nil =>
    rw [splitOnP_nil,mem_singleton] at hpiece
    simp [hpiece]
  | cons d cs ih =>
    rw [splitOnP_cons_eq_if_modifyHead] at hpiece
    cases hd : p d with
    | true =>
      rw [if_pos hd,mem_cons] at hpiece
      rcases hpiece with rfl | hpiece
      · simp
      · exact ih hpiece
    | false =>
      rw [if_neg (by simp [hd])] at hpiece
      cases hpie : cs.splitOnP p with
      | nil => exact absurd hpie (splitOnP_ne_nil p cs)
      | cons first others =>
        rw [hpie,modifyHead_cons,mem_cons] at hpiece
        rw [hpie] at ih
        rcases hpiece with rfl | hpiece
        · intro c hc
          rcases mem_cons.1 hc with rfl | hc
          · exact hd
          · exact ih mem_cons_self c hc
        · exact ih (mem_cons_of_mem first hpiece)

theorem mem_intercalate_blank (h : c ∈ [' '].intercalate ws) : c = ' ' ∨ ∃ w ∈ ws, c ∈ w := by
  induction ws with
  | nil => simp at h
  | cons w ws ih =>
    by_cases hnil : ws=[]
    · rw [hnil,intercalate_singleton] at h
      exact Or.inr ⟨w,mem_cons_self,h⟩
    · rw [intercalate_cons_of_ne_nil hnil] at h
      simp only [mem_append,mem_singleton] at h
      rcases h with (hw | hblank) | hrest
      · exact Or.inr ⟨w,mem_cons_self,hw⟩
      · exact Or.inl hblank
      · rcases ih hrest with hblank | ⟨v,hv,hc⟩
        · exact Or.inl hblank
        · exact Or.inr ⟨v,mem_cons_of_mem w hv,hc⟩

theorem isControl_spoken (h : c ∈ spoken text) : isControl c=false := by
  rcases mem_intercalate_blank h with rfl | ⟨w,hw,hc⟩
  · rfl
  · have hnot:=(of_mem_wordsBy hw).2 c hc
    simp only [isBreak,Bool.or_eq_false_iff] at hnot
    exact hnot.1

theorem utf16Length_ofList : utf16Length (String.ofList cs)=cs.length+cs.countP (fun c => 0x10000≤c.val) := by
  unfold utf16Length
  rw [String.toList_ofList]
  induction cs with
  | nil => rfl
  | cons c cs ih =>
    rw [map_cons,sum_cons,ih,length_cons,countP_cons]
    by_cases hc : c.val<0x10000
    · have hlow : ¬ (0x10000≤c.val) := UInt32.not_le.2 hc
      simp [hc,hlow]
      omega
    · have hhig : 0x10000≤c.val := UInt32.not_lt.1 hc
      simp [hc,hhig]
      omega

theorem accepted_iff (hne : spoken text≠[]) :
    (∃ actor, validateLeaseActor ⟨protocol,String.ofList ((spoken text).take 120)⟩=.ok actor) ↔ Fits text := by
  have hcon : ((spoken text).take 120).any (fun c => c.val≤0x1f || c.val == 0x7f)=false := by
    rw [any_eq_false]
    intro c hc
    have hpla : isControl c=false := isControl_spoken (mem_of_mem_take hc)
    unfold isControl at hpla
    simpa using hpla
  have hlen : 1≤((spoken text).take 120).length := by
    have hpos:=length_pos_iff.2 hne
    rw [length_take]
    omega
  unfold validateLeaseActor Fits
  dsimp only
  rw [utf16Length_ofList,String.toList_ofList,hcon]
  constructor
  · intro hacc
    obtain ⟨actor,hact⟩ := hacc
    by_contra hlong
    rw [if_pos (Or.inr (Or.inl (by omega)))] at hact
    cases hact
  · intro hfit
    rw [if_neg]
    · exact ⟨_,rfl⟩
    · intro hbad
      rcases hbad with hemp | hlong | hany
      · omega
      · omega
      · cases hany

theorem intercalate_append {left right : List (List Char)} (hlef : left≠[]) (hrig : right≠[]) :
    [' '].intercalate (left++right)=[' '].intercalate left ++ ' ' :: [' '].intercalate right := by
  induction left with
  | nil => exact absurd rfl hlef
  | cons w left ih =>
    by_cases hnil : left=[]
    · rw [hnil,singleton_append,intercalate_cons_of_ne_nil hrig,intercalate_singleton]
      simp
    · rw [cons_append,intercalate_cons_of_ne_nil (by simp [hnil]),ih hnil,intercalate_cons_of_ne_nil hnil]
      simp

/-- What is shown behind the credential's label follows at least one character and a blank. -/
theorem spoken_labelled (front : List Char) :
    ∃ label, 1≤label.length ∧ ∀ text, spoken text≠[] → spoken (front ++ ';' :: ' ' :: text)=label ++ ' ' :: spoken text := by
  have hlab : wordsBy isBreak (front++[';'])≠[] :=
    wordsBy_ne_nil_of_mem (c := ';') (by simp) rfl
  refine ⟨spoken (front++[';']),length_pos_iff.2 fun h => hlab (intercalate_wordsBy_eq_nil.1 h),fun text hne => ?_⟩
  have htex : wordsBy isBreak text≠[] :=
    fun hnil => hne (intercalate_wordsBy_eq_nil.2 hnil)
  have hwor : wordsBy isBreak ((front++[';']) ++ ' ' :: text)=wordsBy isBreak (front++[';'])++wordsBy isBreak text :=
    wordsBy_append rfl _
  unfold spoken
  rw [← intercalate_append hlab htex,← hwor]
  simp

theorem spoken_word {w : List Char} (hne : w≠[]) (hw : ∀ c ∈ w, isBreak c=false) : spoken w=w := by
  unfold spoken
  rw [wordsBy_word hw hne,intercalate_singleton]

/-- A text cut after `n + 1` characters reads like the text up to `n`. -/
theorem spoken_take (hws : ∀ w ∈ ws, w≠[] ∧ ∀ c ∈ w, isBreak c=false) (n : ℕ) :
    (spoken (([' '].intercalate ws).take (n+1))).take n=([' '].intercalate ws).take n := by
  induction ws generalizing n with
  | nil =>
    rw [intercalate_nil,take_nil,take_nil]
    exact take_nil
  | cons w ws ih =>
    obtain ⟨hne,hw⟩ := hws w mem_cons_self
    have hcut : (spoken (w.take (n+1))).take n=w.take n := by
      have htak : w.take (n+1)≠[] := by simp [hne]
      rw [spoken_word htak fun c hc => hw c (mem_of_mem_take hc),take_take]
      congr 1
      omega
    by_cases hnil : ws=[]
    · rw [hnil,intercalate_singleton]
      exact hcut
    · rw [intercalate_cons_of_ne_nil hnil,← append_cons]
      rcases Nat.lt_or_ge n w.length with hsho | hlong
      · rw [take_append_of_le_length (by omega),take_append_of_le_length (by omega)]
        exact hcut
      · obtain ⟨m,rfl⟩ := Nat.exists_eq_add_of_le hlong
        have htak : (w ++ ' ' :: [' '].intercalate ws).take (w.length+m+1)=w ++ ' ' :: ([' '].intercalate ws).take m := by
          rw [Nat.add_assoc,take_length_add_append,take_succ_cons]
        have hwor : wordsBy isBreak (w ++ ' ' :: ([' '].intercalate ws).take m) =
            wordsBy isBreak w++wordsBy isBreak (([' '].intercalate ws).take m) := wordsBy_append rfl w
        rw [htak]
        unfold spoken
        rw [hwor,wordsBy_word hw hne]
        cases m with
        | zero => simp [wordsBy_nil]
        | succ m =>
          have hres:=ih (fun v hv => hws v (mem_cons_of_mem w hv)) m
          obtain ⟨v,vs,rfl⟩ := exists_cons_of_ne_nil hnil
          have hsta : wordsBy isBreak
              (([' '].intercalate (v::vs)).take (m+1))≠[] := by
            have hv:=hws v (by simp)
            obtain ⟨c,cs,rfl⟩ := exists_cons_of_ne_nil hv.1
            rw [intercalate_cons_cons_left,take_succ_cons]
            exact wordsBy_ne_nil (hv.2 c mem_cons_self)
          rw [singleton_append,intercalate_cons_of_ne_nil hsta,← append_cons,take_length_add_append,
            take_length_add_append,take_succ_cons,take_succ_cons]
          exact congrArg (fun rest => w ++ ' ' :: rest) hres

/-- The cut of the inner label is not seen behind the credential's label. -/
theorem spoken_displayLabel (front : List Char) (value fallback : String) (hval : spoken value.toList≠[]) :
    (spoken (front ++ ';' :: ' ' :: (displayLabel value fallback).toList)).take 120=
      (spoken (front ++ ';' :: ' ' :: value.toList)).take 120 := by
  obtain ⟨label,hlab,hspo⟩ := spoken_labelled front
  have hcut : (spoken ((spoken value.toList).take 120)).take 119=(spoken value.toList).take 119 :=
    spoken_take (fun w hw => of_mem_wordsBy hw) 119
  rw [displayLabel_eq,if_neg hval,String.toList_ofList,hspo _ hval,hspo]
  · rw [take_append,take_append]
    cases hroo : 120-label.length with
    | zero => rfl
    | succ k =>
      have hk : k≤119 := by omega
      have hsam:=congrArg (List.take k) hcut
      rw [take_take,take_take,Nat.min_eq_left hk] at hsam
      rw [take_succ_cons,take_succ_cons,hsam]
  · intro hnil
    rw [hnil,take_nil] at hcut
    have hemp : spoken value.toList=[] := by simpa using hcut.symm
    exact hval hemp

/-- The text that an MCP client is shown by: what it calls itself, else its user agent. -/
def clientText (client : Option (String × String)) (userAgent : Option String) : List Char :=
  let called:=(client.elim (userAgent.getD "MCP client") fun c => c.1++" "++c.2).toList
  if spoken called=[] then "MCP client".toList else called

theorem accepted_label (front rest : List Char) (label fallback : String) (hlab : label.toList=front ++ ';' :: rest) :
    (∃ actor, validateLeaseActor ⟨protocol,displayLabel label fallback⟩=.ok actor) ↔ Fits label.toList := by
  have hne : spoken label.toList≠[] := by
    intro hnil
    refine wordsBy_ne_nil_of_mem (p := isBreak) (c := ';') ?_ rfl
      (intercalate_wordsBy_eq_nil.1 hnil)
    simp [hlab]
  rw [displayLabel_eq,if_neg hne]
  exact accepted_iff hne

theorem mcp_accepted_iff (client : Option (String × String)) (userAgent : Option String) (label : String) :
    (∃ actor, validateLeaseActor (mcpLeaseActor client userAgent label)=.ok actor) ↔
      Fits (label.toList ++ ';' :: ' ' :: clientText client userAgent) := by
  unfold mcpLeaseActor clientText
  dsimp only
  rw [accepted_label label.toList _ _ _ (by simp; rfl)]
  split
  next hnil =>
    rw [displayLabel_eq,if_pos hnil]
    simp
  next hne =>
    have hsam:=spoken_displayLabel label.toList _ "MCP client" hne
    unfold Fits
    rw [← hsam]
    simp

end

end Qubicl.Control
