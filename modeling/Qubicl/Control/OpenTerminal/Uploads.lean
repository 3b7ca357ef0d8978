import Qubicl.Control.OpenTerminal.Multipart
import Qubicl.Foundation.Text

/-!
# What is read from a well-formed upload

Requests as clients write them, and what the scan finds in them.
-/

namespace Qubicl.Control.OpenTerminal
open Foundation List Option

def isBlank (c : Char) : Bool := c = ' ' || c = '\t'

def isToken (c : Char) : Bool := isWord c || "!#$%&'*+-.^`|~".toList.contains c

/-- A parameter of a header with a quoted value. -/
structure Parameter where
  blanks : List Char
  key : List Char
  value : List Char
  blanks_blank : ∀ c ∈ blanks, isBlank c=true
  key_token : ∀ c ∈ key, isToken c=true
  value_plain : ∀ c ∈ value, c ≠ '"' ∧ c ≠ '\r' ∧ c ≠ '\n'

namespace Parameter

def named (key : List Char) (p : Parameter) : Bool := p.key.map Char.toLower=key

def text (p : Parameter) : List Char := ';' :: (p.blanks++p.key++['=']) ++ '"' :: (p.value++['"'])

end Parameter

/-- A part with a `Content-Disposition` header among its headers. -/
structure Part where
  before : List (List Char)
  label : List Char
  blanks : List Char
  formData : List Char
  parameters : List Parameter
  after : List (List Char)
  body : List UInt8

def parameter (key : List Char) (parameters : List Parameter) : Option (List Char) :=
  (parameters.find? (Parameter.named key)).map Parameter.value

namespace Part

def disposition (part : Part) : List Char :=
  part.label ++ ':' :: part.blanks++part.formData++part.parameters.flatMap Parameter.text

def headers (part : Part) : List (List Char) := part.before++part.disposition::part.after

def filename (part : Part) : List Char := (parameter "filename".toList part.parameters).getD []

/-- A part named `file` with a filename that is not empty. -/
def isFile (part : Part) : Bool :=
  parameter "name".toList part.parameters=some "file".toList && part.filename≠[]

end Part

def joinLines : List (List Char) → List Char
  | [] => []
  | [line] => line
  | line::lines => line ++ '\r' :: '\n' :: joinLines lines

/-- A header line that is no disposition. -/
def OtherHeader (line : List Char) : Prop :=
  line≠[] ∧ (∀ c ∈ line, isLineTerminator c=false) ∧ afterLetters "content-disposition:".toList line=none

structure Part.WellFormed (boundary : String) (part : Part) : Prop where
  others : ∀ line ∈ part.before++part.after, OtherHeader line
  label : part.label.map Char.toLower = "content-disposition".toList
  blanks : ∀ c ∈ part.blanks, isBlank c=true
  formData : part.formData.map Char.toLower = "form-data".toList
  parameters : part.parameters≠[]
  keys : (part.parameters.map fun p => p.key.map Char.toLower).Nodup
  headers : (Utf8.encodeChars (joinLines part.headers)).length≤16384
  body : ¬ partEndOf boundary <:+: part.body

/-- The text ends in the key and an equals sign, after a character that is no letter of a word. -/
def EndsIn (key text : List Char) : Prop :=
  ∃ start ending, text=start++ending ∧ ending.map Char.toLower=key++['='] ∧
    ∀ c ∈ start.getLast?, isWord c=false

/- The ending has as many characters as the key and one more. -/
theorem endsIn_iff {key text : List Char} : EndsIn key text ↔
    (text.drop (text.length - (key.length+1))).map Char.toLower=key++['='] ∧
      ∀ c ∈ (text.take (text.length - (key.length+1))).getLast?, isWord c=false := by
  constructor
  · rintro ⟨start,ending,rfl,hend,hlas⟩
    have hlen:=congrArg List.length hend
    rw [length_map,length_append,length_singleton] at hlen
    have hsta : (start++ending).length - (key.length+1)=start.length := by
      rw [length_append]
      omega
    rw [hsta,drop_left,take_left]
    exact ⟨hend,hlas⟩
  · rintro ⟨hend,hlas⟩
    exact ⟨_,_,(take_append_drop _ _).symm,hend,hlas⟩

instance (key text : List Char) : Decidable (EndsIn key text) :=
  haveI (last : Option Char) : Decidable (∀ c ∈ last, isWord c=false) := Option.decidableForallMem last
  decidable_of_iff _ endsIn_iff.symm

/-- `key="` stands at the parameter of that key only. -/
def Part.Unambiguous (part : Part) : Prop :=
  ∀ key ∈ ["name".toList,"filename".toList], ∀ p ∈ part.parameters,
    (p.named key=false → ¬ EndsIn key (p.key++['='])) ∧ ¬ EndsIn key p.value

instance (part : Part) : Decidable part.Unambiguous := by
  unfold Part.Unambiguous
  infer_instance

def encodePart (boundary : String) (part : Part) : List UInt8 :=
  delimiterOf boundary++CRLF++Utf8.encodeChars (joinLines part.headers)++CRLF++CRLF++part.body++CRLF

def encodeParts (boundary : String) (parts : List Part) (epilogue : List UInt8) : List UInt8 :=
  parts.flatMap (encodePart boundary)++delimiterOf boundary++[45,45]++epilogue

variable {pattern rest found lead segment value line : List Char} {c : Char} {parameters : List Parameter}
  {part : Part}

theorem afterLetters_append {start : List Char} (h : start.map Char.toLower=pattern) (rest : List Char) :
    afterLetters pattern (start++rest)=some rest := by
  induction start generalizing pattern with
  | nil =>
    subst h
    rfl
  | cons c start ih =>
    subst h
    rw [map_cons,cons_append,afterLetters,if_pos rfl]
    exact ih rfl

theorem afterLetters_eq_some {text : List Char} (h : afterLetters pattern text=some rest) :
    ∃ start, text=start++rest ∧ start.map Char.toLower=pattern := by
  induction pattern generalizing text with
  | nil =>
    obtain rfl := Option.some.inj h
    exact ⟨[],rfl,rfl⟩
  | cons p pattern ih =>
    cases text with
    | nil => cases h
    | cons c text =>
      rw [afterLetters] at h
      split at h
      · rename_i hc
        obtain ⟨start,rfl,hsta⟩ := ih h
        exact ⟨c::start,rfl,by rw [map_cons,hc,hsta]⟩
      · cases h

theorem toLower_eq {d : Char} (h : c.toLower=d) (hd : d.isLower=false) : c=d := by
  unfold Char.toLower at h
  split at h
  · rename_i hupp
    subst h
    simp only [isLower_eq,UInt32.le_iff_toNat_le,ge_iff_le] at hd hupp
    simp at hd hupp
    exact absurd (hd (by omega)) (by omega)
  · exact h

section
variable {key : List Char} {mayBeEmpty : Bool}

/- Nothing is read before a quote that the key does not stand before, or that no value follows. -/
theorem attributeIn_skip (hemp : key≠[]) (hkey : '"' ∉ key) (hquo : '"' ∉ segment) (rest : List Char)
    {afterWord : Bool} (hends : quotedValue mayBeEmpty rest=none ∨
      ∀ start ending, segment=start++ending → ending.map Char.toLower=key++['='] →
        (start=[] → afterWord=true) ∧ ∀ c ∈ start.getLast?, isWord c=true) :
    attributeIn key mayBeEmpty afterWord (segment ++ '"' :: rest)=attributeIn key mayBeEmpty false rest := by
  induction segment generalizing afterWord with
  | nil =>
    rw [nil_append,attributeIn]
    have hnon : afterLetters (key++['=','"']) ('"' :: rest)=none := by
      cases key with
      | nil => exact absurd rfl hemp
      | cons k key =>
        rw [cons_append,afterLetters,if_neg]
        intro heq
        exact hkey (mem_cons.2 (.inl heq))
    rw [hnon]
    cases afterWord <;> rfl
  | cons c segment ih =>
    rw [cons_append,attributeIn]
    have hher : (if afterWord then none else
        (afterLetters (key++['=','"']) (c::(segment ++ '"' :: rest))).bind (quotedValue mayBeEmpty))=none := by
      cases afterWord with
      | true => rfl
      | false =>
        cases hlet : afterLetters (key++['=','"']) (c::(segment ++ '"' :: rest)) with
        | none => rfl
        | some more =>
          obtain ⟨start,htex,hsta⟩ := afterLetters_eq_some hlet
          -- the quote at the end of what was read is the one at the end of the segment
          obtain ⟨read,quote,rfl,hrea,hqud⟩ := map_eq_append_iff.1
            (show start.map Char.toLower=(key++['='])++['"'] by rw [hsta,append_assoc]; rfl)
          obtain ⟨q,rfl,hq⟩ := map_eq_singleton_iff.1 hqud
          obtain rfl := toLower_eq hq (by decide)
          have hpla : '"' ∉ read := by
            intro hmem
            have hlower : Char.toLower '"' ∈ read.map Char.toLower := mem_map_of_mem hmem
            rw [hrea,mem_append] at hlower
            rcases hlower with hlower | hlower
            · exact hkey hlower
            · exact absurd hlower (by decide)
          have hspl : (c::segment) ++ '"' :: rest=read ++ '"' :: more := by
            rw [cons_append,htex,append_assoc]
            rfl
          obtain ⟨rfl,rfl⟩ := separator_inj hquo hpla hspl
          rcases hends with hnon | hends
          · exact hnon
          · obtain ⟨hfir,-⟩ := hends [] (c::segment) rfl hrea
            cases hfir rfl
    rw [hher]
    refine ih (fun hmem => hquo (mem_cons_of_mem _ hmem)) ?_
    refine hends.imp id fun hends => ?_
    intro start ending hseg hend
    obtain ⟨-,hlas⟩ := hends (c::start) ending (by rw [hseg]; rfl) hend
    cases start with
    | nil => exact ⟨fun _ => hlas c (by simp),by simp⟩
    | cons d start => exact ⟨by simp,fun e he => hlas e (by simpa using he)⟩

theorem attributeIn_skip_of_not_endsIn (hemp : key≠[]) (hkey : '"' ∉ key) (hquo : '"' ∉ segment) (rest : List Char)
    (hens : ¬ EndsIn key segment) :
    attributeIn key mayBeEmpty false (segment ++ '"' :: rest)=attributeIn key mayBeEmpty false rest := by
  refine attributeIn_skip hemp hkey hquo rest (.inr ?_)
  intro start ending hseg hend
  constructor
  · rintro rfl
    exact absurd ⟨[],ending,hseg,hend,by simp⟩ hens
  · intro c hc
    by_contra hwor
    refine hens ⟨start,ending,hseg,hend,?_⟩
    intro d hd
    obtain rfl := Option.some.inj (hc.symm.trans hd)
    simpa using hwor

theorem isWord_toLower (h : isWord c.toLower=true) : isWord c=true := by
  by_contra hwor
  have hsam : c.toLower=c := by
    unfold Char.toLower
    split
    · rename_i hupp
      have hisUpper : c.isUpper=true := by simpa [isUpper_eq,UInt32.le_iff_toNat_le] using hupp
      simp [isWord,isAlphanum_eq,hisUpper] at hwor
    · rfl
  rw [hsam] at h
  exact hwor h

/- The key is read where it stands behind characters that are no letters of a word. -/
theorem attributeIn_hit (hkey : ∀ c ∈ key, isWord c=true) (hemp : key≠[]) (hlea : ∀ c ∈ lead, isWord c=false)
    (hfou : found.map Char.toLower=key) (hval : quotedValue mayBeEmpty rest=some value) :
    attributeIn key mayBeEmpty false (lead++(found ++ '=' :: '"' :: rest))=some value := by
  induction lead with
  | nil =>
    have hlet : afterLetters (key++['=','"']) (found ++ '=' :: '"' :: rest)=some rest := by
      have happ:=afterLetters_append (show (found++['=','"']).map Char.toLower=key++['=','"'] by
        rw [map_append,hfou]; rfl) rest
      rw [append_assoc] at happ
      exact happ
    cases hsha : found ++ '=' :: '"' :: rest with
    | nil => simp at hsha
    | cons c more =>
      rw [hsha] at hlet
      rw [nil_append,attributeIn]
      simp only [Bool.false_eq_true,if_false,hlet,bind_some,hval]
  | cons c lead ih =>
    have hc:=hlea c mem_cons_self
    have hnon : afterLetters (key++['=','"']) (c::(lead++(found ++ '=' :: '"' :: rest)))=none := by
      cases key with
      | nil => exact absurd rfl hemp
      | cons k key =>
        rw [cons_append,afterLetters,if_neg]
        rintro rfl
        have hwor:=isWord_toLower (hkey _ mem_cons_self)
        rw [hc] at hwor
        cases hwor
    rw [cons_append,attributeIn,hnon,hc]
    exact ih fun d hd => hlea d (mem_cons_of_mem _ hd)

theorem not_endsIn_lead (hkey : ∀ c ∈ key, isWord c=true) (hlea : ∀ c ∈ lead, isWord c=false ∧ c ≠ '=')
    (hoth : found.map Char.toLower≠key) (hens : ¬ EndsIn key (found++['='])) :
    ¬ EndsIn key (lead++(found++['='])) := by
  rintro ⟨start,ending,hspl,hend,hlas⟩
  have hwho : ∀ {text : List Char}, text++['=']=ending → text.map Char.toLower=key := by
    rintro text rfl
    rw [map_append] at hend
    exact append_cancel_right hend
  rcases append_eq_append_iff.1 hspl with ⟨more,rfl,hmor⟩ | ⟨more,rfl,rfl⟩
  · cases more with
    | nil => exact hoth (hwho hmor)
    | cons c more =>
      refine hens ⟨c::more,ending,hmor,hend,?_⟩
      intro d hd
      refine hlas d ?_
      rw [getLast?_append,mem_def.1 hd]
      rfl
  · cases more with
    | nil => exact hoth (hwho (nil_append _).symm)
    | cons c more =>
      -- a character before the key would be one of the key
      obtain ⟨hwor,hequ⟩ := hlea c (mem_append_right start mem_cons_self)
      have hmem : c.toLower ∈ key++['='] := by
        rw [← hend]
        exact mem_map_of_mem mem_cons_self
      rcases mem_append.1 hmem with hmem | hmem
      · rw [isWord_toLower (hkey _ hmem)] at hwor
        cases hwor
      · exact hequ (toLower_eq (mem_singleton.1 hmem) (by decide))

theorem isWord_of_blank (h : c = ';' ∨ isBlank c=true) : isWord c=false ∧ c ≠ '=' := by
  simp only [isBlank,Bool.or_eq_true,decide_eq_true_eq] at h
  rcases h with rfl | rfl | rfl <;> decide

theorem quotedValue_eq (mayBeEmpty : Bool) (hval : '"' ∉ value) (rest : List Char) :
    quotedValue mayBeEmpty (value ++ '"' :: rest)=if mayBeEmpty=true ∨ value≠[] then some value else none := by
  have htak : (value ++ '"' :: rest).takeWhile (· ≠ '"')=value := by
    rw [takeWhile_append_of_pos,takeWhile_cons_of_neg (by simp),append_nil]
    intro c hc
    have hne : c ≠ '"' := fun heq => hval (heq ▸ hc)
    simpa using hne
  unfold quotedValue
  rw [htak]
  simp

/-- The value of the first parameter with the key, where nothing else looks like the key. -/
theorem attributeIn_parameters (hkey : ∀ c ∈ key, isWord c=true) (hemp : key≠[])
    (hcle : ∀ p ∈ parameters, (p.named key=false → ¬ EndsIn key (p.key++['='])) ∧ ¬ EndsIn key p.value) :
    attributeIn key mayBeEmpty false (parameters.flatMap Parameter.text) =
      (parameters.find? fun p => p.named key && (mayBeEmpty || p.value≠[])).map Parameter.value := by
  have hquoteKey : '"' ∉ key := fun hmem => absurd (hkey _ hmem) (by decide)
  induction parameters with
  | nil => rfl
  | cons p parameters ih =>
    have hres:=ih fun q hq => hcle q (mem_cons_of_mem _ hq)
    obtain ⟨hkeyClear,hvalueClear⟩ := hcle p mem_cons_self
    have hlea : ∀ c ∈ ';' :: p.blanks, isWord c=false ∧ c ≠ '=' := by
      intro c hc
      rcases mem_cons.1 hc with rfl | hc
      · exact isWord_of_blank (.inl rfl)
      · exact isWord_of_blank (.inr (p.blanks_blank c hc))
    have hvalueQuote : '"' ∉ p.value := fun hmem => (p.value_plain _ hmem).1 rfl
    have hsegmentQuote : '"' ∉ (';' :: p.blanks)++(p.key++['=']) := by
      simp only [mem_append,mem_cons,not_mem_nil,or_false,not_or]
      refine ⟨⟨by decide,fun hmem => absurd (p.blanks_blank _ hmem) (by decide)⟩,
        fun hmem => absurd (p.key_token _ hmem) (by decide),by decide⟩
    have htex : (p::parameters).flatMap Parameter.text =
        ((';' :: p.blanks)++(p.key++['='])) ++ '"' :: (p.value ++ '"' :: parameters.flatMap Parameter.text) := by
      simp [Parameter.text,flatMap_cons]
    have hval:=quotedValue_eq mayBeEmpty hvalueQuote (parameters.flatMap Parameter.text)
    have haft : attributeIn key mayBeEmpty false (p.value ++ '"' :: parameters.flatMap Parameter.text) =
        attributeIn key mayBeEmpty false (parameters.flatMap Parameter.text) :=
      attributeIn_skip_of_not_endsIn hemp hquoteKey hvalueQuote _ hvalueClear
    rw [htex]
    cases hnam : p.named key with
    | false =>
      have hoth : p.key.map Char.toLower≠key := by simpa [Parameter.named] using hnam
      rw [attributeIn_skip_of_not_endsIn hemp hquoteKey hsegmentQuote _
        (not_endsIn_lead hkey hlea hoth (hkeyClear hnam)),haft,hres]
      simp [hnam]
    | true =>
      have hsam : p.key.map Char.toLower=key := by simpa [Parameter.named] using hnam
      by_cases hrea : mayBeEmpty=true ∨ p.value≠[]
      · rw [if_pos hrea] at hval
        have hhit:=attributeIn_hit hkey hemp (fun c hc => (hlea c hc).1) hsam hval
        have hfou : (p.named key && (mayBeEmpty || decide (p.value≠[])))=true := by simpa [hnam] using hrea
        rw [find?_cons,hfou]
        simpa using hhit
      · rw [if_neg hrea] at hval
        rw [attributeIn_skip hemp hquoteKey hsegmentQuote _ (.inl hval),haft,hres]
        have hfou : (p.named key && (mayBeEmpty || decide (p.value≠[])))=false := by simpa [hnam] using hrea
        rw [find?_cons,hfou]

end

theorem afterLetters_none_append (h : afterLetters pattern line=none) (hpat : '\r' ∉ pattern) (rest : List Char) :
    afterLetters pattern (line ++ '\r' :: rest)=none := by
  induction pattern generalizing line with
  | nil => cases h
  | cons p pattern ih =>
    cases line with
    | nil =>
      rw [nil_append,afterLetters,if_neg]
      rintro rfl
      exact hpat mem_cons_self
    | cons c line =>
      rw [cons_append,afterLetters]
      rw [afterLetters] at h
      split
      · rename_i hc
        rw [if_pos hc] at h
        exact ih h fun hmem => hpat (mem_cons_of_mem _ hmem)
      · rfl

/- No line begins inside of a line. -/
theorem dispositionIn_line (hlin : ∀ c ∈ line, isLineTerminator c=false) (rest : List Char) :
    dispositionIn false (line ++ '\r' :: '\n' :: rest)=dispositionIn true rest := by
  induction line with
  | nil => rfl
  | cons c line ih =>
    rw [cons_append,dispositionIn,hlin c mem_cons_self]
    exact ih fun d hd => hlin d (mem_cons_of_mem _ hd)

theorem dispositionIn_other (hlin : OtherHeader line) (rest : List Char) :
    dispositionIn true (line ++ '\r' :: '\n' :: rest)=dispositionIn true rest := by
  obtain ⟨hemp,hpla,hlet⟩ := hlin
  cases line with
  | nil => exact absurd rfl hemp
  | cons c line =>
    have hnon : dispositionAt (c::(line ++ '\r' :: '\n' :: rest))=none := by
      have happ:=afterLetters_none_append hlet (by decide) ('\n' :: rest)
      unfold dispositionAt
      rw [← cons_append,happ]
      rfl
    rw [cons_append,dispositionIn,if_pos rfl,hnon,hpla c mem_cons_self]
    exact dispositionIn_line (fun d hd => hpla d (mem_cons_of_mem _ hd)) rest

theorem isSpace_of_isWord (h : isWord c=true) : Number.isSpace c=false := by
  by_contra hspa
  have hnat : (c.toNat≤122) := by
    simp only [isWord,isAlphanum_eq,isUpper_eq,isLower_eq,Char.isDigit,Bool.or_eq_true,
      Bool.and_eq_true,decide_eq_true_eq,UInt32.le_iff_toNat_le,ge_iff_le] at h
    simp at h
    rcases h with ((⟨-,h⟩ | ⟨-,h⟩) | ⟨-,h⟩) | rfl
    · exact h.trans (by decide)
    · exact h
    · exact h.trans (by decide)
    · decide
  simp only [Number.isSpace,Bool.or_eq_true,Bool.and_eq_true,decide_eq_true_eq,Bool.not_eq_false] at hspa
  rcases hspa with hspa | ⟨hspa,-⟩
  · simp only [mem_cons,not_mem_nil,or_false] at hspa
    rcases hspa with rfl | rfl | rfl | rfl | rfl | rfl | rfl | rfl | rfl | rfl | rfl | rfl | rfl | rfl <;>
      exact absurd h (by decide)
  · have hbig : '\u2000'.toNat≤c.toNat := hspa
    exact absurd (hbig.trans hnat) (by decide)

theorem Parameter.text_plain (p : Parameter) : ∀ c ∈ p.text, c ≠ '\r' ∧ c ≠ '\n' := by
  have hbla : isBlank '\r' = false ∧ isBlank '\n' = false := by decide
  have htok : isToken '\r' = false ∧ isToken '\n' = false := by decide
  intro c hc
  simp only [Parameter.text,mem_append,mem_cons,not_mem_nil,or_false] at hc
  rcases hc with (rfl | (hc | hc) | rfl) | rfl | hc | rfl
  · decide
  · have := p.blanks_blank c hc
    constructor <;> rintro rfl <;> simp_all
  · have := p.key_token c hc
    constructor <;> rintro rfl <;> simp_all
  · decide
  · decide
  · exact (p.value_plain c hc).2
  · decide

theorem dispositionAt_disposition {boundary : String} (h : part.WellFormed boundary)
    (hres : ∀ c ∈ rest.head?, c = '\r') :
    dispositionAt (part.disposition++rest)=some (part.parameters.flatMap Parameter.text).tail := by
  obtain ⟨p,parameters,hpar⟩ : ∃ p parameters, part.parameters=p::parameters :=
    exists_cons_of_ne_nil h.parameters
  obtain ⟨f,formData,hformData⟩ : ∃ f formData, part.formData=f::formData := by
    refine exists_cons_of_ne_nil fun hnil => ?_
    have hlab:=h.formData
    rw [hnil] at hlab
    exact absurd hlab (by decide)
  have hspa : Number.isSpace f=false := by
    refine isSpace_of_isWord (isWord_toLower ?_)
    have hlet:=h.formData
    rw [hformData,map_cons] at hlet
    have hf : f.toLower = 'f' := head_eq_of_cons_eq hlet
    rw [hf]
    decide
  have hbla : ∀ c ∈ part.blanks, Number.isSpace c=true := by
    intro c hc
    have hcBlank:=h.blanks c hc
    simp only [isBlank,Bool.or_eq_true,decide_eq_true_eq] at hcBlank
    rcases hcBlank with rfl | rfl <;> decide
  obtain ⟨group,hgro⟩ : ∃ group, part.parameters.flatMap Parameter.text = ';' :: group := by
    rw [hpar]
    exact ⟨_,rfl⟩
  have hne : group≠[] := by
    rintro rfl
    have hlen:=congrArg List.length hgro
    rw [hpar,flatMap_cons] at hlen
    simp [Parameter.text] at hlen
  have hpla : ∀ c ∈ group, (decide (c ≠ '\r') && decide (c ≠ '\n'))=true := by
    intro c hc
    have hmem : c ∈ part.parameters.flatMap Parameter.text := by
      rw [hgro]
      exact mem_cons_of_mem _ hc
    obtain ⟨q,-,hq⟩ := mem_flatMap.1 hmem
    simpa using q.text_plain c hq
  have htak : (group++rest).takeWhile (fun c => c ≠ '\r' && c ≠ '\n')=group := by
    rw [takeWhile_append_of_pos hpla]
    cases rest with
    | nil => simp
    | cons c rest =>
      obtain rfl := hres c rfl
      simp
  have hlab : (part.label++[':']).map Char.toLower = "content-disposition:".toList := by
    rw [map_append,h.label]
    decide
  have hfor : (part.formData++[';']).map Char.toLower = "form-data;".toList := by
    rw [map_append,h.formData]
    decide
  have hspl : part.disposition++rest =
      (part.label++[':'])++(part.blanks++((part.formData++[';'])++(group++rest))) := by
    simp [Part.disposition,hgro]
  have hdro : (part.blanks++((part.formData++[';'])++(group++rest))).dropWhile Number.isSpace =
      (part.formData++[';'])++(group++rest) := by
    rw [dropWhile_append_of_pos hbla,hformData]
    simp [hspa]
  unfold dispositionAt
  rw [hspl,afterLetters_append hlab,bind_some,hdro,afterLetters_append hfor,bind_some]
  simp only [htak,hgro,tail_cons]
  rw [if_pos hne]

theorem joinLines_cons (line : List Char) {lines : List (List Char)} (h : lines≠[]) :
    joinLines (line::lines)=line ++ '\r' :: '\n' :: joinLines lines := by
  cases lines with
  | nil => exact absurd rfl h
  | cons next lines => rfl

theorem dispositionIn_headers {boundary : String} (h : part.WellFormed boundary) :
    dispositionIn true (joinLines part.headers)=some (part.parameters.flatMap Parameter.text).tail := by
  have hlin : ∀ before, (∀ line ∈ before, OtherHeader line) →
      dispositionIn true (joinLines (before++part.disposition::part.after)) =
        some (part.parameters.flatMap Parameter.text).tail := by
    intro before hbef
    induction before with
    | nil =>
      obtain ⟨rest,hjoi,hres⟩ : ∃ rest, joinLines (part.disposition::part.after)=part.disposition++rest ∧
          ∀ c ∈ rest.head?, c = '\r' := by
        cases haft : part.after with
        | nil => exact ⟨[],by simp [joinLines],by simp⟩
        | cons line lines => exact ⟨_,joinLines_cons _ (by simp),by simp⟩
      have hat:=dispositionAt_disposition h hres
      rw [nil_append,hjoi]
      cases htex : part.disposition++rest with
      | nil =>
        rw [htex] at hat
        cases hat
      | cons c text =>
        rw [htex] at hat
        rw [dispositionIn,if_pos rfl,hat]
    | cons line before ih =>
      rw [cons_append,joinLines_cons _ (by simp),dispositionIn_other (hbef line mem_cons_self)]
      exact ih fun other hoth => hbef other (mem_cons_of_mem _ hoth)
  exact hlin part.before fun line hlie => h.others line (mem_append_left _ hlie)

/- What is read of a header is what the parameter says. -/
theorem attributeIn_headers {boundary : String} (h : part.WellFormed boundary) {key : List Char}
    (hkey : ∀ c ∈ key, isWord c=true) (hemp : key≠[]) (mayBeEmpty : Bool)
    (hcle : ∀ p ∈ part.parameters, (p.named key=false → ¬ EndsIn key (p.key++['='])) ∧ ¬ EndsIn key p.value) :
    attributeIn key mayBeEmpty false (part.parameters.flatMap Parameter.text).tail =
      (part.parameters.find? fun p => p.named key && (mayBeEmpty || p.value≠[])).map Parameter.value := by
  obtain ⟨p,parameters,hpar⟩ : ∃ p parameters, part.parameters=p::parameters :=
    exists_cons_of_ne_nil h.parameters
  have hrea : attributeIn key mayBeEmpty false (part.parameters.flatMap Parameter.text) =
      (part.parameters.find? fun p => p.named key && (mayBeEmpty || p.value≠[])).map Parameter.value :=
    attributeIn_parameters hkey hemp hcle
  obtain ⟨group,hgro⟩ : ∃ group, part.parameters.flatMap Parameter.text = ';' :: group := by
    rw [hpar]
    exact ⟨_,rfl⟩
  rw [hgro] at hrea ⊢
  rw [← hrea,tail_cons,attributeIn]
  have hnon : afterLetters (key++['=','"']) (';' :: group)=none := by
    cases key with
    | nil => exact absurd rfl hemp
    | cons k key =>
      rw [cons_append,afterLetters,if_neg]
      intro hsam
      have hwor:=hkey k mem_cons_self
      rw [← hsam] at hwor
      exact absurd hwor (by decide)
  rw [hnon]
  rfl

theorem find?_named (h : (parameters.map fun p => p.key.map Char.toLower).Nodup) (key : List Char)
    (accept : List Char → Bool) :
    (parameters.find? fun p => p.named key && accept p.value).map Parameter.value=(parameter key parameters).filter accept := by
  unfold parameter
  induction parameters with
  | nil => rfl
  | cons p parameters ih =>
    obtain ⟨hfre,hres⟩ := nodup_cons.1 h
    rw [find?_cons,find?_cons]
    cases hnam : p.named key with
    | false =>
      rw [Bool.false_and]
      exact ih hres
    | true =>
      have hoth : ∀ q ∈ parameters, ¬ (q.named key && accept q.value)=true := by
        intro q hq hbot
        simp only [Parameter.named,Bool.and_eq_true,decide_eq_true_eq] at hbot hnam
        exact hfre (mem_map.2 ⟨q,hq,hbot.1.trans hnam.symm⟩)
      cases hacc : accept p.value with
      | true => simp [Option.filter,hacc]
      | false =>
        rw [find?_eq_none.2 hoth]
        simp [Option.filter,hacc]

theorem readFile_eq {α : Type} (name filename : Option (List Char)) {file : List Char} (hfil : file≠[]) (found : List Char → α)
    (next : α) :
    (match name.filter (fun value => value≠[]),filename with
      | some name,some filename => if name=file ∧ filename≠[] then found filename else next
      | _,_ => next) =
      if name=some file && filename.getD []≠[] then found (filename.getD []) else next := by
  cases name with
  | none => simp
  | some name =>
    cases filename with
    | none => cases name <;> simp
    | some filename =>
      by_cases hnam : name=file
      · subst hnam
        simp [Option.filter,hfil]
      · cases name <;> simp [Option.filter,hnam]

theorem isFile_headers {boundary : String} (h : part.WellFormed boundary) (hcle : part.Unambiguous) {α : Type}
    (found : List Char → α) (next : α) :
    (match attributeIn "name".toList false false (part.parameters.flatMap Parameter.text).tail,
        attributeIn "filename".toList true false (part.parameters.flatMap Parameter.text).tail with
      | some name,some filename => if name = "file".toList ∧ filename≠[] then found filename else next
      | _,_ => next)=if part.isFile then found part.filename else next := by
  have hnam:=attributeIn_headers h (forall_chars (by decide)) (by decide) false (hcle "name".toList (by simp))
  have hfil:=attributeIn_headers h (forall_chars (by decide)) (by decide) true (hcle "filename".toList (by simp))
  have hnameRead : attributeIn "name".toList false false (part.parameters.flatMap Parameter.text).tail =
      (parameter "name".toList part.parameters).filter fun value => value≠[] := by
    rw [hnam,← find?_named h.keys]
    simp
  have hfilenameRead : attributeIn "filename".toList true false (part.parameters.flatMap Parameter.text).tail =
      parameter "filename".toList part.parameters := by
    simp only [Bool.true_or,Bool.and_true] at hfil
    exact hfil
  rw [hnameRead,hfilenameRead]
  exact readFile_eq _ _ (by decide) found next

section
variable {boundary : String}

theorem delimiterOf_ne_nil (boundary : String) : delimiterOf boundary≠[] := by
  unfold delimiterOf Utf8.encode
  rw [String.toList_append]
  intro h
  have hlen:=congrArg List.length h
  rw [Utf8.encodeChars_append,length_append] at hlen
  have htwo : (Utf8.encodeChars "--".toList).length=2 := by decide
  rw [htwo,length_nil] at hlen
  omega

theorem partEndOf_eq (boundary : String) : partEndOf boundary=CRLF++delimiterOf boundary := by
  unfold partEndOf delimiterOf Utf8.encode
  rw [String.toList_append,String.toList_append,Utf8.encodeChars_append,Utf8.encodeChars_append,← append_assoc]
  congr 1

theorem byte_of_char {cs : List Char} {byte : UInt8} (hbyt : byte.toNat=c.toNat) (hsma : c.toNat<128) (h : c ∉ cs) :
    byte ∉ Utf8.encodeChars cs := by
  intro hmem
  obtain ⟨d,hd,hsam⟩ := Utf8.mem_encodeChars hmem (by omega)
  exact h (Char.toNat_inj.1 (hsam.trans hbyt) ▸ hd)

theorem delimiterOf_plain (h : '\r' ∉ boundary.toList) : 13 ∉ delimiterOf boundary := by
  unfold delimiterOf Utf8.encode
  refine byte_of_char (c := '\r') (by decide) (by decide) ?_
  rw [String.toList_append,mem_append,not_or]
  exact ⟨by decide,h⟩

end

end Qubicl.Control.OpenTerminal
