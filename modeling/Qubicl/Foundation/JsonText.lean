import Qubicl.Foundation.CodeUnits
import Qubicl.Foundation.Json

/-!
# The text of a JSON value

What `JSON.stringify` writes, and that it can be read back: two values with one text are one value. A number ends where no
character of a number follows, and which numbers are told apart by their texts is said by whoever writes them.
-/

namespace Qubicl.Foundation
open List

namespace Json

def hexDigit (n : ℕ) : Char := if n<10 then Char.ofNat (48+n) else Char.ofNat (87+n)

def hexValue (c : Char) : ℕ := if c.toNat<58 then c.toNat - 48 else c.toNat - 87

/-- A character inside the quotes. -/
def escape (c : Char) : List Char :=
  if c = '"' then ['\\','"']
  else if c = '\\' then ['\\','\\']
  else if c = '\n' then ['\\','n']
  else if c = '\r' then ['\\','r']
  else if c = '\t' then ['\\','t']
  else if c.toNat=8 then ['\\','b']
  else if c.toNat=12 then ['\\','f']
  else if c.toNat<32 then ['\\','u','0','0',hexDigit (c.toNat / 16),hexDigit (c.toNat % 16)]
  else [c]

def quoted (text : String) : List Char := '"' :: text.toList.flatMap escape++['"']

/-- What a short escape stands for. -/
def shortEscape (c : Char) : Char :=
  if c = 'n' then '\n'
  else if c = 'r' then '\r'
  else if c = 't' then '\t'
  else if c = 'b' then Char.ofNat 8
  else if c = 'f' then Char.ofNat 12
  else c

def unescape : List Char → Option (Char × List Char)
  | [] => none
  | c::rest =>
    if c = '\\' then
      match rest with
      | 'u' :: _::_::a::b::rest => some (Char.ofNat (hexValue a*16+hexValue b),rest)
      | d::rest => some (shortEscape d,rest)
      | [] => none
    else some (c,rest)

theorem hexValue_hexDigit {n : ℕ} (h : n<16) : hexValue (hexDigit n)=n := by
  have hall : ∀ k : Fin 16, hexValue (hexDigit k)=k := by decide
  exact hall ⟨n,h⟩

theorem unescape_escape (c : Char) (rest : List Char) : unescape (escape c++rest)=some (c,rest) := by
  unfold escape
  split_ifs with hquo hbac hn hr ht hb hf hcon
  · rw [hquo]
    rfl
  · rw [hbac]
    rfl
  · rw [hn]
    rfl
  · rw [hr]
    rfl
  · rw [ht]
    rfl
  · obtain rfl : c=Char.ofNat 8 := by rw [← hb,Char.ofNat_toNat]
    rfl
  · obtain rfl : c=Char.ofNat 12 := by rw [← hf,Char.ofNat_toNat]
    rfl
  · show some (Char.ofNat (hexValue (hexDigit (c.toNat / 16))*16+hexValue (hexDigit (c.toNat % 16))),rest)=_
    rw [hexValue_hexDigit (by omega),hexValue_hexDigit (by omega)]
    have hval : c.toNat / 16*16+c.toNat % 16=c.toNat := by omega
    rw [hval,Char.ofNat_toNat]
  · simp [unescape,hbac]

theorem escape_head (c : Char) : ∃ d rest, escape c=d::rest ∧ d ≠ '"' := by
  unfold escape
  split_ifs with hquo
  · exact ⟨_,_,rfl,by decide⟩
  · exact ⟨_,_,rfl,by decide⟩
  · exact ⟨_,_,rfl,by decide⟩
  · exact ⟨_,_,rfl,by decide⟩
  · exact ⟨_,_,rfl,by decide⟩
  · exact ⟨_,_,rfl,by decide⟩
  · exact ⟨_,_,rfl,by decide⟩
  · exact ⟨_,_,rfl,by decide⟩
  · exact ⟨_,_,rfl,hquo⟩

variable {rest rest' : List Char}

theorem escaped_inj {cs ds : List Char} (h : cs.flatMap escape ++ '"' :: rest=ds.flatMap escape ++ '"' :: rest') :
    cs=ds ∧ rest=rest' := by
  induction cs generalizing ds with
  | nil =>
    cases ds with
    | nil => exact ⟨rfl,tail_eq_of_cons_eq h⟩
    | cons d ds =>
      obtain ⟨first,more,hfir,hne⟩ := escape_head d
      rw [flatMap_cons,hfir] at h
      exact absurd (head_eq_of_cons_eq h).symm hne
  | cons c cs ih =>
    cases ds with
    | nil =>
      obtain ⟨first,more,hfir,hne⟩ := escape_head c
      rw [flatMap_cons,hfir] at h
      exact absurd (head_eq_of_cons_eq h) hne
    | cons d ds =>
      rw [flatMap_cons,flatMap_cons,append_assoc,append_assoc] at h
      have hrea:=congrArg unescape h
      rw [unescape_escape,unescape_escape,Option.some.injEq,Prod.mk.injEq] at hrea
      obtain ⟨rfl,hres⟩ := ih hrea.2
      exact ⟨by rw [hrea.1],hres⟩

theorem quoted_inj {t t' : String} (h : quoted t++rest=quoted t'++rest') : t=t' ∧ rest=rest' := by
  have hinn : t.toList.flatMap escape ++ '"' :: rest=t'.toList.flatMap escape ++ '"' :: rest' := by
    simpa [quoted] using h
  obtain ⟨hcha,hres⟩ := escaped_inj hinn
  exact ⟨String.toList_inj.1 hcha,hres⟩

mutual

def write (numberText : ℚ → List Char) : Json → List Char
  | .null => ['n','u','l','l']
  | .boolean true => ['t','r','u','e']
  | .boolean false => ['f','a','l','s','e']
  | .number value => numberText value
  | .string text => quoted text
  | .array items => '[' :: List.intercalate [','] (writeItems numberText items)++[']']
  | .object fields => '{' :: List.intercalate [','] (writeFields numberText fields)++['}']

def writeItems (numberText : ℚ → List Char) : List Json → List (List Char)
  | [] => []
  | item::items => write numberText item::writeItems numberText items

def writeFields (numberText : ℚ → List Char) : List (String × Json) → List (List Char)
  | [] => []
  | (key,value)::fields => (quoted key ++ ':' :: write numberText value)::writeFields numberText fields

end

/- The numbers of a value satisfy `P`. -/
mutual

def Over (P : ℚ → Prop) : Json → Prop
  | .number value => P value
  | .array items => OverItems P items
  | .object fields => OverFields P fields
  | _ => True

def OverItems (P : ℚ → Prop) : List Json → Prop
  | [] => True
  | item::items => Over P item ∧ OverItems P items

def OverFields (P : ℚ → Prop) : List (String × Json) → Prop
  | [] => True
  | (_,value)::fields => Over P value ∧ OverFields P fields

end

def numberChar (c : Char) : Bool := c.isDigit || c ∈ ['-','+','.','e']

/-- The texts of the numbers with `P` tell them apart. -/
structure Delimits (numberText : ℚ → List Char) (P : ℚ → Prop) : Prop where
  injective : ∀ q r, P q → P r → numberText q=numberText r → q=r
  ne_nil : ∀ q, P q → numberText q≠[]
  chars : ∀ q, P q → ∀ c ∈ numberText q, numberChar c=true

/-- A number can end here. -/
def Closes (rest : List Char) : Prop := ∀ c ∈ rest.head?, numberChar c=false

def charTag (c : Char) : ℕ :=
  if numberChar c then 0
  else if c = 'n' then 1
  else if c = 't' then 2
  else if c = 'f' then 3
  else if c = '"' then 4
  else if c = '[' then 5
  else if c = '{' then 6
  else 7

def tag : Json → ℕ
  | .number _ => 0
  | .null => 1
  | .boolean true => 2
  | .boolean false => 3
  | .string _ => 4
  | .array _ => 5
  | .object _ => 6

section
variable {numberText : ℚ → List Char} {P : ℚ → Prop}

theorem write_head (hnum : Delimits numberText P) (v : Json) (hv : v.Over P) :
    ∃ c rest, v.write numberText=c::rest ∧ charTag c=v.tag := by
  cases v with
  | null => exact ⟨_,_,rfl,by decide⟩
  | boolean value => cases value <;> exact ⟨_,_,rfl,by decide⟩
  | number value =>
    have hove : P value := hv
    cases htex : numberText value with
    | nil => exact absurd htex (hnum.ne_nil value hove)
    | cons c rest =>
      have hcha:=hnum.chars value hove c (by rw [htex]; exact mem_cons_self)
      exact ⟨c,rest,htex,by simp [charTag,hcha,tag]⟩
  | string text => exact ⟨_,_,rfl,rfl⟩
  | array items => exact ⟨_,_,rfl,rfl⟩
  | object fields => exact ⟨_,_,rfl,rfl⟩

theorem tag_of_write (hnum : Delimits numberText P) {v w : Json} (hv : v.Over P) (hw : w.Over P)
    (h : v.write numberText++rest=w.write numberText++rest') : v.tag=w.tag := by
  obtain ⟨c,more,hc,htagC⟩ := write_head hnum v hv
  obtain ⟨d,more',hd,htagD⟩ := write_head hnum w hw
  rw [hc,hd] at h
  rw [← htagC,← htagD,head_eq_of_cons_eq h]

theorem number_inj (hnum : Delimits numberText P) {q r : ℚ} (hq : P q) (hr : P r) (hres : Closes rest)
    (hres' : Closes rest') (h : numberText q++rest=numberText r++rest') : q=r ∧ rest=rest' := by
  have hsto : ∀ more, Closes more → more.takeWhile numberChar=[] := by
    intro more hmor
    cases more with
    | nil => rfl
    | cons c more => rw [takeWhile_cons_of_neg (by simp [hmor c rfl])]
  have htak:=congrArg (List.takeWhile numberChar) h
  rw [takeWhile_append_of_pos (hnum.chars q hq),takeWhile_append_of_pos (hnum.chars r hr),
    hsto rest hres,hsto rest' hres',append_nil,append_nil] at htak
  rw [htak] at h
  exact ⟨hnum.injective q r hq hr htak,append_cancel_left h⟩

/- After the first element of a list each one has its comma before it. -/
def commaed (texts : List (List Char)) : List Char := texts.flatMap fun text => ',' :: text

theorem intercalate_cons_eq (first : List Char) (texts : List (List Char)) :
    List.intercalate [','] (first::texts)=first++commaed texts := by
  induction texts generalizing first with
  | nil => simp [commaed]
  | cons second texts ih =>
    rw [intercalate_cons_cons,ih second]
    simp [commaed]

theorem closes_commaed (texts : List (List Char)) {close : Char} (hclose : numberChar close=false) (rest : List Char) :
    Closes (commaed texts++close::rest) := by
  intro c hc
  cases texts with
  | nil =>
    obtain rfl : close=c := Option.some.inj hc
    exact hclose
  | cons text texts =>
    obtain rfl : ',' = c := Option.some.inj hc
    decide

def listText (texts : List (List Char)) (close : Char) : List Char :=
  match texts with
  | [] => [close]
  | first::texts => first++(commaed texts++[close])

theorem intercalate_append_eq (texts : List (List Char)) (close : Char) :
    List.intercalate [','] texts++[close]=listText texts close := by
  cases texts with
  | nil => rfl
  | cons first texts =>
    rw [intercalate_cons_eq,append_assoc]
    rfl

theorem write_array (items : List Json) :
    (Json.array items).write numberText = '[' :: listText (writeItems numberText items) ']' := by
  rw [write,cons_append,intercalate_append_eq]

theorem write_object (fields : List (String × Json)) :
    (Json.object fields).write numberText = '{' :: listText (writeFields numberText fields) '}' := by
  rw [write,cons_append,intercalate_append_eq]

section
variable {α : Type} {texts : List α → List (List Char)} (one : α → List Char) (holds : α → Prop) (hnil : texts []=[])
   (hcons : ∀ a as, texts (a::as)=one a::texts as) {close : Char} (hclose : numberChar close=false)
   (hcomma : close ≠ ',') {as bs : List α}
include one holds hnil hcons hclose hcomma

/- The texts of a list are read one by one: an inverse of the elements is one of the list. -/
theorem commaed_inj (hb : ∀ b ∈ bs, holds b)
    (hinv : ∀ a ∈ as, ∀ b, holds b → ∀ rest rest', Closes rest → Closes rest' → one a++rest=one b++rest' →
      a=b ∧ rest=rest') (h : commaed (texts as)++close::rest=commaed (texts bs)++close::rest') :
    as=bs ∧ rest=rest' := by
  induction as generalizing bs with
  | nil =>
    cases bs with
    | nil =>
      rw [hnil] at h
      exact ⟨rfl,tail_eq_of_cons_eq h⟩
    | cons b bs =>
      rw [hnil,hcons] at h
      exact absurd (head_eq_of_cons_eq h) hcomma
  | cons a as ih =>
    cases bs with
    | nil =>
      rw [hnil,hcons] at h
      exact absurd (head_eq_of_cons_eq h).symm hcomma
    | cons b bs =>
      have hspl : ∀ (x : α) (xs : List α) (more : List Char),
          commaed (texts (x::xs))++close::more = ',' :: (one x++(commaed (texts xs)++close::more)) := by
        intro x xs more
        rw [hcons,commaed,flatMap_cons,append_assoc]
        rfl
      rw [hspl,hspl] at h
      obtain ⟨rfl,hmor⟩ := hinv a mem_cons_self b (hb b mem_cons_self) _ _
        (closes_commaed _ hclose _) (closes_commaed _ hclose _) (tail_eq_of_cons_eq h)
      obtain ⟨rfl,hres⟩ := ih
        (fun x hx => hb x (mem_cons_of_mem _ hx))
        (fun x hx => hinv x (mem_cons_of_mem _ hx)) hmor
      exact ⟨rfl,hres⟩

theorem listText_inj (ha : ∀ a ∈ as, holds a) (hb : ∀ b ∈ bs, holds b)
    (hhea : ∀ a, holds a → (one a).head? ≠ some close ∧ one a≠[])
    (hinv : ∀ a ∈ as, ∀ b, holds b → ∀ rest rest', Closes rest → Closes rest' → one a++rest=one b++rest' →
      a=b ∧ rest=rest') (h : listText (texts as) close++rest=listText (texts bs) close++rest') :
    as=bs ∧ rest=rest' := by
  have hfir : ∀ a, holds a → ∀ more more' : List Char, close::more≠one a++more' := by
    intro a hhol more more' heq
    obtain ⟨hhea,hne⟩ := hhea a hhol
    cases hone : one a with
    | nil => exact hne hone
    | cons c text =>
      rw [hone] at heq hhea
      exact hhea (by rw [head?_cons,head_eq_of_cons_eq heq])
  cases as with
  | nil =>
    cases bs with
    | nil =>
      rw [hnil] at h
      exact ⟨rfl,tail_eq_of_cons_eq h⟩
    | cons b bs =>
      rw [hnil,hcons] at h
      simp only [listText,append_assoc] at h
      exact absurd h (hfir b (hb b mem_cons_self) _ _)
  | cons a as =>
    cases bs with
    | nil =>
      rw [hnil,hcons] at h
      simp only [listText,append_assoc] at h
      exact absurd h.symm (hfir a (ha a mem_cons_self) _ _)
    | cons b bs =>
      rw [hcons,hcons] at h
      simp only [listText,append_assoc,singleton_append] at h
      obtain ⟨rfl,hmor⟩ := hinv a mem_cons_self b (hb b mem_cons_self) _ _
        (closes_commaed _ hclose _) (closes_commaed _ hclose _) h
      obtain ⟨rfl,hres⟩ := commaed_inj one holds hnil hcons hclose hcomma
        (fun x hx => hb x (mem_cons_of_mem _ hx))
        (fun x hx => hinv x (mem_cons_of_mem _ hx)) hmor
      exact ⟨rfl,hres⟩

end

theorem overItems_iff {items : List Json} : OverItems P items ↔ ∀ item ∈ items, item.Over P := by
  induction items with
  | nil => simp [OverItems]
  | cons item items ih => simp [OverItems,ih]

theorem overFields_iff {fields : List (String × Json)} : OverFields P fields ↔ ∀ field ∈ fields, field.2.Over P := by
  induction fields with
  | nil => simp [OverFields]
  | cons field fields ih =>
    obtain ⟨key,value⟩ := field
    simp [OverFields,ih]

theorem head_ne_bracket (hnum : Delimits numberText P) (item : Json) (hove : item.Over P) :
    (item.write numberText).head? ≠ some ']' ∧ item.write numberText≠[] := by
  obtain ⟨c,more,hwri,hc⟩ := write_head hnum item hove
  rw [hwri]
  refine ⟨?_,cons_ne_nil c more⟩
  intro hclose
  obtain rfl : c = ']' := Option.some.inj hclose
  have htag : charTag ']' = 7 := by decide
  rw [htag] at hc
  cases item with
  | boolean value => cases value <;> cases hc
  | _ => cases hc

/-- Two values with one text are one value, and what follows them is the same. -/
theorem write_inj (hnum : Delimits numberText P) : ∀ v w : Json, v.Over P → w.Over P → ∀ rest rest' : List Char,
    Closes rest → Closes rest' → v.write numberText++rest=w.write numberText++rest' → v=w ∧ rest=rest'
  | .null, w, hv, hw, rest, rest', _, _, h => by
    have htag:=tag_of_write hnum hv hw h
    cases w with
    | null => exact ⟨rfl,append_cancel_left h⟩
    | boolean value => cases value <;> cases htag
    | _ => cases htag
  | .boolean b, w, hv, hw, rest, rest', _, _, h => by
    have htag:=tag_of_write hnum hv hw h
    cases w with
    | boolean value =>
      cases b <;> cases value <;> first | exact ⟨rfl,append_cancel_left h⟩ | cases htag
    | _ => cases b <;> cases htag
  | .number q, w, hv, hw, rest, rest', hres, hres', h => by
    have htag:=tag_of_write hnum hv hw h
    cases w with
    | number r =>
      obtain ⟨rfl,heq⟩ := number_inj hnum hv hw hres hres' h
      exact ⟨rfl,heq⟩
    | boolean value => cases value <;> cases htag
    | _ => cases htag
  | .string text, w, hv, hw, rest, rest', _, _, h => by
    have htag:=tag_of_write hnum hv hw h
    cases w with
    | string other =>
      obtain ⟨rfl,heq⟩ := quoted_inj h
      exact ⟨rfl,heq⟩
    | boolean value => cases value <;> cases htag
    | _ => cases htag
  | .array items, w, hv, hw, rest, rest', _, _, h => by
    have htag:=tag_of_write hnum hv hw h
    cases w with
    | array others =>
      have hite : ∀ item ∈ items, item.Over P := overItems_iff.1 hv
      have hots : ∀ item ∈ others, item.Over P := overItems_iff.1 hw
      rw [write_array,write_array] at h
      have hinv : ∀ item ∈ items, ∀ other : Json, other.Over P → ∀ rest rest', Closes rest → Closes rest' →
          item.write numberText++rest=other.write numberText++rest' → item=other ∧ rest=rest' :=
        fun item hmem other hoth rest rest' => write_inj hnum item other (hite item hmem) hoth rest rest'
      obtain ⟨rfl,heq⟩ := listText_inj (write numberText) (Over P) rfl (fun _ _ => rfl) (by decide) (by decide)
        hite hots (head_ne_bracket hnum) hinv (tail_eq_of_cons_eq h)
      exact ⟨rfl,heq⟩
    | boolean value => cases value <;> cases htag
    | _ => cases htag
  | .object fields, w, hv, hw, rest, rest', _, _, h => by
    have htag:=tag_of_write hnum hv hw h
    cases w with
    | object others =>
      have hfis : ∀ field ∈ fields, field.2.Over P := overFields_iff.1 hv
      have hots : ∀ field ∈ others, field.2.Over P := overFields_iff.1 hw
      rw [write_object,write_object] at h
      have hinv : ∀ field ∈ fields, ∀ other : String × Json, other.2.Over P → ∀ rest rest', Closes rest → Closes rest' →
          (quoted field.1 ++ ':' :: field.2.write numberText)++rest =
            (quoted other.1 ++ ':' :: other.2.write numberText)++rest' → field=other ∧ rest=rest' := by
        intro field hmem other hoth rest rest' hres hres' heq
        have hsiz : sizeOf field.2<1+sizeOf fields := by
          have hlt:=sizeOf_lt_of_mem hmem
          have hfie : sizeOf field.2<sizeOf field := by
            obtain ⟨key,value⟩ := field
            simp +arith
          omega
        rw [append_assoc,append_assoc] at heq
        obtain ⟨hkey,hval⟩ := quoted_inj heq
        obtain ⟨hsam,hmor⟩ := write_inj hnum field.2 other.2 (hfis field hmem) hoth rest rest' hres hres'
          (tail_eq_of_cons_eq hval)
        exact ⟨Prod.ext hkey hsam,hmor⟩
      have hhea : ∀ field : String × Json, field.2.Over P →
          (quoted field.1 ++ ':' :: field.2.write numberText).head? ≠ some '}' ∧
            quoted field.1 ++ ':' :: field.2.write numberText≠[] := by
        intro field _
        refine ⟨?_,by simp [quoted]⟩
        intro hclose
        exact absurd (Option.some.inj hclose) (by decide)
      have hcons : ∀ (field : String × Json) (more : List (String × Json)), writeFields numberText (field::more) =
          (quoted field.1 ++ ':' :: field.2.write numberText)::writeFields numberText more := fun _ _ => rfl
      obtain ⟨rfl,heq⟩ := listText_inj (fun field : String × Json => quoted field.1 ++ ':' :: field.2.write numberText)
        (fun field => field.2.Over P) rfl hcons (by decide) (by decide) hfis hots hhea hinv
        (tail_eq_of_cons_eq h)
      exact ⟨rfl,heq⟩
    | boolean value => cases value <;> cases htag
    | _ => cases htag

end
end Json
end Qubicl.Foundation
