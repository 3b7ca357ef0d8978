import Qubicl.Core.LegacyJournal
import Qubicl.Foundation.Cookies
import Qubicl.Foundation.Path
import Qubicl.Foundation.Text
import Qubicl.Gateway.Headers

/-!
# Cookies of previews (packages/gateway/src/server.ts:729-737, 1569-1588)

What a preview sets as a cookie is forwarded on the external surface without its domain and with `Secure`,
unless it has the name of a viewer session. The filter splits and trims the text by its own rules.
-/

namespace Qubicl.Gateway
open Foundation Core Viewing Cookies List

/- A header value as Node.js delivers it: a character for each byte, none of them a line break. -/
structure SetCookieValue where
  text : String
  bytes : ∀ c ∈ text.toList, c.toNat<256 ∧ valueChar c=true

def lowered (cs : List Char) : List Char := cs.map Char.toLower

/- `/^domain=/iu` and `/^secure$/iu`; among bytes, only a letter is another letter in any case. -/
def domainAssignment (cs : List Char) : Bool := "domain=".toList.isPrefixOf (lowered cs)

def secureWord (cs : List Char) : Bool := lowered cs == "secure".toList

/- `pair.slice(0, separator).trim().toLowerCase()` -/
def previewCookieName (pair : List Char) : List Char := lowered (Number.trim (keyOf pair))

def withheldName (name : List Char) : Bool :=
  name.isEmpty || name == "qubicl_view".toList || name == "__host-qubicl_view".toList

def retained (attributes : List (List Char)) : List (List Char) :=
  (attributes.map Number.trim).filter fun cs => !cs.isEmpty && !domainAssignment cs && !secureWord cs

def securePreviewCookie (value : String) : Option String :=
  match value.toList.splitOn ';' with
  | [] => none
  | pair::attributes =>
    if pair=[] then none
    else if '=' ∉ pair ∨ pair.head? = some '=' then none
    else if withheldName (previewCookieName pair) then none
    else some (String.ofList ("; ".toList.intercalate (Number.trim pair::(retained attributes++["Secure".toList]))))

def viewerSessionCookieName (surface : Surface) (computerId : String) : String :=
  match surface with
  | .external => "__Host-qubicl_view_" ++ computerId
  | .localhost => "qubicl_view"

def domainName : List Char := "domain".toList

def secureName : List Char := "secure".toList

section Claim
variable (z : Formats)

/- The name of a viewer session: the local one, which all computers share, or an external one. -/
def ViewerName (name : List Char) : Prop :=
  (∃ computerId, name=(viewerSessionCookieName .localhost computerId).toList) ∨
    ∃ computerId, z.uuid computerId=true ∧ name=(viewerSessionCookieName .external computerId).toList

def others (cookie : SetCookie) : List (List Char × List Char) :=
  cookie.attributes.filter fun found => found.1≠domainName ∧ found.1≠secureName

structure Forwards (original cookie : SetCookie) : Prop where
  domainless : ∀ found ∈ cookie.attributes, found.1≠domainName
  secure : ∃ found ∈ cookie.attributes, found.1=secureName
  foreign : ¬ ViewerName z cookie.name
  name : cookie.name=original.name
  value : cookie.value=original.value
  others : others cookie=others original

/-- A user agent reads of what is forwarded the cookie that was sent, without its domain and secure, and what it
would accept under a name of no viewer session is forwarded. -/
structure Confined (value : String) : Prop where
  forwarded : ∀ text, securePreviewCookie value=some text →
    ∃ original cookie, parse value.toList=some original ∧ parse text.toList=some cookie ∧ Forwards z original cookie
  kept : ∀ original, parse value.toList=some original → ¬ ViewerName z original.name →
    (securePreviewCookie value).isSome

end Claim

theorem intercalate_blank (part : List Char) (parts : List (List Char)) :
    "; ".toList.intercalate (part::parts)=[';'].intercalate (part::parts.map (' ' :: ·)) := by
  induction parts generalizing part with
  | nil => rw [map_nil,intercalate_singleton,intercalate_singleton]
  | cons next rest ih =>
    rw [map_cons,intercalate_cons_cons,intercalate_cons_cons,ih,intercalate_cons_cons_left]
    simp

variable {cs : List Char}

theorem mem_of_mem_trim {c : Char} (h : c ∈ Number.trim cs) : c ∈ cs := by
  obtain ⟨a,b,hcs,-,-,-⟩ := trimBy_spec Number.isSpace cs
  rw [hcs]
  exact mem_append_left b (mem_append_right a h)

theorem mem_retained {attributes : List (List Char)} (h : cs ∈ retained attributes) :
    ∃ sent ∈ attributes, Number.trim sent=cs := by
  simp only [retained,mem_filter,mem_map] at h
  exact h.1

theorem splitOn_forwarded {value : String} {pair : List Char} {attributes : List (List Char)}
    (hspl : value.toList.splitOn ';' = pair::attributes) :
    ("; ".toList.intercalate (Number.trim pair::(retained attributes++["Secure".toList]))).splitOn ';' =
      Number.trim pair::(retained attributes++["Secure".toList]).map (' ' :: ·) := by
  have hpis : ∀ piece ∈ pair::attributes, ';' ∉ piece := fun piece hpie =>
    splitOn_no_separator (hspl ▸ hpie)
  rw [intercalate_blank]
  refine splitOn_intercalate ';' ?_ (by simp)
  intro part hpart
  rcases mem_cons.1 hpart with rfl | hpart
  · exact fun hc => hpis pair mem_cons_self (mem_of_mem_trim hc)
  · obtain ⟨cs,hcs,rfl⟩ := mem_map.1 hpart
    intro hc
    have hmem : ';' ∈ cs := (mem_cons.1 hc).resolve_left (by decide)
    rcases mem_append.1 hcs with hret | hsecure
    · obtain ⟨sent,hsen,rfl⟩ := mem_retained hret
      exact hpis sent (mem_cons_of_mem _ hsen) (mem_of_mem_trim hmem)
    · rw [mem_singleton.1 hsecure] at hmem
      exact absurd hmem (by decide)

section Attributes

theorem isSpace_blank (c : Char) (h : isBlank c=true) : Number.isSpace c=true := by
  simp only [isBlank,Bool.or_eq_true,beq_iff_eq] at h
  rcases h with rfl | rfl <;> decide

def otherOf (found : List Char × List Char) : Option (List Char × List Char) :=
  if found.1≠[] ∧ found.1≠domainName ∧ found.1≠secureName then some found else none

def sentOther (cs : List Char) : Option (List Char × List Char) := otherOf (cookieAv cs)

def withheld (cs : List Char) : Bool := cs.isEmpty || domainAssignment cs || secureWord cs

def forwardedOther (cs : List Char) : Option (List Char × List Char) :=
  if withheld (Number.trim cs) then none else otherOf (cookieAv (Number.trim cs))

def lightness (found : List Char × List Char) : ℕ := weight found.1+weight found.2

theorem others_sent (attributes : List (List Char)) :
    (attributesOf attributes).filter (fun found => found.1≠domainName ∧ found.1≠secureName) =
      attributes.filterMap sentOther := by
  unfold attributesOf
  rw [filter_filter]
  induction attributes with
  | nil => rfl
  | cons cs rest ih =>
    rw [map_cons,filterMap_cons,sentOther,otherOf]
    by_cases h : (cookieAv cs).1≠[] ∧ (cookieAv cs).1≠domainName ∧ (cookieAv cs).1≠secureName
    · rw [if_pos h,filter_cons_of_pos (by simpa [and_comm,and_assoc] using h),ih]
    · rw [if_neg h,filter_cons_of_neg (by simpa [and_comm,and_assoc] using h),ih]

theorem cookieAv_blank (cs : List Char) : cookieAv (' ' :: cs)=cookieAv cs := by
  have hpai : pairOf (' ' :: cs)=pairOf cs := by
    have hfro : ∀ c ∈ [' '], isBlank c=true := by simp [isBlank]
    have hbac : ∀ c ∈ ([] : List Char), isBlank c=true := by simp
    simpa using pairOf_append (t := cs) hfro hbac
  rw [cookieAv,cookieAv,hpai]

theorem attributesOf_blank (parts : List (List Char)) : attributesOf (parts.map (' ' :: ·))=attributesOf parts := by
  rw [attributesOf,attributesOf,map_map]
  exact congrArg _ (map_congr_left fun cs _ => cookieAv_blank cs)

theorem retained_eq (attributes : List (List Char)) :
    retained attributes=(attributes.map Number.trim).filter fun cs => !withheld cs := by
  rw [retained]
  refine filter_congr fun cs _ => ?_
  simp [withheld,Bool.and_assoc]

theorem others_forwarded (attributes : List (List Char)) :
    (attributesOf ((retained attributes++["Secure".toList]).map (' ' :: ·))).filter
        (fun found => found.1≠domainName ∧ found.1≠secureName) =
      attributes.filterMap forwardedOther := by
  have hsec : sentOther "Secure".toList=none := by decide
  rw [attributesOf_blank,others_sent,filterMap_append,filterMap_cons,hsec,filterMap_nil,
    append_nil,retained_eq]
  induction attributes with
  | nil => rfl
  | cons cs rest ih =>
    rw [map_cons,filterMap_cons,forwardedOther]
    by_cases h : withheld (Number.trim cs)=true
    · rw [if_pos h,filter_cons_of_neg (by simp [h]),ih]
    · rw [if_neg h,filter_cons_of_pos (by simp [h]),filterMap_cons,ih]
      rfl

theorem toLower_space {c : Char} (h : Number.isSpace c=true) : c.toLower=c := by
  simp only [Number.isSpace,Bool.or_eq_true,decide_eq_true_eq,mem_cons,not_mem_nil,or_false,
    Bool.and_eq_true] at h
  rcases h with h | ⟨h,-⟩
  · rcases h with rfl | rfl | rfl | rfl | rfl | rfl | rfl | rfl | rfl | rfl | rfl | rfl | rfl | rfl <;> decide
  · refine dif_neg ?_
    rintro ⟨-,hhig⟩
    exact absurd (UInt32.le_trans (Char.le_def.1 h) hhig) (by decide)

theorem plain_name {name : List Char} (h : (cookieAv cs).1=name) (hnam : ∀ c ∈ name, Number.isSpace c=false) :
    (cookieAv (Number.trim cs)).1=name := by
  have hpla : ∀ c ∈ (pairOf cs).1, Number.isSpace c=false := by
    intro c hc
    by_contra hspa
    rw [Bool.not_eq_false] at hspa
    have hmem : c.toLower ∈ name := by
      rw [← h]
      exact mem_map_of_mem hc
    rw [toLower_space hspa] at hmem
    rw [hnam c hmem] at hspa
    cases hspa
  have hsam : (pairOf (Number.trim cs)).1=(pairOf cs).1 := name_trimBy (by decide) hpla
  rw [← h,cookieAv,cookieAv,hsam]

theorem isBlank_toLower (c : Char) : isBlank c.toLower=isBlank c := by
  rw [Bool.eq_iff_iff]
  constructor
  · intro h
    have hspa:=isSpace_blank _ h
    simp only [isBlank,Bool.or_eq_true,beq_iff_eq] at h ⊢
    rcases h with h | h
    · exact Or.inl (eq_of_toLower (by decide) h)
    · exact Or.inr (eq_of_toLower (by decide) h)
  · intro h
    rw [toLower_space (isSpace_blank c h)]
    exact h

theorem weight_lowered (cs : List Char) : weight (lowered cs)=weight cs := by
  rw [weight,weight,lowered,filter_map,length_map]
  congr 1
  exact filter_congr fun c _ => congrArg _ (isBlank_toLower c)

theorem lightness_cookieAv (cs : List Char) : lightness (cookieAv cs)=pairWeight cs := by
  rw [lightness,cookieAv,pairWeight]
  exact congrArg (· + _) (weight_lowered _)

theorem trimBlank_lowered (cs : List Char) : trimBy isBlank (lowered cs)=lowered (trimBy isBlank cs) := by
  have hbla : isBlank ∘ Char.toLower=isBlank := funext isBlank_toLower
  rw [trimBy,trimBy,lowered,lowered,dropWhile_map,hbla,List.rdropWhile,← map_reverse,
    dropWhile_map,hbla,← map_reverse]
  rfl

theorem cookieAv_name (cs : List Char) : (cookieAv cs).1=(pairOf (lowered cs)).1 := by
  have hequ : (fun c => decide (c ≠ '=')) ∘ Char.toLower=fun c => decide (c ≠ '=') := by
    funext c
    have : c.toLower = '=' ↔ c = '=' := ⟨eq_of_toLower (by decide),by rintro rfl; decide⟩
    simp [this]
  have hkey : keyOf (lowered cs)=lowered (keyOf cs) := by
    rw [keyOf,lowered,takeWhile_map,hequ]
    rfl
  rw [pairOf,hkey,trimBlank_lowered]
  rfl

theorem name_withheld (h : withheld cs=true) :
    cs=[] ∨ domainAssignment cs=true ∧ (cookieAv cs).1=domainName ∨ (cookieAv cs).1=secureName := by
  simp only [withheld,Bool.or_eq_true] at h
  rcases h with (hemp | hdomain) | hsecure
  · exact Or.inl (List.isEmpty_iff.1 hemp)
  · refine Or.inr (Or.inl ⟨hdomain,?_⟩)
    obtain ⟨rest,hres⟩ := isPrefixOf_iff_prefix.1 hdomain
    have hspl : lowered cs=domainName ++ '=' :: rest := hres.symm
    have htri : trimBy isBlank domainName=domainName := by decide
    rw [cookieAv_name,hspl,pairOf_split (by decide)]
    exact htri
  · refine Or.inr (Or.inr ?_)
    rw [cookieAv_name,beq_iff_eq.1 hsecure]
    decide

theorem otherOf_withheld (h : withheld cs=true) : otherOf (cookieAv cs)=none := by
  rcases name_withheld h with rfl | ⟨-,hname⟩ | hname
  · decide
  · exact if_neg fun hoth => hoth.2.1 hname
  · exact if_neg fun hoth => hoth.2.2 hname

theorem otherOf_plain (h : otherOf (cookieAv cs)=none) : otherOf (cookieAv (Number.trim cs))=none := by
  have hname : (cookieAv cs).1=[] ∨ (cookieAv cs).1=domainName ∨ (cookieAv cs).1=secureName := by
    by_contra hoth
    rw [otherOf,if_pos (by tauto)] at h
    cases h
  refine if_neg fun hoth => ?_
  rcases hname with hname | hname | hname
  · exact hoth.1 (plain_name hname (forall_chars (by decide)))
  · exact hoth.2.1 (plain_name hname (forall_chars (by decide)))
  · exact hoth.2.2 (plain_name hname (forall_chars (by decide)))

theorem forwardedOther_cases (cs : List Char) :
    forwardedOther cs=sentOther cs ∧ (sentOther cs=none ∨ Number.trim cs=trimBy isBlank cs) ∨
      massOf lightness (forwardedOther cs) < massOf lightness (sentOther cs) ∧ Number.trim cs≠trimBy isBlank cs := by
  have hfor : forwardedOther cs=otherOf (cookieAv (Number.trim cs)) := by
    unfold forwardedOther
    split
    next h => exact (otherOf_withheld h).symm
    next => rfl
  rw [hfor,sentOther]
  rcases pairOf_trimBy isSpace_blank (by decide) cs with ⟨htri,hpai⟩ | ⟨htri,hles⟩
  · have hsam : cookieAv (Number.trim cs)=cookieAv cs := by
      rw [cookieAv,cookieAv]
      exact congrArg (fun pair => (lowered pair.1,pair.2)) hpai
    exact Or.inl ⟨by rw [hsam],Or.inr htri⟩
  · cases hsen : otherOf (cookieAv cs) with
    | none => exact Or.inl ⟨otherOf_plain hsen,Or.inl rfl⟩
    | some found =>
      refine Or.inr ⟨?_,htri⟩
      have hlig : lightness (cookieAv (Number.trim cs))<lightness found := by
        have hfou : cookieAv cs=found := by
          obtain ⟨-,hfou⟩ := Option.ite_none_right_eq_some.1 hsen
          exact Option.some.inj hfou
        rw [← hfou,lightness_cookieAv,lightness_cookieAv]
        exact hles
      unfold otherOf
      split
      · simpa [massOf] using hlig
      · simp [massOf]

theorem others_eq_iff (attributes : List (List Char)) :
    attributes.filterMap forwardedOther=attributes.filterMap sentOther ↔
      ∀ cs ∈ attributes, sentOther cs=none ∨ Number.trim cs=trimBy isBlank cs := by
  have hlig : ∀ cs ∈ attributes, forwardedOther cs=sentOther cs ∨
      massOf lightness (forwardedOther cs) < massOf lightness (sentOther cs) := fun cs _ =>
    (forwardedOther_cases cs).imp And.left And.left
  rw [filterMap_eq_iff lightness hlig]
  refine forall₂_congr fun cs _ => ?_
  rcases forwardedOther_cases cs with ⟨hsam,hcle⟩ | ⟨hles,htri⟩
  · exact iff_of_true hsam hcle
  · have hsen : sentOther cs≠none := by
      intro hnon
      rw [hnon] at hles
      exact absurd hles (Nat.not_lt_zero _)
    refine iff_of_false (fun hsam => ?_) fun hcle => hcle.elim hsen htri
    rw [hsam] at hles
    exact absurd hles (lt_irrefl _)

/-- An attribute that is forwarded as it was sent: one without a name, a `Domain` that is spelled `domain=`, a
`Secure`, or one that the filter trims by nothing but blanks. -/
def AttributeKept (cs : List Char) : Prop :=
  ((cookieAv cs).1=domainName → domainAssignment (Number.trim cs)=true) ∧
    ((cookieAv cs).1≠[] → (cookieAv cs).1≠domainName → (cookieAv cs).1≠secureName →
      Number.trim cs=trimBy isBlank cs)

theorem sentOther_none :
    sentOther cs=none ↔ (cookieAv cs).1=[] ∨ (cookieAv cs).1=domainName ∨ (cookieAv cs).1=secureName := by
  rw [sentOther,otherOf]
  split
  next h => exact iff_of_false (by simp) (by tauto)
  next h => exact iff_of_true rfl (by tauto)

def forwardedAttributes (attributes : List (List Char)) : List (List Char × List Char) :=
  attributesOf ((retained attributes++["Secure".toList]).map (' ' :: ·))

theorem mem_forwardedAttributes {attributes : List (List Char)} {found : List Char × List Char} :
    found ∈ forwardedAttributes attributes ↔ found=(secureName,[]) ∨
      found.1≠[] ∧ ∃ cs ∈ attributes, withheld (Number.trim cs)=false ∧ cookieAv (Number.trim cs)=found := by
  have hsec : cookieAv "Secure".toList=(secureName,[]) := by decide
  rw [forwardedAttributes,attributesOf_blank,attributesOf,retained_eq]
  simp only [mem_filter,mem_map,mem_append,mem_singleton,Bool.not_eq_true',decide_eq_true_eq]
  constructor
  · rintro ⟨⟨part,⟨⟨sent,hsen,rfl⟩,hwit⟩ | rfl,rfl⟩,hne⟩
    · exact Or.inr ⟨hne,sent,hsen,hwit,rfl⟩
    · exact Or.inl hsec
  · rintro (rfl | ⟨hne,sent,hsen,hwit,rfl⟩)
    · exact ⟨⟨_,Or.inr rfl,hsec⟩,by decide⟩
    · exact ⟨⟨_,Or.inl ⟨⟨sent,hsen,rfl⟩,hwit⟩,rfl⟩,hne⟩

theorem cookieAv_trim (h : Number.trim cs=trimBy isBlank cs) : cookieAv (Number.trim cs)=cookieAv cs := by
  rw [h,cookieAv,cookieAv,pairOf_trimBlank]

/-- The attributes reach the user agent as they were sent, without a domain, exactly if each is kept. -/
theorem attributes_kept_iff (attributes : List (List Char)) :
    ((∀ found ∈ forwardedAttributes attributes, found.1≠domainName) ∧
      attributes.filterMap forwardedOther=attributes.filterMap sentOther) ↔ ∀ cs ∈ attributes, AttributeKept cs := by
  rw [others_eq_iff]
  constructor
  · rintro ⟨hdom,hots⟩ cs hcs
    refine ⟨fun hnae => ?_,fun hnam hoth hins => ?_⟩
    · have htri : (cookieAv (Number.trim cs)).1=domainName := plain_name hnae (forall_chars (by decide))
      by_cases hwit : withheld (Number.trim cs)=true
      · rcases name_withheld hwit with hemp | ⟨hass,-⟩ | hsecure
        · rw [hemp] at htri
          exact absurd htri (by decide)
        · exact hass
        · rw [hsecure] at htri
          exact absurd htri (by decide)
      · have hmem : cookieAv (Number.trim cs) ∈ forwardedAttributes attributes := by
          refine mem_forwardedAttributes.2 (Or.inr ⟨?_,cs,hcs,Bool.eq_false_iff.2 hwit,rfl⟩)
          rw [htri]
          decide
        exact absurd htri (hdom _ hmem)
    · refine (hots cs hcs).resolve_left fun hnon => ?_
      rcases sentOther_none.1 hnon with h | h | h
      · exact hnam h
      · exact hoth h
      · exact hins h
  · intro hkep
    have hots : ∀ cs ∈ attributes, sentOther cs=none ∨ Number.trim cs=trimBy isBlank cs := by
      intro cs hcs
      by_cases hnon : sentOther cs=none
      · exact Or.inl hnon
      · have hnam:=fun h => hnon (sentOther_none.2 h)
        exact Or.inr ((hkep cs hcs).2 (fun h => hnam (Or.inl h)) (fun h => hnam (Or.inr (Or.inl h)))
          fun h => hnam (Or.inr (Or.inr h)))
    refine ⟨fun found hfou hnae => ?_,hots⟩
    rcases mem_forwardedAttributes.1 hfou with rfl | ⟨-,cs,hcs,hwit,rfl⟩
    · exact absurd hnae (by decide)
    · by_cases hdom : (cookieAv cs).1=domainName
      · have hass:=(hkep cs hcs).1 hdom
        simp [withheld,hass] at hwit
      · rcases hots cs hcs with hnon | hclean
        · rcases sentOther_none.1 hnon with h | h | h
          · rw [plain_name h (forall_chars (by decide))] at hnae
            exact absurd hnae (by decide)
          · exact hdom h
          · rw [plain_name h (forall_chars (by decide))] at hnae
            exact absurd hnae (by decide)
        · rw [cookieAv_trim hclean] at hnae
          exact hdom hnae

end Attributes

section Names
variable (z : Formats)

/-- When the filter does what is asked of it. -/
def HoldsWhen (pair : List Char) (attributes : List (List Char)) : Prop :=
  '=' ∈ pair → (pairOf pair).1≠[] →
    if withheldName (previewCookieName pair) then (pairOf pair).1 = "qubicl_view".toList
    else ¬ ViewerName z (pairOf pair).1 ∧ Number.trim pair=trimBy isBlank pair ∧
      ∀ cs ∈ attributes, AttributeKept cs

variable {z : Formats} {value : String} {pair : List Char} {attributes : List (List Char)}

theorem parse_split {text : List Char} (hspl : text.splitOn ';' = pair::attributes) :
    parse text=if '=' ∈ pair ∧ (pairOf pair).1≠[] then
      some ⟨(pairOf pair).1,(pairOf pair).2,attributesOf attributes⟩ else none := by
  rw [parse,hspl]

theorem blankName_withheld (h : (pairOf pair).1=[]) : withheldName (previewCookieName pair)=true := by
  obtain ⟨a,b,hkey,ha,hb,-⟩ := trimBy_spec isBlank (keyOf pair)
  have hbla : trimBy isBlank (keyOf pair)=[] := h
  rw [hbla] at hkey
  have htig : Tight Number.isSpace [] := ⟨by simp,by simp⟩
  have hemp : Number.trim (keyOf pair)=[] := by
    rw [hkey]
    exact htig.trimBy_eq (fun c hc => isSpace_blank c (ha c hc)) fun c hc => isSpace_blank c (hb c hc)
  rw [previewCookieName,hemp]
  rfl

/- A pair that a user agent accepts is forwarded unless its name is withheld. -/
theorem securePreviewCookie_accepted (hspl : value.toList.splitOn ';' = pair::attributes) (hequ : '=' ∈ pair)
    (hnam : (pairOf pair).1≠[]) :
    securePreviewCookie value=if withheldName (previewCookieName pair) then none
      else some (String.ofList ("; ".toList.intercalate
        (Number.trim pair::(retained attributes++["Secure".toList])))) := by
  have hne : pair≠[] := ne_nil_of_mem hequ
  have hsep : ¬ ('=' ∉ pair ∨ pair.head? = some '=') := by
    rintro (h | h)
    · exact h hequ
    · obtain ⟨rest,rfl⟩ := head?_eq_some_iff.1 h
      exact hnam rfl
  rw [securePreviewCookie,hspl]
  dsimp only
  rw [if_neg hne,if_neg hsep]

theorem securePreviewCookie_ignored (hspl : value.toList.splitOn ';' = pair::attributes)
    (h : ¬ ('=' ∈ pair ∧ (pairOf pair).1≠[])) : securePreviewCookie value=none := by
  rw [securePreviewCookie,hspl]
  dsimp only
  by_cases hequ : '=' ∈ pair
  · have hbla : (pairOf pair).1=[] := by
      by_contra hnam
      exact h ⟨hequ,hnam⟩
    rw [if_pos (blankName_withheld hbla)]
    split_ifs <;> rfl
  · rw [if_pos (Or.inl hequ)]
    split_ifs <;> rfl

theorem length_filter_append {front : List Char} (rest : List Char) (h : ∀ c ∈ front, Number.isSpace c=false) :
    front.length≤((front++rest).filter fun c => !Number.isSpace c).length := by
  have hfro : (front.filter fun c => !Number.isSpace c)=front :=
    filter_eq_self.2 fun c hc => by simp [h c hc]
  rw [filter_append,length_append,hfro]
  omega

theorem withheld_viewerName (hwit : withheldName (previewCookieName pair)=true)
    (hvie : ViewerName z (pairOf pair).1) : (pairOf pair).1 = "qubicl_view".toList := by
  rcases hvie with ⟨computerId,hnam⟩ | ⟨computerId,-,hnam⟩
  · exact hnam
  · exfalso
    have hlon : 19≤((pairOf pair).1.filter fun c => !Number.isSpace c).length := by
      have hlen : "__Host-qubicl_view_".toList.length=19 := by decide
      have hpla : ∀ c ∈ "__Host-qubicl_view_".toList, Number.isSpace c=false := forall_chars (by decide)
      have hkep:=length_filter_append computerId.toList hpla
      rw [hlen,← String.toList_append] at hkep
      rw [hnam]
      exact hkep
    have hsam : (Number.trim (keyOf pair)).filter (fun c => !Number.isSpace c) =
        (pairOf pair).1.filter fun c => !Number.isSpace c := by
      obtain ⟨a,b,hkey,ha,hb,-⟩ := trimBy_spec isBlank (keyOf pair)
      have hinn : trimBy Number.isSpace (keyOf pair)=trimBy Number.isSpace (pairOf pair).1 := by
        conv => lhs; rw [hkey]
        exact trimBy_append _ (fun c hc => isSpace_blank c (ha c hc)) fun c hc => isSpace_blank c (hb c hc)
      have htri : Number.trim (keyOf pair)=trimBy Number.isSpace (pairOf pair).1 := hinn
      rw [htri,filter_trimBy]
    have hbou : 19≤(previewCookieName pair).length := by
      rw [previewCookieName,lowered,length_map]
      calc 19≤((Number.trim (keyOf pair)).filter fun c => !Number.isSpace c).length := by rw [hsam]; exact hlon
        _≤(Number.trim (keyOf pair)).length := length_filter_le _ _
    simp only [withheldName,Bool.or_eq_true,beq_iff_eq,List.isEmpty_iff] at hwit
    rcases hwit with (h | h) | h
    all_goals
      rw [h] at hbou
      exact absurd hbou (by decide)

theorem parse_forwarded (hspl : value.toList.splitOn ';' = pair::attributes) :
    parse (String.ofList ("; ".toList.intercalate
      (Number.trim pair::(retained attributes++["Secure".toList])))).toList =
        if '=' ∈ pair ∧ (pairOf (Number.trim pair)).1≠[] then
          some ⟨(pairOf (Number.trim pair)).1,(pairOf (Number.trim pair)).2,forwardedAttributes attributes⟩
        else none := by
  have hequ : '=' ∈ Number.trim pair ↔ '=' ∈ pair := mem_trimBy (by decide)
  rw [String.toList_ofList,parse_split (splitOn_forwarded hspl)]
  exact if_congr (and_congr_left' hequ) rfl rfl

/- The pair is read as it was sent only where nothing but blanks is trimmed. -/
theorem pair_clean (h : pairOf (Number.trim pair)=pairOf pair) : Number.trim pair=trimBy isBlank pair := by
  rcases pairOf_trimBy isSpace_blank (by decide) pair with ⟨htri,-⟩ | ⟨-,hles⟩
  · exact htri
  · rw [pairWeight,pairWeight] at hles
    have hsam : pairOf (trimBy Number.isSpace pair)=pairOf pair := h
    rw [hsam] at hles
    exact absurd hles (lt_irrefl _)

theorem holdsWhen_of_confined (h : Confined z value) (hspl : value.toList.splitOn ';' = pair::attributes) :
    HoldsWhen z pair attributes := by
  intro hequ hnam
  have hpar:=parse_split hspl
  rw [if_pos ⟨hequ,hnam⟩] at hpar
  have hfod:=securePreviewCookie_accepted hspl hequ hnam
  by_cases hwit : withheldName (previewCookieName pair)=true
  · rw [if_pos hwit] at hfod ⊢
    by_contra hoth
    have hkep:=h.kept _ hpar fun hvie => hoth (withheld_viewerName hwit hvie)
    rw [hfod] at hkep
    cases hkep
  · rw [if_neg hwit] at hfod ⊢
    obtain ⟨original,cookie,hori,hcoo,hfos⟩ := h.forwarded _ hfod
    rw [hpar] at hori
    rw [parse_forwarded hspl] at hcoo
    obtain ⟨-,hrea⟩ := Option.ite_none_right_eq_some.1 hcoo
    cases hori
    cases hrea
    have hpai : pairOf (Number.trim pair)=pairOf pair := Prod.ext hfos.name hfos.value
    refine ⟨?_,pair_clean hpai,?_⟩
    · have hfor:=hfos.foreign
      rw [hfos.name] at hfor
      exact hfor
    · refine (attributes_kept_iff attributes).1 ⟨hfos.domainless,?_⟩
      rw [← others_forwarded,← others_sent]
      exact hfos.others

theorem confined_of_holdsWhen (hspl : value.toList.splitOn ';' = pair::attributes)
    (h : HoldsWhen z pair attributes) : Confined z value := by
  constructor
  · intro text htex
    by_cases hacc : '=' ∈ pair ∧ (pairOf pair).1≠[]
    swap
    · rw [securePreviewCookie_ignored hspl hacc] at htex
      cases htex
    obtain ⟨hequ,hnam⟩ := hacc
    have hhol:=h hequ hnam
    rw [securePreviewCookie_accepted hspl hequ hnam] at htex
    by_cases hwit : withheldName (previewCookieName pair)=true
    · rw [if_pos hwit] at htex
      cases htex
    rw [if_neg hwit] at htex hhol
    obtain ⟨hfor,hcle,hkep⟩ := hhol
    obtain ⟨hdom,hoth⟩ := (attributes_kept_iff attributes).2 hkep
    have hpai : pairOf (Number.trim pair)=pairOf pair := by rw [hcle,pairOf_trimBlank]
    have hrea:=parse_forwarded hspl
    rw [hpai,if_pos ⟨hequ,hnam⟩,Option.some.inj htex] at hrea
    have hsen:=parse_split hspl
    rw [if_pos ⟨hequ,hnam⟩] at hsen
    refine ⟨_,_,hsen,hrea,hdom,?_,hfor,rfl,rfl,?_⟩
    · exact ⟨(secureName,[]),mem_forwardedAttributes.2 (Or.inl rfl),rfl⟩
    · rw [← others_forwarded,← others_sent] at hoth
      exact hoth
  · intro original hori hfor
    rw [parse_split hspl] at hori
    obtain ⟨⟨hequ,hnam⟩,hsen⟩ := Option.ite_none_right_eq_some.1 hori
    cases hsen
    have hhol:=h hequ hnam
    rw [securePreviewCookie_accepted hspl hequ hnam]
    by_cases hwit : withheldName (previewCookieName pair)=true
    · rw [if_pos hwit] at hhol
      exact absurd (Or.inl ⟨"",hhol⟩) hfor
    · rw [if_neg hwit]
      rfl

/-- What a preview sets as a cookie stays with it, if and only if its name is withheld for being the local name of a
viewer session, or is none of a viewer session and the filter trims and drops nothing that a user agent reads. -/
theorem confined_iff (z : Formats) (value : SetCookieValue) :
    Confined z value.text ↔
      ∀ pair attributes, value.text.toList.splitOn ';' = pair::attributes → HoldsWhen z pair attributes := by
  constructor
  · exact fun h pair attributes hspl => holdsWhen_of_confined h hspl
  · intro h
    cases hspl : value.text.toList.splitOn ';' with
    | nil => exact absurd hspl (List.splitOn_ne_nil _ _)
    | cons pair attributes => exact confined_of_holdsWhen hspl (h pair attributes hspl)

def forgedSession : SetCookieValue where
  text := "__Host-qubicl_view_11111111-1111-4111-8111-111111111111=forged; Path=/"
  bytes := forall_chars (by decide)

/-- A preview can set the cookie of an external viewer session. -/
theorem viewer_session_forged : ¬ ∀ (z : Formats) (value : SetCookieValue), Confined z value.text := by
  intro h
  have hspl : forgedSession.text.toList.splitOn ';' =
      ["__Host-qubicl_view_11111111-1111-4111-8111-111111111111=forged".toList," Path=/".toList] := by decide
  have hhol:=holdsWhen_of_confined (h exampleFormats forgedSession) hspl (by decide) (by decide)
  rw [if_neg (by decide)] at hhol
  refine hhol.1 (Or.inr ⟨"11111111-1111-4111-8111-111111111111",by decide,by decide⟩)

end Names

end Qubicl.Gateway
