import Mathlib.Data.List.Infix
import Qubicl.Foundation.Path
import Qubicl.Foundation.WebUrl

/-!
# Segments that a URL parser leaves alone

What is read of a path without two slashes in a row: no segment of dots, no separator in a segment, escaped or not, and no empty
segment but the last.
-/

namespace Qubicl.Foundation.WebUrl
open Percent List

/-- `/%(?:2e|2f|5c)/iu` at the start of a text. -/
def startsEscape : List Char → Bool
  | p::a::b::_ => p == '%' && (a == '2' && (b == 'e' || b == 'E' || b == 'f' || b == 'F') || a == '5' && (b == 'c' || b == 'C'))
  | _ => false

/-- The escape of a dot or of a separator anywhere in a text. -/
def hasEscape : List Char → Bool
  | [] => false
  | c::rest => startsEscape (c::rest) || hasEscape rest

/-- A segment that has no separators, escaped or not. -/
structure Whole (segment : List Char) : Prop where
  slash : '/' ∉ segment
  backslash : '\\' ∉ segment
  escape : hasEscape segment=false

structure Kept (segment : List Char) : Prop extends Whole segment where
  single : isSingleDot segment=false
  double : isDoubleDot segment=false

section
variable {c : Char} {cs segment rest : List Char} {path segments : List (List Char)}

theorem hasEscape_escapeByte {byte : UInt8} (hbyt : byte.toNat≠0x2e ∧ byte.toNat≠0x2f ∧ byte.toNat≠0x5c) :
    hasEscape (escapeByte byte++rest)=hasEscape rest := by
  have hper : ∀ n : Fin 16, (hexDigit n.val == '%')=false := by decide
  have hsta : ∀ high low : Fin 16, startsEscape ['%',hexDigit high.val,hexDigit low.val]=true →
      high.val=2 ∧ (low.val=14 ∨ low.val=15) ∨ high.val=5 ∧ low.val=12 := by decide
  have hlt : byte.toNat<256 := byte.toNat_lt
  let high : Fin 16 := ⟨byte.toNat / 16,by omega⟩
  let low : Fin 16 := ⟨byte.toNat % 16,by omega⟩
  have hnon : startsEscape ('%' :: hexDigit high.val::hexDigit low.val::rest)=false := by
    by_contra hsom
    have hdig:=hsta high low (Bool.of_not_eq_false hsom)
    simp only [high,low] at hdig
    omega
  have hhig : startsEscape (hexDigit high.val::hexDigit low.val::rest)=false := by
    cases rest with
    | nil => rfl
    | cons c rest => simp [startsEscape,hper high]
  have hlow : startsEscape (hexDigit low.val::rest)=false := by
    match rest with
    | [] => rfl
    | [_] => rfl
    | _::_::_ => simp [startsEscape,hper low]
  show (startsEscape ('%' :: hexDigit high.val::hexDigit low.val::rest) || (startsEscape (hexDigit high.val::hexDigit low.val::rest) ||
    (startsEscape (hexDigit low.val::rest) || hasEscape rest)))=hasEscape rest
  rw [hnon,hhig,hlow]
  rfl

theorem hasEscape_escapeBytes {bytes : List UInt8} (h : ∀ byte ∈ bytes, byte.toNat≠0x2e ∧ byte.toNat≠0x2f ∧ byte.toNat≠0x5c) :
    hasEscape (bytes.flatMap escapeByte++rest)=hasEscape rest := by
  induction bytes with
  | nil => rfl
  | cons byte bytes ih =>
    rw [flatMap_cons,append_assoc,hasEscape_escapeByte (h byte mem_cons_self),
      ih fun other hoth => h other (mem_cons_of_mem byte hoth)]

theorem escaped_bytes (hc : pathSet c=true) : ∀ byte ∈ String.utf8EncodeChar c,
    byte.toNat≠0x2e ∧ byte.toNat≠0x2f ∧ byte.toNat≠0x5c := by
  have hpla : ∀ d : Char, pathSet d=false → ∀ byte ∈ String.utf8EncodeChar c, byte.toNat=d.toNat → d.toNat<128 → False := by
    intro d hd byte hbyt heq hlt
    have hsam : c=d := Char.toNat_inj.1 ((Utf8.byte_lt hbyt (by omega)).trans heq)
    rw [hsam,hd] at hc
    cases hc
  intro byte hbyt
  refine ⟨fun heq => ?_,fun heq => ?_,fun heq => ?_⟩
  · exact hpla '.' (by decide) byte hbyt heq (by decide)
  · exact hpla '/' (by decide) byte hbyt heq (by decide)
  · exact hpla '\\' (by decide) byte hbyt heq (by decide)

/-- A text behind a percent sign does not become an escape. -/
theorem startsEscape_percentEncode (h : startsEscape (c::cs.flatMap (percentEncode pathSet))=true) : startsEscape (c::cs)=true := by
  have hper : ∀ a rest, pathSet a=true → ∃ t, percentEncode pathSet a++rest = '%' :: t := by
    intro a rest ha
    obtain ⟨byte,bytes,hbyt⟩ := exists_cons_of_ne_nil (String.utf8EncodeChar_ne_nil (c := a))
    rw [percentEncode,if_pos ha,hbyt]
    exact ⟨_,rfl⟩
  cases cs with
  | nil => exact h
  | cons a cs =>
    rw [flatMap_cons] at h
    cases ha : pathSet a with
    | true =>
      obtain ⟨t,ht⟩ := hper a (cs.flatMap (percentEncode pathSet)) ha
      rw [ht] at h
      cases t with
      | nil => cases h
      | cons b t => simp [startsEscape] at h
    | false =>
      have hpla : percentEncode pathSet a=[a] := by simp [percentEncode,ha]
      rw [hpla] at h
      cases cs with
      | nil => exact h
      | cons b cs =>
        rw [flatMap_cons] at h
        cases hb : pathSet b with
        | true =>
          obtain ⟨t,ht⟩ := hper b (cs.flatMap (percentEncode pathSet)) hb
          rw [ht] at h
          simp [startsEscape] at h
        | false =>
          have hlas : percentEncode pathSet b=[b] := by simp [percentEncode,hb]
          rw [hlas] at h
          exact h

theorem hasEscape_percentEncode (h : hasEscape (cs.flatMap (percentEncode pathSet))=true) : hasEscape cs=true := by
  induction cs with
  | nil => cases h
  | cons c cs ih =>
    rw [flatMap_cons,percentEncode] at h
    split at h
    next hc =>
      rw [hasEscape_escapeBytes (escaped_bytes hc)] at h
      simp [hasEscape,ih h]
    next hc =>
      have hcas : startsEscape (c::cs.flatMap (percentEncode pathSet))=true ∨ hasEscape (cs.flatMap (percentEncode pathSet))=true := by
        simpa [hasEscape] using h
      rcases hcas with hsta | hrest
      · simp [hasEscape,startsEscape_percentEncode hsta]
      · simp [hasEscape,ih hrest]

theorem mem_percentEncode {d : Char} (h : d ∈ cs.flatMap (percentEncode pathSet)) : d ∈ cs ∨ isEncoded d=true := by
  obtain ⟨c,hc,hd⟩ := mem_flatMap.1 h
  rw [percentEncode] at hd
  split at hd
  next =>
    obtain ⟨byte,-,hbyt⟩ := mem_flatMap.1 hd
    exact Or.inr (isEncoded_escapeByte hbyt)
  next => exact Or.inl (mem_singleton.1 hd ▸ hc)

theorem Whole.encoded (h : Whole segment) : Whole (segment.flatMap (percentEncode pathSet)) where
  slash hmem := (mem_percentEncode hmem).elim h.slash fun hd => by cases hd
  backslash hmem := (mem_percentEncode hmem).elim h.backslash fun hd => by cases hd
  escape := by
    by_contra hsom
    have hesc:=hasEscape_percentEncode (Bool.of_not_eq_false hsom)
    rw [h.escape] at hesc
    cases hesc

theorem walk_kept (hpat : ∀ segment ∈ path, Kept segment) (h : ∀ segment ∈ segments, Whole segment) :
    ∀ segment ∈ walk path segments, Kept segment := by
  have hemp : Kept [] := ⟨⟨by simp,by simp,rfl⟩,rfl,rfl⟩
  have hadd : ∀ (path : List (List Char)) (last : List Char), (∀ segment ∈ path, Kept segment) → Kept last →
      ∀ segment ∈ path++[last], Kept segment := by
    intro path last hpat hlas segment hmem
    rcases mem_append.1 hmem with hmem | hmem
    · exact hpat segment hmem
    · rw [mem_singleton.1 hmem]
      exact hlas
  fun_induction walk path segments with
  | case1 path => exact hpat
  | case2 path last last' hdou => exact hadd _ _ (fun s hs => hpat s (mem_of_mem_dropLast hs)) hemp
  | case3 path last last' hdou hsin => exact hadd _ _ hpat hemp
  | case4 path last last' hdou hsin =>
    exact hadd _ _ hpat ⟨(h last mem_cons_self).encoded,Bool.of_not_eq_true hsin,Bool.of_not_eq_true hdou⟩
  | case5 path segment rest hne segment' ih =>
    refine ih ?_ fun s hs => h s (mem_cons_of_mem segment hs)
    split
    next => exact fun s hs => hpat s (mem_of_mem_dropLast hs)
    next hdou =>
      split
      next => exact hpat
      next hsin =>
        exact hadd _ _ hpat ⟨(h segment mem_cons_self).encoded,Bool.of_not_eq_true hsin,Bool.of_not_eq_true hdou⟩

theorem percentEncode_ne_nil (h : segment≠[]) : segment.flatMap (percentEncode pathSet)≠[] := by
  obtain ⟨c,cs,rfl⟩ := exists_cons_of_ne_nil h
  obtain ⟨byte,bytes,hbyt⟩ := exists_cons_of_ne_nil (String.utf8EncodeChar_ne_nil (c := c))
  rw [flatMap_cons,percentEncode,hbyt]
  split
  next => simp [escapeByte]
  next => simp

theorem walk_nonempty (hpat : ∀ segment ∈ path, segment≠[]) (h : ∀ segment ∈ segments.dropLast, segment≠[]) :
    ∀ segment ∈ (walk path segments).dropLast, segment≠[] := by
  fun_induction walk path segments with
  | case1 path => exact fun s hs => hpat s (mem_of_mem_dropLast hs)
  | case2 path last last' hdou =>
    rw [dropLast_concat]
    exact fun s hs => hpat s (mem_of_mem_dropLast hs)
  | case3 path last last' hdou hsin =>
    rw [dropLast_concat]
    exact hpat
  | case4 path last last' hdou hsin =>
    rw [dropLast_concat]
    exact hpat
  | case5 path segment rest hne segment' ih =>
    rw [dropLast_cons_of_ne_nil hne] at h
    refine ih ?_ fun s hs => h s (mem_cons_of_mem segment hs)
    split
    next => exact fun s hs => hpat s (mem_of_mem_dropLast hs)
    next hdou =>
      split
      next => exact hpat
      next hsin =>
        intro s hs
        rcases mem_append.1 hs with hs | hs
        · exact hpat s hs
        · rw [mem_singleton.1 hs]
          exact percentEncode_ne_nil (h segment mem_cons_self)

theorem walk_ne_nil (h : segments≠[]) : walk path segments≠[] := by
  fun_induction walk path segments with
  | case1 path => exact absurd rfl h
  | case2 path last last' hdou => simp
  | case3 path last last' hdou hsin => simp
  | case4 path last last' hdou hsin => simp
  | case5 path segment rest hne segment' ih => exact ih hne

theorem takeWhile_prefix_takeWhile {p : Char → Bool} (h : segment <+: cs) : segment.takeWhile p <+: cs.takeWhile p := by
  obtain ⟨after,rfl⟩ := h
  rw [takeWhile_append]
  split
  next hall =>
    have hsel : segment.takeWhile p=segment := (List.takeWhile_prefix p).eq_of_length hall
    rw [hsel]
    exact prefix_append ..
  next => exact prefix_rfl

theorem takeWhile_congr {p q : Char → Bool} (h : ∀ c ∈ cs, p c=q c) : cs.takeWhile p=cs.takeWhile q := by
  induction cs with
  | nil => rfl
  | cons c cs ih => rw [takeWhile_cons,takeWhile_cons,h c mem_cons_self,ih fun d hd => h d (mem_cons_of_mem c hd)]

/-- What is read of a text in front of its query, where that has no control characters: the text cut at its end. -/
theorem clean_path {value : List Char} (hsla : (value.takeWhile (· ≠ '?')).head? = some '/')
    (hcha : ∀ c ∈ value.takeWhile (· ≠ '?'), 0x20≤c.toNat) (hhas : '#' ∉ value) :
    (clean value).head? = some '/' ∧ (clean value).takeWhile (!endsPath ·) <+: value.takeWhile (· ≠ '?') := by
  obtain ⟨v,rfl⟩ : ∃ v, value = '/' :: v := by
    cases value with
    | nil => cases hsla
    | cons c v =>
      rw [takeWhile_cons] at hsla
      split at hsla
      · cases hsla
        exact ⟨v,rfl⟩
      · cases hsla
  have htri : Cookies.trimBy isControlOrSpace ('/' :: v)=('/' :: v).rdropWhile isControlOrSpace := by
    unfold Cookies.trimBy
    rw [dropWhile_cons_of_neg (by decide)]
  have hpre : ('/' :: v).rdropWhile isControlOrSpace <+: '/' :: v := rdropWhile_prefix ..
  have hne : ('/' :: v).rdropWhile isControlOrSpace≠[] := by
    rw [Ne,rdropWhile_eq_nil_iff]
    intro hall
    have hbla:=hall '/' mem_cons_self
    cases hbla
  unfold clean
  rw [htri]
  generalize ('/' :: v).rdropWhile isControlOrSpace=t at hpre hne
  obtain ⟨c,t,rfl⟩ := exists_cons_of_ne_nil hne
  obtain rfl : c = '/' := (cons_prefix_cons.1 hpre).1
  refine ⟨rfl,?_⟩
  have hsam : ('/' :: t).takeWhile (fun c => !(!isTabOrNewline c) || !endsPath c)=('/' :: t).takeWhile (· ≠ '?') := by
    refine takeWhile_congr fun c hc => ?_
    have hc : c ≠ '#' := fun h => hhas (hpre.subset (h ▸ hc))
    cases htab : isTabOrNewline c with
    | true =>
      have hque : c ≠ '?' := by
        rintro rfl
        cases htab
      simp [hque]
    | false =>
      have hoth : (c == '#')=false := by simpa using hc
      by_cases hque : c = '?'
      · simp [endsPath,hque]
      · simp [endsPath,hoth,hque]
  have hcut:=takeWhile_prefix_takeWhile (p := (· ≠ '?')) hpre
  rw [takeWhile_filter,hsam,filter_eq_self.2]
  · exact hcut
  · intro c hc
    have hlar:=hcha c (hcut.subset hc)
    have hne : ∀ d : Char, d.toNat<0x20 → c≠d := by
      rintro d hd rfl
      omega
    simp [isTabOrNewline,hne '\t' (by decide),hne '\n' (by decide),hne '\r' (by decide)]

/-- What is read of a path without two slashes in a row: the cut at its ends only shortens the last segment. -/
theorem parseTarget_path {value : List Char} (hsla : (value.takeWhile (· ≠ '?')).head? = some '/')
    (hcha : ∀ c ∈ value.takeWhile (· ≠ '?'), 0x20≤c.toNat ∧ c ≠ '\\') (hhas : '#' ∉ value)
    (hdou : ¬ ['/','/'] <:+: value.takeWhile (· ≠ '?')) :
    ∃ rest search, '/' :: rest <+: value.takeWhile (· ≠ '?') ∧
      parseTarget value=some ⟨(walk [] (rest.splitOn '/')).flatMap ('/' :: ·),search⟩ := by
  obtain ⟨hhea,hpre⟩ := clean_path hsla (fun c hc => (hcha c hc).1) hhas
  cases hcle : clean value with
  | nil =>
    rw [hcle] at hhea
    cases hhea
  | cons c rest =>
    rw [hcle] at hhea hpre
    cases hhea
    have hsam : ('/' :: rest).takeWhile (!endsPath ·) = '/' :: rest.takeWhile (!endsPath ·) := takeWhile_cons_of_pos rfl
    rw [hsam] at hpre
    have hmem : ∀ c ∈ rest.takeWhile (!endsPath ·), c ≠ '\\' := fun c hc =>
      (hcha c (hpre.subset (mem_cons_of_mem _ hc))).2
    have hnex : rest.head?.any isSlash=false := by
      cases rest with
      | nil => rfl
      | cons d rest =>
        by_contra hsla
        have hd : isSlash d=true := Bool.of_not_eq_false hsla
        have hend : endsPath d=false := by
          simp only [isSlash,Bool.or_eq_true,beq_iff_eq] at hd
          rcases hd with rfl | rfl
          · rfl
          · rfl
        rw [takeWhile_cons_of_pos (by simp [hend])] at hpre hmem
        simp only [isSlash,Bool.or_eq_true,beq_iff_eq] at hd
        rcases hd with rfl | rfl
        · exact hdou (List.IsInfix.trans ⟨[],_,rfl⟩ hpre.isInfix)
        · exact hmem _ mem_cons_self rfl
    refine ⟨rest.takeWhile (!endsPath ·),searchOf (rest.dropWhile (!endsPath ·)),hpre,?_⟩
    have hmap : ((rest.takeWhile (!endsPath ·)).map fun c => if c = '\\' then '/' else c)=rest.takeWhile (!endsPath ·) := by
      conv => rhs; rw [← map_id (rest.takeWhile (!endsPath ·))]
      refine map_congr_left fun c hc => ?_
      rw [if_neg (hmem c hc),id]
    unfold parseTarget parsePath
    rw [hcle]
    simp only
    rw [hnex,hmap]
    rfl

theorem splitOn_ne_nil : cs.splitOn '/' ≠ [] := splitOnP_ne_nil _ cs

theorem slash_join (cs : List Char) : '/' :: cs=(cs.splitOn '/').flatMap ('/' :: ·) := by
  rw [flatMap_slash splitOn_ne_nil,intercalate_splitOn]

theorem slash_split (h : segment ∈ cs.splitOn '/') : ∃ before after, '/' :: cs=before ++ '/' :: (segment++after) := by
  obtain ⟨left,right,hpar⟩ := append_of_mem h
  refine ⟨left.flatMap ('/' :: ·),right.flatMap ('/' :: ·),?_⟩
  rw [slash_join,hpar,flatMap_append,flatMap_cons]
  simp

theorem splitOn_pair (h : segment ∈ cs.splitOn '/') : segment <:+: cs := by
  obtain ⟨before,after,hcs⟩ := slash_split h
  cases before with
  | nil =>
    obtain ⟨-,hcs⟩ := List.cons.inj hcs
    exact ⟨[],after,by simp [hcs]⟩
  | cons c before =>
    obtain ⟨-,hcs⟩ := List.cons.inj hcs
    exact ⟨before++['/'],after,by simp [hcs]⟩

/-- Only the last segment of a path without two slashes in a row is empty. -/
theorem splitOn_nonempty (h : ¬ ['/','/'] <:+: '/' :: cs) : ∀ segment ∈ (cs.splitOn '/').dropLast, segment≠[] := by
  intro segment hmem hemp
  subst hemp
  obtain ⟨left,right,hpar⟩ := append_of_mem hmem
  obtain ⟨last,hlas⟩ : ∃ last, cs.splitOn '/' = (cs.splitOn '/').dropLast++[last] :=
    ⟨_,(dropLast_append_getLast splitOn_ne_nil).symm⟩
  obtain ⟨after,haft⟩ : ∃ after, (right++[last]).flatMap ('/' :: ·) = '/' :: after := by
    cases right with
    | nil => exact ⟨_,rfl⟩
    | cons next right => exact ⟨_,rfl⟩
  refine h ⟨left.flatMap ('/' :: ·),after,?_⟩
  have hjoi:=slash_join cs
  rw [hlas,hpar,append_assoc,flatMap_append,cons_append,flatMap_cons,haft] at hjoi
  rw [hjoi]
  simp

theorem startsEscape_append (h : startsEscape cs=true) : startsEscape (cs++rest)=true := by
  match cs with
  | [] => cases h
  | [_] => cases h
  | [_,_] => cases h
  | _::_::_::_ => exact h

theorem hasEscape_append (h : hasEscape (cs++rest)=false) : hasEscape cs=false := by
  induction cs with
  | nil => rfl
  | cons c cs ih =>
    rw [cons_append,hasEscape,Bool.or_eq_false_iff] at h
    rw [hasEscape,Bool.or_eq_false_iff]
    refine ⟨?_,ih h.2⟩
    by_contra hsta
    have hmor : startsEscape (c::cs++rest)=true := startsEscape_append (Bool.of_not_eq_false hsta)
    rw [cons_append,h.1] at hmor
    cases hmor

theorem hasEscape_suffix (h : hasEscape (cs++rest)=false) : hasEscape rest=false := by
  induction cs with
  | nil => exact h
  | cons c cs ih =>
    rw [cons_append,hasEscape,Bool.or_eq_false_iff] at h
    exact ih h.2

theorem splitOn_whole (hbac : '\\' ∉ cs) (hesc : hasEscape cs=false) :
    ∀ segment ∈ cs.splitOn '/', Whole segment := by
  intro segment hmem
  have hinf:=splitOn_pair hmem
  obtain ⟨before,after,hcs⟩ := hinf
  rw [← hcs] at hesc
  exact ⟨splitOn_no_separator hmem,fun h => hbac (hcs ▸ by simp [h]),hasEscape_suffix (hasEscape_append hesc)⟩

end
end Qubicl.Foundation.WebUrl
