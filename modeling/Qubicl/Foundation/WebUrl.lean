import Qubicl.Foundation.Cookies
import Qubicl.Foundation.PercentEncoding
import Qubicl.Foundation.Text

/-!
# Paths and queries of web addresses

What a URL parser makes of the part behind the host, for the schemes in which a backslash is a slash, and what it reads from a
query.
-/

namespace Qubicl.Foundation.WebUrl
open Percent List

def isControlOrSpace (c : Char) : Bool := decide (c.toNat≤0x20)

def isTabOrNewline (c : Char) : Bool := c == '\t' || c == '\n' || c == '\r'

def clean (text : List Char) : List Char := (Cookies.trimBy isControlOrSpace text).filter fun c => !isTabOrNewline c

def percentEncode (set : Char → Bool) (c : Char) : List Char :=
  if set c then (String.utf8EncodeChar c).flatMap escapeByte else [c]

def querySet (c : Char) : Bool := decide (c.toNat<0x20) || decide (0x7e<c.toNat) || " \"#<>".toList.contains c

def specialQuerySet (c : Char) : Bool := querySet c || c == '\''

def pathSet (c : Char) : Bool := querySet c || "?^`\x7b\x7d".toList.contains c

def isSlash (c : Char) : Bool := c == '/' || c == '\\'

/- What follows a dot, or the escape of one. -/
def afterDot : List Char → Option (List Char)
  | '.' :: rest => some rest
  | '%' :: '2' :: letter::rest => if letter = 'e' ∨ letter = 'E' then some rest else none
  | _ => none

def isSingleDot (segment : List Char) : Bool := decide (afterDot segment=some [])

def isDoubleDot (segment : List Char) : Bool := decide ((afterDot segment).bind afterDot=some [])

/- The last segment leaves an empty one where it is one of dots. -/
def walk (path : List (List Char)) : List (List Char) → List (List Char)
  | [] => path
  | [last] =>
    let last:=last.flatMap (percentEncode pathSet)
    if isDoubleDot last then path.dropLast++[[]] else if isSingleDot last then path++[[]] else path++[last]
  | segment::rest =>
    let segment:=segment.flatMap (percentEncode pathSet)
    walk (if isDoubleDot segment then path.dropLast else if isSingleDot segment then path else path++[segment]) rest

structure Reference where
  pathname : List Char
  search : List Char
  deriving DecidableEq, Repr

def endsPath (c : Char) : Bool := c == '?' || c == '#'

def searchOf : List Char → List Char
  | '?' :: query =>
    match (query.takeWhile (· ≠ '#')).flatMap (percentEncode specialQuerySet) with
    | [] => []
    | c::rest => '?' :: c::rest
  | _ => []

/-- What follows the first slash of a path. -/
def parsePath (chars : List Char) : Reference where
  pathname := (walk [] (((chars.takeWhile (!endsPath ·)).map fun c => if c = '\\' then '/' else c).splitOn '/')).flatMap ('/' :: ·)
  search := searchOf (chars.dropWhile (!endsPath ·))

/-- `new URL(target, origin)`, for a target that is a path of that origin. -/
def parseTarget (target : List Char) : Option Reference :=
  match clean target with
  | [] => none
  | first::rest => if isSlash first && !(rest.head?.any isSlash) then some (parsePath rest) else none

/-- `new URL(text)`, for a text with a scheme and a host that are accepted. -/
def parseUrl (text : List Char) : Option Reference :=
  match (clean text).dropWhile (· ≠ ':') with
  | [] => none
  | _::afterScheme =>
    match (afterScheme.dropWhile isSlash).dropWhile fun c => !(isSlash c || endsPath c) with
    | [] => some (parsePath [])
    | first::rest => some (parsePath (if isSlash first then rest else first::rest))

def formBytes : ℕ → List Char → List UInt8
  | 0, _ => []
  | _+1, [] => []
  | n+1, c::rest =>
    match escapedByte (c::rest) with
    | some (byte,after) => byte::formBytes n after
    | none => if c = '+' then 0x20::formBytes n rest else String.utf8EncodeChar c++formBytes n rest

def formDecode (chars : List Char) : String := Utf8.decode (formBytes chars.length chars)

/-- `searchParams` -/
def searchParams (search : List Char) : List (String × String) :=
  (((search.drop 1).splitOn '&').filter (· ≠ [])).map fun pair =>
    (formDecode (Cookies.keyOf pair),formDecode (Cookies.valueOf pair))

/-- A segment of an encoded path that is not one of dots. -/
structure Plain (segment : List Char) : Prop where
  encoded : ∀ c ∈ segment, isEncoded c=true
  single : isSingleDot segment=false
  double : isDoubleDot segment=false

variable {c : Char} {cs rest : List Char}

theorem toNat_of_isEncoded (h : isEncoded c=true) : 0x20<c.toNat ∧ c.toNat<0x7f := by
  simp only [isEncoded,isUnreserved,Bool.or_eq_true,isAlphanum_eq,isUpper_eq,isLower_eq,Char.isDigit,
    Bool.and_eq_true,decide_eq_true_eq,UInt32.le_iff_toNat_le,contains_iff_mem,beq_iff_eq] at h
  have hval : c.val.toNat=c.toNat := rfl
  have hmar : ∀ d ∈ "-_.!~*'()".toList, 0x20<d.toNat ∧ d.toNat<0x7f := forall_chars (by decide)
  rcases h with (((⟨hlow,hhig⟩ | ⟨hlow,hhig⟩) | ⟨hlow,hhig⟩) | hmark) | rfl
  · have hfir : 'A'.val.toNat=65 := rfl
    have hlas : 'Z'.val.toNat=90 := rfl
    omega
  · have hfir : 'a'.val.toNat=97 := rfl
    have hlas : 'z'.val.toNat=122 := rfl
    omega
  · have hfir : '0'.val.toNat=48 := rfl
    have hlas : '9'.val.toNat=57 := rfl
    omega
  · exact hmar c hmark
  · decide

theorem ne_of_isEncoded {d : Char} (h : isEncoded c=true) (hd : isEncoded d=false) : c≠d := by
  rintro rfl
  rw [h] at hd
  cases hd

theorem clean_eq_self (h : ∀ c ∈ cs, 0x20<c.toNat) : clean cs=cs := by
  have htig : Cookies.Tight isControlOrSpace cs := by
    constructor
    · intro c hc
      exact decide_eq_false (Nat.not_le_of_lt (h c (mem_of_mem_head? hc)))
    · intro c hc
      exact decide_eq_false (Nat.not_le_of_lt (h c (mem_of_mem_getLast? hc)))
  have htri : Cookies.trimBy isControlOrSpace cs=cs := by
    simpa using htig.trimBy_eq (a := []) (b := []) (by simp) (by simp)
  rw [clean,htri,filter_eq_self]
  intro c hc
  have hlar:=h c hc
  have hne : ∀ d : Char, d.toNat≤0x20 → c≠d := by
    rintro d hd rfl
    omega
  simp [isTabOrNewline,hne '\t' (by decide),hne '\n' (by decide),hne '\r' (by decide)]

theorem pathSet_of_isEncoded (h : isEncoded c=true) : pathSet c=false := by
  obtain ⟨hlow,hhig⟩ := toNat_of_isEncoded h
  have hmar : ∀ d ∈ "?^`\x7b\x7d \"#<>".toList, isEncoded d=false := forall_chars (by decide)
  have hne : ∀ d ∈ "?^`\x7b\x7d \"#<>".toList, c≠d := fun d hd => ne_of_isEncoded h (hmar d hd)
  have hcon : ∀ marks : List Char, (∀ d ∈ marks, c≠d) → marks.contains c=false := by
    intro marks hmar
    rw [← Bool.not_eq_true,contains_iff_mem]
    exact fun hmem => hmar c hmem rfl
  have hque : " \"#<>".toList.contains c=false := hcon _ fun d hd => hne d (mem_append_right "?^`\x7b\x7d".toList hd)
  have hpat : "?^`\x7b\x7d".toList.contains c=false := hcon _ fun d hd => hne d (mem_append_left " \"#<>".toList hd)
  rw [pathSet,querySet,hque,hpat,decide_eq_false (by omega),decide_eq_false (by omega)]
  rfl

theorem flatMap_percentEncode {set : Char → Bool} (h : ∀ c ∈ cs, set c=false) :
    cs.flatMap (percentEncode set)=cs := by
  induction cs with
  | nil => rfl
  | cons c cs ih =>
    have hc : percentEncode set c=[c] := by
      rw [percentEncode,h c mem_cons_self]
      rfl
    rw [flatMap_cons,hc,ih fun d hd => h d (mem_cons_of_mem _ hd)]
    rfl

theorem Plain.percentEncode {segment : List Char} (h : Plain segment) :
    segment.flatMap (WebUrl.percentEncode pathSet)=segment :=
  flatMap_percentEncode fun c hc => pathSet_of_isEncoded (h.encoded c hc)

theorem walk_plain (segments path : List (List Char)) (h : ∀ segment ∈ segments, Plain segment) :
    walk path segments=path++segments := by
  induction segments generalizing path with
  | nil => simp [walk]
  | cons segment rest ih =>
    have hpla:=h segment mem_cons_self
    cases rest with
    | nil =>
      simp only [walk,hpla.percentEncode,hpla.double,hpla.single]
      rfl
    | cons next rest =>
      rw [walk,hpla.percentEncode,hpla.double,hpla.single]
      · simp only [Bool.false_eq_true,if_false]
        rw [ih _ fun other hoth => h other (mem_cons_of_mem _ hoth),append_assoc]
        rfl
      · exact cons_ne_nil _ _

theorem mem_intercalate {segments : List (List Char)} (h : c ∈ ['/'].intercalate segments) :
    c = '/' ∨ ∃ segment ∈ segments, c ∈ segment := by
  induction segments with
  | nil => simp [List.intercalate] at h
  | cons segment rest ih =>
    cases rest with
    | nil =>
      rw [intercalate_singleton] at h
      exact Or.inr ⟨segment,mem_cons_self,h⟩
    | cons next rest =>
      rw [intercalate_cons_cons,mem_append,mem_append,mem_singleton] at h
      rcases h with (h | h) | h
      · exact Or.inr ⟨segment,mem_cons_self,h⟩
      · exact Or.inl h
      · exact (ih h).imp_right fun ⟨other,hoth,hc⟩ => ⟨other,mem_cons_of_mem _ hoth,hc⟩

/-- A path of plain segments is parsed to itself. -/
theorem parsePath_plain {segments : List (List Char)} (hne : segments≠[]) (h : ∀ segment ∈ segments, Plain segment)
    {search : List Char} (hsea : search=[] ∨ ∃ query, search = '?' :: query) :
    parsePath (['/'].intercalate segments++search)=⟨segments.flatMap ('/' :: ·),searchOf search⟩ := by
  have hpat : ∀ c ∈ ['/'].intercalate segments, endsPath c=false ∧ c ≠ '\\' := by
    intro c hc
    rcases mem_intercalate hc with rfl | ⟨segment,hseg,hc⟩
    · decide
    · have henc:=(h segment hseg).encoded c hc
      have hque:=ne_of_isEncoded henc (d := '?') (by decide)
      have hhas:=ne_of_isEncoded henc (d := '#') (by decide)
      exact ⟨by simp [endsPath,hque,hhas],ne_of_isEncoded henc (by decide)⟩
  have htak : (['/'].intercalate segments++search).takeWhile (!endsPath ·)=['/'].intercalate segments := by
    rw [takeWhile_append_of_pos fun c hc => by rw [(hpat c hc).1]; rfl]
    rcases hsea with rfl | ⟨query,rfl⟩
    · simp
    · simp [endsPath]
  have hdro : (['/'].intercalate segments++search).dropWhile (!endsPath ·)=search := by
    rw [dropWhile_append_of_pos fun c hc => by rw [(hpat c hc).1]; rfl]
    rcases hsea with rfl | ⟨query,rfl⟩
    · simp
    · simp [endsPath]
  have hmap : (['/'].intercalate segments).map (fun c => if c = '\\' then '/' else c)=['/'].intercalate segments := by
    conv => rhs; rw [← map_id (['/'].intercalate segments)]
    refine map_congr_left fun c hc => ?_
    rw [if_neg (hpat c hc).2,id]
  have hspl : (['/'].intercalate segments).splitOn '/' = segments :=
    splitOn_intercalate '/'
      (fun segment hseg hsla => ne_of_isEncoded ((h segment hseg).encoded '/' hsla) (by decide) rfl) hne
  unfold parsePath
  rw [htak,hdro,hmap,hspl,walk_plain _ _ h,nil_append]

theorem searchOf_plain {query : List Char} (hne : query≠[]) (h : ∀ c ∈ query, specialQuerySet c=false ∧ c ≠ '#') :
    searchOf ('?' :: query) = '?' :: query := by
  have htak : query.takeWhile (· ≠ '#')=query := by
    rw [takeWhile_eq_self_iff]
    exact fun c hc => by simpa using (h c hc).2
  have henc : query.flatMap (percentEncode specialQuerySet)=query := flatMap_percentEncode fun c hc => (h c hc).1
  simp only [searchOf,htak,henc]
  cases query with
  | nil => exact absurd rfl hne
  | cons c rest => rfl

/-- A query that is left as it is. -/
structure PlainQuery (query : List Char) : Prop where
  nonempty : query≠[]
  large : ∀ c ∈ query, 0x20<c.toNat
  kept : ∀ c ∈ query, specialQuerySet c=false ∧ c ≠ '#'

section Addresses
variable {segments : List (List Char)} {query : List Char}

theorem flatMap_slash (hne : segments≠[]) : segments.flatMap ('/' :: ·) = '/' :: ['/'].intercalate segments := by
  induction segments with
  | nil => exact absurd rfl hne
  | cons segment rest ih =>
    cases rest with
    | nil => simp
    | cons next rest =>
      rw [flatMap_cons,ih (cons_ne_nil _ _),intercalate_cons_cons]
      simp

theorem toNat_of_plain (hpla : ∀ segment ∈ segments, Plain segment) (hque : PlainQuery query)
    (h : c ∈ segments.flatMap ('/' :: ·) ++ '?' :: query) : 0x20<c.toNat := by
  rcases mem_append.1 h with h | h
  · obtain ⟨segment,hseg,hc⟩ := mem_flatMap.1 h
    rcases mem_cons.1 hc with rfl | hc
    · decide
    · exact (toNat_of_isEncoded ((hpla segment hseg).encoded c hc)).1
  · rcases mem_cons.1 h with rfl | h
    · decide
    · exact hque.large c h

theorem parsePath_link (hne : segments≠[]) (hpla : ∀ segment ∈ segments, Plain segment) (hque : PlainQuery query) :
    parsePath (['/'].intercalate segments ++ '?' :: query)=⟨segments.flatMap ('/' :: ·),'?' :: query⟩ := by
  rw [parsePath_plain hne hpla (Or.inr ⟨query,rfl⟩),searchOf_plain hque.nonempty hque.kept]

/-- A target of plain segments and a plain query is parsed to itself. -/
theorem parseTarget_plain {first : List Char} (hfir : first≠[]) (hpla : ∀ segment ∈ first::segments, Plain segment)
    (hque : PlainQuery query) :
    parseTarget ((first::segments).flatMap ('/' :: ·) ++ '?' :: query) =
      some ⟨(first::segments).flatMap ('/' :: ·),'?' :: query⟩ := by
  have hcle:=clean_eq_self fun c hc => toNat_of_plain hpla hque hc
  have hhea : ((['/'].intercalate (first::segments) ++ '?' :: query).head?.any isSlash)=false := by
    obtain ⟨c,rest,rfl⟩ := exists_cons_of_ne_nil hfir
    have henc:=(hpla (c::rest) mem_cons_self).encoded c mem_cons_self
    have hc : isSlash c=false := by
      simp [isSlash,ne_of_isEncoded henc (d := '/') (by decide),ne_of_isEncoded henc (d := '\\') (by decide)]
    cases segments with
    | nil => simpa using hc
    | cons next others => simpa [intercalate_cons_cons] using hc
  have hpat:=parsePath_link (cons_ne_nil first segments) hpla hque
  have hsla : isSlash '/' = true := rfl
  rw [parseTarget,hcle,flatMap_slash (cons_ne_nil _ _),cons_append]
  simp only
  rw [hsla,hhea,hpat,flatMap_slash (cons_ne_nil _ _)]
  rfl

/-- A URL of a plain path below its host has that path. -/
theorem parseUrl_plain {scheme authority : List Char} (hsch : ∀ c ∈ scheme, c ≠ ':' ∧ 0x20<c.toNat) (hhos : authority≠[])
    (haut : ∀ c ∈ authority, 0x20<c.toNat ∧ isSlash c=false ∧ endsPath c=false) (hne : segments≠[])
    (hpla : ∀ segment ∈ segments, Plain segment) (hque : PlainQuery query) :
    parseUrl (scheme ++ "://".toList++authority++(segments.flatMap ('/' :: ·) ++ '?' :: query)) =
      some ⟨segments.flatMap ('/' :: ·),'?' :: query⟩ := by
  have hcle : clean (scheme ++ "://".toList++authority++(segments.flatMap ('/' :: ·) ++ '?' :: query)) =
      scheme ++ ':' :: '/' :: '/' :: (authority ++ '/' :: (['/'].intercalate segments ++ '?' :: query)) := by
    rw [clean_eq_self,flatMap_slash hne]
    · simp
    · intro c hc
      rcases mem_append.1 hc with hc | hc
      · rcases mem_append.1 hc with hc | hc
        · rcases mem_append.1 hc with hc | hc
          · exact (hsch c hc).2
          · have hall : ∀ c ∈ "://".toList, 0x20<c.toNat := forall_chars (by decide)
            exact hall c hc
        · exact (haut c hc).1
      · exact toNat_of_plain hpla hque hc
  have hcol : (scheme ++ ':' :: '/' :: '/' :: (authority ++ '/' :: (['/'].intercalate segments ++ '?' :: query))).dropWhile
      (· ≠ ':') = ':' :: '/' :: '/' :: (authority ++ '/' :: (['/'].intercalate segments ++ '?' :: query)) := by
    rw [dropWhile_append_of_pos fun c hc => by simpa using (hsch c hc).1]
    simp
  have hsla : ('/' :: '/' :: (authority ++ '/' :: (['/'].intercalate segments ++ '?' :: query))).dropWhile isSlash =
      authority ++ '/' :: (['/'].intercalate segments ++ '?' :: query) := by
    obtain ⟨c,rest,rfl⟩ := exists_cons_of_ne_nil hhos
    have hc:=(haut c mem_cons_self).2.1
    rw [dropWhile_cons_of_pos rfl,dropWhile_cons_of_pos rfl,cons_append,
      dropWhile_cons_of_neg (by simp [hc])]
  have hend : (authority ++ '/' :: (['/'].intercalate segments ++ '?' :: query)).dropWhile (fun c => !(isSlash c || endsPath c)) =
      '/' :: (['/'].intercalate segments ++ '?' :: query) := by
    rw [dropWhile_append_of_pos fun c hc => by simp [(haut c hc).2.1,(haut c hc).2.2]]
    simp [isSlash]
  rw [parseUrl,hcle,hcol]
  simp only
  rw [hsla,hend]
  simp only
  rw [if_pos (by rfl),parsePath_link hne hpla hque]

end Addresses

theorem formBytes_eq (h : ∀ c ∈ cs, c ≠ '%' ∧ c ≠ '+') (n : ℕ) (hn : cs.length≤n) :
    formBytes n cs=Utf8.encodeChars cs := by
  induction cs generalizing n with
  | nil => cases n <;> rfl
  | cons c cs ih =>
    cases n with
    | zero => cases hn
    | succ n =>
      obtain ⟨hper,hplu⟩ := h c mem_cons_self
      have hesc : escapedByte (c::cs)=none := by
        unfold escapedByte
        split
        next hcon =>
          rw [List.cons.injEq] at hcon
          exact absurd hcon.1 hper
        next => rfl
      rw [formBytes,hesc]
      simp only
      rw [if_neg hplu,ih (fun d hd => h d (mem_cons_of_mem _ hd)) n (Nat.le_of_succ_le_succ hn)]
      rfl

theorem formDecode_eq {text : String} (h : ∀ c ∈ text.toList, c ≠ '%' ∧ c ≠ '+') : formDecode text.toList=text := by
  unfold formDecode
  rw [formBytes_eq h _ (Nat.le_refl _)]
  exact Utf8.decode_encode text

theorem decodeChars_afterDot (h : afterDot cs=some rest) (n : ℕ) :
    decodeChars (n+1) cs=(decodeChars n rest).map ('.' :: ·) := by
  unfold afterDot at h
  split at h
  next more =>
    cases h
    rw [decodeChars,if_neg (by decide)]
  next letter more =>
    split at h
    next hlet =>
      cases h
      have hcha : escapedChar ('%' :: '2' :: letter::rest)=some ('.',rest) := by
        rcases hlet with rfl | rfl
        · rfl
        · rfl
      rw [decodeChars,if_pos rfl,hcha]
      rfl
    next => cases h
  next => cases h

theorem length_afterDot (h : afterDot cs=some rest) : rest.length<cs.length := by
  unfold afterDot at h
  split at h
  next more =>
    cases h
    simp
  next letter more =>
    split at h
    next =>
      cases h
      simp only [length_cons]
      omega
    next => cases h
  next => cases h

theorem plain_encodeComponent {text : String} (hdot : text ≠ ".") (hdos : text ≠ "..") : Plain (encodeComponent text).toList := by
  have hrou:=decodeComponent_encodeComponent text
  generalize hcha : (encodeComponent text).toList=chars
  rw [decodeComponent,hcha] at hrou
  refine ⟨fun c hc => isEncoded_of_mem (hcha ▸ hc),?_,?_⟩
  · refine decide_eq_false fun hsin => hdot ?_
    have hlen:=length_afterDot hsin
    cases hn : chars.length with
    | zero => omega
    | succ n =>
      rw [hn,decodeChars_afterDot hsin] at hrou
      cases n <;> exact (Option.some.inj hrou).symm
  · refine decide_eq_false fun hdou => hdos ?_
    obtain ⟨rest,hfir,hsec⟩ := Option.bind_eq_some_iff.1 hdou
    have hlen:=length_afterDot hfir
    have hlen':=length_afterDot hsec
    cases hn : chars.length with
    | zero => omega
    | succ n =>
      cases n with
      | zero => omega
      | succ n =>
        rw [hn,decodeChars_afterDot hfir,decodeChars_afterDot hsec] at hrou
        cases n <;> exact (Option.some.inj hrou).symm

end Qubicl.Foundation.WebUrl
