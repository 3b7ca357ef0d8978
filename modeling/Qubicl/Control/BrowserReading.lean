import Mathlib
import Qubicl.Control.Lease.Manager

/-!
# Pages of a captured text (packages/control/src/browser-reading.ts:129-165)

A captured text is read page by page, or searched page by page, with a size that may change from call to call. Texts are
sequences of UTF-16 code units. The case folding of the language is a parameter.
-/

namespace Qubicl.Control.BrowserReading
open List Option

/-- The longest text that the language has. -/
def maxStringLength : ℕ := 2 ^ 29 - 24

abbrev isHigh (unit : UInt16) : Prop := 0xd800≤unit.toNat ∧ unit.toNat<0xdc00

abbrev isLow (unit : UInt16) : Prop := 0xdc00≤unit.toNat ∧ unit.toNat<0xe000

/-- The bytes of a unit in a JSON text, where it is no part of a pair. -/
def unitBytes (unit : UInt16) : ℕ :=
  if unit.toNat ∈ [8,9,10,12,13,34,92] then 2
  else if unit.toNat<0x20 then 6
  else if unit.toNat<0x80 then 1
  else if unit.toNat<0x800 then 2
  else if 0xd800≤unit.toNat ∧ unit.toNat<0xe000 then 6
  else 3

def jsonBytes : List UInt16 → ℕ
  | [] => 0
  | [unit] => unitBytes unit
  | unit::next::rest =>
    if isHigh unit ∧ isLow next then 4+jsonBytes rest else unitBytes unit+jsonBytes (next::rest)

/-- `Buffer.byteLength(JSON.stringify(text))` -/
def jsonSize (text : List UInt16) : ℕ := 2+jsonBytes text

instance decidableHighUnit : ∀ unit? : Option UInt16, Decidable (∃ unit ∈ unit?, isHigh unit)
  | none => isFalse (by simp)
  | some unit => decidable_of_iff (isHigh unit) (by simp)

/-- `end` of a candidate: a surrogate that its second half may follow is left to the next page. -/
def cut (text : List UInt16) (middle : ℕ) : ℕ :=
  if 0 < middle ∧ ∃ unit ∈ text[middle - 1]?, isHigh unit then middle - 1 else middle

def fitLoop (text : List UInt16) (budget lower : ℕ) (upper : ℤ) (result : List UInt16) : List UInt16 :=
  if (lower : ℤ)≤upper then
    let middle:=(lower+upper.toNat) / 2
    let candidate:=text.take (cut text middle)
    if jsonSize candidate≤budget then fitLoop text budget (middle+1) upper candidate
    else fitLoop text budget lower ((middle : ℤ) - 1) result
  else result
termination_by (upper+1 - lower).toNat
decreasing_by all_goals omega

/-- A half in the budget counts for nothing: sizes are whole. -/
def fitJsonText (text : List UInt16) (budget : ℕ) : List UInt16 := fitLoop text budget 0 (min text.length budget : ℕ) []

structure TextMatch where
  start : ℕ
  stop : ℕ
  excerpt : List UInt16

structure TextPage where
  content : Option (List UInt16) := none
  found : Option (List TextMatch) := none
  nextOffset : Option ℕ

/-- The code point at the beginning of a text, and how many units it has. -/
def codePointAt : List UInt16 → Option (ℕ × ℕ)
  | [] => none
  | [unit] => some (unit.toNat,1)
  | unit::next::_ =>
    if isHigh unit ∧ isLow next then some (0x10000+(unit.toNat - 0xd800)*0x400+(next.toNat - 0xdc00),2)
    else some (unit.toNat,1)

def codePoints : List UInt16 → List ℕ
  | [] => []
  | [unit] => [unit.toNat]
  | unit::next::rest =>
    if isHigh unit ∧ isLow next then (0x10000+(unit.toNat - 0xd800)*0x400+(next.toNat - 0xdc00))::codePoints rest
    else unit.toNat::codePoints (next::rest)

/-- The length of the match of an escaped query, which stands for its own code points, at the beginning of a text. -/
def matchAt (fold : ℕ → ℕ) : List ℕ → List UInt16 → Option ℕ
  | [], _ => some 0
  | point::points, text =>
    match codePointAt text with
    | none => none
    | some (value,width) =>
      if fold value=fold point then (matchAt fold points (text.drop width)).map (width + ·) else none

/-- What `exec` of a global expression with the flag `u` finds one after another: the places are tried one code point
after another, and after a match its end. -/
def matchesFrom (fold : ℕ → ℕ) (points : List ℕ) : ℕ → ℕ → List UInt16 → List (ℕ × ℕ)
  | _, _, [] => []
  | skip+1, position, _::rest => matchesFrom fold points skip (position+1) rest
  | 0, position, unit::rest =>
    match matchAt fold points (unit::rest) with
    | some length => (position,position+length)::matchesFrom fold points (length - 1) (position+1) rest
    | none => matchesFrom fold points (((codePointAt (unit::rest)).elim 1 Prod.snd) - 1) (position+1) rest

/-- The bytes of `{"start":…,"end":…,"excerpt":…}`. -/
def recordSize (record : TextMatch) : ℕ :=
  28+(Nat.toDigits 10 record.start).length+(Nat.toDigits 10 record.stop).length+jsonSize record.excerpt

def recordsSize (records : List TextMatch) : ℕ := 2+(records.map recordSize).sum+(records.length - 1)

def slice (text : List UInt16) (start stop : ℕ) : List UInt16 := (text.drop start).take (stop - start)

def readMatches (text : List UInt16) (budget : ℕ) : List (ℕ × ℕ) → List TextMatch → TextPage
  | [], found => { found := some found, nextOffset := none }
  | (start,stop)::rest, found =>
    let excerpt:=fitJsonText (slice text (start - 100) (stop+160)) (min 512 (budget / 2))
    if 50≤found.length ∨ budget<recordsSize (found++[⟨start,stop,excerpt⟩]) then
      { found := some found, nextOffset := some start }
    else readMatches text budget rest (found++[⟨start,stop,excerpt⟩])

def budgetOf (maxBytes : ℤ) : ℕ := (max 512 (min 16000 maxBytes)).toNat

def readTextPage (simpleFold : ℕ → ℕ) (text : List UInt16) (offset : ℕ) (maxBytes : ℤ) (query : Option (List UInt16))
    (caseSensitive : Bool) : Except QubiclError TextPage :=
  match query with
  | none =>
    let content:=fitJsonText (text.drop offset) (budgetOf maxBytes)
    .ok { content := some content
          nextOffset := if offset+content.length<text.length then some (offset+content.length) else none }
  | some [] => .error ⟨"browser_read_arguments","Search query must not be empty.",400,[]⟩
  | some query => .ok (readMatches text (budgetOf maxBytes)
      (matchesFrom (if caseSensitive then id else simpleFold) (codePoints query) 0 offset (text.drop offset)) [])

theorem unitBytes_le (unit : UInt16) : unitBytes unit≤6 := by
  unfold unitBytes
  split_ifs <;> omega

theorem jsonBytes_le (text : List UInt16) : jsonBytes text≤6*text.length := by
  fun_induction jsonBytes text with
  | case1 => omega
  | case2 unit =>
    have := unitBytes_le unit
    simpa using this
  | case3 unit next rest _ ih =>
    simp only [length_cons]
    omega
  | case4 unit next rest _ ih =>
    have := unitBytes_le unit
    simp only [length_cons] at ih ⊢
    omega

theorem cut_le (text : List UInt16) (middle : ℕ) : cut text middle ≤ middle ∧ middle≤cut text middle+1 := by
  unfold cut
  split <;> omega

/-- The result of the search is the candidate of some middle that was tried. -/
structure Tried (text : List UInt16) (budget lower : ℕ) (result : List UInt16) (middle : ℕ) : Prop where
  bounded : middle≤text.length
  candidate : result=text.take (cut text middle)
  fits : jsonSize result≤budget
  reached : lower ≤ middle+1

variable {budget middle n : ℕ}

theorem fitLoop_tried {text result : List UInt16} {lower least : ℕ} {upper : ℤ} (hlea : 2+6*least≤budget)
    (hupp : upper≤text.length) (hupperLeast : (min text.length least : ℕ)≤upper)
    (htri : Tried text budget lower result middle) :
    ∃ middle, min text.length least ≤ middle ∧ Tried text budget 0 (fitLoop text budget lower upper result) middle := by
  fun_induction fitLoop text budget lower upper result generalizing middle with
  | case1 lower upper result hle tried candidate hfit =>
    rename_i ih
    exact ih hupp hupperLeast ⟨by omega,rfl,hfit,Nat.le_refl _⟩
  | case2 lower upper result hle tried candidate hfit =>
    rename_i ih
    -- what does not fit is longer than what is certain to fit
    have hbyt:=jsonBytes_le candidate
    have hlen : candidate.length≤tried := (length_take_le _ _).trans (cut_le text tried).1
    unfold jsonSize at hfit
    exact ih (by omega) (by omega) htri
  | case3 lower upper result hle =>
    have := htri.reached
    exact ⟨middle,by omega,htri.bounded,htri.candidate,htri.fits,Nat.zero_le _⟩

theorem fitJsonText_tried (text : List UInt16) (least : ℕ) (hlea : 2+6*least≤budget) :
    ∃ middle, min text.length least ≤ middle ∧ Tried text budget 0 (fitJsonText text budget) middle := by
  have hemp : Tried text budget 0 [] 0 := ⟨Nat.zero_le _,rfl,Nat.le_trans (Nat.le_add_right _ _) hlea,by omega⟩
  exact fitLoop_tried hlea (by omega) (by omega) hemp

theorem fitJsonText_size (text : List UInt16) (h : 2≤budget) : jsonSize (fitJsonText text budget)≤budget := by
  obtain ⟨middle,-,htri⟩ := fitJsonText_tried text 0 h
  exact htri.fits

def SplitsPair (text : List UInt16) (border : ℕ) : Prop :=
  0<border ∧ (∃ unit ∈ text[border - 1]?, isHigh unit) ∧ ∃ unit ∈ text[border]?, isLow unit

def EndsHigh (text : List UInt16) : Prop := ∃ unit ∈ text.getLast?, isHigh unit

theorem cut_not_splits (text : List UInt16) : ¬ SplitsPair text (cut text middle) := by
  rintro ⟨hpos,⟨high,hhig,hisHigh⟩,low,hlow,hisLow⟩
  unfold cut at hpos hhig hlow
  split at hpos
  · rename_i h
    rw [if_pos h] at hlow
    obtain ⟨-,unit,huni,hisUnit⟩ := h
    rw [mem_def] at huni hlow
    obtain rfl : unit=low := Option.some.inj (huni.symm.trans hlow)
    omega
  · rename_i h
    rw [if_neg h] at hhig
    exact h ⟨hpos,high,hhig,hisHigh⟩

theorem cut_all {text : List UInt16} (hne : text≠[]) : cut text text.length=text.length ↔ ¬ EndsHigh text := by
  have hpos:=length_pos_iff.2 hne
  unfold cut EndsHigh
  rw [getLast?_eq_getElem?]
  split
  · rename_i h
    exact ⟨by omega,fun hnot => absurd h.2 hnot⟩
  · rename_i h
    exact ⟨fun _ hhig => h ⟨hpos,hhig⟩,fun _ => rfl⟩

/-- A page of the text takes something of the rest, and all of it only where that does not end with half a pair. -/
theorem fitJsonText_page {rest : List UInt16} (hne : rest≠[]) (hbud : 512≤budget) :
    ∃ n≤rest.length, fitJsonText rest budget=rest.take n ∧ ¬ SplitsPair rest n ∧ (n=rest.length → ¬ EndsHigh rest) ∧
      (¬ EndsHigh rest → 0<n) := by
  obtain ⟨middle,hmid,htri⟩ := fitJsonText_tried rest 85 (Nat.le_trans (by decide) hbud)
  have hcut:=cut_le rest middle
  have hbou:=htri.bounded
  have hpos:=length_pos_iff.2 hne
  refine ⟨cut rest middle,by omega,htri.candidate,cut_not_splits rest,fun hall => ?_,fun hend => ?_⟩
  · obtain rfl : middle=rest.length := by omega
    exact (cut_all hne).1 hall
  · by_cases hone : middle=rest.length
    · rw [hone,(cut_all hne).2 hend]
      exact hpos
    · omega

theorem SplitsPair.of_drop {text : List UInt16} {offset : ℕ} (hpos : 0<n) (h : SplitsPair text (offset+n)) :
    SplitsPair (text.drop offset) n := by
  obtain ⟨-,hhig,hlow⟩ := h
  refine ⟨hpos,?_,?_⟩
  · rwa [getElem?_drop,← Nat.add_sub_assoc hpos]
  · rwa [getElem?_drop]

theorem endsHigh_drop {text : List UInt16} {offset : ℕ} (h : offset<text.length) :
    EndsHigh (text.drop offset) ↔ EndsHigh text := by
  unfold EndsHigh
  rw [getLast?_drop,if_neg (by omega)]

section Followed
variable (simpleFold : ℕ → ℕ) (text : List UInt16) (query : Option (List UInt16)) (caseSensitive : Bool) (maxBytes : ℕ → ℤ)

/-- The pages of a read from some call on, each with its budget: every call starts where the page before says. -/
inductive Followed : ℕ → ℕ → List (ℕ × TextPage) → Prop
  | last {call offset : ℕ} {page : TextPage} (h : readTextPage simpleFold text offset (maxBytes call) query caseSensitive=.ok page)
      (hlast : page.nextOffset=none) : Followed call offset [(budgetOf (maxBytes call),page)]
  | more {call offset next : ℕ} {page : TextPage} {pages : List (ℕ × TextPage)}
      (h : readTextPage simpleFold text offset (maxBytes call) query caseSensitive=.ok page)
      (hnext : page.nextOffset=some next) (hrest : Followed (call+1) next pages) :
      Followed call offset ((budgetOf (maxBytes call),page)::pages)

/-- What the pages of a read of the whole text are to be. -/
structure ReadsText (pages : List (ℕ × TextPage)) : Prop where
  whole : pages.flatMap (fun page => page.2.content.getD [])=text
  sizes : ∀ page ∈ pages, jsonSize (page.2.content.getD [])≤page.1
  pairs : ∀ page ∈ pages, ∀ next ∈ page.2.nextOffset, ¬ SplitsPair text next

/-- What the pages of a search are to be. -/
structure FindsMatches (query : List UInt16) (pages : List (ℕ × TextPage)) : Prop where
  every : pages.flatMap (fun page => (page.2.found.getD []).map fun found => (found.start,found.stop)) =
    matchesFrom (if caseSensitive then id else simpleFold) (codePoints query) 0 0 text
  progress : ∀ page ∈ pages, page.2.nextOffset.isSome → page.2.found.getD []≠[]
  sizes : ∀ page ∈ pages, recordsSize (page.2.found.getD [])≤page.1

def Composes (pages : List (ℕ × TextPage)) : Prop :=
  match query with
  | none => ReadsText text pages
  | some query => FindsMatches simpleFold text caseSensitive query pages

variable {simpleFold text query caseSensitive maxBytes} {call offset : ℕ} {pages : List (ℕ × TextPage)}

theorem budgetOf_ge (maxBytes : ℤ) : 512≤budgetOf maxBytes := by
  unfold budgetOf
  omega

theorem Followed.endless (hend : EndsHigh text) (hoff : offset<text.length)
    (h : Followed simpleFold text none caseSensitive maxBytes call offset pages) : False := by
  induction h with
  | @last call offset page h hlast =>
    obtain rfl := Except.ok.inj h
    have hne : text.drop offset≠[] := drop_eq_nil_iff.not.2 (by omega)
    obtain ⟨n,hn,hcon,-,hall,-⟩ := fitJsonText_page hne (budgetOf_ge (maxBytes call))
    rw [length_drop] at hn hall
    have hlen : (fitJsonText (text.drop offset) (budgetOf (maxBytes call))).length=n := by
      rw [hcon,length_take,length_drop,Nat.min_eq_left hn]
    rw [hlen] at hlast
    split at hlast
    · cases hlast
    · exact hall (by omega) ((endsHigh_drop hoff).2 hend)
  | @more call offset next page pages h hnext hrest ih =>
    obtain rfl := Except.ok.inj h
    split at hnext
    · obtain rfl := Option.some.inj hnext
      exact ih ‹_›
    · cases hnext

theorem followed_rest (hens : ¬ EndsHigh text) (call : ℕ) (hoff : offset≤text.length) :
    ∃ pages, Followed simpleFold text none caseSensitive maxBytes call offset pages ∧
      pages.flatMap (fun page => page.2.content.getD [])=text.drop offset ∧
      (∀ page ∈ pages, jsonSize (page.2.content.getD [])≤page.1) ∧
      ∀ page ∈ pages, ∀ next ∈ page.2.nextOffset, ¬ SplitsPair text next := by
  induction hlef : text.length - offset using Nat.strong_induction_on generalizing call offset with
  | _ left ih =>
    have hsie:=fitJsonText_size (text.drop offset) (Nat.le_trans (by omega) (budgetOf_ge (maxBytes call)))
    by_cases hend : offset+(fitJsonText (text.drop offset) (budgetOf (maxBytes call))).length<text.length
    · have hne : text.drop offset≠[] := drop_eq_nil_iff.not.2 (by omega)
      obtain ⟨n,hn,hcon,hsps,-,hpos⟩ := fitJsonText_page hne (budgetOf_ge (maxBytes call))
      have hpos:=hpos ((endsHigh_drop (by omega)).not.2 hens)
      have hlen : (fitJsonText (text.drop offset) (budgetOf (maxBytes call))).length=n := by
        rw [hcon,length_take,Nat.min_eq_left hn]
      rw [hlen] at hend
      obtain ⟨pages,hpag,hwho,hsiz,hpai⟩ := ih (text.length - (offset+n)) (by omega) (call+1) (by omega) rfl
      refine ⟨_,.more rfl (by simp only [hlen,if_pos hend]) hpag,?_,?_,?_⟩
      · rw [flatMap_cons,hwho,← drop_drop]
        show fitJsonText _ _++_=_
        rw [hcon,take_append_drop]
      · exact forall_mem_cons.2 ⟨hsie,hsiz⟩
      · refine forall_mem_cons.2 ⟨fun next hnext hspl => ?_,hpai⟩
        simp only [hlen,if_pos hend,mem_def,Option.some.injEq] at hnext
        exact hsps (SplitsPair.of_drop hpos (hnext ▸ hspl))
    · refine ⟨_,.last rfl (if_neg hend),?_,?_,?_⟩
      · obtain ⟨middle,-,htri⟩ := fitJsonText_tried (text.drop offset) 0
          (Nat.le_trans (by omega) (budgetOf_ge (maxBytes call)))
        rw [htri.candidate,length_take,length_drop] at hend
        rw [flatMap_singleton]
        exact htri.candidate.trans (take_of_length_le (by rw [length_drop]; omega))
      · exact forall_mem_singleton.2 hsie
      · refine forall_mem_singleton.2 fun next hnext => ?_
        simp only [if_neg hend,mem_def] at hnext
        cases hnext

section Matches
variable {fold : ℕ → ℕ} {points : List ℕ} {skip position start stop : ℕ} {before after : List (ℕ × ℕ)}

theorem codePointAt_width {text : List UInt16} {value width : ℕ} (h : codePointAt text=some (value,width)) :
    width≤text.length := by
  cases text with
  | nil => cases h
  | cons unit rest =>
    cases rest with
    | nil =>
      obtain rfl : 1=width := congrArg Prod.snd (Option.some.inj h)
      exact Nat.le_refl _
    | cons next rest =>
      rw [codePointAt] at h
      rw [length_cons,length_cons]
      split at h
      · obtain rfl : 2=width := congrArg Prod.snd (Option.some.inj h)
        omega
      · obtain rfl : 1=width := congrArg Prod.snd (Option.some.inj h)
        omega

theorem matchAt_length {text : List UInt16} {length : ℕ} (h : matchAt fold points text=some length) : length≤text.length := by
  induction points generalizing text length with
  | nil =>
    cases h
    exact Nat.zero_le _
  | cons point points ih =>
    unfold matchAt at h
    split at h
    · cases h
    · rename_i value width hpoi
      split at h
      · obtain ⟨rest,hrest,rfl⟩ := map_eq_some_iff.1 h
        have hlen:=ih hrest
        have hwid:=codePointAt_width hpoi
        rw [length_drop] at hlen
        omega
      · cases h

/-- A match that is found in the rest of a text from a position on, and by a search that begins at it. -/
structure FoundIn (fold : ℕ → ℕ) (points : List ℕ) (position : ℕ) (text : List UInt16) (start stop : ℕ)
    (after : List (ℕ × ℕ)) : Prop where
  begins : position ≤ start
  inside : start<position+text.length
  ends : stop≤position+text.length
  again : matchesFrom fold points 0 start (text.drop (start - position))=(start,stop)::after

theorem FoundIn.cons {unit : UInt16} {rest : List UInt16} (h : FoundIn fold points (position+1) rest start stop after) :
    FoundIn fold points position (unit::rest) start stop after := by
  obtain ⟨hbeg,hins,hend,haga⟩ := h
  refine ⟨by omega,by rw [length_cons]; omega,by rw [length_cons]; omega,?_⟩
  rwa [show start - position=start - (position+1)+1 by omega,drop_succ_cons]

theorem matchesFrom_found {text : List UInt16} (h : matchesFrom fold points skip position text=before++(start,stop)::after) :
    FoundIn fold points position text start stop after := by
  induction text generalizing skip position before with
  | nil =>
    unfold matchesFrom at h
    cases before <;> cases h
  | cons unit rest ih =>
    cases skip with
    | succ skip =>
      unfold matchesFrom at h
      exact (ih h).cons
    | zero =>
      unfold matchesFrom at h
      cases hmat : matchAt fold points (unit::rest) with
      | none =>
        rw [hmat] at h
        exact (ih h).cons
      | some length =>
        rw [hmat] at h
        cases before with
        | nil =>
          obtain ⟨hher,haft⟩ := List.cons.inj h
          obtain ⟨rfl,rfl⟩ := Prod.mk.inj hher
          have hlen:=matchAt_length hmat
          refine ⟨Nat.le_refl _,by rw [length_cons]; omega,by omega,?_⟩
          rw [Nat.sub_self,drop_zero]
          unfold matchesFrom
          rw [hmat]
          exact h
        | cons first before => exact (ih (List.cons.inj h).2).cons

theorem digits_le {text : List UInt16} (hlen : text.length ≤ maxStringLength) (hn : n≤text.length) :
    (Nat.toDigits 10 n).length≤9 := by
  refine (Nat.length_toDigits_le_iff (by omega) (by omega)).2 (Nat.lt_of_le_of_lt (hn.trans hlen) ?_)
  unfold maxStringLength
  decide

/-- One page: the matches that it takes, and the one that it does not take. -/
theorem readMatches_split {text : List UInt16} (hbud : 512≤budget) (hlen : text.length ≤ maxStringLength)
    (left : List (ℕ × ℕ)) (found : List TextMatch) (hbou : ∀ place ∈ left, place.1≤text.length ∧ place.2≤text.length)
    (hfou : recordsSize found≤budget) :
    ∃ taken rest records, left=taken++rest ∧ (readMatches text budget left found).found=some records ∧
      records.map (fun record => (record.start,record.stop))=found.map (fun record => (record.start,record.stop))++taken ∧
      (readMatches text budget left found).nextOffset=rest.head?.map Prod.fst ∧ (rest≠[] → records≠[]) ∧
      recordsSize records≤budget := by
  induction left generalizing found with
  | nil => exact ⟨[],[],found,rfl,rfl,(append_nil _).symm,rfl,fun h => absurd rfl h,hfou⟩
  | cons place left ih =>
    obtain ⟨start,stop⟩ := place
    unfold readMatches
    dsimp only
    generalize hexc : fitJsonText (slice text (start - 100) (stop+160)) (min 512 (budget / 2))=excerpt
    split
    · rename_i hful
      refine ⟨[],(start,stop)::left,found,rfl,rfl,(append_nil _).symm,rfl,fun _ hnil => ?_,hfou⟩
      -- the first match of a page always fits
      subst hnil
      obtain ⟨hsta,hsto⟩ := hbou _ mem_cons_self
      have hstartDigits:=digits_le hlen hsta
      have hstopDigits:=digits_le hlen hsto
      have hexcerptSize : jsonSize excerpt ≤ min 512 (budget / 2) := hexc ▸ fitJsonText_size _ (by omega)
      dsimp only at hstartDigits hstopDigits
      simp only [nil_append,recordsSize,recordSize,map_cons,map_nil,sum_cons,sum_nil,
        length_singleton,length_nil] at hful
      omega
    · rename_i hful
      obtain ⟨taken,rest,records,rfl,hrec,hpls,hnext,hsom,hsiz⟩ := ih (found++[⟨start,stop,excerpt⟩])
        (fun place hpla => hbou place (mem_cons_of_mem _ hpla)) (Nat.le_of_not_lt (not_or.1 hful).2)
      refine ⟨(start,stop)::taken,rest,records,rfl,hrec,?_,hnext,hsom,hsiz⟩
      rw [hpls,map_append,append_assoc]
      rfl

end Matches

/-- The pages of a search from a place on where its first match begins, or from the beginning. -/
theorem followed_matches {units : List UInt16} (huni : units≠[]) (hlen : text.length ≤ maxStringLength) (call : ℕ)
    {left : List (ℕ × ℕ)}
    (hlef : matchesFrom (if caseSensitive then id else simpleFold) (codePoints units) 0 offset (text.drop offset)=left)
    (hoff : offset≤text.length) :
    ∃ pages, Followed simpleFold text (some units) caseSensitive maxBytes call offset pages ∧
      pages.flatMap (fun page => (page.2.found.getD []).map fun found => (found.start,found.stop))=left ∧
      (∀ page ∈ pages, page.2.nextOffset.isSome → page.2.found.getD []≠[]) ∧
      ∀ page ∈ pages, recordsSize (page.2.found.getD [])≤page.1 := by
  induction hmea : left.length using Nat.strong_induction_on generalizing call offset left with
  | _ measure ih =>
    have found {before after : List (ℕ × ℕ)} {start stop : ℕ} (h : left=before++(start,stop)::after) :=
      matchesFrom_found (hlef.trans h)
    have hbou : ∀ place ∈ left, place.1≤text.length ∧ place.2≤text.length := by
      intro place hpla
      obtain ⟨before,after,hspl⟩ := append_of_mem hpla
      have hins:=(found hspl).inside
      have hend:=(found hspl).ends
      rw [length_drop] at hins hend
      omega
    have hrea : readTextPage simpleFold text offset (maxBytes call) (some units) caseSensitive =
        .ok (readMatches text (budgetOf (maxBytes call)) left []) := by
      cases units with
      | nil => exact absurd rfl huni
      | cons unit units =>
        rw [← hlef]
        rfl
    obtain ⟨taken,rest,records,hspl,hrec,hpls,hnext,hsom,hsie⟩ :=
      readMatches_split (budgetOf_ge (maxBytes call)) hlen left [] hbou
        (Nat.le_trans (by decide) (budgetOf_ge (maxBytes call)))
    have hpae : (readMatches text (budgetOf (maxBytes call)) left []).found.getD []=records := by rw [hrec]; rfl
    cases rest with
    | nil =>
      refine ⟨_,.last hrea hnext,?_,?_,?_⟩
      · rw [flatMap_singleton]
        dsimp only
        rw [hpae,hpls,hspl,append_nil]
        rfl
      · exact forall_mem_singleton.2 fun hmor => by simp [hnext] at hmor
      · exact forall_mem_singleton.2 (by dsimp only; rwa [hpae])
    | cons place rest =>
      obtain ⟨start,stop⟩ := place
      -- the next page begins its search at the match that this one leaves
      have hfou:=found hspl
      have haga:=hfou.again
      rw [drop_drop,Nat.add_sub_cancel' hfou.begins] at haga
      have htak : taken≠[] := by
        rintro rfl
        exact hsom (cons_ne_nil _ _) (map_eq_nil_iff.1 hpls)
      have hsho : ((start,stop)::rest).length < measure := by
        rw [← hmea,hspl,length_append]
        have := length_pos_iff.2 htak
        omega
      obtain ⟨pages,hpag,heve,hpro,hsiz⟩ :=
        ih _ hsho (call+1) haga (hbou _ (hspl ▸ mem_append_right _ mem_cons_self)).1 rfl
      refine ⟨_,.more hrea hnext hpag,?_,?_,?_⟩
      · rw [flatMap_cons,heve]
        dsimp only
        rw [hpae,hpls,hspl]
        rfl
      · exact forall_mem_cons.2 ⟨fun _ => by dsimp only; rw [hpae]; exact hsom (cons_ne_nil _ _),hpro⟩
      · exact forall_mem_cons.2 ⟨by dsimp only; rwa [hpae],hsiz⟩

/-- The pages of a search compose, and those of a text do unless it ends with the first half of a pair. -/
theorem pages_compose (hlength : text.length ≤ maxStringLength) (hquery : query≠some []) :
    (∃ pages, Followed simpleFold text query caseSensitive maxBytes 0 0 pages ∧
      Composes simpleFold text query caseSensitive pages) ↔ (query=none → ¬ EndsHigh text) := by
  cases query with
  | none =>
    constructor
    · rintro ⟨pages,hpag,-⟩ - hend
      obtain ⟨unit,huni,-⟩ := id hend
      exact hpag.endless hend (length_pos_of_mem (mem_of_getLast? huni))
    · intro hend
      obtain ⟨pages,hpag,hwho,hsiz,hpai⟩ := followed_rest (hend rfl) 0 (Nat.zero_le text.length)
      exact ⟨pages,hpag,hwho,hsiz,hpai⟩
  | some units =>
    refine iff_of_true ?_ fun h => by cases h
    obtain ⟨pages,hpag,heve,hpro,hsiz⟩ :=
      followed_matches (fun hnil => hquery (congrArg some hnil)) hlength 0 rfl (Nat.zero_le text.length)
    exact ⟨pages,hpag,heve,hpro,hsiz⟩

end Followed

theorem pages_compose_search : ∃ pages, Followed id [97] (some [97]) true (fun _ => 512) 0 0 pages ∧
    Composes id [97] (some [97]) true pages :=
  (pages_compose (by decide) (by decide)).2 fun h => by cases h

/-- Reading a text that consists of half a pair never ends. -/
theorem half_pair_endless : ¬ ∀ (text : List UInt16) (maxBytes : ℕ → ℤ), text.length ≤ maxStringLength →
    ∃ pages, Followed id text none false maxBytes 0 0 pages ∧ Composes id text none false pages := by
  intro h
  obtain ⟨pages,hpag,-⟩ := h [0xd800] (fun _ => 12000) (by decide)
  exact hpag.endless ⟨0xd800,rfl,by decide⟩ (by decide)

end Qubicl.Control.BrowserReading
