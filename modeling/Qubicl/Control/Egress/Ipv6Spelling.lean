import Qubicl.Control.Egress.Policy
import Qubicl.Foundation.JsonText
import Qubicl.Foundation.Text

/-!
# The texts of an IPv6 address (packages/control/src/network-address.ts)
-/

namespace Qubicl.Control.Egress
open Foundation Core List
open Gateway (lowerCase)

/- `[0-9a-f]` -/
def hexLetter (c : Char) : Bool := c.isDigit || ('a' ≤ c && c ≤ 'f')

/-- A word of an address in lower case, with any leading zeros. -/
structure HexWord (word : ℕ) (text : List Char) : Prop where
  length : 1≤text.length ∧ text.length≤4
  letters : ∀ c ∈ text, hexLetter c=true
  value : text.foldl (fun n c => n*16+Json.hexValue c) 0=word

def dotted (a b c d : UInt8) : List Char := ['.'].intercalate ([a,b,c,d].map fun byte => Nat.toDigits 10 byte.toNat)

/-- Words with colons between them, of which the last two may be a quad. -/
inductive Words (quad : Bool) : List ℕ → List Char → Prop
  | word {w : ℕ} {t : List Char} (h : HexWord w t) : Words quad [w] t
  | quad (h : quad=true) (a b c d : UInt8) : Words quad [a.toNat*256+b.toNat,c.toNat*256+d.toNat] (dotted a b c d)
  | cons {w : ℕ} {t : List Char} {ws : List ℕ} {u : List Char} (h : HexWord w t) (rest : Words quad ws u) :
    Words quad (w::ws) (t ++ ':' :: u)

def MaybeWords (quad : Bool) (words : List ℕ) (text : List Char) : Prop := words=[] ∧ text=[] ∨ Words quad words text

/-- Eight words, or fewer with two colons for a run of zeros. -/
inductive Written (quad : Bool) : List ℕ → List Char → Prop
  | whole {words : List ℕ} {text : List Char} (hlen : words.length=8) (h : Words quad words text) : Written quad words text
  | elided {left right : List ℕ} {l r : List Char} {n : ℕ} (hlen : left.length+(n+1)+right.length=8)
    (hleft : MaybeWords false left l) (hright : MaybeWords quad right r) :
    Written quad (left++(List.replicate (n+1) 0++right)) (l ++ ':' :: ':' :: r)

def wordsOf : List UInt8 → List ℕ
  | a::b::rest => (a.toNat*256+b.toNat)::wordsOf rest
  | _ => []

/-- A text of sixteen bytes, in any case and with any zone. -/
def Spelling (bytes : List UInt8) (text : String) : Prop :=
  bytes.length=16 ∧ ∃ body zone, text.toList.map Char.toLower=body++zone ∧ (zone=[] ∨ zone.head? = some '%') ∧
    Written true (wordsOf bytes) body

section
variable {w n : ℕ} {t u front : List Char} {ws : List ℕ} {quad : Bool} {a b c d : UInt8}

theorem HexWord.not_mem (h : HexWord w t) {c : Char} (hc : hexLetter c=false) : c ∉ t := by
  intro hmem
  rw [h.letters c hmem] at hc
  cases hc

theorem mapM_forall₂ {α β : Type} {f : α → Option β} {xs : List α} {ys : List β}
    (h : List.Forall₂ (fun y x => f x=some y) ys xs) : xs.mapM f=some ys := by
  induction h with
  | nil => rfl
  | cons hfir _ ih =>
    rw [mapM_cons,hfir,ih]
    rfl

theorem roundToDouble_nat (hn : n<2 ^ 53) : Number.roundToDouble n=n := by
  rcases Nat.eq_zero_or_pos n with hzer | hpos
  · rw [hzer]
    rfl
  · have hrou:=Number.roundToDouble_dyadic 0 hpos hn
    rwa [zpow_zero,mul_one] at hrou

theorem hexLetter_bounds {c : Char} (h : hexLetter c=true) :
    48≤c.toNat ∧ c.toNat≤57 ∨ 97≤c.toNat ∧ c.toNat≤102 := by
  simp only [hexLetter,Char.isDigit,Bool.or_eq_true,Bool.and_eq_true,decide_eq_true_eq] at h
  exact h

/-- The digit that the radix parser sees. -/
theorem radixDigit_eq {c : Char} (h : hexLetter c=true) :
    (if c.isDigit then c.toNat - 48 else if c.isAlpha then c.toLower.toNat - 87 else 16)=Json.hexValue c ∧
      Json.hexValue c<16 := by
  have hall : ∀ n<128, hexLetter (Char.ofNat n)=true →
      (if (Char.ofNat n).isDigit then (Char.ofNat n).toNat - 48
        else if (Char.ofNat n).isAlpha then (Char.ofNat n).toLower.toNat - 87 else 16)=Json.hexValue (Char.ofNat n) ∧
        Json.hexValue (Char.ofNat n)<16 := by decide
  have hbou:=hexLetter_bounds h
  have hcha:=hall c.toNat (by omega)
  rw [Char.ofNat_toNat] at hcha
  exact hcha h

theorem hexWord_eq (h : HexWord w t) (hw : w<65536) : hexWord t=some w := by
  have hspa : ∀ c ∈ '0' :: 'x' :: t, Number.isSpace c=false := by
    intro c hc
    rcases mem_cons.1 hc with rfl | hc
    · decide
    rcases mem_cons.1 hc with rfl | hc
    · decide
    have hbou:=hexLetter_bounds (h.letters c hc)
    exact Number.isSpace_printed (by omega) (by omega)
  have hdis : t.mapM (fun c =>
      let d:=if c.isDigit then c.toNat - 48 else if c.isAlpha then c.toLower.toNat - 87 else 16
      if d<16 then some d else none)=some (t.map Json.hexValue) := by
    refine mapM_forall₂ (List.forall₂_map_left_iff.2 (List.forall₂_same.2 fun c hc => ?_))
    obtain ⟨hdig,hlt⟩ := radixDigit_eq (h.letters c hc)
    simp only [hdig,if_pos hlt]
  have hne : (t.map Json.hexValue).isEmpty=false := by
    cases t with
    | nil => cases h.length.1
    | cons c t => rfl
  have htex : Number.ofText ('0' :: 'x' :: t)=some (w : ℚ) := by
    unfold Number.ofText
    rw [Number.trim_eq_self hspa]
    show Number.radixValue 16 t=some (w : ℚ)
    unfold Number.radixValue
    rw [hdis,Option.bind_eq_bind,Option.bind_some,hne,foldl_map,h.value]
    exact congrArg some (roundToDouble_nat (by omega))
  unfold hexWord
  rw [if_pos ⟨h.length.1,h.length.2,all_eq_true.2 h.letters⟩,htex]
  simp

theorem ofText_digits (hn : n<2 ^ 53) : Number.ofText (Nat.toDigits 10 n)=some (n : ℚ) := by
  have hdig : ∀ c ∈ Nat.toDigits 10 n, c.isDigit=true := fun c hc => digits_isDigit hc
  have hspa : ∀ c ∈ Nat.toDigits 10 n, Number.isSpace c=false := by
    intro c hc
    have hbou:=hexLetter_bounds (c := c) (by simp [hexLetter,hdig c hc])
    exact Number.isSpace_printed (by omega) (by omega)
  have hles : ∀ c ∈ ['x','X','o','O','b','B','-','+'], c ∉ Nat.toDigits 10 n := by
    intro c hc hmem
    have hlet : ∀ c ∈ ['x','X','o','O','b','B','-','+'], c.isDigit=false := forall_chars (by decide)
    have hbot:=hdig c hmem
    rw [hlet c hc] at hbot
    cases hbot
  have hval : Number.unsignedValue (Nat.toDigits 10 n)=some (n : ℚ) := by
    unfold Number.unsignedValue
    rw [takeWhile_eq_self_iff.2 hdig,dropWhile_eq_nil_iff.2 hdig]
    simp [Number.exponentValue,Nat.toDigits_ne_nil,Number.natOfDigits_toDigits,roundToDouble_nat hn]
  unfold Number.ofText
  rw [Number.trim_eq_self hspa]
  split
  next hnil => exact absurd hnil Nat.toDigits_ne_nil
  all_goals first
    | exact hval
    | next heq => rw [heq] at hles; simp at hles

theorem splitOn_dotted : (dotted a b c d).splitOn '.' = [a,b,c,d].map fun byte => Nat.toDigits 10 byte.toNat := by
  refine splitOn_intercalate '.' (fun part hpar hdot => ?_) (cons_ne_nil _ _)
  obtain ⟨byte,-,rfl⟩ := mem_map.1 hpar
  exact absurd (digits_isDigit hdot) (by decide)

theorem dotted_chars {e : Char} (h : e ∈ dotted a b c d) : e = '.' ∨ e.isDigit=true := by
  simp only [dotted,map_cons,map_nil,intercalate_cons_cons,intercalate_singleton,mem_append,
    mem_singleton] at h
  rcases h with (h | h) | (h | h) | (h | h) | h
  all_goals first
    | exact Or.inl h
    | exact Or.inr (digits_isDigit h)

theorem octets_dotted : octets (dotted a b c d)=some [a.toNat,b.toNat,c.toNat,d.toNat] := by
  have hval : ∀ byte : UInt8, Number.ofText (Nat.toDigits 10 byte.toNat)=some (byte.toNat : ℚ) := fun byte =>
    ofText_digits (byte.toNat_lt.trans (by decide))
  have hlt : ∀ byte : UInt8, byte.toNat≤255 := fun byte => Nat.le_of_lt_succ byte.toNat_lt
  unfold octets
  rw [splitOn_dotted]
  simp [hval,hlt]

theorem toDigits_hex (n : ℕ) : (∀ c ∈ Nat.toDigits 16 n, hexLetter c=true) ∧
    (Nat.toDigits 16 n).foldl (fun n c => n*16+Json.hexValue c) 0=n := by
  have hdig : ∀ d<16, hexLetter d.digitChar=true ∧ Json.hexValue d.digitChar=d := by decide
  induction n using Nat.strongRecOn with
  | ind n ih =>
    rw [Nat.toDigits_eq_if (by decide)]
    by_cases hlt : n<16
    · rw [if_pos hlt]
      simpa using hdig n hlt
    · rw [if_neg hlt]
      obtain ⟨hlet,hval⟩ := ih (n / 16) (by omega)
      have hlas:=hdig (n%16) (Nat.mod_lt _ (by decide))
      constructor
      · intro c hc
        rcases mem_append.1 hc with hc | hc
        · exact hlet c hc
        · rw [mem_singleton.1 hc]
          exact hlas.1
      · rw [foldl_append,hval]
        simp only [foldl_cons,foldl_nil,hlas.2]
        omega

theorem hexWord_toDigits (hn : n<65536) : HexWord n (Nat.toDigits 16 n) where
  length := ⟨Nat.length_toDigits_pos,(Nat.length_toDigits_le_iff (by decide) (by decide)).2 hn⟩
  letters := (toDigits_hex n).1
  value := (toDigits_hex n).2

/-- What stands behind the last colon. -/
theorem quad_append (hfro : front.getLast? = some ':') (ht : ':' ∉ t) :
    (((front++t).reverse.takeWhile (· ≠ ':')).reverse)=t ∧ (front++t).take ((front++t).length-t.length)=front := by
  constructor
  · obtain ⟨start,rfl⟩ := getLast?_eq_some_iff.1 hfro
    rw [reverse_append,reverse_append,takeWhile_append_of_pos]
    · simp
    · intro c hc
      simp only [decide_eq_true_eq]
      rintro rfl
      exact ht (mem_reverse.1 hc)
  · rw [length_append,Nat.add_sub_cancel,take_left]

theorem front_ne_nil (hfro : front.getLast? = some ':') : front≠[] := by
  rintro rfl
  cases hfro

theorem withoutQuad_plain (hfro : front.getLast? = some ':') (ht : ':' ∉ t) (hdot : '.' ∉ t) :
    withoutQuad (front++t)=some (front++t) := by
  obtain ⟨hqua,-⟩ := quad_append hfro ht
  unfold withoutQuad
  simp only [hqua,splitOn_eq_singleton hdot]
  refine if_neg fun h => ?_
  cases h.2.1

theorem withoutQuad_dotted (hfro : front.getLast? = some ':') : withoutQuad (front++dotted a b c d) =
    some (front++(Nat.toDigits 16 (a.toNat*256+b.toNat) ++ ':' :: Nat.toDigits 16 (c.toNat*256+d.toNat))) := by
  have hcol : ':' ∉ dotted a b c d := by
    intro hmem
    rcases dotted_chars hmem with hdot | hdigit
    · cases hdot
    · cases hdigit
  obtain ⟨hqua,hbef⟩ := quad_append hfro hcol
  unfold withoutQuad
  simp only [hqua,hbef,splitOn_dotted,octets_dotted]
  rw [if_pos]
  · simp
  · refine ⟨front_ne_nil hfro,rfl,fun part hpar => ?_⟩
    obtain ⟨byte,-,rfl⟩ := mem_map.1 hpar
    exact ⟨Nat.toDigits_ne_nil,all_eq_true.2 fun c hc => digits_isDigit hc⟩

/-- The quad is written as two words. -/
theorem Words.unquoted (h : Words quad ws t) (hfro : front.getLast? = some ':') :
    ∃ t', withoutQuad (front++t)=some (front++t') ∧ Words false ws t' := by
  induction h generalizing front with
  | word h => exact ⟨_,withoutQuad_plain hfro (h.not_mem (by decide)) (h.not_mem (by decide)),.word h⟩
  | quad _ a b c d =>
    have hwor : ∀ a b : UInt8, a.toNat*256+b.toNat<65536 := by
      intro a b
      have ha:=a.toNat_lt
      have hb:=b.toNat_lt
      omega
    exact ⟨_,withoutQuad_dotted hfro,.cons (hexWord_toDigits (hwor a b)) (.word (hexWord_toDigits (hwor c d)))⟩
  | @cons w t ws u h _ ih =>
    obtain ⟨u',hu',hres⟩ := ih (show (front++t++[':']).getLast? = some ':' from getLast?_concat)
    refine ⟨t ++ ':' :: u',?_,.cons h hres⟩
    simpa using hu'

theorem Words.chars (h : Words quad ws t) : ∀ e ∈ t, hexLetter e=true ∨ e = ':' ∨ e = '.' := by
  induction h with
  | word h => exact fun e he => Or.inl (h.letters e he)
  | quad =>
    intro e he
    rcases dotted_chars he with hdot | hdigit
    · exact Or.inr (Or.inr hdot)
    · exact Or.inl (by simp [hexLetter,hdigit])
  | cons h _ ih =>
    intro e he
    rcases mem_append.1 he with he | he
    · exact Or.inl (h.letters e he)
    rcases mem_cons.1 he with rfl | he
    · exact Or.inr (Or.inl rfl)
    · exact ih e he

theorem HexWord.head (h : HexWord w t) : ∃ c rest, t=c::rest ∧ c ≠ ':' := by
  cases t with
  | nil => cases h.length.1
  | cons c rest =>
    refine ⟨c,rest,rfl,?_⟩
    rintro rfl
    exact absurd mem_cons_self (h.not_mem (by decide))

theorem Words.head (h : Words false ws t) : ∃ c rest, t=c::rest ∧ c ≠ ':' := by
  cases h with
  | word h => exact h.head
  | quad h => cases h
  | cons h _ =>
    obtain ⟨c,rest,ht,hc⟩ := h.head
    exact ⟨c,_,by rw [ht]; rfl,hc⟩

theorem splitElision_cons {c : Char} (h : c ≠ ':' ∨ t.head? ≠ some ':') :
    splitElision (c::t)=(splitElision t).map fun parts => (c::parts.1,parts.2) := by
  conv_lhs => unfold splitElision
  split
  next heq =>
    cases heq
    rcases h with h | h <;> exact absurd rfl h
  next heq =>
    cases heq
    rfl
  next heq => cases heq

theorem splitElision_append (ht : ':' ∉ t) :
    splitElision (t++u)=(splitElision u).map fun parts => (t++parts.1,parts.2) := by
  induction t with
  | nil => simp
  | cons c t ih =>
    obtain ⟨hc,ht⟩ := ne_and_not_mem_of_not_mem_cons ht
    rw [cons_append,splitElision_cons (Or.inl hc.symm),ih ht,Option.map_map]
    rfl

theorem Words.elision (h : Words false ws t) :
    splitElision (t++u)=(splitElision u).map fun parts => (t++parts.1,parts.2) := by
  induction h with
  | word h => exact splitElision_append (h.not_mem (by decide))
  | quad h => cases h
  | @cons w t ws v h rest ih =>
    obtain ⟨c,more,hv,hc⟩ := rest.head
    have hhea : (v++u).head? ≠ some ':' := by
      rw [hv]
      simpa using hc
    rw [append_assoc,cons_append,splitElision_append (h.not_mem (by decide)),splitElision_cons (Or.inr hhea),ih,
      Option.map_map,Option.map_map]
    simp only [Function.comp_def,append_assoc,cons_append]

theorem Words.parts (h : Words false ws t) (hws : ∀ w ∈ ws, w<65536) : (colonParts t).mapM hexWord=some ws := by
  have hspl : (t.splitOn ':').mapM hexWord=some ws := by
    induction h with
    | word h =>
      rw [splitOn_eq_singleton (h.not_mem (by decide)),mapM_cons,hexWord_eq h (hws _ mem_cons_self)]
      rfl
    | quad h => cases h
    | cons h _ ih =>
      rw [splitOn_append_cons_self_of_not_mem (h.not_mem (by decide)),mapM_cons,
        hexWord_eq h (hws _ mem_cons_self),ih fun w hw => hws w (mem_cons_of_mem _ hw)]
      rfl
  obtain ⟨c,rest,ht,-⟩ := h.head
  unfold colonParts
  rw [ht] at hspl ⊢
  exact hspl

theorem MaybeWords.parts (h : MaybeWords false ws t) (hws : ∀ w ∈ ws, w<65536) : (colonParts t).mapM hexWord=some ws := by
  rcases h with ⟨rfl,rfl⟩ | h
  · rfl
  · exact h.parts hws

theorem MaybeWords.elision (h : MaybeWords false ws t) :
    splitElision (t++u)=(splitElision u).map fun parts => (t++parts.1,parts.2) := by
  rcases h with ⟨rfl,rfl⟩ | h
  · simp
  · exact h.elision

/-- Without a quad the text is read word by word. -/
theorem Written.unquoted {body : List Char} (h : Written quad ws body) :
    ∃ body', withoutQuad body=some body' ∧ Written false ws body' := by
  cases h with
  | whole hlen h =>
    cases h with
    | word => cases hlen
    | quad => cases hlen
    | @cons w t ws u h rest =>
      obtain ⟨u',hu',hres⟩ := rest.unquoted (show (t++[':']).getLast? = some ':' from getLast?_concat)
      exact ⟨t ++ ':' :: u',by simpa using hu',.whole hlen (.cons h hres)⟩
  | @elided left right l r n hlen hleft hright =>
    have hfro : (l++[':',':']).getLast? = some ':' := by simp
    rcases hright with ⟨rfl,rfl⟩ | hright
    · refine ⟨l++[':',':'],?_,.elided hlen hleft (Or.inl ⟨rfl,rfl⟩)⟩
      simpa using withoutQuad_plain hfro not_mem_nil not_mem_nil
    · obtain ⟨r',hr',hres⟩ := hright.unquoted hfro
      exact ⟨l ++ ':' :: ':' :: r',by simpa using hr',.elided hlen hleft (Or.inr hres)⟩

theorem wordsOf_lt {bytes : List UInt8} : ∀ w ∈ wordsOf bytes, w<65536 := by
  induction bytes using wordsOf.induct with
  | case1 a b rest ih =>
    intro w hw
    rcases mem_cons.1 hw with rfl | hw
    · have ha:=a.toNat_lt
      have hb:=b.toNat_lt
      omega
    · exact ih w hw
  | case2 bytes hsho =>
    intro w hw
    unfold wordsOf at hw
    split at hw
    next a b rest => exact absurd rfl (hsho a b rest)
    next => cases hw

theorem Written.chars {body : List Char} (h : Written quad ws body) : '%' ∉ body := by
  have hwor : ∀ {quad ws t}, MaybeWords quad ws t → '%' ∉ t := by
    intro quad ws t h hmem
    rcases h with ⟨-,rfl⟩ | h
    · cases hmem
    · have hcha:=h.chars _ hmem
      revert hcha
      decide
  cases h with
  | whole _ h => exact hwor (Or.inr h)
  | elided _ hleft hright =>
    intro hmem
    rcases mem_append.1 hmem with hmem | hmem
    · exact hwor hleft hmem
    · exact hwor hright (by simpa using hmem)

theorem parseIpv6_spelling {bytes : List UInt8} {text : String} (h : Spelling bytes text) :
    parseIpv6 text=some (wordsOf bytes) := by
  obtain ⟨-,body,zone,htex,hzon,hbod⟩ := h
  have hinp : (lowerCase text).toList.takeWhile (· ≠ '%')=body := by
    have hkep : ∀ c ∈ body, decide (c ≠ '%')=true := by
      intro c hc
      rw [decide_eq_true_eq]
      rintro rfl
      exact hbod.chars hc
    rw [lowerCase,String.toList_map,htex,takeWhile_append_of_pos hkep]
    cases zone with
    | nil => simp
    | cons c zone =>
      obtain rfl : c = '%' := by simpa using hzon
      simp
  obtain ⟨body',hqua,hrea⟩ := hbod.unquoted
  have hbou:=@wordsOf_lt bytes
  unfold parseIpv6
  rw [hinp,hqua]
  generalize wordsOf bytes=words at hrea hbou
  cases hrea with
  | whole hlen h =>
    have hpla : splitElision body'=none := by simpa [splitElision] using h.elision (u := [])
    simp [hpla,h.parts hbou,hlen]
  | @elided left right l r n hlen hleft hright =>
    have hspl : splitElision (l ++ ':' :: ':' :: r)=some (l,r) := by
      rw [hleft.elision]
      simp [splitElision]
    have hpla : splitElision r=none := by simpa [splitElision] using hright.elision (u := [])
    have hl:=hleft.parts fun w hw => hbou w (mem_append_left _ hw)
    have hr:=hright.parts fun w hw => hbou w (mem_append_right _ (mem_append_right _ hw))
    have hmis : 8 - left.length - right.length=n+1 := by omega
    have hfew : ¬ 8≤left.length+right.length := by omega
    simp [hspl,hpla,hl,hr,hmis,hfew]

end

/-- All the texts of an address are read as the address, and so get one verdict, which is that of the IPv4 address inside one
that has one. -/
theorem ipv6_spelled_alike (z : Formats) {bytes : List UInt8} {text : String} (h : Spelling bytes text) (hip : z.isIP text=6) :
    parseIpv6 text=some (wordsOf bytes) ∧
      (∀ other, Spelling bytes other → z.isIP other=6 → isGloballyRoutableIp z other=isGloballyRoutableIp z text) ∧
      ∀ a b c d, bytes=List.replicate 10 0++[255,255,a,b,c,d] → z.isIP (String.ofList (dotted a b c d))=4 →
        isGloballyRoutableIp z text=isGloballyRoutableIp z (String.ofList (dotted a b c d)) := by
  have hver : ∀ {other}, Spelling bytes other → z.isIP other=6 →
      isGloballyRoutableIp z other=isGloballyRoutableIpv6 (wordsOf bytes) := by
    intro other hoth hip
    unfold isGloballyRoutableIp
    rw [hip,if_neg (by decide),if_pos rfl,parseIpv6_spelling hoth]
    rfl
  refine ⟨parseIpv6_spelling h,fun other hoth hip' => (hver hoth hip').trans (hver h hip).symm,?_⟩
  intro a b c d hbyt hqua
  have ha:=a.toNat_lt
  have hb:=b.toNat_lt
  have hc:=c.toNat_lt
  have hd:=d.toNat_lt
  rw [hver h hip,hbyt]
  unfold isGloballyRoutableIp
  rw [if_pos hqua,String.toList_ofList,octets_dotted]
  have hwor : wordsOf (List.replicate 10 0++[255,255,a,b,c,d])=
      [0,0,0,0,0,0xffff,a.toNat*256+b.toNat,c.toNat*256+d.toNat] := by simp [wordsOf,List.replicate]
  have hmap : ∀ g h, isGloballyRoutableIpv6 [0,0,0,0,0,0xffff,g,h]=isGloballyRoutableIpv4 (g / 256) (g%256) (h / 256) := by
    intro g h
    simp [isGloballyRoutableIpv6]
  rw [hwor,hmap]
  show isGloballyRoutableIpv4 _ _ _=isGloballyRoutableIpv4 a.toNat b.toNat c.toNat
  congr 1 <;> omega

def addresses : Formats := { namesAndAddress with isIP := fun value => if ':' ∈ value.toList then 6 else 4 }

def loopback : List UInt8 := List.replicate 10 0++[255,255,127,0,0,1]

theorem loopback_spelling : Spelling loopback "::FFFF:127.0.0.1%lo" := by
  have hwor : HexWord 0xffff "ffff".toList := ⟨by decide,forall_chars (by decide),by decide⟩
  exact ⟨rfl,_,"%lo".toList,by decide,Or.inr rfl,
    .elided (n := 4) rfl (Or.inl ⟨rfl,rfl⟩) (Or.inr (.cons hwor (.quad rfl 127 0 0 1)))⟩

theorem ipv6_spelled_alike_example : parseIpv6 "::FFFF:127.0.0.1%lo"=some [0,0,0,0,0,0xffff,0x7f00,1] ∧
    isGloballyRoutableIp addresses "::FFFF:127.0.0.1%lo"=isGloballyRoutableIp addresses (String.ofList (dotted 127 0 0 1)) := by
  obtain ⟨hpar,-,hqua⟩ := ipv6_spelled_alike addresses loopback_spelling (by decide)
  exact ⟨hpar,hqua 127 0 0 1 rfl (by decide)⟩

end Qubicl.Control.Egress
