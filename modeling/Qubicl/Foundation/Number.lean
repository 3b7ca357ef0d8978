import Mathlib.Algebra.Order.Field.Power
import Mathlib.Data.Int.Log
import Mathlib.Data.List.DropRight
import Mathlib.Data.Rat.Floor
import Mathlib.Tactic.Positivity

/-!
# Numbers with 53 significant bits and their decimal texts

A finite number of the language is a rational. The range of the exponent is not bounded here, and texts with an exponent are
only read.
-/

namespace Qubicl.Foundation.Number
open List

def roundHalfEven (q : ℚ) : ℤ :=
  if q - ⌊q⌋ < 1 / 2 then ⌊q⌋
  else if 1 / 2<q - ⌊q⌋ then ⌊q⌋ + 1
  else if ⌊q⌋ % 2=0 then ⌊q⌋
  else ⌊q⌋ + 1

/-- The distance between neighbouring numbers at `q`. -/
def ulp (q : ℚ) : ℚ := 2 ^ (Int.log 2 q - 52)

def roundToDouble (q : ℚ) : ℚ := if q=0 then 0 else roundHalfEven (q / ulp q)*ulp q

theorem roundHalfEven_intCast (n : ℤ) : roundHalfEven n=n := by
  simp [roundHalfEven]

variable {n s d : ℕ} {c : Char}

theorem roundToDouble_dyadic (s : ℤ) (hpos : 0<n) (hn : n<2 ^ 53) : roundToDouble (n*2 ^ s)=n*2 ^ s := by
  have hq : (0 : ℚ)<n*2 ^ s := by positivity
  have hlog : Nat.log 2 n≤52 := Nat.lt_succ_iff.1 (Nat.log_lt_of_lt_pow (by omega) hn)
  have hpow : (2 : ℚ) ^ (Nat.log 2 n : ℤ)≤n := by
    rw [zpow_natCast]
    exact_mod_cast Nat.pow_log_le_self 2 (by omega)
  have hlt : (n : ℚ)<2 ^ (Nat.log 2 n+1 : ℤ) := by
    have := Nat.lt_pow_succ_log_self (b := 2) (by decide) n
    rw [← Nat.cast_succ,zpow_natCast]
    exact_mod_cast this
  have hexp : Int.log 2 ((n : ℚ)*2 ^ s)=Nat.log 2 n+s := by
    apply Int.le_antisymm
    · rw [← Int.lt_add_one_iff,← Int.lt_zpow_iff_log_lt (by decide) hq,add_right_comm,
        Nat.cast_ofNat,zpow_add₀ (by norm_num)]
      exact mul_lt_mul_of_pos_right hlt (by positivity)
    · rw [← Int.zpow_le_iff_le_log (by decide) hq,Nat.cast_ofNat,zpow_add₀ (by norm_num)]
      exact mul_le_mul_of_nonneg_right hpow (by positivity)
  have hquo : (n : ℚ)*2 ^ s / ulp (n*2 ^ s)=((n*2 ^ (52 - Nat.log 2 n) : ℕ) : ℤ) := by
    rw [ulp,hexp,div_eq_iff (by positivity)]
    push_cast
    rw [mul_assoc,← zpow_natCast,← zpow_add₀ (by norm_num)]
    congr 2
    omega
  rw [roundToDouble,if_neg hq.ne',hquo,roundHalfEven_intCast,← hquo,
    div_mul_cancel₀ _ (by unfold ulp; positivity)]

def natOfDigits (ds : List Char) : ℕ := Nat.ofDigitChars 10 ds 0

/-- The number that the text `whole.fraction` reads as. -/
def ofDecimal (whole fraction : List Char) : ℚ :=
  roundToDouble (natOfDigits (whole++fraction) / 10 ^ fraction.length)

/-- The decimal with `d` digits after the point that is nearest to `q`, times `10 ^ d`. -/
def nearestDecimal (q : ℚ) (d : ℕ) : ℕ := (roundHalfEven (q*10 ^ d)).toNat

def ReadsBack (q : ℚ) (d : ℕ) : Prop := roundToDouble (nearestDecimal q d / 10 ^ d)=q

instance (q : ℚ) (d : ℕ) : Decidable (ReadsBack q d) := by unfold ReadsBack; infer_instance

/-- How many digits after the point are needed; at most 1074 are. -/
def precision (q : ℚ) : ℕ := ((List.range 1075).find? fun d => ReadsBack q d).getD 1074

def padded (d n : ℕ) : List Char :=
  List.replicate (d - (Nat.toDigits 10 n).length) '0' ++ Nat.toDigits 10 n

def wholeText (q : ℚ) : List Char :=
  Nat.toDigits 10 (nearestDecimal q (precision q) / 10 ^ precision q)

def fractionText (q : ℚ) : List Char :=
  if precision q=0 then []
  else padded (precision q) (nearestDecimal q (precision q) % 10 ^ precision q)

def toText (q : ℚ) : List Char :=
  wholeText q++(if fractionText q=[] then [] else '.' :: fractionText q)

theorem ReadsBack.dyadic (hpos : 0<n) (hn : n<2 ^ 53) : ReadsBack (n*2 ^ (-s : ℤ)) s := by
  have hint : (n : ℚ)*2 ^ (-s : ℤ)*10 ^ s=((n*5 ^ s : ℕ) : ℤ) := by
    push_cast
    rw [show (10 : ℚ)=2*5 by norm_num,mul_pow,zpow_neg,zpow_natCast]
    field_simp
  have hnea : nearestDecimal (n*2 ^ (-s : ℤ)) s=n*5 ^ s := by
    rw [nearestDecimal,hint,roundHalfEven_intCast,Int.toNat_natCast]
  have hval : ((n*5 ^ s : ℕ) : ℚ) / 10 ^ s=n*2 ^ (-s : ℤ) := by
    rw [div_eq_iff (by positivity),hint]
    push_cast
    ring
  rw [ReadsBack,hnea,hval,roundToDouble_dyadic _ hpos hn]

theorem readsBack_precision (hpos : 0<n) (hn : n<2 ^ 53) (hs : s≤1074) :
    ReadsBack (n*2 ^ (-s : ℤ)) (precision (n*2 ^ (-s : ℤ))) := by
  unfold precision
  cases h : (List.range 1075).find? fun d => ReadsBack ((n : ℚ)*2 ^ (-s : ℤ)) d with
  | some d => simpa using find?_some h
  | none =>
    rw [find?_eq_none] at h
    exact absurd (ReadsBack.dyadic hpos hn) (by simpa using h s (by simp; omega))

theorem natOfDigits_append (ds es : List Char) :
    natOfDigits (ds++es)=10 ^ es.length*natOfDigits ds+natOfDigits es := by
  rw [natOfDigits,Nat.ofDigitChars_append,Nat.ofDigitChars_eq_ofDigitChars_zero]
  rfl

theorem natOfDigits_toDigits (n : ℕ) : natOfDigits (Nat.toDigits 10 n)=n :=
  Nat.ofDigitChars_ten_toDigits

theorem natOfDigits_padded (d n : ℕ) : natOfDigits (padded d n)=n := by
  rw [padded,natOfDigits_append,natOfDigits_toDigits,natOfDigits,Nat.ofDigitChars_replicate_zero]
  simp

theorem length_padded (hd : 0<d) (hn : n<10 ^ d) : (padded d n).length=d := by
  have := (Nat.length_toDigits_le_iff (by decide : 1<10) hd).2 hn
  simp only [padded,length_append,length_replicate]
  omega

/-- Reading the text of a number gives the number back. -/
theorem ofDecimal_toText (hpos : 0<n) (hn : n<2 ^ 53) (hs : s≤1074) :
    ofDecimal (wholeText (n*2 ^ (-s : ℤ))) (fractionText (n*2 ^ (-s : ℤ))) =
      n*2 ^ (-s : ℤ) := by
  have hbac:=readsBack_precision hpos hn hs
  generalize hq : (n : ℚ)*2 ^ (-s : ℤ)=q at hbac ⊢
  rw [ReadsBack] at hbac
  unfold ofDecimal wholeText fractionText
  by_cases hd : precision q=0
  · rw [if_pos hd]
    rw [hd] at hbac ⊢
    simpa [natOfDigits_toDigits] using hbac
  · have hmod:=Nat.mod_lt (nearestDecimal q (precision q)) (Nat.pow_pos (by decide : 0<10)
      (n := precision q))
    rw [if_neg hd,natOfDigits_append,natOfDigits_toDigits,natOfDigits_padded,
      length_padded (by omega) hmod,Nat.div_add_mod]
    exact hbac

theorem isDigit_padded (h : c ∈ padded d n) : c.isDigit=true := by
  rcases mem_append.1 h with h | h
  · rw [eq_of_mem_replicate h]
    decide
  · exact Nat.isDigit_of_mem_toDigits (by decide) (by decide) h

theorem isDigit_wholeText {q : ℚ} (h : c ∈ wholeText q) : c.isDigit=true :=
  Nat.isDigit_of_mem_toDigits (by decide) (by decide) h

theorem isDigit_fractionText {q : ℚ} (h : c ∈ fractionText q) : c.isDigit=true := by
  unfold fractionText at h
  split at h
  · simp at h
  · exact isDigit_padded h

theorem wholeText_ne_nil (q : ℚ) : wholeText q≠[] := Nat.toDigits_ne_nil

/-- White space and line terminators. -/
def isSpace (c : Char) : Bool :=
  c ∈ ['\t','\n','\x0b','\x0c','\r',' ','\u00a0','\u1680','\u2028','\u2029','\u202f',
    '\u205f','\u3000','\ufeff'] || ('\u2000' ≤ c && c ≤ '\u200a')

def trim (cs : List Char) : List Char := (cs.dropWhile isSpace).rdropWhile isSpace

theorem dropWhile_eq_self {cs : List Char} (h : ∀ c ∈ cs.head?, isSpace c=false) :
    cs.dropWhile isSpace=cs := by
  cases cs with
  | nil => rfl
  | cons c cs => rw [dropWhile_cons_of_neg (by simp [h c rfl])]

theorem trim_eq_self {cs : List Char} (h : ∀ c ∈ cs, isSpace c=false) : trim cs=cs := by
  rw [trim,dropWhile_eq_self fun c hc => h c (mem_of_mem_head? hc),List.rdropWhile,
    dropWhile_eq_self fun c hc => h c (by simpa using mem_of_mem_head? hc),reverse_reverse]

theorem trim_trim (cs : List Char) : trim (trim cs)=trim cs := by
  have hpre : trim cs <+: cs.dropWhile isSpace := rdropWhile_prefix isSpace _
  have hhea : ∀ c ∈ (trim cs).head?, isSpace c=false := by
    intro c hc
    obtain ⟨rest,hres⟩ := hpre
    have hdro : (cs.dropWhile isSpace).head? = some c := by
      rw [← hres,head?_append,Option.mem_def.1 hc]
      rfl
    simpa [hdro] using head?_dropWhile_not isSpace cs
  show ((trim cs).dropWhile isSpace).rdropWhile isSpace=trim cs
  rw [dropWhile_eq_self hhea]
  exact rdropWhile_idempotent isSpace _

theorem isSpace_printed (hlow : 33≤c.toNat) (hhig : c.toNat≤126) : isSpace c=false := by
  cases hspa : isSpace c with
  | false => rfl
  | true =>
    simp only [isSpace,Bool.or_eq_true,Bool.and_eq_true,decide_eq_true_eq,mem_cons,not_mem_nil,or_false] at hspa
    rcases hspa with hone | ⟨hfro,-⟩
    · rcases hone with rfl | rfl | rfl | rfl | rfl | rfl | rfl | rfl | rfl | rfl | rfl | rfl | rfl | rfl <;>
        first | exact absurd hlow (by decide) | exact absurd hhig (by decide)
    · have hbig : 8192≤c.toNat := hfro
      omega

def radixValue (radix : ℕ) (cs : List Char) : Option ℚ := do
  let ds ← cs.mapM fun c =>
    let d:=if c.isDigit then c.toNat - 48
      else if c.isAlpha then c.toLower.toNat - 87 else radix
    if d<radix then some d else none
  if ds.isEmpty then none else some (roundToDouble (ds.foldl (fun n d => n*radix+d) 0 : ℕ))

/-- What follows the digits: nothing, or an exponent part. -/
def exponentValue : List Char → Option ℤ
  | [] => some 0
  | c::cs =>
    if c != 'e' && c != 'E' then none
    else
      let (sign,ds) := match cs with
        | '-' :: ds => ((-1 : ℤ),ds)
        | '+' :: ds => (1,ds)
        | ds => (1,ds)
      if ds.isEmpty || !ds.all Char.isDigit then none else some (sign*natOfDigits ds)

def unsignedValue (cs : List Char) : Option ℚ := do
  let whole:=cs.takeWhile Char.isDigit
  let (fraction,rest) := match cs.dropWhile Char.isDigit with
    | '.' :: ds => (ds.takeWhile Char.isDigit,ds.dropWhile Char.isDigit)
    | rest => ([],rest)
  let exponent ← exponentValue rest
  if whole.isEmpty && fraction.isEmpty then none
  else some (roundToDouble
    (natOfDigits (whole++fraction) / 10 ^ fraction.length*10 ^ exponent))

/-- The finite value of `Number(text)`, if it has one. -/
def ofText (cs : List Char) : Option ℚ :=
  match trim cs with
  | [] => some 0
  | '0' :: 'x' :: ds | '0' :: 'X' :: ds => radixValue 16 ds
  | '0' :: 'o' :: ds | '0' :: 'O' :: ds => radixValue 8 ds
  | '0' :: 'b' :: ds | '0' :: 'B' :: ds => radixValue 2 ds
  | '-' :: ds => (unsignedValue ds).map fun q => -q
  | '+' :: ds => unsignedValue ds
  | ds => unsignedValue ds

end Qubicl.Foundation.Number
