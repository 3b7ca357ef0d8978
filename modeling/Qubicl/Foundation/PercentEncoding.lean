import Qubicl.Foundation.Utf8

/-!
# Percent-encoding of a component

`encodeURIComponent` and `decodeURIComponent`: a character that is not kept stands as the escapes of its UTF-8 bytes, and
escapes are read back as a character only where they are one.
-/

namespace Qubicl.Foundation.Percent
open List Option

def hexDigit (n : ℕ) : Char := if n<10 then Char.ofNat (48+n) else Char.ofNat (55+n)

def hexValue (c : Char) : Option ℕ :=
  if '0' ≤ c ∧ c ≤ '9' then some (c.toNat - 48)
  else if 'A' ≤ c ∧ c ≤ 'F' then some (c.toNat - 55)
  else if 'a' ≤ c ∧ c ≤ 'f' then some (c.toNat - 87)
  else none

def escapeByte (byte : UInt8) : List Char := ['%',hexDigit (byte.toNat / 16),hexDigit (byte.toNat % 16)]

/-- The escape a text begins with, and what follows it. -/
def escapedByte : List Char → Option (UInt8 × List Char)
  | '%' :: high::low::rest => do
    let h ← hexValue high
    let l ← hexValue low
    some (UInt8.ofNat (16*h+l),rest)
  | _ => none

def escapedBytes : ℕ → List Char → Option (List UInt8 × List Char)
  | 0, rest => some ([],rest)
  | n+1, chars => do
    let (byte,rest) ← escapedByte chars
    let (bytes,rest) ← escapedBytes n rest
    some (byte::bytes,rest)

theorem hexValue_hexDigit {n : ℕ} (h : n<16) : hexValue (hexDigit n)=some n := by
  have hall : ∀ k : Fin 16, hexValue (hexDigit k)=some k.val := by decide
  exact hall ⟨n,h⟩

theorem escapedByte_escapeByte (byte : UInt8) (rest : List Char) : escapedByte (escapeByte byte++rest)=some (byte,rest) := by
  have hbyt : byte.toNat<256 := byte.toNat_lt
  have hhig : hexValue (hexDigit (byte.toNat / 16))=some (byte.toNat / 16) := hexValue_hexDigit (by omega)
  have hlow : hexValue (hexDigit (byte.toNat % 16))=some (byte.toNat % 16) := hexValue_hexDigit (by omega)
  have hsum : 16*(byte.toNat / 16)+byte.toNat % 16=byte.toNat := by omega
  simp only [escapeByte,cons_append,nil_append,escapedByte,hhig,hlow,bind_eq_bind,
    bind_some,hsum,UInt8.ofNat_toNat]

theorem escapedBytes_escapeByte (bytes : List UInt8) (rest : List Char) :
    escapedBytes bytes.length (bytes.flatMap escapeByte++rest)=some (bytes,rest) := by
  induction bytes with
  | nil => rfl
  | cons byte bytes ih =>
    rw [length_cons,flatMap_cons,append_assoc,escapedBytes,escapedByte_escapeByte]
    simp only [bind_eq_bind,bind_some,ih]

/- Letters and digits of ASCII, and nine marks. -/
def isUnreserved (c : Char) : Bool := c.isAlphanum || "-_.!~*'()".toList.contains c

def encodeChar (c : Char) : List Char :=
  if isUnreserved c then [c] else (String.utf8EncodeChar c).flatMap escapeByte

/-- `encodeURIComponent` -/
def encodeComponent (text : String) : String := String.ofList (text.toList.flatMap encodeChar)

def octets (first : UInt8) : ℕ :=
  if first<0x80 then 1
  else if first<0xc0 then 0
  else if first<0xe0 then 2
  else if first<0xf0 then 3
  else if first<0xf8 then 4
  else 0

def escapedChar (chars : List Char) : Option (Char × List Char) := do
  let (first,_) ← escapedByte chars
  let (bytes,rest) ← escapedBytes (octets first) chars
  let c ← Utf8.validChar bytes
  some (c,rest)

def decodeChars : ℕ → List Char → Option (List Char)
  | _, [] => some []
  | 0, _::_ => none
  | n+1, c::chars =>
    if c = '%' then do
      let (decoded,rest) ← escapedChar (c::chars)
      (decodeChars n rest).map (decoded :: ·)
    else (decodeChars n chars).map (c :: ·)

/-- `decodeURIComponent`, unless it throws. -/
def decodeComponent (text : String) : Option String := (decodeChars text.toList.length text.toList).map String.ofList

theorem octets_utf8EncodeChar (c : Char) :
    ∃ first rest, String.utf8EncodeChar c=first::rest ∧ octets first=(String.utf8EncodeChar c).length := by
  have hvad:=c.valid
  have hval : c.val.toNat<1114112 := by
    rcases hvad with hsma | ⟨_,hlar⟩
    · exact Nat.lt_trans hsma (by decide)
    · exact hlar
  unfold String.utf8EncodeChar
  simp only
  split_ifs with h7 h11 h16
  · refine ⟨_,_,rfl,?_⟩
    unfold octets
    rw [if_pos (by rw [UInt8.lt_iff_toNat_lt,UInt8.toNat_ofNat']; simp only [UInt8.reduceToNat]; omega)]
    rfl
  · refine ⟨_,_,rfl,?_⟩
    have hfir : (UInt8.ofNat (c.val.toNat / 64 % 32+192)).toNat=c.val.toNat / 64 % 32+192 := by
      rw [UInt8.toNat_ofNat']
      omega
    simp only [octets,UInt8.lt_iff_toNat_lt,hfir,UInt8.reduceToNat,length_cons,length_nil]
    split_ifs <;> omega
  · refine ⟨_,_,rfl,?_⟩
    have hfir : (UInt8.ofNat (c.val.toNat / 4096 % 16+224)).toNat=c.val.toNat / 4096 % 16+224 := by
      rw [UInt8.toNat_ofNat']
      omega
    simp only [octets,UInt8.lt_iff_toNat_lt,hfir,UInt8.reduceToNat,length_cons,length_nil]
    split_ifs <;> omega
  · refine ⟨_,_,rfl,?_⟩
    have hfir : (UInt8.ofNat (c.val.toNat / 262144 % 8+240)).toNat=c.val.toNat / 262144 % 8+240 := by
      rw [UInt8.toNat_ofNat']
      omega
    simp only [octets,UInt8.lt_iff_toNat_lt,hfir,UInt8.reduceToNat,length_cons,length_nil]
    split_ifs <;> omega

theorem escapedChar_encode (c : Char) (rest : List Char) :
    escapedChar ((String.utf8EncodeChar c).flatMap escapeByte++rest)=some (c,rest) := by
  obtain ⟨first,more,hbyt,hoct⟩ := octets_utf8EncodeChar c
  have hfir : escapedByte ((String.utf8EncodeChar c).flatMap escapeByte++rest) =
      some (first,more.flatMap escapeByte++rest) := by
    rw [hbyt,flatMap_cons,append_assoc,escapedByte_escapeByte]
  have hcha : Utf8.validChar (String.utf8EncodeChar c)=some c := by
    simpa using Utf8.validChar_encode c []
  simp only [escapedChar,hfir,hoct,escapedBytes_escapeByte,hcha,bind_eq_bind,bind_some]

theorem isUnreserved_percent : isUnreserved '%' = false := by decide

theorem decodeChars_encodeChar (c : Char) (n : ℕ) (rest : List Char) :
    decodeChars (n+1) (encodeChar c++rest)=(decodeChars n rest).map (c :: ·) := by
  unfold encodeChar
  split
  case isTrue hkep =>
    have hper : c ≠ '%' := by
      rintro rfl
      rw [isUnreserved_percent] at hkep
      cases hkep
    rw [cons_append,nil_append,decodeChars,if_neg hper]
  case isFalse =>
    obtain ⟨first,more,hbyt,-⟩ := octets_utf8EncodeChar c
    have hesc : (String.utf8EncodeChar c).flatMap escapeByte++rest =
        '%' :: hexDigit (first.toNat / 16)::hexDigit (first.toNat % 16)::(more.flatMap escapeByte++rest) := by
      rw [hbyt,flatMap_cons,append_assoc]
      rfl
    have hcha:=escapedChar_encode c rest
    rw [hesc] at hcha
    rw [hesc,decodeChars,if_pos rfl,hcha]
    rfl

theorem length_encodeChar (c : Char) : 0<(encodeChar c).length := by
  unfold encodeChar
  split
  · exact Nat.one_pos
  · obtain ⟨first,more,hbyt,-⟩ := octets_utf8EncodeChar c
    rw [hbyt,flatMap_cons,length_append]
    exact Nat.add_pos_left (Nat.succ_pos 2) _

theorem decodeChars_flatMap (cs : List Char) (n : ℕ) (h : (cs.flatMap encodeChar).length≤n) :
    decodeChars n (cs.flatMap encodeChar)=some cs := by
  induction cs generalizing n with
  | nil => cases n <;> rfl
  | cons c cs ih =>
    have hpos:=length_encodeChar c
    rw [flatMap_cons,length_append] at h
    cases n with
    | zero => omega
    | succ n =>
      rw [flatMap_cons,decodeChars_encodeChar,ih n (by omega)]
      rfl

theorem decodeComponent_encodeComponent (text : String) : decodeComponent (encodeComponent text)=some text := by
  have hcha : (encodeComponent text).toList=text.toList.flatMap encodeChar := String.toList_ofList
  unfold decodeComponent
  rw [hcha,decodeChars_flatMap _ _ (Nat.le_refl _)]
  simp

/-- The characters of an encoded component. -/
def isEncoded (c : Char) : Bool := isUnreserved c || c == '%'

theorem hexDigit_unreserved {n : ℕ} (h : n<16) : isUnreserved (hexDigit n)=true := by
  have hall : ∀ k : Fin 16, isUnreserved (hexDigit k)=true := by decide
  exact hall ⟨n,h⟩

theorem isEncoded_escapeByte {byte : UInt8} {c : Char} (h : c ∈ escapeByte byte) : isEncoded c=true := by
  have hbyt : byte.toNat<256 := byte.toNat_lt
  simp only [escapeByte,mem_cons,not_mem_nil,or_false] at h
  rcases h with rfl | rfl | rfl
  · rfl
  · rw [isEncoded,hexDigit_unreserved (by omega),Bool.true_or]
  · rw [isEncoded,hexDigit_unreserved (by omega),Bool.true_or]

theorem isEncoded_of_mem {text : String} {c : Char} (h : c ∈ (encodeComponent text).toList) : isEncoded c=true := by
  have hcha : (encodeComponent text).toList=text.toList.flatMap encodeChar := String.toList_ofList
  rw [hcha] at h
  obtain ⟨d,-,hd⟩ := mem_flatMap.1 h
  unfold encodeChar at hd
  split at hd
  case isTrue hkep =>
    rw [mem_singleton] at hd
    rw [hd,isEncoded,hkep,Bool.true_or]
  case isFalse =>
    obtain ⟨byte,-,hbyt⟩ := mem_flatMap.1 hd
    exact isEncoded_escapeByte hbyt

theorem encodeComponent_eq_self {text : String} (h : ∀ c ∈ text.toList, isUnreserved c=true) : encodeComponent text=text := by
  have hsel : ∀ cs : List Char, (∀ c ∈ cs, isUnreserved c=true) → cs.flatMap encodeChar=cs := by
    intro cs hcs
    induction cs with
    | nil => rfl
    | cons c cs ih =>
      rw [flatMap_cons,ih fun d hd => hcs d (mem_cons_of_mem _ hd),encodeChar,if_pos (hcs c mem_cons_self)]
      rfl
  unfold encodeComponent
  rw [hsel text.toList h,String.ofList_toList]

end Qubicl.Foundation.Percent
