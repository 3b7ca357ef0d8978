import Mathlib.Data.List.Basic

/-!
# Texts as bytes

The UTF-8 bytes of a text, and the text of bytes that need not be UTF-8: a longest beginning of a character that does not go on
as one becomes one replacement character.
-/

namespace Qubicl.Foundation.Utf8
open List

def encodeChars (cs : List Char) : List UInt8 := cs.flatMap String.utf8EncodeChar

def encode (text : String) : List UInt8 := encodeChars text.toList

def validChar (bytes : List UInt8) : Option Char := bytes.toByteArray.utf8DecodeChar? 0

/- The least and the greatest byte that may follow a first byte, and how many follow it. -/
def continuation (first : UInt8) : UInt8 × UInt8 × ℕ :=
  if 0xc2≤first ∧ first≤0xdf then (0x80,0xbf,1)
  else if first=0xe0 then (0xa0,0xbf,2)
  else if first=0xed then (0x80,0x9f,2)
  else if 0xe1≤first ∧ first≤0xef then (0x80,0xbf,2)
  else if first=0xf0 then (0x90,0xbf,3)
  else if first=0xf4 then (0x80,0x8f,3)
  else if 0xf1≤first ∧ first≤0xf3 then (0x80,0xbf,3)
  else (0,0,0)

/-- How many bytes a replacement character stands for, where no character can be read. -/
def malformedLength : List UInt8 → ℕ
  | [] => 0
  | [_] => 1
  | first::second::rest =>
    let (least,greatest,count) := continuation first
    if count=0 ∨ second<least ∨ greatest<second then 1
    else 2+((rest.take (count - 2)).takeWhile fun byte => 0x80≤byte && byte≤0xbf).length

def decodeChars : ℕ → List UInt8 → List Char
  | 0, _ => []
  | _+1, [] => []
  | n+1, byte::bytes =>
    match validChar (byte::bytes) with
    | some c => c::decodeChars n ((byte::bytes).drop c.utf8Size)
    | none => '\uFFFD' :: decodeChars n ((byte::bytes).drop (malformedLength (byte::bytes)))

/-- `toString('utf8')` -/
def decode (bytes : List UInt8) : String := String.ofList (decodeChars bytes.length bytes)

theorem toByteArray_append (xs ys : List UInt8) : (xs++ys).toByteArray=xs.toByteArray++ys.toByteArray := by
  simp

theorem validChar_encode (c : Char) (rest : List UInt8) : validChar (String.utf8EncodeChar c++rest)=some c := by
  unfold validChar
  rw [toByteArray_append]
  exact ByteArray.utf8DecodeChar?_utf8EncodeChar_append

theorem decodeChars_encodeChars (cs : List Char) (n : ℕ) (h : (encodeChars cs).length≤n) :
    decodeChars n (encodeChars cs)=cs := by
  induction cs generalizing n with
  | nil => cases n <;> rfl
  | cons c cs ih =>
    have hspl : encodeChars (c::cs)=String.utf8EncodeChar c++encodeChars cs := flatMap_cons
    have hpos:=c.utf8Size_pos
    rw [hspl,length_append,String.length_utf8EncodeChar] at h
    rw [hspl]
    cases n with
    | zero => omega
    | succ n =>
      cases hbyt : String.utf8EncodeChar c++encodeChars cs with
      | nil =>
        have hlen:=congrArg List.length hbyt
        rw [length_append,String.length_utf8EncodeChar,length_nil] at hlen
        omega
      | cons byte bytes =>
        rw [decodeChars,← hbyt,validChar_encode]
        simp only
        rw [drop_left' (String.length_utf8EncodeChar c),ih n (by omega)]

theorem decode_encode (text : String) : decode (encode text)=text := by
  unfold decode encode
  rw [decodeChars_encodeChars _ _ (Nat.le_refl _)]
  exact String.ofList_toList

theorem encodeChars_append (cs ds : List Char) : encodeChars (cs++ds)=encodeChars cs++encodeChars ds := flatMap_append

/- A byte of the lower half stands for itself. -/
theorem byte_lt {c : Char} {byte : UInt8} (h : byte ∈ String.utf8EncodeChar c) (hbyt : byte.toNat<128) :
    c.toNat=byte.toNat := by
  unfold String.utf8EncodeChar at h
  simp only at h
  split_ifs at h with h7 h11 h16
  · rw [mem_singleton] at h
    rw [h,UInt8.toNat_ofNat']
    have hval : c.val.toNat=c.toNat := rfl
    omega
  · simp only [mem_cons,not_mem_nil,or_false] at h
    rcases h with rfl | rfl <;> rw [UInt8.toNat_ofNat'] at hbyt <;> omega
  · simp only [mem_cons,not_mem_nil,or_false] at h
    rcases h with rfl | rfl | rfl <;> rw [UInt8.toNat_ofNat'] at hbyt <;> omega
  · simp only [mem_cons,not_mem_nil,or_false] at h
    rcases h with rfl | rfl | rfl | rfl <;> rw [UInt8.toNat_ofNat'] at hbyt <;> omega

theorem mem_encodeChars {cs : List Char} {byte : UInt8} (h : byte ∈ encodeChars cs) (hbyt : byte.toNat<128) :
    ∃ c ∈ cs, c.toNat=byte.toNat := by
  obtain ⟨c,hc,hmem⟩ := mem_flatMap.1 h
  exact ⟨c,hc,byte_lt hmem hbyt⟩

end Qubicl.Foundation.Utf8
