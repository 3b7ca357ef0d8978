import Mathlib.Data.Int.Notation
import Mathlib.Data.List.Basic

/-!
# Text keys

Facts about lists of characters that are built from parts and a separator, and
about the decimal digits of a number.
-/

namespace Qubicl.Foundation
open List

/- There are finitely many characters, but a statement about those of a text is decided along the text. -/
theorem forall_chars {p : Char → Prop} [DecidablePred p] {text : List Char} (h : (text.all fun c => decide (p c))=true) :
    ∀ c ∈ text, p c :=
  fun c hc => of_decide_eq_true (all_eq_true.1 h c hc)

theorem isUpper_eq (c : Char) : c.isUpper=decide (c.val ≥ 'A'.val ∧ c.val ≤ 'Z'.val) := rfl

theorem isLower_eq (c : Char) : c.isLower=(decide (c.val ≥ 'a'.val) && decide (c.val ≤ 'z'.val)) := rfl

theorem isAlphanum_eq (c : Char) : c.isAlphanum=(c.isUpper || c.isLower || c.isDigit) := rfl

theorem separator_inj {α : Type*} {a : α} {x y s t : List α} (hx : a ∉ x) (hy : a ∉ y)
    (h : x++a::s=y++a::t) : x=y ∧ s=t := by
  induction x generalizing y with
  | nil =>
    cases y with
    | nil => exact ⟨rfl,tail_eq_of_cons_eq h⟩
    | cons b y =>
      have hb : a=b := head_eq_of_cons_eq h
      exact absurd (hb ▸ mem_cons_self) hy
  | cons b x ih =>
    cases y with
    | nil =>
      have hb : b=a := head_eq_of_cons_eq h
      exact absurd (hb ▸ mem_cons_self) hx
    | cons c y =>
      obtain ⟨rfl,hres⟩ := List.cons.inj h
      obtain ⟨rfl,rfl⟩ := ih (fun hm => hx (mem_cons_of_mem _ hm))
        (fun hm => hy (mem_cons_of_mem _ hm)) hres
      exact ⟨rfl,rfl⟩

theorem digits_isDigit {c : Char} {n : ℕ} (h : c ∈ Nat.toDigits 10 n) : c.isDigit=true :=
  Nat.isDigit_of_mem_toDigits (by decide) (by decide) h

theorem digits_injective {a b : ℕ} (h : Nat.toDigits 10 a=Nat.toDigits 10 b) : a=b := by
  rw [← Nat.ofDigitChars_ten_toDigits (n := a),h,Nat.ofDigitChars_ten_toDigits]

end Qubicl.Foundation
