import Qubicl.Foundation.StableSort

/-!
# Texts as sequences of code units

The language compares two texts by their UTF-16 code units. Characters outside the basic plane have two units, so that the
order is not that of the characters.
-/

namespace Qubicl.Foundation

def unitsOf (c : Char) : List ℕ :=
  if c.toNat<0x10000 then [c.toNat]
  else [0xd800+(c.toNat - 0x10000) / 0x400,0xdc00+(c.toNat - 0x10000) % 0x400]

def codeUnits (text : String) : List ℕ := text.toList.flatMap unitsOf

theorem char_range (c : Char) : c.toNat<0xd800 ∨ 0xdfff<c.toNat ∧ c.toNat<0x110000 := by
  have hval:=c.valid
  unfold UInt32.isValidChar Nat.isValidChar at hval
  exact hval

theorem unitsOf_append_inj {c d : Char} {rest rest' : List ℕ} (h : unitsOf c++rest=unitsOf d++rest') :
    c=d ∧ rest=rest' := by
  have hc:=char_range c
  have hd:=char_range d
  unfold unitsOf at h
  have key : c.toNat=d.toNat ∧ rest=rest' := by
    by_cases hcBasic : c.toNat<0x10000
    · by_cases hdBasic : d.toNat<0x10000
      · rw [if_pos hcBasic,if_pos hdBasic] at h
        obtain ⟨hhea,hres⟩ := List.cons.inj h
        exact ⟨hhea,hres⟩
      · -- a unit of the basic plane is no leading surrogate
        rw [if_pos hcBasic,if_neg hdBasic] at h
        obtain ⟨hhea,-⟩ := List.cons.inj h
        omega
    · by_cases hdBasic : d.toNat<0x10000
      · rw [if_neg hcBasic,if_pos hdBasic] at h
        obtain ⟨hhea,-⟩ := List.cons.inj h
        omega
      · rw [if_neg hcBasic,if_neg hdBasic] at h
        obtain ⟨hhea,htai⟩ := List.cons.inj h
        obtain ⟨hsec,hres⟩ := List.cons.inj htai
        exact ⟨by omega,hres⟩
  exact ⟨Char.toNat_inj.1 key.1,key.2⟩

theorem codeUnits_injective : Function.Injective codeUnits := by
  have hlis : ∀ cs ds : List Char, cs.flatMap unitsOf=ds.flatMap unitsOf → cs=ds := by
    intro cs
    induction cs with
    | nil =>
      intro ds h
      cases ds with
      | nil => rfl
      | cons d ds =>
        rw [List.flatMap_cons,unitsOf] at h
        split at h
        · cases h
        · cases h
    | cons c cs ih =>
      intro ds h
      cases ds with
      | nil =>
        rw [List.flatMap_cons,unitsOf] at h
        split at h
        · cases h
        · cases h
      | cons d ds =>
        rw [List.flatMap_cons,List.flatMap_cons] at h
        obtain ⟨rfl,hres⟩ := unitsOf_append_inj h
        rw [ih ds hres]
  intro a b h
  exact String.toList_inj.1 (hlis _ _ h)

/-- `left < right ? -1 : left > right ? 1 : 0` -/
def compareText (left right : String) : Ordering := compare (codeUnits left) (codeUnits right)

instance : Std.TransCmp compareText := inferInstanceAs (Std.TransCmp (comparing codeUnits compare))

theorem compareText_eq {left right : String} (h : compareText left right=.eq) : left=right :=
  codeUnits_injective (Std.LawfulEqCmp.eq_of_compare h)

section
variable {α : Type} {cmp : α → α → Ordering} [Std.TransCmp cmp] {l l' : List α}

/-- Where the comparison tells the elements apart, only the elements matter. -/
theorem sorted_eq_of_perm (hper : l.Perm l') (hdis : ∀ a ∈ l, ∀ b ∈ l, cmp a b=.eq → a=b) :
    sorted cmp l=sorted cmp l' := by
  have hsam : (sorted cmp l).Perm (sorted cmp l') := (sorted_perm cmp l).trans (hper.trans (sorted_perm cmp l').symm)
  refine List.Perm.eq_of_pairwise ?_ (pairwise_sorted_isLE l) (pairwise_sorted_isLE l') hsam
  intro a b ha hb hab hba
  have hmem : a ∈ l ∧ b ∈ l := ⟨mem_sorted.1 ha,hper.mem_iff.2 (mem_sorted.1 hb)⟩
  exact hdis a hmem.1 b hmem.2 (Std.OrientedCmp.isLE_antisymm hab hba)

end
end Qubicl.Foundation
