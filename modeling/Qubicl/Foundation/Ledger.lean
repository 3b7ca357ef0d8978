import Mathlib.Algebra.BigOperators.Group.List.Basic
import Mathlib.Algebra.GroupWithZero.Nat
import Mathlib.Algebra.Ring.Int.Defs
import Mathlib.Data.List.Nodup

/-!
# Sums over a table

The sum of a quantity of the rows of a table, when one row changes, when a key is
dropped and when one is added.
-/

namespace Qubicl.Foundation
open List

variable {ι α : Type*}

def ledgerSum (keys : List ι) (amount : ι → ℤ) : ℤ := (keys.map amount).sum

@[simp] theorem ledgerSum_nil (amount : ι → ℤ) : ledgerSum [] amount=0 := rfl

@[simp] theorem ledgerSum_cons (k : ι) (keys : List ι) (amount : ι → ℤ) :
    ledgerSum (k::keys) amount=amount k+ledgerSum keys amount := by
  simp [ledgerSum]

@[simp] theorem ledgerSum_append (keys more : List ι) (amount : ι → ℤ) :
    ledgerSum (keys++more) amount=ledgerSum keys amount+ledgerSum more amount := by
  simp [ledgerSum]

variable {keys : List ι}

theorem ledgerSum_congr {amount amount' : ι → ℤ}
    (h : ∀ k ∈ keys, amount k=amount' k) : ledgerSum keys amount=ledgerSum keys amount' := by
  rw [ledgerSum,ledgerSum,map_congr_left h]

variable {k : ι}

theorem ledgerSum_update_of_notMem [DecidableEq ι] (hk : k ∉ keys) (f : α → ℤ) (table : ι → α) (row : α) :
    ledgerSum keys (fun j => f (Function.update table k row j)) =
      ledgerSum keys (fun j => f (table j)) := by
  apply ledgerSum_congr
  intro j hj
  have hne : j≠k := fun heq => hk (heq ▸ hj)
  rw [Function.update_of_ne hne]

theorem ledgerSum_update [DecidableEq ι] (hnod : keys.Nodup) (hk : k ∈ keys) (f : α → ℤ) (table : ι → α) (row : α) :
    ledgerSum keys (fun j => f (Function.update table k row j)) =
      ledgerSum keys (fun j => f (table j))+(f row - f (table k)) := by
  induction keys with
  | nil => cases hk
  | cons j keys ih =>
    obtain ⟨hj,hres⟩ := nodup_cons.1 hnod
    rw [ledgerSum_cons,ledgerSum_cons]
    rcases mem_cons.1 hk with heq | hmem
    · subst heq
      rw [ledgerSum_update_of_notMem hj,Function.update_self]
      omega
    · have hne : j≠k := fun heq => hj (heq ▸ hmem)
      rw [ih hres hmem,Function.update_of_ne hne]
      omega

theorem ledgerSum_erase [DecidableEq ι] (hk : k ∈ keys) (amount : ι → ℤ) :
    ledgerSum (keys.erase k) amount=ledgerSum keys amount - amount k := by
  induction keys with
  | nil => cases hk
  | cons j keys ih =>
    by_cases heq : j=k
    · subst heq
      simp
    · have hmem : k ∈ keys := (mem_cons.1 hk).resolve_left (Ne.symm heq)
      have hera : (j::keys).erase k=j::keys.erase k := erase_cons_tail (by simpa using heq)
      rw [hera,ledgerSum_cons,ledgerSum_cons,ih hmem]
      omega

variable {amount : ι → ℤ}

theorem ledgerSum_zero (h : ∀ k ∈ keys, amount k=0) :
    ledgerSum keys amount=0 := by
  induction keys with
  | nil => rfl
  | cons j keys ih =>
    rw [ledgerSum_cons,h j mem_cons_self,ih fun k hk => h k (mem_cons_of_mem j hk)]
    omega

theorem ledgerSum_nonneg (h : ∀ k ∈ keys, 0≤amount k) :
    0≤ledgerSum keys amount := by
  induction keys with
  | nil => exact Int.le_refl 0
  | cons j keys ih =>
    have hj:=h j mem_cons_self
    have hres:=ih fun k hk => h k (mem_cons_of_mem j hk)
    rw [ledgerSum_cons]
    omega

theorem le_ledgerSum (h : ∀ k ∈ keys, 0≤amount k) (hk : k ∈ keys) : amount k≤ledgerSum keys amount := by
  induction keys with
  | nil => cases hk
  | cons j keys ih =>
    have hj:=h j mem_cons_self
    have hres : ∀ i ∈ keys, 0≤amount i := fun i hi => h i (mem_cons_of_mem j hi)
    have hsum:=ledgerSum_nonneg hres
    rw [ledgerSum_cons]
    rcases mem_cons.1 hk with heq | hmem
    · subst heq
      omega
    · have := ih hres hmem
      omega

theorem ledgerSum_filter {p : ι → Bool}
    (h : ∀ k ∈ keys, p k=false → amount k=0) :
    ledgerSum (keys.filter p) amount=ledgerSum keys amount := by
  induction keys with
  | nil => rfl
  | cons j keys ih =>
    have hres:=ih fun k hk => h k (mem_cons_of_mem j hk)
    cases hj : p j with
    | true => rw [filter_cons_of_pos hj,ledgerSum_cons,ledgerSum_cons,hres]
    | false =>
      rw [filter_cons_of_neg (by simp [hj]),ledgerSum_cons,hres,
        h j mem_cons_self hj]
      omega

end Qubicl.Foundation
