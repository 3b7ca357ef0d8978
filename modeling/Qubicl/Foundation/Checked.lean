import Mathlib.Data.Finset.Lattice.Lemmas

/-!
# Checks that throw

A function that throws at its first failed check, as a computation in `Except`.
-/

namespace Qubicl.Foundation
open List

universe u v

variable {α β σ : Type u} {ε : Type v}

/-- `if (bad) throw error;` -/
def rejectIf (bad : Prop) [Decidable bad] (error : ε) : Except ε Unit :=
  if bad then .error error else .ok ()

@[simp] theorem rejectIf_ok {bad : Prop} [Decidable bad] {error : ε} {u : Unit} :
    rejectIf bad error=.ok u ↔ ¬ bad := by
  unfold rejectIf
  split
  · next h => simp [h]
  · next h => simp [h]

@[simp] theorem bind_ok {x : Except ε α} {f : α → Except ε β} {b : β} :
    (x >>= f)=.ok b ↔ ∃ a, x=.ok a ∧ f a=.ok b := by
  cases x with
  | error e => simp [bind,Except.bind]
  | ok a => simp [bind,Except.bind]

theorem bind_ok_eq_map (x : Except ε α) (f : α → β) : (x >>= fun a => .ok (f a))=x.map f := by
  cases x with
  | error e => rfl
  | ok a => rfl

@[simp] theorem pure_ok {a b : α} : (pure a : Except ε α)=.ok b ↔ a=b := by
  simp [pure,Except.pure]

/-- A loop that gathers names into its state and throws when the names gathered so
far no longer fit.  Whether it succeeds depends on the checks of its items and on
all the names together, not on their order. -/
theorem foldlM_gathers {ν : Type*} [DecidableEq ν] {f : σ → α → Except ε σ}
    (Gathered : σ → Finset ν → Prop) (Fits : Finset ν → Prop) (names : α → List ν)
    (check : α → Prop) {items : List α} (hsub : ∀ N M, N ⊆ M → Fits M → Fits N)
    (hste : ∀ s N a, a ∈ items → Gathered s N → Fits N →
      ((∃ s', f s a=.ok s') ↔ check a ∧ Fits (N ∪ (names a).toFinset)) ∧
        ∀ s', f s a=.ok s' → Gathered s' (N ∪ (names a).toFinset))
    {s : σ} {N : Finset ν} (hs : Gathered s N) (hN : Fits N) :
    ((∃ s', items.foldlM f s=.ok s') ↔
        (∀ a ∈ items, check a) ∧ Fits (N ∪ (items.flatMap names).toFinset)) ∧
      ∀ s', items.foldlM f s=.ok s' → Gathered s' (N ∪ (items.flatMap names).toFinset) := by
  induction items generalizing s N with
  | nil =>
    constructor
    · simpa using hN
    · intro s' h
      cases pure_ok.1 h
      simpa using hs
  | cons a items ih =>
    obtain ⟨hok,hgat⟩ := hste s N a mem_cons_self hs hN
    have hres:=@ih fun s N b hb => hste s N b (mem_cons_of_mem a hb)
    have huni : N ∪ ((a::items).flatMap names).toFinset =
        N ∪ (names a).toFinset ∪ (items.flatMap names).toFinset := by
      rw [flatMap_cons,toFinset_append,Finset.union_assoc]
    simp only [foldlM_cons,bind_ok,huni,forall_mem_cons]
    constructor
    · constructor
      · intro ⟨s',between,hfir,h⟩
        obtain ⟨hche,hfit⟩ := hok.1 ⟨between,hfir⟩
        obtain ⟨hchs,hall⟩ := (hres (hgat between hfir) hfit).1.1 ⟨s',h⟩
        exact ⟨⟨hche,hchs⟩,hall⟩
      · intro ⟨⟨hche,hchs⟩,hall⟩
        have hfit:=hsub _ _ Finset.subset_union_left hall
        obtain ⟨between,hfir⟩ := hok.2 ⟨hche,hfit⟩
        obtain ⟨s',h⟩ := (hres (hgat between hfir) hfit).1.2 ⟨hchs,hall⟩
        exact ⟨s',between,hfir,h⟩
    · intro s' ⟨between,hfir,h⟩
      have hfit:=(hok.1 ⟨between,hfir⟩).2
      exact (hres (hgat between hfir) hfit).2 s' h

end Qubicl.Foundation
