import Mathlib.Data.List.Perm.Basic

/-!
# Loops on a shared budget

A loop whose every turn takes one step from a budget that other loops use too.
-/

namespace Qubicl.Foundation

variable {σ α β ι ε : Type*}

inductive Turn (σ α : Type*) where
  | again (s : σ)
  | done (a : α)

/-- `while (!finished(s)) { step(); s = turn(s) }`, with the count of the steps
taken so far handed through. -/
def meteredLoop (max : ℕ) (exhausted : ε) (finished : σ → Option α)
    (turn : σ → Except ε (Turn σ α)) (steps : ℕ) (s : σ) : Except ε (α × ℕ) :=
  match finished s with
  | some a => .ok (a,steps)
  | none =>
    if max<steps+1 then .error exhausted
    else match turn s with
      | .error e => .error e
      | .ok (.done a) => .ok (a,steps+1)
      | .ok (.again s') => meteredLoop max exhausted finished turn (steps+1) s'
termination_by max - steps

/-- A computation that only adds its own cost to the steps taken before it. -/
def Metered (max : ℕ) (f : ℕ → Except ε (β × ℕ)) : Prop :=
  ∀ steps b steps', f steps=.ok (b,steps') → ∃ cost, steps'=steps+cost ∧
    (steps ≤ max → steps' ≤ max) ∧ ∀ start, start+cost ≤ max → f start=.ok (b,start+cost)

theorem metered_pure (max : ℕ) (b : β) : Metered (ε := ε) max (fun steps => .ok (b,steps)) := by
  intro steps b' steps' h
  cases h
  exact ⟨0,rfl,id,fun _ _ => rfl⟩

theorem Metered.map {γ : Type*} {max : ℕ} {f : ℕ → Except ε (β × ℕ)} (g : β → γ)
    (hf : Metered max f) :
    Metered max (fun steps => (f steps).map fun found => (g found.1,found.2)) := by
  intro steps c steps' h
  cases hfir : f steps with
  | error e => simp [hfir,Except.map] at h
  | ok found =>
    obtain ⟨b,after⟩ := found
    simp only [hfir,Except.map,Except.ok.injEq,Prod.mk.injEq] at h
    obtain ⟨hc,haft⟩ := h
    subst hc haft
    obtain ⟨cost,hcos,hle,hany⟩ := hf steps b after hfir
    refine ⟨cost,hcos,hle,?_⟩
    intro start hsta
    simp [hany start hsta,Except.map]

variable {a : α} {s : σ} {steps steps' : ℕ} {bs : List β} {is : List ι}

section loop

variable {max : ℕ} {exhausted : ε} {finished : σ → Option α} {turn : σ → Except ε (Turn σ α)}

theorem meteredLoop_finished (h : finished s=some a) (steps : ℕ) :
    meteredLoop max exhausted finished turn steps s=.ok (a,steps) := by
  rw [meteredLoop,h]

theorem meteredLoop_done (h : finished s=none) (hs : steps+1 ≤ max) (ht : turn s=.ok (.done a)) :
    meteredLoop max exhausted finished turn steps s=.ok (a,steps+1) := by
  rw [meteredLoop,h,ht]
  exact if_neg (by omega)

theorem meteredLoop_again {s' : σ} (h : finished s=none) (hs : steps+1 ≤ max) (ht : turn s=.ok (.again s')) :
    meteredLoop max exhausted finished turn steps s =
      meteredLoop max exhausted finished turn (steps+1) s' := by
  rw [meteredLoop,h,ht]
  exact if_neg (by omega)

/-- A loop that succeeds either was finished or took a turn that succeeded. -/
theorem meteredLoop_cases (h : meteredLoop max exhausted finished turn steps s=.ok (a,steps')) :
    (finished s=some a ∧ steps'=steps) ∨
    (finished s=none ∧ steps+1 ≤ max ∧
      ((turn s=.ok (.done a) ∧ steps'=steps+1) ∨
        ∃ s', turn s=.ok (.again s') ∧
          meteredLoop max exhausted finished turn (steps+1) s'=.ok (a,steps'))) := by
  rw [meteredLoop] at h
  split at h
  · next a' hf =>
    cases h
    exact .inl ⟨hf,rfl⟩
  · next hf =>
    right
    split at h
    · cases h
    · next hs =>
      refine ⟨hf,by omega,?_⟩
      split at h
      · cases h
      · next a' ht =>
        cases h
        exact .inl ⟨ht,rfl⟩
      · next s' ht => exact .inr ⟨s',ht,h⟩

/-- Induction over the turns of a loop that succeeds. -/
theorem meteredLoop_induction {motive : ℕ → σ → ℕ → Prop}
    (finish : ∀ steps s, finished s=some a → motive steps s steps)
    (finalTurn : ∀ steps s, finished s=none → steps+1 ≤ max → turn s=.ok (.done a) →
      motive steps s (steps+1)) (turnAgain : ∀ steps s s' steps', finished s=none → steps+1 ≤ max →
      turn s=.ok (.again s') → motive (steps+1) s' steps' → motive steps s steps')
    (h : meteredLoop max exhausted finished turn steps s=.ok (a,steps')) : motive steps s steps' := by
  induction hlef : max - steps generalizing steps s with
  | zero =>
    rcases meteredLoop_cases h with ⟨hf,rfl⟩ | ⟨hf,hs,_⟩
    · exact finish _ _ hf
    · omega
  | succ left ih =>
    rcases meteredLoop_cases h with ⟨hf,rfl⟩ | ⟨hf,hs,⟨ht,rfl⟩ | ⟨s',ht,hres⟩⟩
    · exact finish _ _ hf
    · exact finalTurn _ _ hf hs ht
    · have hrec:=ih hres (by omega)
      exact turnAgain _ _ s' _ hf hs ht hrec

theorem meteredLoop_metered (s : σ) :
    Metered max (fun steps => meteredLoop max exhausted finished turn steps s) := by
  intro steps a steps' h
  refine meteredLoop_induction (motive := fun steps s steps' => ∃ cost, steps'=steps+cost ∧
    (steps ≤ max → steps' ≤ max) ∧ ∀ start, start+cost ≤ max →
      meteredLoop max exhausted finished turn start s=.ok (a,start+cost)) ?_ ?_ ?_ h
  · intro steps s hf
    exact ⟨0,rfl,id,fun start _ => meteredLoop_finished hf start⟩
  · intro steps s hf hs ht
    exact ⟨1,rfl,fun _ => hs,fun start hsta => meteredLoop_done hf hsta ht⟩
  · intro steps s s' steps' hf hs ht ih
    obtain ⟨cost,rfl,hmax,hany⟩ := ih
    refine ⟨cost+1,by omega,fun _ => hmax hs,?_⟩
    intro start hsta
    have hres:=hany (start+1) (by omega)
    rw [meteredLoop_again hf (by omega) ht,hres]
    congr 2
    omega

end loop

section pass

/-- The loops of a list's members one after another. -/
def meteredPass (f : ι → ℕ → Except ε (β × ℕ)) : List ι → ℕ → Except ε (List β × ℕ)
  | [], steps => .ok ([],steps)
  | i::is, steps => do
    let (b,steps) ← f i steps
    let (bs,steps) ← meteredPass f is steps
    return (b::bs,steps)

variable {f : ι → ℕ → Except ε (β × ℕ)}

theorem meteredPass_cons_ok {i : ι} :
    meteredPass f (i::is) steps=.ok (bs,steps') ↔
      ∃ b between rest, f i steps=.ok (b,between) ∧
        meteredPass f is between=.ok (rest,steps') ∧ bs=b::rest := by
  rw [meteredPass]
  cases hi : f i steps with
  | error e => simp [bind,Except.bind]
  | ok first =>
    obtain ⟨b,between⟩ := first
    cases hr : meteredPass f is between with
    | error e => simp [bind,Except.bind,hr]
    | ok rest =>
      obtain ⟨bs',after⟩ := rest
      simp [bind,Except.bind,hr,pure,Except.pure]
      constructor
      · rintro ⟨rfl,rfl⟩
        exact ⟨rfl,rfl⟩
      · rintro ⟨rfl,rfl⟩
        exact ⟨rfl,rfl⟩

theorem meteredPass_each (h : meteredPass f is steps=.ok (bs,steps')) :
    List.Forall₂ (fun i b => ∃ before after, f i before=.ok (b,after)) is bs := by
  induction is generalizing bs steps with
  | nil =>
    cases h
    exact .nil
  | cons i is ih =>
    obtain ⟨b,between,rest,hi,hr,rfl⟩ := meteredPass_cons_ok.1 h
    exact .cons ⟨_,_,hi⟩ (ih hr)

/-- A pass that succeeds does so in any order, for the same number of steps. -/
theorem meteredPass_perm {max : ℕ} (hf : ∀ i, Metered max (f i)) {js : List ι} (hper : is.Perm js)
    (hmax : steps ≤ max) (h : meteredPass f is steps=.ok (bs,steps')) :
    ∃ cs, bs.Perm cs ∧ meteredPass f js steps=.ok (cs,steps') := by
  induction hper generalizing steps bs with
  | nil => exact ⟨bs,.refl _,h⟩
  | @cons i is js _ ih =>
    obtain ⟨b,between,rest,hi,hr,rfl⟩ := meteredPass_cons_ok.1 h
    obtain ⟨cost,rfl,hle,_⟩ := hf i _ _ _ hi
    obtain ⟨cs,hcsPerm,hcs⟩ := ih (hle hmax) hr
    exact ⟨b::cs,hcsPerm.cons b,meteredPass_cons_ok.2 ⟨b,_,cs,hi,hcs,rfl⟩⟩
  | swap i j is =>
    obtain ⟨bj,afterJ,rest,hj,hr,rfl⟩ := meteredPass_cons_ok.1 h
    obtain ⟨bi,afterI,rest',hi,hr',rfl⟩ := meteredPass_cons_ok.1 hr
    obtain ⟨costJ,rfl,hleJ,hanyJ⟩ := hf j _ _ _ hj
    obtain ⟨costI,rfl,hleI,hanyI⟩ := hf i _ _ _ hi
    have hbou:=hleI (hleJ hmax)
    have hi':=hanyI steps (by omega)
    have hj':=hanyJ (steps+costI) (by omega)
    have hsum : steps+costI+costJ=steps+costJ+costI := by omega
    rw [hsum] at hj'
    exact ⟨bi::bj::rest',.swap bi bj rest',meteredPass_cons_ok.2 ⟨bi,_,_,hi',
      meteredPass_cons_ok.2 ⟨bj,_,_,hj',hr',rfl⟩,rfl⟩⟩
  | trans _ _ ih₁ ih₂ =>
    obtain ⟨bs',hbs',hcs⟩ := ih₁ hmax h
    obtain ⟨cs,hcsPerm,hcs'⟩ := ih₂ hmax hcs
    exact ⟨cs,hbs'.trans hcsPerm,hcs'⟩

theorem meteredPass_le {max : ℕ} (hf : ∀ i, Metered max (f i)) (hmax : steps ≤ max)
    (h : meteredPass f is steps=.ok (bs,steps')) : steps' ≤ max := by
  induction is generalizing steps bs with
  | nil =>
    cases h
    exact hmax
  | cons i is ih =>
    obtain ⟨b,between,rest,hi,hr,rfl⟩ := meteredPass_cons_ok.1 h
    obtain ⟨cost,rfl,hle,_⟩ := hf i _ _ _ hi
    exact ih (hle hmax) hr

end pass

end Qubicl.Foundation
