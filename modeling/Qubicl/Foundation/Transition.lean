import Mathlib.Data.List.Basic
import Mathlib.Logic.Relation

/-!
# Labelled transition systems

A system is a set of initial states and a partial transition function: one
action has at most one outcome, and `none` means that the action is not
enabled. Nondeterminism lives in the choice of actions. Runs record their
actions, so that a property of two moments of one run can be stated, and a
state property that one step preserves holds along every run.
-/

namespace Qubicl.Foundation

structure TransitionSystem (State Action : Type*) where
  initial : State → Prop
  step : State → Action → Option State

namespace TransitionSystem
variable {State Action : Type*} {S : TransitionSystem State Action}

/- The last action is the outermost constructor: an induction on a run is an
induction on its length, with the step that is being justified at the end. -/
inductive Run (S : TransitionSystem State Action) : State → List Action → State → Prop
  | refl (s : State) : Run S s [] s
  | tail {s t u : State} {as : List Action} {a : Action} :
      Run S s as t → S.step t a=some u → Run S s (as++[a]) u

def Reachable (S : TransitionSystem State Action) (s : State) : Prop :=
  ∃ s₀ as, S.initial s₀ ∧ S.Run s₀ as s

theorem Reachable.initial {s : State} (h : S.initial s) : S.Reachable s :=
  ⟨s,[],h,.refl s⟩

variable {s t : State}

theorem Reachable.step {a : Action} (h : S.Reachable s)
    (ht : S.step s a=some t) : S.Reachable t := by
  obtain ⟨s₀,as,h₀,hr⟩ := h
  exact ⟨s₀,as++[a],h₀,hr.tail ht⟩

theorem Run.single {a : Action} (h : S.step s a=some t) : S.Run s [a] t :=
  (Run.refl s).tail h

theorem Run.trans {s t u : State} {as bs : List Action} (h : S.Run s as t)
    (h' : S.Run t bs u) : S.Run s (as++bs) u := by
  induction h' with
  | refl => simpa using h
  | tail _ hs ih => simpa using ih.tail hs

variable {as : List Action}

theorem Reachable.run (h : S.Reachable s)
    (hr : S.Run s as t) : S.Reachable t := by
  obtain ⟨s₀,bs,h₀,hr₀⟩ := h
  exact ⟨s₀,bs++as,h₀,hr₀.trans hr⟩

variable {P : State → Prop}

/-- A property that every step preserves is preserved by runs. -/
theorem Run.preserves (hste : ∀ s a t, P s → S.step s a=some t → P t) (hr : S.Run s as t) (hs : P s) : P t := by
  induction hr with
  | refl => exact hs
  | tail _ ht ih => exact hste _ _ _ ih ht

/-- A property of the initial states that every step preserves holds wherever
the system can get. -/
theorem Reachable.invariant (hini : ∀ s, S.initial s → P s)
    (hste : ∀ s a t, P s → S.step s a=some t → P t) {s : State} (h : S.Reachable s) : P s := by
  obtain ⟨s₀,as,h₀,hr⟩ := h
  exact hr.preserves hste (hini s₀ h₀)

/-- The form for invariants that are proved together with reachability. -/
theorem Reachable.induct (hini : ∀ s, S.initial s → P s)
    (hste : ∀ s a t, S.Reachable s → P s → S.step s a=some t → P t)
    {s : State} (h : S.Reachable s) : P s := by
  have key : S.Reachable s ∧ P s := by
    refine Reachable.invariant (P := fun s => S.Reachable s ∧ P s)
      (fun s hs => ⟨.initial hs,hini s hs⟩) ?_ h
    intro s a t hs ht
    exact ⟨hs.1.step ht,hste s a t hs.1 hs.2 ht⟩
  exact key.2

/-- A quantity that no step moves back grows along every run. -/
theorem Run.relates {R : State → State → Prop} (href : ∀ s, R s s)
    (htra : ∀ s t u, R s t → R t u → R s u) (hste : ∀ s a t, S.step s a=some t → R s t) (hr : S.Run s as t) : R s t := by
  induction hr with
  | refl => exact href s
  | tail _ ht ih => exact htra _ _ _ ih (hste _ _ _ ht)

/- The runs whose every step meets a condition on the state it starts in. -/
inductive RunWhere (S : TransitionSystem State Action) (C : State → Action → Prop) :
    State → List Action → State → Prop
  | refl (s : State) : RunWhere S C s [] s
  | tail {s t u : State} {as : List Action} {a : Action} :
      RunWhere S C s as t → C t a → S.step t a=some u → RunWhere S C s (as++[a]) u

variable {C : State → Action → Prop}

theorem RunWhere.run
    (h : S.RunWhere C s as t) : S.Run s as t := by
  induction h with
  | refl => exact .refl _
  | tail _ _ hs ih => exact ih.tail hs

theorem RunWhere.preserves {P : State → Prop}
    (hste : ∀ s a t, P s → C s a → S.step s a=some t → P t) {s t : State} {as : List Action}
    (h : S.RunWhere C s as t) (hs : P s) : P t := by
  induction h with
  | refl => exact hs
  | tail _ hc ht ih => exact hste _ _ _ ih hc ht

/-- Executing a list of actions from left to right. -/
def exec (S : TransitionSystem State Action) : State → List Action → Option State
  | s, [] => some s
  | s, a::as => (S.step s a).bind fun t => S.exec t as

theorem exec_concat (s : State) (as : List Action) (a : Action) :
    S.exec s (as++[a])=(S.exec s as).bind fun t => S.step t a := by
  induction as generalizing s with
  | nil => simp [exec]
  | cons b as ih =>
    show (S.step s b).bind (fun t => S.exec t (as++[a]))=((S.step s b).bind fun t => S.exec t as).bind _
    rw [Option.bind_assoc]
    exact congrArg _ (funext ih)

theorem run_of_exec (h : S.exec s as=some t) :
    S.Run s as t := by
  induction as generalizing s with
  | nil =>
    obtain rfl : s=t := Option.some.inj h
    exact .refl s
  | cons a as ih =>
    obtain ⟨u,hu,hres⟩ := Option.bind_eq_some_iff.mp h
    exact (Run.single hu).trans (ih hres)

/-- The same, with a check before every step. -/
def execWhere (S : TransitionSystem State Action) (check : State → Action → Bool) :
    State → List Action → Option State
  | s, [] => some s
  | s, a::as => if check s a then (S.step s a).bind fun t => S.execWhere check t as else none

theorem RunWhere.single {a : Action} (hc : C s a)
    (h : S.step s a=some t) : S.RunWhere C s [a] t :=
  (RunWhere.refl s).tail hc h

theorem RunWhere.trans {s t u : State} {as bs : List Action}
    (h : S.RunWhere C s as t) (h' : S.RunWhere C t bs u) : S.RunWhere C s (as++bs) u := by
  induction h' with
  | refl => simpa using h
  | tail _ hc hs ih => simpa using ih.tail hc hs

theorem runWhere_of_exec {check : State → Action → Bool}
    (h : S.execWhere check s as=some t) :
    S.RunWhere (fun s a => check s a=true) s as t := by
  induction as generalizing s with
  | nil =>
    obtain rfl : s=t := Option.some.inj h
    exact .refl s
  | cons a as ih =>
    unfold execWhere at h
    split at h
    next hc =>
      obtain ⟨u,hu,hres⟩ := Option.bind_eq_some_iff.mp h
      exact (RunWhere.single (C := fun s a => check s a=true) hc hu).trans (ih hres)
    · cases h

end TransitionSystem
end Qubicl.Foundation
