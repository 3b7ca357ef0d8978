import Qubicl.Foundation.Timers
import Qubicl.Foundation.Transition

/-!
# Deadline timers (packages/control/src/deadline-timer.ts)

A deadline may lie further ahead than a timer can wait, so the timer is set again until the clock
is there.
-/

namespace Qubicl.Control.Deadlines
open Foundation Timers

def maxTimerDelay : ℤ := 2147483647

/- The closure's variables, and the moments at which it called back. The sums are exact up to `2 ^ 53`, which
no clock passes; beyond it the comparison and the minimum come out the same. -/
structure DeadlineTimer where
  now : ℤ
  deadline : ℤ
  timer : Option ℤ
  cancelled : Bool
  unreferenced : Bool
  calls : List ℤ
  deriving DecidableEq, Repr

def DeadlineTimer.arm (t : DeadlineTimer) : DeadlineTimer :=
  { t with timer := some (due t.now (max 1 (min maxTimerDelay (t.deadline - t.now)))) }

def isSafeInteger (value : ℤ) : Bool := decide (-9007199254740991≤value) && decide (value≤9007199254740991)

def deadlineTimer (delayMs now : ℤ) : Except String DeadlineTimer :=
  if !isSafeInteger delayMs || decide (delayMs<0) then
    .error "Timer delay must be a non-negative safe integer."
  else .ok (DeadlineTimer.arm ⟨now,now+delayMs,none,false,false,[]⟩)

def DeadlineTimer.fire (t : DeadlineTimer) : DeadlineTimer :=
  if t.cancelled then { t with timer := none }
  else if t.now<t.deadline then t.arm
  else { t with timer := none, cancelled := true, calls := t.calls++[t.now] }

def DeadlineTimer.isDue (t : DeadlineTimer) : Bool := t.timer.any fun moment => decide (moment≤t.now)

inductive Event
  | pass (milliseconds : ℕ)
  | timers
  | cancel
  | unref
  deriving DecidableEq, Repr

def step (t : DeadlineTimer) : Event → Option DeadlineTimer
  | .pass milliseconds => some { t with now := t.now+milliseconds }
  | .timers => some (if t.isDue then t.fire else t)
  | .cancel => some { t with cancelled := true, timer := none }
  | .unref => some { t with unreferenced := true }

def system (delayMs now : ℤ) : TransitionSystem DeadlineTimer Event where
  initial t := deadlineTimer delayMs now=.ok t
  step := step

/- A timer that is not cancelled is set, for a moment not after the deadline by more than a millisecond; one that
called back is cancelled. -/
structure Waiting (instant : ℤ) (t : DeadlineTimer) : Prop where
  deadline : t.deadline=instant
  armed : t.cancelled=false → ∃ moment, t.timer=some moment ∧ moment ≤ instant+1
  once : t.calls=[] ∨ t.cancelled=true ∧ ∃ moment, t.calls=[moment] ∧ instant ≤ moment

variable {instant : ℤ} {events : List Event}

theorem Waiting.arm {t : DeadlineTimer} (hdea : t.deadline=instant) (hnow : t.now ≤ instant) (hnon : t.calls=[]) :
    Waiting instant t.arm := by
  refine ⟨hdea,fun _ => ⟨_,rfl,?_⟩,Or.inl hnon⟩
  have hdue : due t.now (max 1 (min maxTimerDelay (t.deadline - t.now))) ≤
      t.now+max 1 (min maxTimerDelay (t.deadline - t.now)) := due_le (le_max_left _ _)
  omega

theorem Waiting.fire {t : DeadlineTimer} (h : Waiting instant t) : Waiting instant t.fire := by
  unfold DeadlineTimer.fire
  by_cases hcan : t.cancelled=true
  · rw [if_pos hcan]
    exact ⟨h.deadline,fun hope => absurd (hcan.symm.trans hope) (by decide),h.once⟩
  · have hnon : t.calls=[] := by
      rcases h.once with hnon | ⟨hyes,-⟩
      · exact hnon
      · exact absurd hyes hcan
    have hdea:=h.deadline
    rw [if_neg hcan]
    by_cases hear : t.now<t.deadline
    · rw [if_pos hear]
      exact Waiting.arm hdea (by omega) hnon
    · rw [if_neg hear]
      have hcal : t.calls++[t.now]=[t.now] := by rw [hnon,List.nil_append]
      exact ⟨hdea,fun hope => (by cases hope),Or.inr ⟨rfl,t.now,hcal,by omega⟩⟩

variable {t u : DeadlineTimer}

theorem Waiting.step {event : Event} (h : Waiting instant t) (hste : step t event=some u) : Waiting instant u := by
  cases event with
  | pass milliseconds =>
    cases hste
    exact ⟨h.deadline,h.armed,h.once⟩
  | timers =>
    cases hste
    split
    · exact h.fire
    · exact h
  | cancel =>
    cases hste
    refine ⟨h.deadline,fun hope => by simp at hope,?_⟩
    rcases h.once with hnon | ⟨-,hcal⟩
    · exact Or.inl hnon
    · exact Or.inr ⟨rfl,hcal⟩
  | unref =>
    cases hste
    exact ⟨h.deadline,h.armed,h.once⟩

theorem cancelled_step {event : Event} (h : t.cancelled=true)
    (hste : step t event=some u) : u.cancelled=true ∧ u.calls=t.calls := by
  cases event with
  | timers =>
    cases hste
    split
    · simp [DeadlineTimer.fire,h]
    · exact ⟨h,rfl⟩
  | pass milliseconds => cases hste; exact ⟨h,rfl⟩
  | cancel => cases hste; exact ⟨rfl,rfl⟩
  | unref => cases hste; exact ⟨h,rfl⟩

variable {delayMs now : ℤ}

theorem waiting_initial (h : deadlineTimer delayMs now=.ok t) : Waiting (now+delayMs) t := by
  unfold deadlineTimer at h
  split at h
  · cases h
  next hval =>
    cases h
    have hdel : ¬ delayMs<0 := by
      intro hneg
      simp [hneg] at hval
    exact Waiting.arm rfl (by simp only; omega) rfl

theorem waiting_run (ht : deadlineTimer delayMs now=.ok t) (hrun : (system delayMs now).Run t events u) :
    Waiting (now+delayMs) u :=
  hrun.preserves (fun _ _ _ h hste => h.step hste) (waiting_initial ht)

theorem cancelled_run (h : t.cancelled=true) (hrun : (system delayMs now).Run t events u) :
    u.cancelled=true ∧ u.calls=t.calls :=
  hrun.preserves (P := fun u => u.cancelled=true ∧ u.calls=t.calls)
    (fun _ _ _ hu hste =>
      ⟨(cancelled_step hu.1 hste).1,(cancelled_step hu.1 hste).2.trans hu.2⟩) ⟨h,rfl⟩

/-- The timers that run past the deadline call back, unless the timer was cancelled. -/
theorem called_past_deadline {v : DeadlineTimer} (ht : deadlineTimer delayMs now=.ok t)
    (hrun : (system delayMs now).Run t events u) (hope : u.cancelled=false) (hpas : now+delayMs<u.now)
    (hste : step u .timers=some v) : v.calls=[u.now] := by
  have hwai:=waiting_run ht hrun
  obtain ⟨moment,htim,hmom⟩ := hwai.armed hope
  have hnon : u.calls=[] := by
    rcases hwai.once with hnon | ⟨hyes,-⟩
    · exact hnon
    · rw [hope] at hyes
      cases hyes
  have hdue : u.isDue=true := by
    rw [DeadlineTimer.isDue,htim]
    exact decide_eq_true (by omega)
  have hlat : ¬ u.now<u.deadline := by
    have := hwai.deadline
    omega
  simp only [step,hdue,if_true,Option.some.injEq] at hste
  rw [← hste]
  simp [DeadlineTimer.fire,hope,hlat,hnon]

theorem called_past_deadline_run : ∃ v, step ⟨6,5,some 5,false,false,[]⟩ .timers=some v ∧ v.calls=[6] :=
  ⟨_,rfl,@called_past_deadline _ _ _ 5 0 _ rfl (.single (a:=.pass 6) rfl) rfl (by decide) rfl⟩

/-- At most one call, none before the deadline and none after a cancel. -/
def Safe (delayMs : ℤ) : Prop :=
  ∀ now t events u, deadlineTimer delayMs now=.ok t → (system delayMs now).Run t events u →
    u.calls.length≤1 ∧ (∀ moment ∈ u.calls, now+delayMs ≤ moment) ∧
      ∀ cancelled later v, step u .cancel=some cancelled → (system delayMs now).Run cancelled later v →
        v.calls=u.calls

theorem deadlineTimer_safe (delayMs : ℤ) : Safe delayMs := by
  intro now t events u ht hrun
  have hwai:=waiting_run ht hrun
  refine ⟨?_,?_,?_⟩
  · rcases hwai.once with hnon | ⟨-,moment,hone,-⟩
    · simp [hnon]
    · simp [hone]
  · intro moment hmem
    rcases hwai.once with hnon | ⟨-,called,hone,hlae⟩
    · rw [hnon] at hmem
      cases hmem
    · rw [hone,List.mem_singleton] at hmem
      rw [hmem]
      exact hlae
  · intro cancelled later v hcan hlat
    cases hcan
    exact (cancelled_run rfl hlat).2

end Qubicl.Control.Deadlines
