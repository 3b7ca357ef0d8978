import Qubicl.Control.Lease.Manager
import Qubicl.Foundation.Transition

/-!
# Runs of the lease manager

`leaseSystem` lets the methods, the clock, the timers, the revocation handler
and the promise callbacks take their steps in any order. A callback may run at
any time after its promise has settled, so the runs include every order in
which the event loop can run them.

`Move` splits the methods into the few changes they are made of, and
`step_moves` shows that every step is a sequence of moves. Invariants are
proved for moves: a method that changes needs a new `step_moves` case only.
-/

namespace Qubicl.Control
open Foundation Option

inductive LeaseAction
  | clock (now : ℤ)
  | acquire (durationSeconds : ℤ) (actor : Option LeaseActor) (id : Base64Url)
  | acquireWaiting (durationSeconds : ℤ) (actor : Option LeaseActor) (waitSeconds : ℤ)
      (id : Base64Url)
  | verify (proof : LeaseProof) (renewActivity : Bool)
  | verifyInteractive (proof : LeaseProof)
  | renew (proof : LeaseProof) (durationSeconds : ℤ)
  | release (proof : LeaseProof)
  | revokeAgentControl
  | revokeAgentControlFor (proof : LeaseProof)
  | takeHumanControl
  | resumeTakeover (takeover : Takeover)
  | releaseHumanControl (id : Base64Url)
  | resetEpoch (epoch : Base64Url)
  | snapshot
  | expiryTimer
  | waiterTimeout (waiter : ℕ)
  | startRevocation (p : ℕ)
  | settleHandler (p : ℕ) (outcome : HandlerOutcome)
  | observeRevocation (p : ℕ) (id : Base64Url)

open LeaseManager

def leaseStep (m : LeaseManager) : LeaseAction → Option LeaseManager
  | .clock now => some { m with now := now }
  | .acquire durationSeconds actor id => some (acquire durationSeconds actor id m).1
  | .acquireWaiting durationSeconds actor waitSeconds id =>
    some (acquireWaiting durationSeconds actor waitSeconds id m).1
  | .verify proof renewActivity => some (verify proof renewActivity m).1
  | .verifyInteractive proof => some (verifyInteractive proof m).1
  | .renew proof durationSeconds => some (renew proof durationSeconds m).1
  | .release proof => some (release proof m).1
  | .revokeAgentControl => some (revokeAgentControl m).1
  | .revokeAgentControlFor proof => some (revokeAgentControlFor proof m).1
  | .takeHumanControl => some (takeHumanControl m)
  | .resumeTakeover takeover => resumeTakeover takeover m
  | .releaseHumanControl id => some (releaseHumanControl id m).1
  | .resetEpoch epoch => some (resetEpoch epoch m).1
  | .snapshot => some m.snapshot.1
  | .expiryTimer => if m.timer then some m.expireIfNeeded else none
  | .waiterTimeout waiter => (waiterTimeout waiter m).map Prod.fst
  | .startRevocation p => startRevocation p m
  | .settleHandler p outcome => settleHandler p outcome m
  | .observeRevocation p id => observeRevocation p id m

def leaseSystem : TransitionSystem LeaseManager LeaseAction where
  initial m := ∃ now epoch, m=create now epoch
  step := leaseStep

/-- Running the system on concrete actions, seen through what is read off the
last state. -/
theorem reachable_of_exec {α : Type} {f : LeaseManager → α} {epoch : Base64Url}
    {actions : List LeaseAction} {a : α}
    (h : (leaseSystem.exec (create 0 epoch) actions).map f=some a) :
    ∃ m, leaseSystem.Reachable m ∧ f m=a := by
  obtain ⟨m,hm,ha⟩ := map_eq_some_iff.mp h
  exact ⟨m,⟨_,actions,⟨0,epoch,rfl⟩,TransitionSystem.run_of_exec hm⟩,ha⟩

def granted (lease : Lease) (m : LeaseManager) : LeaseManager :=
  { m with
    generation := lease.generation
    lease := some lease
    timer := true
    log := .granted lease.toLeaseProof m.human::m.log }

def RevocationPhase.outcome (terminated : ℕ) : Option HandlerError → RevocationPhase
  | some error => .rejected error
  | none => .fulfilled terminated

theorem outcome_settled (terminated : ℕ) (failure : Option HandlerError) :
    (RevocationPhase.outcome terminated failure).settled=true := by
  cases failure <;> rfl

structure Grantable (m : LeaseManager) (lease : Lease) : Prop where
  vacant : m.lease=none
  fenced : m.revocation=none
  retried : m.failedRevocations=[]
  drawn : ∃ id : Base64Url, lease.id=id.text
  generation : lease.generation=m.generation+1
  epoch : lease.epoch=m.epoch
  background : lease.backgroundOnly=m.human

inductive Move : LeaseManager → LeaseManager → Prop
  | clock (m : LeaseManager) (now : ℤ) : Move m { m with now := now }
  | touch (m : LeaseManager) (lease : Lease) (expiresAt durationMs : ℤ) (h : m.lease=some lease) :
      Move m { m with
        lease := some { lease with expiresAt := expiresAt, durationMs := durationMs }
        timer := true }
  | revoke (m : LeaseManager) (targets : List RevocationTarget) (generation : ℕ)
      (owed : ∀ lease, m.lease=some lease → ∃ t ∈ targets, t.proof=some lease.toLeaseProof)
      (grows : m.generation≤generation)
      (bumps : m.lease.isSome → m.generation<generation) :
      Move m (enqueueRevocations targets { m.vacate with generation := generation })
  | enqueue (m : LeaseManager) (targets : List RevocationTarget) :
      Move m (enqueueRevocations targets m)
  | takeover (m : LeaseManager) (h : m.human=false) :
      Move m (enqueueRevocations [targetOf m.lease false]
        { (m.record [.takeover]).vacate with human := true, generation := m.generation+1 })
  | takeoverAgain (m : LeaseManager) (h : m.human=true) : Move m (m.record [.takeover])
  | releaseHuman (m : LeaseManager) :
      Move m { m with
        human := false
        generation := if m.human then m.generation+1 else m.generation }
  | resetEpoch (m : LeaseManager) (epoch : Base64Url) :
      Move m (enqueueRevocations [targetOf m.lease true]
        (LeaseManager.record
          { m.vacate with human := false, generation := 0, epoch := epoch.text }
          [.epochDrawn epoch.text]))
  | bump (m : LeaseManager) (h : m.lease=none) :
      Move m { m with generation := m.generation+1 }
  | grant (m : LeaseManager) (lease : Lease) (h : Grantable m lease) : Move m (granted lease m)
  | serve (m : LeaseManager) (waiter : LeaseWaiter) (rest : List LeaseWaiter) (lease : Lease)
      (queue : m.waiters=waiter::rest) (h : Grantable m lease) :
      Move m ((granted lease { m with waiters := rest }).record
        [.waiterGranted waiter.waiter lease.toLeaseProof])
  | turnAway (m : LeaseManager) (waiter : LeaseWaiter) (rest : List LeaseWaiter)
      (queue : m.waiters=waiter::rest) (vacant : m.lease=none) :
      Move m (LeaseManager.record { m with waiters := rest, generation := m.generation+1 }
        [.waiterRejected waiter.waiter])
  | queue (m : LeaseManager) (waiter : LeaseWaiter) (h : waiter.waiter=m.nextWaiter) :
      Move m { m with
        waiters := m.waiters++[waiter]
        nextWaiter := m.nextWaiter+1
        log := .queued waiter.waiter::m.log }
  | timeout (m : LeaseManager) (waiter : ℕ)
      (h : m.waiters.any (fun w => w.waiter == waiter)=true) :
      Move m { m with
        waiters := m.waiters.eraseP (fun w => w.waiter == waiter)
        log := .waiterTimedOut waiter::m.log }
  | start (m : LeaseManager) (p : ℕ) (job : RevocationJob) (hj : m.jobs p=some job)
      (hw : job.phase=.waiting)
      (ready : ∀ q, job.previous=some q → ∃ before, m.jobs q=some before ∧
        before.phase.settled=true) :
      Move m (setPhase { m with failedRevocations := [] } p job
        (.draining (deduplicateTargets (m.failedRevocations++job.targets)) 0 none))
  | skip (m : LeaseManager) (p : ℕ) (job : RevocationJob) (target : RevocationTarget)
      (rest : List RevocationTarget) (terminated : ℕ) (failure : Option HandlerError)
      (hj : m.jobs p=some job) (hp : job.phase=.draining (target::rest) terminated failure)
      (idle : target.idle=true) :
      Move m (m.setPhase p job (.draining rest terminated failure))
  | call (m : LeaseManager) (p : ℕ) (job : RevocationJob) (target : RevocationTarget)
      (rest : List RevocationTarget) (terminated : ℕ) (failure : Option HandlerError)
      (hj : m.jobs p=some job) (hp : job.phase=.draining (target::rest) terminated failure)
      (busy : target.idle=false) :
      Move m ((m.setPhase p job (.calling target rest terminated failure)).record [.invoked target])
  | finish (m : LeaseManager) (p : ℕ) (job : RevocationJob) (terminated : ℕ)
      (failure : Option HandlerError) (hj : m.jobs p=some job)
      (hp : job.phase=.draining [] terminated failure) :
      Move m (m.setPhase p job (.outcome terminated failure))
  | resolve (m : LeaseManager) (p : ℕ) (job : RevocationJob) (target : RevocationTarget)
      (rest : List RevocationTarget) (terminated n : ℕ) (failure : Option HandlerError)
      (hj : m.jobs p=some job) (hp : job.phase=.calling target rest terminated failure) :
      Move m ((m.record [.resolved target]).setPhase p job
        (.draining rest (terminated+n) failure))
  | reject (m : LeaseManager) (p : ℕ) (job : RevocationJob) (target : RevocationTarget)
      (rest : List RevocationTarget) (terminated : ℕ) (failure failure' : Option HandlerError)
      (hj : m.jobs p=some job) (hp : job.phase=.calling target rest terminated failure)
      (hf : failure'≠none) :
      Move m (setPhase { m.record [.rejected target] with
          failedRevocations := m.failedRevocations++[target] } p job
        (.draining rest terminated failure'))
  | observe (m : LeaseManager) (p : ℕ) (job : RevocationJob) (hj : m.jobs p=some job)
      (hs : job.phase.settled=true) (ho : job.observed=false) :
      Move m { m with
        jobs := Function.update m.jobs p (some { job with observed := true })
        revocation := if m.revocation=some p then none else m.revocation }
  | takeovers (m : LeaseManager) (takeovers : List Takeover) :
      Move m { m with takeovers := takeovers }

abbrev Moves : LeaseManager → LeaseManager → Prop := Relation.ReflTransGen Move

open Relation.ReflTransGen (single refl)

theorem expireIfNeeded_moves (m : LeaseManager) : Moves m m.expireIfNeeded := by
  unfold expireIfNeeded
  split
  · exact refl
  next lease hl =>
    split
    · exact refl
    · refine single (.revoke m [targetOf (some lease) false] (m.generation+1) ?_ (by omega) ?_)
      · intro l h
        rw [hl] at h
        cases h
        exact ⟨_,List.mem_singleton_self _,rfl⟩
      · intro _
        omega

theorem snapshot_moves (m : LeaseManager) : Moves m m.snapshot.1 := expireIfNeeded_moves m

theorem verify_moves (proof : LeaseProof) (renewActivity : Bool) (m : LeaseManager) :
    Moves m (verify proof renewActivity m).1 := by
  refine (expireIfNeeded_moves m).trans ?_
  unfold verify
  dsimp only
  split
  · exact refl
  next lease hl =>
    split
    · exact refl
    · split
      · exact single (.touch _ lease _ lease.durationMs hl)
      · exact refl

theorem verifyInteractive_state (proof : LeaseProof) (m : LeaseManager) :
    (verifyInteractive proof m).1=(verify proof false m).1 := by
  unfold verifyInteractive
  split
  next h => rw [h]
  next h =>
    rw [h]
    split
    · rfl
    · split <;> rfl

theorem renew_moves (proof : LeaseProof) (durationSeconds : ℤ) (m : LeaseManager) :
    Moves m (renew proof durationSeconds m).1 := by
  have hv:=verify_moves proof false m
  unfold renew
  split
  next h =>
    rw [h] at hv
    exact hv
  next m' verified h =>
    rw [h] at hv
    dsimp only at hv
    split
    · exact hv
    next lease hl => exact hv.tail (.touch m' lease _ _ hl)

theorem revoke_bumped (m : LeaseManager) (invokeWithoutProof : Bool) :
    Move m (LeaseManager.revoke m.lease invokeWithoutProof
      { m.vacate with generation := m.generation+1 }) := by
  refine .revoke m [targetOf m.lease invokeWithoutProof] (m.generation+1) ?_ (by omega) ?_
  · intro lease h
    exact ⟨_,List.mem_singleton_self _,by rw [h]; rfl⟩
  · intro _
    omega

theorem release_moves (proof : LeaseProof) (m : LeaseManager) :
    Moves m (release proof m).1 := by
  have hv:=verify_moves proof false m
  unfold release
  split
  next h =>
    rw [h] at hv
    exact hv
  next m' _ h =>
    rw [h] at hv
    exact hv.tail (revoke_bumped m' false)

theorem revokeAgentControl_moves (m : LeaseManager) : Moves m (revokeAgentControl m).1 := by
  refine single (.revoke m [targetOf m.lease false] _ ?_ ?_ ?_)
  · intro lease h
    exact ⟨_,List.mem_singleton_self _,by rw [h]; rfl⟩
  · split <;> omega
  · intro h
    rw [if_pos h]
    omega

theorem sameProof_iff (left right : LeaseProof) : sameProof left right=true ↔ left=right := by
  cases left
  cases right
  simp only [sameProof,Bool.and_eq_true,beq_iff_eq,LeaseProof.mk.injEq]
  exact ⟨fun h => ⟨h.1.1,h.1.2,h.2⟩,fun h => ⟨⟨h.1,h.2.1⟩,h.2.2⟩⟩

theorem revokeAgentControlFor_moves (proof : LeaseProof) (m : LeaseManager) :
    Moves m (revokeAgentControlFor proof m).1 := by
  unfold revokeAgentControlFor
  dsimp only
  split
  next current hc =>
    split
    next hs =>
      refine single (.revoke m _ _ ?_ (by omega) ?_)
      · intro lease h
        rw [hc] at h
        cases h
        exact ⟨_,List.mem_singleton_self _,by rw [(sameProof_iff _ _).mp hs]⟩
      · intro _
        omega
    · exact single (.enqueue m _)
  · exact single (.enqueue m _)

theorem retryFailedRevocations_moves (m : LeaseManager) :
    Moves m m.retryFailedRevocations := by
  unfold retryFailedRevocations
  split
  · exact snapshot_moves m
  · exact (single (.enqueue m [])).tail (.takeovers _ _)

theorem takeHumanControl_moves (m : LeaseManager) : Moves m (takeHumanControl m) := by
  unfold takeHumanControl
  dsimp only
  split
  next h =>
    refine Relation.ReflTransGen.head (.takeoverAgain m h) ?_
    split
    · exact single (.takeovers _ _)
    · exact retryFailedRevocations_moves _
  next h =>
    have hh : m.human=false := by simpa [LeaseManager.record] using h
    exact (single (.takeover m hh)).tail (.takeovers _ _)

variable {m m' : LeaseManager}

theorem resumeTakeover_moves {takeover : Takeover}
    (h : resumeTakeover takeover m=some m') : Moves m m' := by
  unfold resumeTakeover at h
  split at h
  swap
  · cases h
  have hm : Move m { m with takeovers := m.takeovers.erase takeover } := .takeovers _ _
  cases takeover with
  | current p =>
    dsimp only at h
    split at h
    · cases h
      exact Relation.ReflTransGen.head hm (retryFailedRevocations_moves _)
    · cases h
      exact single hm
    · cases h
  | own p =>
    dsimp only at h
    split at h
    · cases h
      exact Relation.ReflTransGen.head hm (snapshot_moves _)
    · cases h
      exact single hm
    · cases h

theorem resetEpoch_moves (epoch : Base64Url) (m : LeaseManager) :
    Moves m (resetEpoch epoch m).1 := single (.resetEpoch m epoch)

theorem grant_cases (durationSeconds : ℤ) (actor : Option LeaseActor) (id : Base64Url)
    (m : LeaseManager) :
    (∃ error, grant durationSeconds actor id m =
      ({ m with generation := m.generation+1 },.error error)) ∨
    ∃ lease : Lease, grant durationSeconds actor id m=(granted lease m,.ok (publicLease lease)) ∧
      lease.id=id.text ∧ lease.generation=m.generation+1 ∧ lease.epoch=m.epoch ∧
      lease.backgroundOnly=m.human := by
  unfold LeaseManager.grant
  dsimp only
  split
  next error _ => exact .inl ⟨error,rfl⟩
  next validated _ =>
    exact .inr ⟨⟨⟨id.text,m.generation+1,m.epoch⟩,m.now+durationSeconds*1000,
      durationSeconds*1000,m.human,validated⟩,rfl,rfl,rfl,rfl,rfl⟩

theorem grant_moves (durationSeconds : ℤ) (actor : Option LeaseActor) (id : Base64Url)
    (m : LeaseManager) (vacant : m.lease=none) (fenced : m.revocation=none)
    (retried : m.failedRevocations=[]) :
    Moves m (grant durationSeconds actor id m).1 := by
  rcases grant_cases durationSeconds actor id m with ⟨error,h⟩ | ⟨lease,h,hid,hg,he,hb⟩
  · rw [h]
    exact single (.bump m vacant)
  · rw [h]
    exact single (.grant m lease ⟨vacant,fenced,retried,⟨id,hid⟩,hg,he,hb⟩)

theorem drainWaiters_moves (id : Base64Url) (m : LeaseManager) :
    Moves m (drainWaiters id m) := by
  refine (expireIfNeeded_moves m).trans ?_
  unfold drainWaiters
  dsimp only
  generalize m.expireIfNeeded=m
  split
  · exact refl
  next hc =>
    simp only [Bool.or_eq_true,Bool.not_eq_true',not_or,Bool.not_eq_true,
      isSome_eq_false_iff,isNone_iff_eq_none,Bool.not_eq_false,
      List.isEmpty_iff] at hc
    obtain ⟨⟨vacant,fenced⟩,retried⟩ := hc
    split
    · exact refl
    next waiter rest hq =>
      rcases grant_cases waiter.durationSeconds waiter.actor id { m with waiters := rest } with
        ⟨error,h⟩ | ⟨lease,h,hid,hg,he,hb⟩
      · rw [h]
        exact single (.turnAway m waiter rest hq vacant)
      · rw [h]
        exact single (.serve m waiter rest lease hq
          ⟨vacant,fenced,retried,⟨id,hid⟩,hg,he,hb⟩)

theorem acquire_moves (durationSeconds : ℤ) (actor : Option LeaseActor) (id : Base64Url)
    (m : LeaseManager) : Moves m (acquire durationSeconds actor id m).1 := by
  refine (expireIfNeeded_moves m).trans ?_
  unfold acquire
  dsimp only
  generalize m.expireIfNeeded=m
  split
  · exact refl
  next fenced =>
    split
    · exact refl
    next retried =>
      split
      · exact snapshot_moves m
      next vacant =>
        split
        · exact refl
        · exact grant_moves _ _ _ _ (by simpa using vacant) (by simpa using fenced)
            (by simpa using retried)

theorem acquireWaiting_moves (durationSeconds : ℤ) (actor : Option LeaseActor) (waitSeconds : ℤ)
    (id : Base64Url) (m : LeaseManager) :
    Moves m (acquireWaiting durationSeconds actor waitSeconds id m).1 := by
  refine (expireIfNeeded_moves m).trans ?_
  unfold acquireWaiting
  dsimp only
  generalize m.expireIfNeeded=m
  split
  · exact acquire_moves _ _ _ m
  · split
    next hc =>
      simp only [Bool.and_eq_true,isNone_iff_eq_none,List.isEmpty_iff] at hc
      exact grant_moves _ _ _ m hc.1.1.1 hc.1.1.2 hc.1.2
    · split
      · exact refl
      · exact Relation.ReflTransGen.head (.queue m _ rfl) (drainWaiters_moves id _)

theorem waiterTimeout_moves {waiter : ℕ} {error : QubiclError}
    (h : waiterTimeout waiter m=some (m',error)) : Moves m m' := by
  unfold waiterTimeout at h
  split at h
  swap
  · cases h
  next hw =>
    refine Relation.ReflTransGen.head (.timeout m waiter hw) ?_
    dsimp only at h
    split at h
    · cases h
      exact snapshot_moves _
    · cases h
      exact (snapshot_moves _).trans (snapshot_moves _)

theorem releaseHumanControl_moves (id : Base64Url) (m : LeaseManager) :
    Moves m (releaseHumanControl id m).1 :=
  Relation.ReflTransGen.head (.releaseHuman m)
    ((drainWaiters_moves id _).trans (snapshot_moves _))

theorem setPhase_setPhase (m : LeaseManager) (p : ℕ) (job : RevocationJob)
    (phase phase' : RevocationPhase) :
    (m.setPhase p job phase).setPhase p { job with phase := phase } phase' =
      m.setPhase p job phase' := by
  simp only [setPhase,Function.update_idem]

theorem drain_moves (p : ℕ) (job : RevocationJob) (terminated : ℕ)
    (failure : Option HandlerError) (rest : List RevocationTarget) (m : LeaseManager) :
    Moves (m.setPhase p job (.draining rest terminated failure))
      (drain p job terminated failure rest m) := by
  have hj : ∀ phase, (m.setPhase p job phase).jobs p=some { job with phase := phase } :=
    fun phase => Function.update_self ..
  induction rest with
  | nil =>
    have h:=Move.finish (m.setPhase p job (.draining [] terminated failure)) p _ terminated
      failure (hj _) rfl
    rw [setPhase_setPhase] at h
    cases failure with
    | none => exact single h
    | some error => exact single h
  | cons target rest ih =>
    unfold drain
    split
    next hi =>
      have h:=Move.skip (m.setPhase p job (.draining (target::rest) terminated failure)) p _
        target rest terminated failure (hj _) rfl hi
      rw [setPhase_setPhase] at h
      exact Relation.ReflTransGen.head h ih
    next hi =>
      have h:=Move.call (m.setPhase p job (.draining (target::rest) terminated failure)) p _
        target rest terminated failure (hj _) rfl (by simpa using hi)
      rw [setPhase_setPhase] at h
      exact single h

theorem startRevocation_moves {p : ℕ}
    (h : startRevocation p m=some m') : Moves m m' := by
  unfold startRevocation at h
  split at h
  · cases h
  next job hj =>
    dsimp only at h
    split at h
    swap
    · cases h
    next hc =>
      cases h
      refine Relation.ReflTransGen.head (.start m p job hj hc.1 ?_)
        (drain_moves p job 0 none _ { m with failedRevocations := [] })
      intro q hq
      have hr:=hc.2
      rw [previousSettled,hq,all_some,Option.any_eq_true] at hr
      obtain ⟨before,hb,hs⟩ := hr
      exact ⟨before,hb,hs⟩

theorem settleHandler_moves {p : ℕ} {outcome : HandlerOutcome}
    (h : settleHandler p outcome m=some m') : Moves m m' := by
  unfold settleHandler at h
  split at h
  swap
  · cases h
  next job hj =>
    split at h
    next target rest terminated failure n hp =>
      cases h
      exact Relation.ReflTransGen.head (.resolve m p job target rest terminated n failure hj hp)
        (drain_moves p job _ failure rest _)
    next target rest terminated failure error hp =>
      cases h
      refine Relation.ReflTransGen.head
        (.reject m p job target rest terminated failure (failure <|> some error) hj hp ?_)
        (drain_moves p job terminated _ rest _)
      cases failure <;> simp
    · cases h

theorem observeRevocation_moves {p : ℕ} {id : Base64Url}
    (h : observeRevocation p id m=some m') : Moves m m' := by
  unfold observeRevocation at h
  split at h
  · cases h
  next job hj =>
    split at h
    swap
    · cases h
    next hc =>
      simp only [Bool.and_eq_true,Bool.not_eq_true'] at hc
      have ho:=Move.observe m p job hj hc.1 hc.2
      dsimp only at h
      split at h
      · cases h
        exact Relation.ReflTransGen.head ho (drainWaiters_moves id _)
      · cases h
        exact single ho

theorem step_moves {a : LeaseAction} (h : leaseSystem.step m a=some m') :
    Moves m m' := by
  change leaseStep m a=some m' at h
  cases a with
  | clock now =>
    cases h
    exact single (.clock m now)
  | acquire durationSeconds actor id =>
    cases h
    exact acquire_moves _ _ _ m
  | acquireWaiting durationSeconds actor waitSeconds id =>
    cases h
    exact acquireWaiting_moves _ _ _ _ m
  | verify proof renewActivity =>
    cases h
    exact verify_moves _ _ m
  | verifyInteractive proof =>
    cases h
    rw [verifyInteractive_state]
    exact verify_moves _ _ m
  | renew proof durationSeconds =>
    cases h
    exact renew_moves _ _ m
  | release proof =>
    cases h
    exact release_moves _ m
  | revokeAgentControl =>
    cases h
    exact revokeAgentControl_moves m
  | revokeAgentControlFor proof =>
    cases h
    exact revokeAgentControlFor_moves _ m
  | takeHumanControl =>
    cases h
    exact takeHumanControl_moves m
  | resumeTakeover takeover => exact resumeTakeover_moves h
  | releaseHumanControl id =>
    cases h
    exact releaseHumanControl_moves _ m
  | resetEpoch epoch =>
    cases h
    exact resetEpoch_moves _ m
  | snapshot =>
    cases h
    exact snapshot_moves m
  | expiryTimer =>
    simp only [leaseStep] at h
    split at h
    · cases h
      exact expireIfNeeded_moves m
    · cases h
  | waiterTimeout waiter =>
    obtain ⟨⟨m₁,error⟩,h₁,rfl⟩ := map_eq_some_iff.mp h
    exact waiterTimeout_moves h₁
  | startRevocation p => exact startRevocation_moves h
  | settleHandler p outcome => exact settleHandler_moves h
  | observeRevocation p id => exact observeRevocation_moves h

variable {P : LeaseManager → Prop}

theorem preserved_by_moves (hmov : ∀ m m', P m → Move m m' → P m') (h : Moves m m') (hm : P m) : P m' := by
  induction h with
  | refl => exact hm
  | tail _ hlas ih => exact hmov _ _ ih hlas

/-- A property of the fresh manager that every move preserves holds wherever
the system can get. -/
theorem reachable_of_moves (hini : ∀ now epoch, P (create now epoch)) (hmov : ∀ m m', P m → Move m m' → P m')
    (h : leaseSystem.Reachable m) : P m := by
  refine h.invariant ?_ ?_
  · rintro _ ⟨now,epoch,rfl⟩
    exact hini now epoch
  · intro s a t hs ht
    exact preserved_by_moves hmov (step_moves ht) hs

end Qubicl.Control
