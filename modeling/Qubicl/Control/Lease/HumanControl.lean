import Qubicl.Control.Lease.Freshness

/-!
# Human control

While a human is in control the slot can only hold a background lease, and a lease that is not a background lease was granted
without a human in control and has seen no takeover since.
-/

namespace Qubicl.Control
open LeaseManager Foundation List

/- Granted while no human was in control, and no takeover since. -/
def Undisturbed (proof : LeaseProof) (log : List LeaseEvent) : Prop :=
  ∃ since before, log=since++.granted proof false::before ∧ LeaseEvent.takeover ∉ since

variable {log new : List LeaseEvent} {proof verified : LeaseProof} {m m' : LeaseManager}

theorem Undisturbed.later (h : Undisturbed proof log) (hn : LeaseEvent.takeover ∉ new) :
    Undisturbed proof (new++log) := by
  obtain ⟨since,before,rfl,hs⟩ := h
  refine ⟨new++since,before,(append_assoc ..).symm,?_⟩
  intro hm
  rcases mem_append.mp hm with hm | hm
  · exact hn hm
  · exact hs hm

structure Attended (m : LeaseManager) : Prop where
  epoch : ∀ lease, m.lease=some lease → lease.epoch=m.epoch
  background : m.human=true → ∀ lease, m.lease=some lease → lease.backgroundOnly=true
  interactive : ∀ lease, m.lease=some lease → lease.backgroundOnly=false →
    Undisturbed lease.toLeaseProof m.log

theorem Attended.keep {n : LeaseManager} (h : Attended m) (new : List LeaseEvent) (hlog : n.log=new++m.log)
    (hn : LeaseEvent.takeover ∉ new) (he : n.epoch=m.epoch) (hh : n.human=true → m.human=true)
    (hl : ∀ lease, n.lease=some lease → ∃ old, m.lease=some old ∧
      old.toLeaseProof=lease.toLeaseProof ∧ old.backgroundOnly=lease.backgroundOnly) : Attended n := by
  refine ⟨?_,?_,?_⟩
  · intro lease hs
    obtain ⟨old,ho,hp,_⟩ := hl lease hs
    have hepo : old.epoch=lease.epoch := congrArg LeaseProof.epoch hp
    rw [← hepo,he]
    exact h.epoch old ho
  · intro hhum lease hs
    obtain ⟨old,ho,_,hb⟩ := hl lease hs
    exact hb ▸ h.background (hh hhum) old ho
  · intro lease hs hb
    obtain ⟨old,ho,hp,hb'⟩ := hl lease hs
    rw [hlog,← hp]
    exact (h.interactive old ho (hb'.trans hb)).later hn

theorem Attended.vacant (h : m.lease=none) : Attended m := by
  refine ⟨?_,?_,?_⟩
  · intro lease hs
    cases h.symm.trans hs
  · intro _ lease hs
    cases h.symm.trans hs
  · intro lease hs
    cases h.symm.trans hs

theorem Attended.grant {lease : Lease} (hg : Grantable m lease) : Attended (granted lease m) := by
  refine ⟨?_,?_,?_⟩
  · intro other hs
    obtain rfl : lease=other := Option.some.inj hs
    exact hg.epoch
  · intro hh other hs
    obtain rfl : lease=other := Option.some.inj hs
    exact hg.background.trans hh
  · intro other hs hb
    obtain rfl : lease=other := Option.some.inj hs
    have hh : m.human=false := hg.background.symm.trans hb
    exact ⟨[],m.log,by rw [← hh]; rfl,not_mem_nil⟩

theorem attended_move (h : Attended m) (hm : Move m m') : Attended m' := by
  have hsam : ∀ lease, m.lease=some lease → ∃ old, m.lease=some old ∧
      old.toLeaseProof=lease.toLeaseProof ∧ old.backgroundOnly=lease.backgroundOnly :=
    fun lease hs => ⟨lease,hs,rfl,rfl⟩
  cases hm with
  | clock | enqueue | start | skip | finish | observe | takeovers | bump =>
    exact h.keep [] rfl (by simp) rfl id hsam
  | touch lease expiresAt durationMs hl =>
    refine h.keep [] rfl (by simp) rfl id ?_
    intro new hs
    cases hs
    exact ⟨lease,hl,rfl,rfl⟩
  | revoke | takeover | resetEpoch => exact Attended.vacant rfl
  | takeoverAgain hh =>
    -- the takeover disturbs no lease: the slot holds a background lease at most
    refine ⟨h.epoch,h.background,?_⟩
    intro lease hs hb
    cases hb.symm.trans (h.background hh lease hs)
  | releaseHuman => exact h.keep [] rfl (by simp) rfl nofun hsam
  | grant lease hg => exact Attended.grant hg
  | serve waiter rest lease _ hg =>
    have hgra : Attended (granted lease { m with waiters := rest }) := Attended.grant
      ⟨hg.vacant,hg.fenced,hg.retried,hg.drawn,hg.generation,hg.epoch,hg.background⟩
    exact hgra.keep [.waiterGranted waiter.waiter lease.toLeaseProof] rfl (by simp) rfl id
      (fun lease hs => ⟨lease,hs,rfl,rfl⟩)
  | turnAway waiter => exact h.keep [.waiterRejected waiter.waiter] rfl (by simp) rfl id hsam
  | queue waiter _ => exact h.keep [.queued waiter.waiter] rfl (by simp) rfl id hsam
  | timeout waiter _ => exact h.keep [.waiterTimedOut waiter] rfl (by simp) rfl id hsam
  | call p job target => exact h.keep [.invoked target] rfl (by simp) rfl id hsam
  | resolve p job target => exact h.keep [.resolved target] rfl (by simp) rfl id hsam
  | reject p job target => exact h.keep [.rejected target] rfl (by simp) rfl id hsam

theorem reachable_attended (h : leaseSystem.Reachable m) : Attended m :=
  reachable_of_moves (fun _ _ => Attended.vacant rfl) (fun _ _ => attended_move) h

theorem verify_accepts (h : Attended m) (hv : verify proof false m=(m',.ok verified)) :
    m'=m ∧ verified=proof ∧ ∃ lease, m.lease=some lease ∧ lease.toLeaseProof=proof := by
  have hsam : m.expireIfNeeded.lease≠none → m.expireIfNeeded=m := by
    intro hne
    unfold expireIfNeeded at hne ⊢
    split at hne
    next hl => exact absurd hl hne
    next lease hl =>
      split at hne
      next he => exact if_pos he
      · exact absurd rfl hne
  unfold verify at hv
  dsimp only at hv
  split at hv
  · cases hv
  next lease hl =>
    have hm:=hsam (by rw [hl]; nofun)
    rw [hm] at hv hl
    split at hv
    · cases hv
    next hn =>
      obtain ⟨he,hid,hg⟩ : proof.epoch=m.epoch ∧ proof.id=lease.id ∧
          proof.generation=lease.generation := by
        simpa only [ne_eq,not_or,Decidable.not_not] using hn
      have hpro : lease.toLeaseProof=proof := by
        rcases proof with ⟨id,generation,epoch⟩
        simp only at he hid hg
        rw [he,hid,hg,← h.epoch lease hl]
      cases hv
      exact ⟨rfl,hpro,lease,hl,hpro⟩

theorem verifyInteractive_accepts (h : Attended m) (hv : (verifyInteractive proof m).2 = .ok verified) :
    verified=proof ∧ m.human=false ∧ Undisturbed proof m.log := by
  unfold verifyInteractive at hv
  split at hv
  · cases hv
  next m' accepted hver =>
    obtain ⟨rfl,rfl,lease,hl,hp⟩ := verify_accepts h hver
    split at hv
    · cases hv
    next hh =>
      split at hv
      · cases hv
      next hb =>
        cases hv
        rw [hl] at hb
        refine ⟨rfl,by simpa using hh,?_⟩
        rw [← hp]
        exact h.interactive lease hl (by simpa using hb)

/-- A proof that was granted before a takeover and is undisturbed now was
granted twice. -/
theorem Undisturbed.granted_twice {old : List LeaseEvent} (h : Undisturbed proof log) (hlog : log=new++.takeover::old)
    (hg : LeaseEvent.granted proof false ∈ old) : ¬ (grantedPairs log).Nodup := by
  obtain ⟨since,before,hs,hn⟩ := h
  obtain ⟨mid,_,hm⟩ := split_old hn (hs.symm.trans hlog)
  have hbef : LeaseEvent.granted proof false ∈ before := by
    cases mid with
    | nil => cases head_eq_of_cons_eq hm
    | cons e mid =>
      rw [tail_eq_of_cons_eq hm]
      exact mem_append_right _ (mem_cons_of_mem _ hg)
  intro hnod
  rw [hs,grantedPairs,filterMap_append] at hnod
  have hpai:=(nodup_append.mp hnod).2.1
  exact (nodup_cons.mp hpai).1 (mem_filterMap.mpr ⟨_,hbef,rfl⟩)

theorem takeHumanControl_log (m : LeaseManager) : ∃ new, (takeHumanControl m).log =
    new++.takeover::m.log := by
  have hret : ∀ n : LeaseManager, ∃ new, n.retryFailedRevocations.log=new++n.log := by
    intro n
    obtain ⟨new,hlog,_⟩ := later_moves (retryFailedRevocations_moves n)
    exact ⟨new,hlog⟩
  unfold takeHumanControl
  dsimp only
  split
  · split
    · exact ⟨[],rfl⟩
    · exact hret (m.record [.takeover])
  · exact ⟨departure m.lease,rfl⟩

/-- In every reachable state a human in control leaves a background lease at
most, and `verifyInteractive` accepts only the proof of a lease that was
granted without a human in control and has seen no takeover since. When the
epochs of the run are fresh, a proof that was accepted before a takeover is
never accepted again. -/
theorem human_control_excludes_agents {m : LeaseManager} (h : leaseSystem.Reachable m) :
    (m.human=true → ∀ lease, m.lease=some lease → lease.backgroundOnly=true) ∧
    (∀ proof verified, (verifyInteractive proof m).2 = .ok verified →
      verified=proof ∧ m.human=false ∧ Undisturbed proof m.log) ∧
    ∀ proof verified before taken after m₁ m', (verifyInteractive proof m).2 = .ok verified →
      leaseSystem.Run m before m₁ → leaseSystem.step m₁ .takeHumanControl=some taken →
      leaseSystem.Run taken after m' → FreshEpochs m'.log →
      ∀ verified', (verifyInteractive proof m').2 ≠ .ok verified' := by
  have ha:=reachable_attended h
  refine ⟨ha.background,fun _ _ => verifyInteractive_accepts ha,?_⟩
  intro proof verified before taken after m₁ m' hv hr₁ htae hr hf verified' hv'
  have htak : taken=takeHumanControl m₁ := (Option.some.inj htae).symm
  have hrea : leaseSystem.Reachable m' := ((h.run hr₁).step htae).run hr
  obtain ⟨_,_,since,older,hlog,_⟩ := verifyInteractive_accepts ha hv
  obtain ⟨_,_,hnow⟩ := verifyInteractive_accepts (reachable_attended hrea) hv'
  obtain ⟨new₁,hlo₁,_⟩ := later_run hr₁
  obtain ⟨new,hlog',_⟩ := later_run hr
  obtain ⟨mid,hmid⟩ := takeHumanControl_log m₁
  have hspl : m'.log=(new++mid)++.takeover::m₁.log := by
    rw [hlog',htak,hmid,append_assoc]
  have hgra : LeaseEvent.granted proof false ∈ m₁.log := by
    rw [hlo₁,hlog]
    exact mem_append_right _ (mem_append_right _ mem_cons_self)
  exact hnow.granted_twice hspl hgra (reachable_dated hrea hf).pairs

def takeoverRun : List LeaseAction :=
  [.startRevocation 0,.settleHandler 0 (.resolved 0),.observeRevocation 0 ⟨"b",alphabet_b⟩,
    .releaseHumanControl ⟨"b",alphabet_b⟩,.acquire 60 none ⟨"a",alphabet_a⟩]

theorem human_control_excludes_agents_run : ∃ m,
    m.lease.map Lease.toLeaseProof=some ⟨"a",4,"e"⟩ ∧
    ∀ verified, (verifyInteractive ⟨"a",1,"e"⟩ m).2 ≠ .ok verified := by
  have hfir : (leaseSystem.exec (create 0 ⟨"e",alphabet_of_all (by decide)⟩)
        [.acquire 60 none ⟨"a",alphabet_of_all (by decide)⟩]).map
      (fun m => ((verifyInteractive ⟨"a",1,"e"⟩ m).2.toOption,
        (leaseSystem.exec (takeHumanControl m) takeoverRun).map
          fun m => (m.lease.map Lease.toLeaseProof,decide (epochs m.log).Nodup))) =
      some (some ⟨"a",1,"e"⟩,some (some ⟨"a",4,"e"⟩,true)) := by
    decide
  obtain ⟨m,hm,hsee⟩ := reachable_of_exec hfir
  simp only [Prod.mk.injEq] at hsee
  obtain ⟨hv,hexe⟩ := hsee
  obtain ⟨m',hm',hsee'⟩ := Option.map_eq_some_iff.mp hexe
  simp only [Prod.mk.injEq,decide_eq_true_eq] at hsee'
  obtain ⟨hl,hf⟩ := hsee'
  cases hok : (verifyInteractive ⟨"a",1,"e"⟩ m).2 with
  | error error =>
    rw [hok] at hv
    cases hv
  | ok verified =>
    exact ⟨m',hl,(human_control_excludes_agents hm).2.2 _ _ _ _ _ _ _ hok (.refl m) rfl
      (TransitionSystem.run_of_exec hm') hf⟩

end Qubicl.Control
