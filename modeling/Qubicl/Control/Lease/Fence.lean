import Qubicl.Control.Lease.Revocation
import Qubicl.Control.Lease.Slot

/-!
# Fencing before hand-over

Between the grant of a lease and the next grant lie, in this order, the moment the lease left the slot, a call of the
revocation handler with its proof and the success of that call.
-/

namespace Qubicl.Control
open LeaseManager Foundation List

def RevocationJob.ahead (job : RevocationJob) : List RevocationTarget :=
  match job.phase with
  | .waiting => job.targets
  | .draining rest _ _ => rest
  | .calling _ rest _ _ => rest
  | .fulfilled _ | .rejected _ => []

def Pending (m : LeaseManager) (proof : LeaseProof) : Prop :=
  ∃ t : RevocationTarget, t.proof=some proof ∧
    (t ∈ m.failedRevocations ∨ ∃ p job, m.jobs p=some job ∧ t ∈ job.ahead)

def Calling (m : LeaseManager) (t : RevocationTarget) : Prop :=
  ∃ p job rest terminated failure, m.jobs p=some job ∧
    job.phase=.calling t rest terminated failure

/- The lease left the slot, then the handler was called with its proof, then
that call succeeded: newest first, among the events since the grant. -/
def Revoked (proof : LeaseProof) (since : List LeaseEvent) : Prop :=
  ∃ t : RevocationTarget, t.proof=some proof ∧
    [.resolved t,.invoked t,.left proof].Sublist since

inductive Fence (m : LeaseManager) (proof : LeaseProof) (since : List LeaseEvent) : Prop
  | held (h : m.lease.map Lease.toLeaseProof=some proof)
  | owed (hl : LeaseEvent.left proof ∈ since) (hp : Pending m proof)
  | called (t : RevocationTarget) (ht : t.proof=some proof)
      (hs : [.invoked t,.left proof].Sublist since) (hc : Calling m t)
  | done (h : Revoked proof since)

variable {proof : LeaseProof} {since : List LeaseEvent}

theorem Revoked.later (new : List LeaseEvent)
    (h : Revoked proof since) : Revoked proof (new++since) := by
  obtain ⟨t,ht,hs⟩ := h
  exact ⟨t,ht,hs.trans (sublist_append_right new since)⟩

section
variable {m n : LeaseManager} (new : List LeaseEvent) (h : Fence m proof since)
   (hl : ∀ p, m.lease.map Lease.toLeaseProof=some p → n.lease.map Lease.toLeaseProof=some p)
include new h hl

theorem Fence.carry
    (hp : Pending m proof → Pending n proof) (hc : ∀ t, Calling m t → Calling n t) :
    Fence n proof (new++since) := by
  cases h with
  | held h => exact .held (hl _ h)
  | owed h p => exact .owed (mem_append_right _ h) (hp p)
  | called t ht hs c =>
    exact .called t ht (hs.trans (sublist_append_right new since)) (hc t c)
  | done h => exact .done (h.later new)

theorem Fence.congr
    (hj : n.jobs=m.jobs) (hf : n.failedRevocations=m.failedRevocations) :
    Fence n proof (new++since) := by
  refine h.carry new hl ?_ ?_
  · intro hp
    unfold Pending
    rw [hj,hf]
    exact hp
  · intro t hc
    unfold Calling
    rw [hj]
    exact hc

end

theorem enqueue_new (targets : List RevocationTarget) (m : LeaseManager) :
    (enqueueRevocations targets m).jobs m.nextPromise =
      some ⟨m.revocation,targets,.waiting,false⟩ := Function.update_self ..

variable {m : LeaseManager} {job : RevocationJob}

theorem enqueue_old (hc : Chain m) (targets : List RevocationTarget) {p : ℕ} (h : m.jobs p=some job) :
    (enqueueRevocations targets m).jobs p=some job := by
  have hne : p≠m.nextPromise := by
    have hlt:=hc.bounded p job h
    omega
  exact (Function.update_of_ne hne ..).trans h

theorem pending_enqueue (hc : Chain m) (targets : List RevocationTarget) (h : Pending m proof) : Pending (enqueueRevocations targets m) proof := by
  obtain ⟨t,ht,hf | ⟨p,job,hj,ha⟩⟩ := h
  · exact ⟨t,ht,.inl hf⟩
  · exact ⟨t,ht,.inr ⟨p,job,enqueue_old hc targets hj,ha⟩⟩

variable {t : RevocationTarget}

theorem calling_enqueue (hc : Chain m) (targets : List RevocationTarget) (h : Calling m t) :
    Calling (enqueueRevocations targets m) t := by
  obtain ⟨p,job,rest,terminated,failure,hj,hp⟩ := h
  exact ⟨p,job,rest,terminated,failure,enqueue_old hc targets hj,hp⟩

theorem pending_queued {targets : List RevocationTarget}
    (h : ∃ t ∈ targets, t.proof=some proof) : Pending (enqueueRevocations targets m) proof := by
  obtain ⟨t,hm,ht⟩ := h
  exact ⟨t,ht,.inr ⟨_,_,enqueue_new targets m,hm⟩⟩

theorem Fence.revoke {n : LeaseManager} (new : List LeaseEvent) (targets : List RevocationTarget)
    (h : Fence m proof since) (owed : ∀ lease, m.lease=some lease → ∃ t ∈ targets, t.proof=some lease.toLeaseProof)
    (left : ∀ lease, m.lease=some lease → LeaseEvent.left lease.toLeaseProof ∈ new) (hn : Chain n)
    (hj : n.jobs=m.jobs) (hf : n.failedRevocations=m.failedRevocations) :
    Fence (enqueueRevocations targets n) proof (new++since) := by
  have hp : Pending m proof → Pending n proof := by
    unfold Pending
    rw [hj,hf]
    exact id
  have hcal : ∀ t, Calling m t → Calling n t := by
    unfold Calling
    rw [hj]
    exact fun _ => id
  cases h with
  | held h =>
    obtain ⟨lease,hlea,rfl⟩ := Option.map_eq_some_iff.mp h
    exact .owed (mem_append_left _ (left lease hlea))
      (pending_queued (owed lease hlea))
  | owed hl h => exact .owed (mem_append_right _ hl) (pending_enqueue hn targets (hp h))
  | called t ht hs h =>
    exact .called t ht (hs.trans (sublist_append_right new since))
      (calling_enqueue hn targets (hcal t h))
  | done h => exact .done (h.later new)

theorem set_phase_self (m : LeaseManager) (p : ℕ) (job : RevocationJob) (phase : RevocationPhase) :
    (m.setPhase p job phase).jobs p=some { job with phase := phase } := Function.update_self ..

theorem set_phase_other {p q : ℕ} {other : RevocationJob} (phase : RevocationPhase) (hq : q≠p)
    (h : m.jobs q=some other) :
    (m.setPhase p job phase).jobs q=some other := (Function.update_of_ne hq ..).trans h

theorem pending_set_phase {p : ℕ}
    (hj : m.jobs p=some job) (phase : RevocationPhase)
    (h : Pending m proof) :
    Pending (m.setPhase p job phase) proof ∨ ∃ t ∈ job.ahead, t.proof=some proof := by
  obtain ⟨t,ht,hf | ⟨q,other,hq,ha⟩⟩ := h
  · exact .inl ⟨t,ht,.inl hf⟩
  · by_cases he : q=p
    · subst he
      rw [hj] at hq
      cases hq
      exact .inr ⟨t,ha,ht⟩
    · exact .inl ⟨t,ht,.inr ⟨q,other,set_phase_other phase he hq,ha⟩⟩

theorem pending_ahead {p : ℕ} {phase : RevocationPhase} (ht : t.proof=some proof)
    (ha : t ∈ RevocationJob.ahead { job with phase := phase }) : Pending (m.setPhase p job phase) proof :=
  ⟨t,ht,.inr ⟨p,_,set_phase_self m p job phase,ha⟩⟩

theorem calling_set_phase {p : ℕ} (hj : m.jobs p=some job) (phase : RevocationPhase) (h : Calling m t) :
    Calling (m.setPhase p job phase) t ∨
      ∃ rest terminated failure, job.phase=.calling t rest terminated failure := by
  obtain ⟨q,other,rest,terminated,failure,hq,hp⟩ := h
  by_cases he : q=p
  · subst he
    rw [hj] at hq
    cases hq
    exact .inr ⟨rest,terminated,failure,hp⟩
  · exact .inl ⟨q,other,rest,terminated,failure,set_phase_other phase he hq,hp⟩

section Proceed
variable {m : LeaseManager} {p : ℕ} {job : RevocationJob} {proof : LeaseProof}
  {since : List LeaseEvent}

theorem Fence.start (hg : Genuine proof) (h : Fence m proof since) (hj : m.jobs p=some job)
    (hw : job.phase=.waiting) :
    Fence (setPhase { m with failedRevocations := [] } p job
      (.draining (deduplicateTargets (m.failedRevocations++job.targets)) 0 none)) proof since := by
  -- deduplication keeps a target of every key, and the key decides the proof
  have hkep : ∀ t ∈ m.failedRevocations++job.targets, t.proof=some proof →
      ∃ t' ∈ deduplicateTargets (m.failedRevocations++job.targets), t'.proof=some proof := by
    intro t hm ht
    obtain ⟨t',hm',hk⟩ := deduplicate_keeps_key hm
    exact ⟨t',hm',proof_of_key hg ht hk⟩
  refine h.carry [] (fun _ => id) ?_ ?_
  · rintro ⟨t,ht,hf | ⟨q,other,hq,ha⟩⟩
    · obtain ⟨t',hm',ht'⟩ := hkep t (mem_append_left _ hf) ht
      exact pending_ahead ht' hm'
    · by_cases he : q=p
      · subst he
        rw [hj] at hq
        cases hq
        simp only [RevocationJob.ahead,hw] at ha
        obtain ⟨t',hm',ht'⟩ := hkep t (mem_append_right _ ha) ht
        exact pending_ahead ht' hm'
      · exact ⟨t,ht,.inr ⟨q,other,(Function.update_of_ne he ..).trans hq,ha⟩⟩
  · rintro t ⟨q,other,rest,terminated,failure,hq,hp⟩
    have he : q≠p := by
      rintro rfl
      rw [hj] at hq
      cases hq
      rw [hw] at hp
      cases hp
    exact ⟨q,other,rest,terminated,failure,(Function.update_of_ne he ..).trans hq,hp⟩

variable {failure : Option HandlerError} {rest : List RevocationTarget} {target : RevocationTarget} {terminated : ℕ}

section
variable (h : Fence m proof since) (hj : m.jobs p=some job) (hp : job.phase=.draining (target::rest) terminated failure)
include h hj hp

theorem Fence.skip (idle : target.idle=true) :
    Fence (m.setPhase p job (.draining rest terminated failure)) proof since := by
  refine h.carry [] (fun _ => id) ?_ ?_
  · intro hpen
    rcases pending_set_phase hj _ hpen with h | ⟨t,ha,ht⟩
    · exact h
    · simp only [RevocationJob.ahead,hp] at ha
      rcases mem_cons.mp ha with rfl | ha
      · simp only [RevocationTarget.idle,ht] at idle
        cases idle
      · exact pending_ahead ht ha
  · intro t hc
    rcases calling_set_phase hj _ hc with h | ⟨_,_,_,h⟩
    · exact h
    · rw [hp] at h
      cases h

theorem Fence.call :
    Fence ((m.setPhase p job (.calling target rest terminated failure)).record
      [.invoked target]) proof (.invoked target::since) := by
  have hcal : ∀ t, Calling m t →
      Calling (m.setPhase p job (.calling target rest terminated failure)) t := by
    intro t hc
    rcases calling_set_phase hj _ hc with h | ⟨_,_,_,h⟩
    · exact h
    · rw [hp] at h
      cases h
  cases h with
  | held h => exact .held h
  | owed hl hpen =>
    rcases pending_set_phase hj (.calling target rest terminated failure) hpen with
      h | ⟨t,ha,ht⟩
    · exact .owed (mem_cons_of_mem _ hl) h
    · simp only [RevocationJob.ahead,hp] at ha
      rcases mem_cons.mp ha with rfl | ha
      · exact .called t ht ((singleton_sublist.mpr hl).cons_cons _)
          ⟨p,_,rest,terminated,failure,set_phase_self m p job _,rfl⟩
      · exact .owed (mem_cons_of_mem _ hl) (pending_ahead (m := m) ht ha)
  | called t ht hs hc => exact .called t ht (hs.cons _) (hcal t hc)
  | done h => exact .done (h.later [_])

end

theorem Fence.finish (h : Fence m proof since)
    (hj : m.jobs p=some job) (hp : job.phase=.draining [] terminated failure)
    (phase : RevocationPhase) : Fence (m.setPhase p job phase) proof since := by
  refine h.carry [] (fun _ => id) ?_ ?_
  · intro hpen
    rcases pending_set_phase hj phase hpen with h | ⟨t,ha,_⟩
    · exact h
    · simp only [RevocationJob.ahead,hp] at ha
      cases ha
  · intro t hc
    rcases calling_set_phase hj phase hc with h | ⟨_,_,_,h⟩
    · exact h
    · rw [hp] at h
      cases h

theorem Fence.resolve {n : ℕ} (h : Fence m proof since) (hj : m.jobs p=some job)
    (hp : job.phase=.calling target rest terminated failure) :
    Fence ((m.record [.resolved target]).setPhase p job (.draining rest n failure)) proof
      (.resolved target::since) := by
  cases h with
  | held h => exact .held h
  | owed hl hpen =>
    rcases pending_set_phase hj (.draining rest n failure) hpen with h | ⟨t,ha,ht⟩
    · exact .owed (mem_cons_of_mem _ hl) h
    · simp only [RevocationJob.ahead,hp] at ha
      exact .owed (mem_cons_of_mem _ hl) (pending_ahead ht ha)
  | called t ht hs hc =>
    rcases calling_set_phase hj (.draining rest n failure) hc with h | ⟨_,_,_,h⟩
    · exact .called t ht (hs.cons _) h
    · rw [hp] at h
      cases h
      exact .done ⟨target,ht,hs.cons_cons _⟩
  | done h => exact .done (h.later [_])

theorem Fence.reject {failure' : Option HandlerError} (h : Fence m proof since) (hj : m.jobs p=some job)
    (hp : job.phase=.calling target rest terminated failure) :
    Fence (setPhase { m.record [.rejected target] with
        failedRevocations := m.failedRevocations++[target] } p job
      (.draining rest terminated failure')) proof (.rejected target::since) := by
  have hpen : ∀ n, n.jobs=m.jobs → n.failedRevocations=m.failedRevocations++[target] →
      Pending m proof → Pending n proof := by
    rintro n hj hf ⟨t,ht,ht' | h⟩
    · exact ⟨t,ht,.inl (hf ▸ mem_append_left _ ht')⟩
    · exact ⟨t,ht,.inr (hj ▸ h)⟩
  cases h with
  | held h => exact .held h
  | owed hl h =>
    rcases pending_set_phase (m := { m.record [.rejected target] with
        failedRevocations := m.failedRevocations++[target] }) hj
        (.draining rest terminated failure') (hpen _ rfl rfl h) with h | ⟨t,ha,ht⟩
    · exact .owed (mem_cons_of_mem _ hl) h
    · simp only [RevocationJob.ahead,hp] at ha
      exact .owed (mem_cons_of_mem _ hl) (pending_ahead ht ha)
  | called t ht hs hc =>
    rcases calling_set_phase hj (.draining rest terminated failure') hc with h | ⟨_,_,_,h⟩
    · exact .called t ht (hs.cons _) h
    · rw [hp] at h
      cases h
      -- back to where the lease had just left the slot
      have hl : LeaseEvent.left proof ∈ since :=
        hs.subset (mem_cons_of_mem _ mem_cons_self)
      exact .owed (mem_cons_of_mem _ hl)
        ⟨target,ht,.inl (mem_append_right _ mem_cons_self)⟩
  | done h => exact .done (h.later [_])

theorem Fence.observe (h : Fence m proof since) (hj : m.jobs p=some job) (revocation : Option ℕ) :
    Fence { m with
      jobs := Function.update m.jobs p (some { job with observed := true })
      revocation := revocation } proof since := by
  refine h.carry [] (fun _ => id) ?_ ?_
  · rintro ⟨t,ht,hf | ⟨q,other,hq,ha⟩⟩
    · exact ⟨t,ht,.inl hf⟩
    · by_cases he : q=p
      · subst he
        rw [hj] at hq
        cases hq
        exact ⟨t,ht,.inr ⟨q,_,Function.update_self ..,ha⟩⟩
      · exact ⟨t,ht,.inr ⟨q,other,(Function.update_of_ne he ..).trans hq,ha⟩⟩
  · rintro t ⟨q,other,rest,terminated,failure,hq,hp⟩
    by_cases he : q=p
    · subst he
      rw [hj] at hq
      cases hq
      exact ⟨q,_,rest,terminated,failure,Function.update_self ..,hp⟩
    · exact ⟨q,other,rest,terminated,failure,(Function.update_of_ne he ..).trans hq,hp⟩

end Proceed

structure Fences (m : LeaseManager) : Prop where
  chain : Chain m
  epoch : ':' ∉ m.epoch.toList
  genuine : ∀ proof human, .granted proof human ∈ m.log → Genuine proof
  fence : ∀ since proof human before, m.log=since++.granted proof human::before →
    Fence m proof since
  /-- every grant but the last was revoked before the next one -/
  revoked : ∀ after next human since proof human' before,
    m.log=after++.granted next human::(since++.granted proof human'::before) →
    Revoked proof since

theorem Fence.revoked (h : Fence m proof since) (hc : Chain m) (vacant : m.lease=none) (fenced : m.revocation=none)
    (retried : m.failedRevocations=[]) : Revoked proof since := by
  cases h with
  | held h =>
    rw [vacant] at h
    cases h
  | owed _ h =>
    obtain ⟨t,_,hf | ⟨p,job,hj,ha⟩⟩ := h
    · rw [retried] at hf
      cases hf
    · have hs:=hc.idle fenced p job hj
      cases hpha : job.phase <;> simp [RevocationJob.ahead,RevocationPhase.settled,hpha] at hs ha
  | called t _ _ h =>
    obtain ⟨p,job,rest,terminated,failure,hj,hp⟩ := h
    have hs:=hc.idle fenced p job hj
    rw [hp] at hs
    cases hs
  | done h => exact h

theorem Fences.keep {n : LeaseManager} (h : Fences m) (hc : Chain n) (new : List LeaseEvent) (hlog : n.log=new++m.log)
    (hnew : ∀ proof human, .granted proof human ∉ new) (he : ':' ∉ n.epoch.toList)
    (hf : ∀ proof since, Genuine proof → Fence m proof since → Fence n proof (new++since)) : Fences n := by
  refine ⟨hc,he,?_,?_,?_⟩
  · intro proof human hm
    rw [hlog] at hm
    rcases mem_append.mp hm with hm | hm
    · exact absurd hm (hnew proof human)
    · exact h.genuine proof human hm
  · intro since proof human before hs
    rw [hlog] at hs
    obtain ⟨mid,rfl,hm⟩ := split_old (hnew proof human) hs
    exact hf proof mid (h.genuine proof human (hm ▸ by simp)) (h.fence mid proof human before hm)
  · intro after next human since proof human' before hs
    rw [hlog] at hs
    obtain ⟨mid,_,hm⟩ := split_old (hnew next human) hs
    exact h.revoked mid next human since proof human' before hm

theorem Fences.keep_same {n : LeaseManager} (h : Fences m) (new : List LeaseEvent) (hlog : n.log=new++m.log)
    (hnew : ∀ proof human, .granted proof human ∉ new) (he : n.epoch=m.epoch) (hj : n.jobs=m.jobs)
    (hr : n.revocation=m.revocation) (hp : n.nextPromise=m.nextPromise) (hf : n.failedRevocations=m.failedRevocations)
    (hl : ∀ p, m.lease.map Lease.toLeaseProof=some p → n.lease.map Lease.toLeaseProof=some p) : Fences n :=
  h.keep (h.chain.congr hj hr hp) new hlog hnew (he ▸ h.epoch)
    (fun _ _ _ hfen => hfen.congr new hl hj hf)

theorem Fences.grant (h : Fences m) {lease : Lease} (hg : Grantable m lease) : Fences (granted lease m) := by
  have hgen : Genuine lease.toLeaseProof := by
    obtain ⟨id,hid⟩ := hg.drawn
    exact ⟨hg.epoch ▸ h.epoch,hid ▸ id.no_colon⟩
  refine ⟨h.chain.congr rfl rfl rfl,h.epoch,?_,?_,?_⟩
  · intro proof human hm
    rcases mem_cons.mp hm with he | hm
    · cases he
      exact hgen
    · exact h.genuine proof human hm
  · intro since proof human before hs
    rcases split_cons hs with ⟨rfl,he,_⟩ | ⟨mid,rfl,hm⟩
    · cases he
      exact .held rfl
    · refine (h.fence mid proof human before hm).congr [_] ?_ rfl rfl
      intro p hp
      rw [hg.vacant] at hp
      cases hp
  · intro after next human since proof human' before hs
    rcases split_cons hs with ⟨_,_,hm⟩ | ⟨mid,_,hm⟩
    · exact (h.fence since proof human' before hm).revoked h.chain hg.vacant hg.fenced hg.retried
    · exact h.revoked mid next human since proof human' before hm

theorem fences_create (now : ℤ) (epoch : Base64Url) : Fences (create now epoch) := by
  have hnon : ∀ proof human, .granted proof human ∉ (create now epoch).log := by
    intro proof human hm
    cases mem_singleton.mp hm
  refine ⟨chain_create now epoch,epoch.no_colon,?_,?_,?_⟩
  · intro proof human hm
    exact absurd hm (hnon proof human)
  · intro since proof human before hs
    exact absurd (hs ▸ by simp) (hnon proof human)
  · intro after next human since proof human' before hs
    exact absurd (hs ▸ by simp) (hnon next human)

theorem vacate_left {lease : Lease} (h : m.lease=some lease) : .left lease.toLeaseProof ∈ departure m.lease := by
  rw [h]
  exact mem_singleton_self _

theorem fences_move {m' : LeaseManager} (h : Fences m) (hm : Move m m') : Fences m' := by
  have hc:=chain_move h.chain hm
  have hlef:=departure_no_grant m.lease
  cases hm with
  | clock now => exact h.keep_same [] rfl (by simp) rfl rfl rfl rfl rfl (fun _ => id)
  | touch lease expiresAt durationMs hl =>
    refine h.keep_same [] rfl (by simp) rfl rfl rfl rfl rfl ?_
    intro p hp
    rw [hl] at hp
    exact hp
  | takeoverAgain _ =>
    exact h.keep_same [.takeover] rfl (by simp) rfl rfl rfl rfl rfl (fun _ => id)
  | releaseHuman => exact h.keep_same [] rfl (by simp) rfl rfl rfl rfl rfl (fun _ => id)
  | bump _ => exact h.keep_same [] rfl (by simp) rfl rfl rfl rfl rfl (fun _ => id)
  | turnAway waiter rest _ _ =>
    exact h.keep_same [.waiterRejected waiter.waiter] rfl (by simp) rfl rfl rfl rfl rfl (fun _ => id)
  | queue waiter _ =>
    exact h.keep_same [.queued waiter.waiter] rfl (by simp) rfl rfl rfl rfl rfl (fun _ => id)
  | timeout waiter _ =>
    exact h.keep_same [.waiterTimedOut waiter] rfl (by simp) rfl rfl rfl rfl rfl (fun _ => id)
  | takeovers takeovers => exact h.keep_same [] rfl (by simp) rfl rfl rfl rfl rfl (fun _ => id)
  | grant lease hg => exact h.grant hg
  | serve waiter rest lease _ hg =>
    have hres : Fences { m with waiters := rest } :=
      h.keep_same [] rfl (by simp) rfl rfl rfl rfl rfl (fun _ => id)
    have hgra:=hres.grant
      ⟨hg.vacant,hg.fenced,hg.retried,hg.drawn,hg.generation,hg.epoch,hg.background⟩
    exact hgra.keep_same [.waiterGranted waiter.waiter lease.toLeaseProof] rfl (by simp)
      rfl rfl rfl rfl rfl (fun _ => id)
  | revoke targets generation owed _ _ =>
    refine h.keep hc _ rfl hlef h.epoch ?_
    intro proof since _ hf
    exact hf.revoke _ targets owed (fun _ hl => vacate_left hl) (h.chain.congr rfl rfl rfl) rfl rfl
  | enqueue targets =>
    refine h.keep hc [] rfl (by simp) h.epoch ?_
    intro proof since _ hf
    exact hf.carry [] (fun _ => id) (pending_enqueue h.chain targets)
      (fun _ => calling_enqueue h.chain targets)
  | takeover _ =>
    refine h.keep hc (departure m.lease++[.takeover]) (by simp [enqueueRevocations,vacate,record])
      ?_ h.epoch ?_
    · intro proof human hm
      simp [hlef] at hm
    intro proof since _ hf
    exact hf.revoke _ _ (fun lease hl => ⟨_,mem_singleton_self _,by rw [hl]; rfl⟩)
      (fun _ hl => mem_append_left _ (vacate_left hl)) (h.chain.congr rfl rfl rfl) rfl rfl
  | resetEpoch epoch =>
    refine h.keep hc (.epochDrawn epoch.text::departure m.lease) rfl ?_ epoch.no_colon ?_
    · intro proof human hm
      simp [hlef] at hm
    intro proof since _ hf
    exact hf.revoke _ _ (fun lease hl => ⟨_,mem_singleton_self _,by rw [hl]; rfl⟩)
      (fun _ hl => mem_cons_of_mem _ (vacate_left hl)) (h.chain.congr rfl rfl rfl) rfl rfl
  | start p job hj hw _ =>
    refine h.keep hc [] rfl (by simp) h.epoch ?_
    intro proof since hg hf
    exact hf.start hg hj hw
  | skip p job target rest terminated failure hj hp idle =>
    refine h.keep hc [] rfl (by simp) h.epoch ?_
    intro proof since _ hf
    exact hf.skip hj hp idle
  | call p job target rest terminated failure hj hp _ =>
    refine h.keep hc [.invoked target] rfl (by simp) h.epoch ?_
    intro proof since _ hf
    exact hf.call hj hp
  | finish p job terminated failure hj hp =>
    refine h.keep hc [] rfl (by simp) h.epoch ?_
    intro proof since _ hf
    exact hf.finish hj hp _
  | resolve p job target rest terminated n failure hj hp =>
    refine h.keep hc [.resolved target] rfl (by simp) h.epoch ?_
    intro proof since _ hf
    exact hf.resolve hj hp
  | reject p job target rest terminated failure failure' hj hp _ =>
    refine h.keep hc [.rejected target] rfl (by simp) h.epoch ?_
    intro proof since _ hf
    exact hf.reject hj hp
  | observe p job hj _ _ =>
    refine h.keep hc [] rfl (by simp) h.epoch ?_
    intro proof since _ hf
    exact hf.observe hj _

theorem reachable_fences (h : leaseSystem.Reachable m) : Fences m :=
  reachable_of_moves fences_create (fun _ _ => fences_move) h

end Qubicl.Control
