import Qubicl.Control.Lease.Fence

/-!
# Hand-over

The second half of fencing: a target whose call was rejected stays in `failedRevocations` or in the hand of the running loop
until its own call succeeds (`Retries`).
-/

namespace Qubicl.Control
open LeaseManager Foundation List

def RevocationJob.active (job : RevocationJob) : List RevocationTarget :=
  match job.phase with
  | .draining rest _ _ => rest
  | .calling t rest _ _ => t::rest
  | .waiting | .fulfilled _ | .rejected _ => []

structure Retries (m : LeaseManager) : Prop where
  chain : Chain m
  keys : (m.failedRevocations.map RevocationTarget.key).Nodup
  jobKeys : ∀ p job, m.jobs p=some job →
    ((m.failedRevocations++job.active).map RevocationTarget.key).Nodup
  busy : ∀ p job t rest terminated failure, m.jobs p=some job →
    job.phase=.calling t rest terminated failure → t.idle=false
  retained : ∀ since t before, m.log=since++.rejected t::before →
    t.idle=false ∧ (LeaseEvent.resolved t ∈ since ∨ t ∈ m.failedRevocations ∨
      ∃ p job, m.jobs p=some job ∧ t ∈ job.active)
  /-- a call that was rejected before a grant had been repeated with success -/
  repeated : ∀ after next human since t before,
    m.log=after++.granted next human::(since++.rejected t::before) →
    LeaseEvent.resolved t ∈ since

variable {job : RevocationJob}

theorem active_of_settled (h : job.phase.settled=true) :
    job.active=[] := by
  cases hp : job.phase <;> simp [RevocationJob.active,RevocationPhase.settled,hp] at h ⊢

theorem Chain.alone {m : LeaseManager} (h : Chain m) {p : ℕ}
    (hj : m.jobs p=some job) (unsettled : job.phase.settled=false)
    (before : ∀ q<p, ∀ b, m.jobs q=some b → b.phase.settled=true) :
    ∀ q other, q≠p → m.jobs q=some other → other.active=[] := by
  intro q other hne hq
  rcases Nat.lt_or_gt_of_ne hne with hlt | hgt
  · exact active_of_settled (before q hlt other hq)
  · by_cases hw : other.phase=.waiting
    · simp only [RevocationJob.active,hw]
    · have hs:=h.ordered q other hq hw p hgt job hj
      rw [unsettled] at hs
      cases hs

variable {m n : LeaseManager}

theorem Retries.keep (h : Retries m) (hc : Chain n) (new : List LeaseEvent)
    (hlog : n.log=new++m.log) (hgra : ∀ proof human, .granted proof human ∉ new)
    (hrej : ∀ t, .rejected t ∉ new) (hf : n.failedRevocations=m.failedRevocations)
    (hold : ∀ p job, m.jobs p=some job → n.jobs p=some job)
    (hnew : ∀ p job, n.jobs p=some job → m.jobs p=some job ∨
      (job.active=[] ∧ job.phase=.waiting)) : Retries n := by
  refine ⟨hc,hf ▸ h.keys,?_,?_,?_,?_⟩
  · intro p job hj
    rw [hf]
    rcases hnew p job hj with hj | ⟨ha,_⟩
    · exact h.jobKeys p job hj
    · rw [ha,append_nil]
      exact h.keys
  · intro p job t rest terminated failure hj hp
    rcases hnew p job hj with hj | ⟨_,hw⟩
    · exact h.busy p job t rest terminated failure hj hp
    · rw [hw] at hp
      cases hp
  · intro since t before hs
    rw [hlog] at hs
    obtain ⟨mid,rfl,hm⟩ := split_old (hrej t) hs
    obtain ⟨hi,hr | hr | ⟨p,job,hj,ha⟩⟩ := h.retained mid t before hm
    · exact ⟨hi,.inl (mem_append_right _ hr)⟩
    · exact ⟨hi,.inr (.inl (hf ▸ hr))⟩
    · exact ⟨hi,.inr (.inr ⟨p,job,hold p job hj,ha⟩)⟩
  · intro after next human since t before hs
    rw [hlog] at hs
    obtain ⟨mid,_,hm⟩ := split_old (hgra next human) hs
    exact h.repeated mid next human since t before hm

theorem Retries.keep_same (h : Retries m) (new : List LeaseEvent)
    (hlog : n.log=new++m.log) (hgra : ∀ proof human, .granted proof human ∉ new)
    (hrej : ∀ t, .rejected t ∉ new) (hj : n.jobs=m.jobs) (hr : n.revocation=m.revocation)
    (hp : n.nextPromise=m.nextPromise) (hf : n.failedRevocations=m.failedRevocations) :
    Retries n :=
  h.keep (h.chain.congr hj hr hp) new hlog hgra hrej hf
    (fun _ _ h => hj ▸ h) (fun _ _ h => .inl (hj ▸ h))

theorem Retries.enqueue (h : Retries m) (new : List LeaseEvent)
    (targets : List RevocationTarget) (hlog : n.log=new++m.log)
    (hgra : ∀ proof human, .granted proof human ∉ new) (hrej : ∀ t, .rejected t ∉ new)
    (hj : n.jobs=m.jobs) (hr : n.revocation=m.revocation)
    (hp : n.nextPromise=m.nextPromise) (hf : n.failedRevocations=m.failedRevocations) :
    Retries (enqueueRevocations targets n) := by
  have hc:=h.chain.congr hj hr hp
  refine h.keep (hc.enqueue targets) new hlog hgra hrej hf ?_ ?_
  · intro p job hm
    exact enqueue_old hc targets (hj ▸ hm)
  · intro p job hm
    by_cases he : p=n.nextPromise
    · subst he
      rw [enqueue_new] at hm
      cases hm
      exact .inr ⟨rfl,rfl⟩
    · exact .inl (hj ▸ (Function.update_of_ne he ..).symm.trans hm)

/-- A job proceeds: every failed target and every target in hand is kept, has
just succeeded or is idle. -/
theorem Retries.proceed {p : ℕ} (h : Retries m)
    (hc : Chain n) (hj : m.jobs p=some job) (unsettled : job.phase.settled=false)
    (before : ∀ q<p, ∀ b, m.jobs q=some b → b.phase.settled=true)
    (phase : RevocationPhase) (new : List LeaseEvent)
    (hjob : n.jobs=Function.update m.jobs p (some { job with phase := phase }))
    (hlog : n.log=new++m.log) (hgra : ∀ proof human, .granted proof human ∉ new)
    (hrej : ∀ t, .rejected t ∈ new → t.idle=false ∧ t ∈ n.failedRevocations)
    (hbus : ∀ t rest terminated failure, phase=.calling t rest terminated failure →
      t.idle=false)
    (hkey : ((n.failedRevocations++RevocationJob.active { job with phase := phase }).map
      RevocationTarget.key).Nodup)
    (hkep : ∀ t, t.idle=false → t ∈ m.failedRevocations ∨ t ∈ job.active →
      LeaseEvent.resolved t ∈ new ∨ t ∈ n.failedRevocations ∨
        t ∈ RevocationJob.active { job with phase := phase }) : Retries n := by
  have halo:=h.chain.alone hj unsettled before
  have hsel : n.jobs p=some { job with phase := phase } := by
    rw [hjob]
    exact Function.update_self ..
  have hcas : ∀ q other, n.jobs q=some other →
      (q=p ∧ other = { job with phase := phase }) ∨ (q≠p ∧ m.jobs q=some other) := by
    intro q other hq
    by_cases he : q=p
    · subst he
      exact .inl ⟨rfl,Option.some.inj (hq.symm.trans hsel)⟩
    · rw [hjob,Function.update_of_ne he] at hq
      exact .inr ⟨he,hq⟩
  have hfai : (n.failedRevocations.map RevocationTarget.key).Nodup := by
    rw [map_append] at hkey
    exact (nodup_append.mp hkey).1
  refine ⟨hc,hfai,?_,?_,?_,?_⟩
  · intro q other hq
    rcases hcas q other hq with ⟨_,rfl⟩ | ⟨hne,hq⟩
    · exact hkey
    · rw [halo q other hne hq,append_nil]
      exact hfai
  · intro q other t rest terminated failure hq hp
    rcases hcas q other hq with ⟨_,rfl⟩ | ⟨_,hq⟩
    · exact hbus t rest terminated failure hp
    · exact h.busy q other t rest terminated failure hq hp
  · intro since t older hs
    rw [hlog] at hs
    by_cases hr : .rejected t ∈ new
    · obtain ⟨hi,hf⟩ := hrej t hr
      exact ⟨hi,.inr (.inl hf)⟩
    obtain ⟨mid,rfl,hm⟩ := split_old hr hs
    obtain ⟨hi,hret⟩ := h.retained mid t older hm
    refine ⟨hi,?_⟩
    have hin : LeaseEvent.resolved t ∈ mid ∨ t ∈ m.failedRevocations ∨ t ∈ job.active := by
      rcases hret with hres | hf | ⟨q,other,hq,ha⟩
      · exact .inl hres
      · exact .inr (.inl hf)
      · by_cases he : q=p
        · subst he
          rw [hj] at hq
          cases hq
          exact .inr (.inr ha)
        · rw [halo q other he hq] at ha
          cases ha
    rcases hin with hres | hin
    · exact .inl (mem_append_right _ hres)
    · rcases hkep t hi hin with hres | hf | ha
      · exact .inl (mem_append_left _ hres)
      · exact .inr (.inl hf)
      · exact .inr (.inr ⟨p,_,hsel,ha⟩)
  · intro after next human since t older hs
    rw [hlog] at hs
    obtain ⟨mid,_,hm⟩ := split_old (hgra next human) hs
    exact h.repeated mid next human since t older hm

theorem Retries.observe {p : ℕ} {revocation : Option ℕ} (h : Retries m) (hj : m.jobs p=some job) (hc : Chain { m with
      jobs := Function.update m.jobs p (some { job with observed := true })
      revocation := revocation }) :
    Retries { m with
      jobs := Function.update m.jobs p (some { job with observed := true })
      revocation := revocation } := by
  have hsam : ∀ q other, Function.update m.jobs p (some { job with observed := true }) q =
      some other → ∃ old, m.jobs q=some old ∧ old.phase=other.phase ∧
        old.active=other.active := by
    intro q other hq
    by_cases he : q=p
    · subst he
      rw [Function.update_self] at hq
      cases hq
      exact ⟨job,hj,rfl,rfl⟩
    · rw [Function.update_of_ne he] at hq
      exact ⟨other,hq,rfl,rfl⟩
  refine ⟨hc,h.keys,?_,?_,?_,h.repeated⟩
  · intro q other hq
    obtain ⟨old,ho,_,ha⟩ := hsam q other hq
    exact ha ▸ h.jobKeys q old ho
  · intro q other t rest terminated failure hq hp
    obtain ⟨old,ho,hpha,_⟩ := hsam q other hq
    exact h.busy q old t rest terminated failure ho (hpha.trans hp)
  · intro since t before hs
    obtain ⟨hi,hr | hr | ⟨q,old,ho,ha⟩⟩ := h.retained since t before hs
    · exact ⟨hi,.inl hr⟩
    · exact ⟨hi,.inr (.inl hr)⟩
    · by_cases he : q=p
      · subst he
        rw [hj] at ho
        cases ho
        exact ⟨hi,.inr (.inr ⟨q,_,Function.update_self ..,ha⟩)⟩
      · exact ⟨hi,.inr (.inr ⟨q,old,(Function.update_of_ne he ..).trans ho,ha⟩)⟩

theorem Retries.grant (h : Retries m) {lease : Lease} (hg : Grantable m lease) : Retries (granted lease m) := by
  refine ⟨h.chain.congr rfl rfl rfl,h.keys,h.jobKeys,h.busy,?_,?_⟩
  · intro since t before hs
    rcases split_cons hs with ⟨_,he,_⟩ | ⟨mid,rfl,hm⟩
    · cases he
    obtain ⟨hi,hr | hr⟩ := h.retained mid t before hm
    · exact ⟨hi,.inl (mem_cons_of_mem _ hr)⟩
    · exact ⟨hi,.inr hr⟩
  · intro after next human since t before hs
    rcases split_cons hs with ⟨_,_,hm⟩ | ⟨mid,_,hm⟩
    · obtain ⟨_,hr | hr | ⟨p,job,hj,ha⟩⟩ := h.retained since t before hm
      · exact hr
      · rw [hg.retried] at hr
        cases hr
      · rw [active_of_settled (h.chain.idle hg.fenced p job hj)] at ha
        cases ha
    · exact h.repeated mid next human since t before hm

theorem retries_create (now : ℤ) (epoch : Base64Url) : Retries (create now epoch) := by
  refine ⟨chain_create now epoch,nodup_nil,?_,?_,?_,?_⟩
  · intro p job hj
    cases hj
  · intro p job t rest terminated failure hj
    cases hj
  · intro since t before hs
    have hm : LeaseEvent.rejected t ∈ (create now epoch).log := hs ▸ by simp
    cases mem_singleton.mp hm
  · intro after next human since t before hs
    have hm : LeaseEvent.granted next human ∈ (create now epoch).log := hs ▸ by simp
    cases mem_singleton.mp hm

theorem retries_move {m' : LeaseManager} (h : Retries m) (hm : Move m m') : Retries m' := by
  have hc:=chain_move h.chain hm
  have hgra:=departure_no_grant m.lease
  have hrej : ∀ t, LeaseEvent.rejected t ∉ departure m.lease := by
    intro t hm
    cases hl : m.lease <;> simp [departure,hl] at hm
  cases hm with
  | clock | touch | releaseHuman | bump | takeovers =>
    exact h.keep_same [] rfl (by simp) (by simp) rfl rfl rfl rfl
  | takeoverAgain _ => exact h.keep_same [.takeover] rfl (by simp) (by simp) rfl rfl rfl rfl
  | turnAway waiter rest _ _ =>
    exact h.keep_same [.waiterRejected waiter.waiter] rfl (by simp) (by simp) rfl rfl rfl rfl
  | queue waiter _ =>
    exact h.keep_same [.queued waiter.waiter] rfl (by simp) (by simp) rfl rfl rfl rfl
  | timeout waiter _ =>
    exact h.keep_same [.waiterTimedOut waiter] rfl (by simp) (by simp) rfl rfl rfl rfl
  | grant lease hg => exact h.grant hg
  | serve waiter rest lease _ hg =>
    have hres : Retries { m with waiters := rest } :=
      h.keep_same [] rfl (by simp) (by simp) rfl rfl rfl rfl
    have hgra:=hres.grant
      ⟨hg.vacant,hg.fenced,hg.retried,hg.drawn,hg.generation,hg.epoch,hg.background⟩
    exact hgra.keep_same [.waiterGranted waiter.waiter lease.toLeaseProof] rfl (by simp)
      (by simp) rfl rfl rfl rfl
  | revoke targets generation _ _ _ =>
    exact h.enqueue (departure m.lease) targets rfl hgra hrej rfl rfl rfl rfl
  | enqueue targets => exact h.enqueue [] targets rfl (by simp) (by simp) rfl rfl rfl rfl
  | takeover _ =>
    refine h.enqueue (departure m.lease++[.takeover]) _ ?_ ?_ ?_ rfl rfl rfl rfl
    · simp [vacate,record]
    · simp [hgra]
    · simp [hrej]
  | resetEpoch epoch =>
    refine h.enqueue (.epochDrawn epoch.text::departure m.lease) _ rfl ?_ ?_ rfl rfl rfl rfl
    · simp [hgra]
    · simp [hrej]
  | start p job hj hw ready =>
    refine h.proceed hc hj (by rw [hw]; rfl) (h.chain.ready hj ready) _ [] rfl rfl (by simp)
      (by simp) (by simp) ?_ ?_
    · simp only [RevocationJob.active,setPhase,nil_append]
      exact (go_nodup [] _).1
    · intro t _ ht
      simp only [RevocationJob.active,hw,not_mem_nil,or_false] at ht ⊢
      exact .inr (.inr (deduplicate_keeps_failed h.keys _ t ht))
  | skip p job target rest terminated failure hj hp idle =>
    have hkey:=h.jobKeys p job hj
    simp only [RevocationJob.active,hp] at hkey
    refine h.proceed hc hj (by rw [hp]; rfl) (h.chain.ordered p job hj (by simp [hp])) _ []
      rfl rfl (by simp) (by simp) (by simp) ?_ ?_
    · exact hkey.sublist (((sublist_cons_self target rest).append_left _).map _)
    · intro t hi ht
      simp only [RevocationJob.active,hp,mem_cons] at ht ⊢
      rcases ht with ht | rfl | ht
      · exact .inr (.inl ht)
      · rw [idle] at hi
        cases hi
      · exact .inr (.inr ht)
  | call p job target rest terminated failure hj hp busy =>
    have hkey:=h.jobKeys p job hj
    simp only [RevocationJob.active,hp] at hkey
    refine h.proceed hc hj (by rw [hp]; rfl) (h.chain.ordered p job hj (by simp [hp])) _
      [.invoked target] rfl rfl (by simp) (by simp) ?_ hkey ?_
    · intro t _ _ _ he
      cases he
      exact busy
    · intro t _ ht
      simp only [RevocationJob.active,hp] at ht ⊢
      exact .inr ht
  | finish p job terminated failure hj hp =>
    refine h.proceed hc hj (by rw [hp]; rfl) (h.chain.ordered p job hj (by simp [hp])) _ []
      rfl rfl (by simp) (by simp) ?_ ?_ ?_
    · intro t _ _ _ he
      cases failure <;> cases he
    · rw [active_of_settled (outcome_settled terminated failure),append_nil]
      exact h.keys
    · intro t _ ht
      simp only [RevocationJob.active,hp,not_mem_nil,or_false] at ht
      exact .inr (.inl ht)
  | resolve p job target rest terminated n failure hj hp =>
    have hkey:=h.jobKeys p job hj
    simp only [RevocationJob.active,hp] at hkey
    refine h.proceed hc hj (by rw [hp]; rfl) (h.chain.ordered p job hj (by simp [hp])) _
      [.resolved target] rfl rfl (by simp) (by simp) (by simp) ?_ ?_
    · exact hkey.sublist (((sublist_cons_self target rest).append_left _).map _)
    · intro t _ ht
      simp only [RevocationJob.active,hp,mem_cons] at ht ⊢
      rcases ht with ht | rfl | ht
      · exact .inr (.inl ht)
      · exact .inl (.inl rfl)
      · exact .inr (.inr ht)
  | reject p job target rest terminated failure failure' hj hp _ =>
    have hkey:=h.jobKeys p job hj
    simp only [RevocationJob.active,hp] at hkey
    refine h.proceed hc hj (by rw [hp]; rfl) (h.chain.ordered p job hj (by simp [hp])) _
      [.rejected target] rfl rfl (by simp) ?_ (by simp) ?_ ?_
    · intro t ht
      cases mem_singleton.mp ht
      exact ⟨h.busy p job _ _ _ _ hj hp,mem_append_right _ mem_cons_self⟩
    · simpa [RevocationJob.active,setPhase] using hkey
    · intro t _ ht
      simp only [RevocationJob.active,hp,mem_cons,setPhase,mem_append] at ht ⊢
      rcases ht with ht | rfl | ht
      · exact .inr (.inl (.inl ht))
      · exact .inr (.inl (.inr (.inl rfl)))
      · exact .inr (.inr ht)
  | observe p job hj hs _ => exact h.observe hj hc

theorem reachable_retries (h : leaseSystem.Reachable m) : Retries m :=
  reachable_of_moves retries_create (fun _ _ => retries_move) h

/-- At every grant of a run the slot is empty, every lease granted before has
left it and was revoked by a call that succeeded after that, and every call
that was rejected before has been repeated with success. -/
theorem fenced_before_handover {m : LeaseManager} (h : leaseSystem.Reachable m)
    {after before : List LeaseEvent} {next : LeaseProof} {human : Bool}
    (hs : m.log=after++.granted next human::before) :
    slot before=none ∧
    (∀ since proof human' older, before=since++.granted proof human'::older →
      Revoked proof since) ∧
    (∀ since t older, before=since++.rejected t::older →
      LeaseEvent.resolved t ∈ since) := by
  refine ⟨(reachable_slotHistory h).vacant after next human before hs,?_,?_⟩
  · intro since proof human' older hb
    exact (reachable_fences h).revoked after next human since proof human' older (hb ▸ hs)
  · intro since t older hb
    exact (reachable_retries h).repeated after next human since t older (hb ▸ hs)

/-- While a snapshot shows no fencing, every lease but the one that is held was revoked after it had left, and every call
that was rejected has been repeated with success. -/
theorem idle_snapshot_revoked {m : LeaseManager} (h : leaseSystem.Reachable m) (hidle : m.snapshot.2.fencing=none) :
    (∀ since proof human before, m.log=since++.granted proof human::before →
      m.lease.map Lease.toLeaseProof=some proof ∨ Revoked proof since) ∧
    ∀ since t before, m.log=since++.rejected t::before → LeaseEvent.resolved t ∈ since := by
  have hcases : m.expireIfNeeded=m ∨ m.expireIfNeeded.revocation.isSome=true := by
    unfold expireIfNeeded
    split
    · exact .inl rfl
    · split
      · exact .inl rfl
      · exact .inr rfl
  unfold snapshot at hidle
  dsimp only at hidle
  split_ifs at hidle with hrev hfail
  have hsame:=hcases.resolve_right hrev
  rw [hsame] at hrev hfail
  have hfenced : m.revocation=none := by simpa using hrev
  have hretried : m.failedRevocations=[] := by simpa using hfail
  have hchain:=(reachable_fences h).chain
  constructor
  · intro since proof human before hs
    -- beside the lease that is held, nothing hinders the fence
    have hvacant : ∀ {n : LeaseManager}, n={ m with lease := none } → Fence n proof since → Revoked proof since := by
      rintro _ rfl hfen
      exact hfen.revoked (hchain.congr rfl rfl rfl) rfl hfenced hretried
    cases (reachable_fences h).fence since proof human before hs with
    | held hheld => exact .inl hheld
    | owed hleft hpending => exact .inr (hvacant rfl (.owed hleft hpending))
    | called t ht hsub hcalling => exact .inr (hvacant rfl (.called t ht hsub hcalling))
    | done hdone => exact .inr hdone
  · intro since t before hs
    rcases ((reachable_retries h).retained since t before hs).2 with hres | hfailed | ⟨p,job,hj,hactive⟩
    · exact hres
    · rw [hretried] at hfailed
      cases hfailed
    · rw [active_of_settled (hchain.idle hfenced p job hj)] at hactive
      cases hactive

def handoverRun : List LeaseAction :=
  [.acquire 60 none ⟨"a",alphabet_a⟩,.release ⟨"a",1,"e"⟩,.startRevocation 0,
    .settleHandler 0 (.rejected (.error "stuck")),.observeRevocation 0 ⟨"b",alphabet_b⟩,
    .acquireWaiting 60 none 30 ⟨"b",alphabet_b⟩,.takeHumanControl,.startRevocation 1,
    .settleHandler 1 (.resolved 1),.observeRevocation 1 ⟨"b",alphabet_b⟩]

def handoverEvents : List LeaseEvent :=
  [.resolved ⟨some ⟨"a",1,"e"⟩,false⟩,.invoked ⟨some ⟨"a",1,"e"⟩,false⟩,.takeover,
    .queued 0,.rejected ⟨some ⟨"a",1,"e"⟩,false⟩,.invoked ⟨some ⟨"a",1,"e"⟩,false⟩,
    .left ⟨"a",1,"e"⟩]

theorem fenced_before_handover_run : Revoked ⟨"a",1,"e"⟩ handoverEvents := by
  have hlog : (leaseSystem.exec (create 0 ⟨"e",alphabet_of_all (by decide)⟩) handoverRun).map LeaseManager.log =
      some ([.waiterGranted 0 ⟨"b",4,"e"⟩]++.granted ⟨"b",4,"e"⟩ true ::
        (handoverEvents++.granted ⟨"a",1,"e"⟩ false::[.epochDrawn "e"])) := by
    decide
  obtain ⟨m,hr,hm⟩ := reachable_of_exec hlog
  exact (fenced_before_handover hr hm).2.1 _ _ _ _ rfl

theorem idle_snapshot_revoked_run : ∃ m, leaseSystem.Reachable m ∧ m.snapshot.2.fencing=none ∧ Revoked ⟨"a",1,"e"⟩
    ([.waiterGranted 0 ⟨"b",4,"e"⟩,.granted ⟨"b",4,"e"⟩ true]++handoverEvents) := by
  have hrun : (leaseSystem.exec (create 0 ⟨"e",alphabet_of_all (by decide)⟩) handoverRun).map
      (fun m => (m.snapshot.2.fencing,m.lease.map Lease.toLeaseProof,m.log)) =
      some (none,some ⟨"b",4,"e"⟩,[.waiterGranted 0 ⟨"b",4,"e"⟩,.granted ⟨"b",4,"e"⟩ true] ++
        handoverEvents++.granted ⟨"a",1,"e"⟩ false::[.epochDrawn "e"]) := by
    decide
  obtain ⟨m,hr,hm⟩ := reachable_of_exec hrun
  simp only [Prod.mk.injEq] at hm
  obtain ⟨hidle,hlease,hlog⟩ := hm
  refine ⟨m,hr,hidle,((idle_snapshot_revoked hr hidle).1 _ _ _ _ hlog).resolve_left ?_⟩
  rw [hlease]
  decide

end Qubicl.Control
