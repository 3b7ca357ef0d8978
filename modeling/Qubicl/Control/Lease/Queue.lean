import Qubicl.Control.Lease.Handover
import Mathlib.Data.List.Nodup

/-!
# The queue of waiting clients

Waiters are numbered as they enter.
-/

namespace Qubicl.Control
open LeaseManager Foundation List Option

def LeaseEvent.enters : LeaseEvent → Option ℕ
  | .queued waiter => some waiter
  | _ => none

def LeaseEvent.serves : LeaseEvent → Option ℕ
  | .waiterGranted waiter _ => some waiter
  | _ => none

def LeaseEvent.settles : LeaseEvent → Option ℕ
  | .waiterGranted waiter _ | .waiterRejected waiter | .waiterTimedOut waiter => some waiter
  | _ => none

def enteredWaiters (log : List LeaseEvent) : List ℕ := log.filterMap LeaseEvent.enters
def servedWaiters (log : List LeaseEvent) : List ℕ := log.filterMap LeaseEvent.serves
def settledWaiters (log : List LeaseEvent) : List ℕ := log.filterMap LeaseEvent.settles

variable {waiter p : ℕ} {m' : LeaseManager}

theorem served_settled {log : List LeaseEvent} (h : waiter ∈ servedWaiters log) : waiter ∈ settledWaiters log := by
  obtain ⟨event,hmem,hser⟩ := mem_filterMap.mp h
  apply mem_filterMap.mpr
  cases event with
  | waiterGranted served proof => exact ⟨_,hmem,hser⟩
  | _ => cases hser

def LeaseEvent.quiet (event : LeaseEvent) : Bool := event.enters.isNone && event.settles.isNone

theorem quiet_append {new : List LeaseEvent} (log : List LeaseEvent) (h : ∀ event ∈ new, event.quiet=true) :
    enteredWaiters (new++log)=enteredWaiters log ∧ servedWaiters (new++log)=servedWaiters log ∧
      settledWaiters (new++log)=settledWaiters log := by
  have hnon : ∀ event ∈ new, event.enters=none ∧ event.settles=none := by
    intro event heve
    have := h event heve
    simpa [LeaseEvent.quiet] using this
  have hser : ∀ event ∈ new, event.serves=none := by
    intro event heve
    have := (hnon event heve).2
    cases event <;> simp_all [LeaseEvent.serves,LeaseEvent.settles]
  have hdro : ∀ f : LeaseEvent → Option ℕ, (∀ event ∈ new, f event=none) →
      (new++log).filterMap f=log.filterMap f := by
    intro f hf
    rw [filterMap_append,filterMap_eq_nil_iff.mpr hf,nil_append]
  exact ⟨hdro _ fun event heve => (hnon event heve).1,hdro _ hser,
    hdro _ fun event heve => (hnon event heve).2⟩

theorem quiet_singleton {event : LeaseEvent} (h : event.quiet=true) :
    ∀ e ∈ [event], e.quiet=true := by
  intro e he
  rw [mem_singleton.mp he]
  exact h

theorem departure_quiet (lease : Option Lease) : ∀ event ∈ departure lease, event.quiet=true := by
  intro event heve
  cases lease with
  | none => simp [departure] at heve
  | some lease =>
    simp only [departure,map_some,toList_some,mem_singleton] at heve
    rw [heve]
    rfl

def LeaseManager.queue (m : LeaseManager) : List ℕ := m.waiters.map LeaseWaiter.waiter

structure QueueHistory (m : LeaseManager) : Prop where
  sorted : m.queue.Pairwise (· < ·)
  entered : enteredWaiters m.log=(List.range m.nextWaiter).reverse
  placed : ∀ waiter, waiter < m.nextWaiter ↔ waiter ∈ m.queue ∨ waiter ∈ settledWaiters m.log
  left : ∀ waiter ∈ settledWaiters m.log, waiter ∉ m.queue
  once : (settledWaiters m.log).Nodup
  inOrder : (servedWaiters m.log).Pairwise (· > ·)
  ahead : ∀ served ∈ servedWaiters m.log, ∀ waiter ∈ m.queue, served<waiter

variable {m n : LeaseManager}

theorem QueueHistory.keep (h : QueueHistory m) (new : List LeaseEvent)
    (hlog : n.log=new++m.log) (hqui : ∀ event ∈ new, event.quiet=true)
    (hwai : n.waiters=m.waiters) (hnex : n.nextWaiter=m.nextWaiter) : QueueHistory n := by
  obtain ⟨hent,hser,hset⟩ := quiet_append m.log hqui
  have hque : n.queue=m.queue := congrArg (List.map LeaseWaiter.waiter) hwai
  rw [← hlog] at hent hser hset
  constructor
  · rw [hque]
    exact h.sorted
  · rw [hent,hnex]
    exact h.entered
  · intro waiter
    rw [hnex,hque,hset]
    exact h.placed waiter
  · rw [hque,hset]
    exact h.left
  · rw [hset]
    exact h.once
  · rw [hser]
    exact h.inOrder
  · rw [hser,hque]
    exact h.ahead

theorem queueHistory_create (now : ℤ) (epoch : Base64Url) : QueueHistory (create now epoch) := by
  have hset : settledWaiters (create now epoch).log=[] := rfl
  have hser : servedWaiters (create now epoch).log=[] := rfl
  constructor
  · exact List.Pairwise.nil
  · rfl
  · intro waiter
    rw [hset]
    simp [create,LeaseManager.queue]
  · rw [hset]
    simp
  · rw [hset]
    exact nodup_nil
  · rw [hser]
    exact List.Pairwise.nil
  · rw [hser]
    simp

theorem QueueHistory.enter (h : QueueHistory m) (waiter : LeaseWaiter) (hw : waiter.waiter=m.nextWaiter) :
    QueueHistory { m with
      waiters := m.waiters++[waiter]
      nextWaiter := m.nextWaiter+1
      log := .queued waiter.waiter::m.log } := by
  have hlt : ∀ w ∈ m.queue, w < m.nextWaiter := fun w hm => (h.placed w).mpr (.inl hm)
  have hque : (m.waiters++[waiter]).map LeaseWaiter.waiter=m.queue++[m.nextWaiter] := by
    rw [map_append,← hw]
    rfl
  constructor
  · show (List.map _ _).Pairwise _
    rw [hque,pairwise_append]
    refine ⟨h.sorted,pairwise_singleton _ _,?_⟩
    intro w hm v hv
    rw [mem_singleton.mp hv]
    exact hlt w hm
  · show waiter.waiter::enteredWaiters m.log=_
    rw [h.entered,hw,range_succ,reverse_append]
    rfl
  · intro w
    show w < m.nextWaiter+1 ↔ w ∈ List.map _ _ ∨ w ∈ settledWaiters m.log
    rw [hque,mem_append,mem_singleton]
    have := h.placed w
    constructor
    · intro hlt
      by_cases heq : w=m.nextWaiter
      · exact .inl (.inr heq)
      · rcases this.mp (by omega) with hm | hs
        · exact .inl (.inl hm)
        · exact .inr hs
    · rintro ((hm | rfl) | hs)
      · have := this.mpr (.inl hm)
        omega
      · omega
      · have := this.mpr (.inr hs)
        omega
  · intro w hs
    have hlt:=(h.placed w).mpr (.inr hs)
    show w ∉ List.map _ _
    rw [hque,mem_append,mem_singleton,not_or]
    exact ⟨h.left w hs,by omega⟩
  · exact h.once
  · exact h.inOrder
  · intro served hser w hm
    change w ∈ List.map _ _ at hm
    rw [hque,mem_append,mem_singleton] at hm
    rcases hm with hm | rfl
    · exact h.ahead served hser w hm
    · exact (h.placed served).mpr (.inr (served_settled hser))

/- Somebody leaves the queue, and is settled by that. -/
theorem QueueHistory.leave (h : QueueHistory m) (waiter : ℕ) (event : LeaseEvent)
    (new : List LeaseEvent) (hin : waiter ∈ m.queue) (hses : event.settles=some waiter)
    (hnex : n.nextWaiter=m.nextWaiter) (hlog : n.log=event::new++m.log)
    (hqui : ∀ e ∈ new, e.quiet=true) (hque : n.queue=m.queue.erase waiter)
    (hfir : ∀ served, event.serves=some served → ∀ w ∈ n.queue, served<w) : QueueHistory n := by
  obtain ⟨hend,hserved,hset⟩ := quiet_append m.log hqui
  have hnod : m.queue.Nodup := h.sorted.imp fun hlt => by omega
  have hsub : ∀ w, w ∈ n.queue ↔ w≠waiter ∧ w ∈ m.queue := by
    intro w
    rw [hque]
    exact hnod.mem_erase_iff
  have hent : event.enters=none := by
    cases event <;> first | rfl | cases hses
  have hsettledEq : settledWaiters n.log=waiter::settledWaiters m.log := by
    rw [hlog,← hset]
    exact filterMap_cons_some hses
  have hservedEq : servedWaiters n.log=event.serves.toList++servedWaiters m.log := by
    rw [hlog,← hserved]
    show List.filterMap _ (event::(new++m.log))=_
    rw [filterMap_cons]
    cases event.serves <;> rfl
  have hwhi : ∀ served, event.serves=some served → served=waiter := by
    intro served hser
    cases event <;> simp_all [LeaseEvent.serves,LeaseEvent.settles]
  constructor
  · rw [hque]
    exact h.sorted.sublist erase_sublist
  · rw [hnex,← h.entered,← hend,hlog]
    exact filterMap_cons_none hent
  · intro w
    rw [hnex,hsettledEq,mem_cons,hsub]
    have hpla:=h.placed w
    constructor
    · intro hlt
      by_cases heq : w=waiter
      · exact .inr (.inl heq)
      · rcases hpla.mp hlt with hm | hs
        · exact .inl ⟨heq,hm⟩
        · exact .inr (.inr hs)
    · rintro (⟨_,hm⟩ | rfl | hs)
      · exact hpla.mpr (.inl hm)
      · exact hpla.mpr (.inl hin)
      · exact hpla.mpr (.inr hs)
  · intro w hs hm
    rw [hsettledEq,mem_cons] at hs
    obtain ⟨hne,hm⟩ := (hsub w).mp hm
    rcases hs with heq | hs
    · exact hne heq
    · exact h.left w hs hm
  · rw [hsettledEq]
    exact nodup_cons.mpr ⟨fun hs => h.left waiter hs hin,h.once⟩
  · rw [hservedEq,pairwise_append]
    refine ⟨?_,h.inOrder,?_⟩
    · cases event.serves with
      | none => exact List.Pairwise.nil
      | some served => exact pairwise_singleton _ _
    · intro served hserved older holder
      have hser:=hwhi served (by simpa using hserved)
      rw [hser]
      exact h.ahead older holder waiter hin
  · intro served hserved w hm
    rw [hservedEq,mem_append] at hserved
    rcases hserved with hserved | hserved
    · exact hfir served (by simpa using hserved) w hm
    · exact h.ahead served hserved w ((hsub w).mp hm).2

/- The first of the queue is served or turned away. -/
theorem queue_head {waiter : LeaseWaiter} {rest : List LeaseWaiter} (h : m.waiters=waiter::rest) :
    m.queue=waiter.waiter::rest.map LeaseWaiter.waiter := by
  unfold LeaseManager.queue
  rw [h]
  rfl

theorem erase_waiter (waiters : List LeaseWaiter) (waiter : ℕ) :
    (waiters.eraseP (fun w => w.waiter == waiter)).map LeaseWaiter.waiter =
      (waiters.map LeaseWaiter.waiter).erase waiter := by
  induction waiters with
  | nil => rfl
  | cons first rest ih =>
    by_cases h : first.waiter=waiter
    · simp [h]
    · simp [h,ih]

theorem queueHistory_move (h : QueueHistory m) (hm : Move m m') : QueueHistory m' := by
  cases hm with
  | clock now => exact h.keep [] rfl (by simp) rfl rfl
  | touch lease expiresAt durationMs _ => exact h.keep [] rfl (by simp) rfl rfl
  | revoke targets generation _ _ _ => exact h.keep (departure m.lease) rfl (departure_quiet _) rfl rfl
  | enqueue targets => exact h.keep [] rfl (by simp) rfl rfl
  | takeover _ =>
    refine h.keep (departure m.lease++[.takeover]) ?_ ?_ rfl rfl
    · exact (append_assoc _ _ _).symm
    · intro event heve
      rcases mem_append.mp heve with hleft | htaken
      · exact departure_quiet _ event hleft
      · exact quiet_singleton rfl event htaken
  | takeoverAgain _ => exact h.keep [.takeover] rfl (quiet_singleton rfl) rfl rfl
  | releaseHuman => exact h.keep [] rfl (by simp) rfl rfl
  | resetEpoch epoch =>
    refine h.keep (.epochDrawn epoch.text::departure m.lease) rfl ?_ rfl rfl
    intro event heve
    rcases mem_cons.mp heve with rfl | hleft
    · rfl
    · exact departure_quiet _ event hleft
  | bump _ => exact h.keep [] rfl (by simp) rfl rfl
  | grant lease _ => exact h.keep [.granted lease.toLeaseProof m.human] rfl (quiet_singleton rfl) rfl rfl
  | serve waiter rest lease queue _ =>
    have hq:=queue_head queue
    have hin : waiter.waiter ∈ m.queue := by
      rw [hq]
      exact mem_cons_self
    refine h.leave waiter.waiter (.waiterGranted waiter.waiter lease.toLeaseProof)
      [.granted lease.toLeaseProof m.human] hin rfl rfl rfl (quiet_singleton rfl) ?_ ?_
    · rw [hq,erase_cons_head]
      rfl
    · intro served hser w hw
      have hsor:=h.sorted
      rw [hq,pairwise_cons] at hsor
      have : waiter.waiter=served := Option.some.inj hser
      rw [← this]
      exact hsor.1 w hw
  | turnAway waiter rest queue _ =>
    have hq:=queue_head queue
    have hin : waiter.waiter ∈ m.queue := by
      rw [hq]
      exact mem_cons_self
    refine h.leave waiter.waiter (.waiterRejected waiter.waiter) [] hin rfl rfl rfl (by simp) ?_ nofun
    rw [hq,erase_cons_head]
    rfl
  | queue waiter hw => exact h.enter waiter hw
  | timeout waiter hw =>
    have hin : waiter ∈ m.queue := by
      obtain ⟨w,hmem,heq⟩ := any_eq_true.mp hw
      exact mem_map.mpr ⟨w,hmem,by simpa using heq⟩
    exact h.leave waiter (.waiterTimedOut waiter) [] hin rfl rfl rfl (by simp)
      (erase_waiter m.waiters waiter) nofun
  | start p job hj _ _ => exact h.keep [] rfl (by simp) rfl rfl
  | skip p job target rest terminated failure _ _ _ => exact h.keep [] rfl (by simp) rfl rfl
  | call p job target rest terminated failure _ _ _ => exact h.keep [.invoked target] rfl (quiet_singleton rfl) rfl rfl
  | finish p job terminated failure _ _ => exact h.keep [] rfl (by simp) rfl rfl
  | resolve p job target rest terminated n failure _ _ => exact h.keep [.resolved target] rfl (quiet_singleton rfl) rfl rfl
  | reject p job target rest terminated failure failure' _ _ _ => exact h.keep [.rejected target] rfl (quiet_singleton rfl) rfl rfl
  | observe p job _ _ _ => exact h.keep [] rfl (by simp) rfl rfl
  | takeovers takeovers => exact h.keep [] rfl (by simp) rfl rfl

def RevocationPhase.failing : RevocationPhase → Bool
  | .draining _ _ failure | .calling _ _ _ failure => failure.isSome
  | .rejected _ => true
  | .waiting | .fulfilled _ => false

/- No later job has started, which would take the failed targets over. -/
def Unclaimed (m : LeaseManager) (p : ℕ) : Prop :=
  ∀ q job, p<q → m.jobs q=some job → job.phase=.waiting

structure Recorded (m : LeaseManager) : Prop where
  chain : Chain m
  failed : ∀ p job, m.jobs p=some job → job.phase.failing=true → Unclaimed m p →
    m.failedRevocations≠[]

theorem failing_outcome (terminated : ℕ) (failure : Option HandlerError) :
    (RevocationPhase.outcome terminated failure).failing=failure.isSome := by
  cases failure <;> rfl

theorem recorded_create (now : ℤ) (epoch : Base64Url) : Recorded (create now epoch) :=
  ⟨chain_create now epoch,fun _ _ hj => by cases hj⟩

theorem Recorded.keep (h : Recorded m) (hc : Chain n)
    (hf : n.failedRevocations=m.failedRevocations)
    (hold : ∀ q job, m.jobs q=some job → ∃ job', n.jobs q=some job' ∧ job'.phase=job.phase)
    (hnew : ∀ q job, n.jobs q=some job → job.phase=.waiting ∨
      ∃ job', m.jobs q=some job' ∧ job'.phase=job.phase) : Recorded n := by
  refine ⟨hc,?_⟩
  intro p job hj hfai hunc
  rcases hnew p job hj with hw | ⟨job',hj',hpha⟩
  · rw [hw] at hfai
    cases hfai
  · rw [hf]
    apply h.failed p job' hj' (by rw [hpha]; exact hfai)
    intro q other hlt hoth
    obtain ⟨other',hoth',hsam⟩ := hold q other hoth
    rw [← hsam]
    exact hunc q other' hlt hoth'

theorem Recorded.enqueue (h : Recorded m) (targets : List RevocationTarget)
    (hj : n.jobs=m.jobs) (hr : n.revocation=m.revocation) (hp : n.nextPromise=m.nextPromise)
    (hf : n.failedRevocations=m.failedRevocations) : Recorded (enqueueRevocations targets n) := by
  have hc:=h.chain.congr hj hr hp
  refine h.keep (hc.enqueue targets) hf ?_ ?_
  · intro q job hq
    exact ⟨job,enqueue_old hc targets (hj ▸ hq),rfl⟩
  · intro q job hq
    by_cases he : q=n.nextPromise
    · subst he
      rw [enqueue_new] at hq
      cases hq
      exact .inl rfl
    · exact .inr ⟨job,hj ▸ (Function.update_of_ne he ..).symm.trans hq,rfl⟩

theorem Recorded.same (h : Recorded m) (hj : n.jobs=m.jobs)
    (hr : n.revocation=m.revocation) (hp : n.nextPromise=m.nextPromise)
    (hf : n.failedRevocations=m.failedRevocations) : Recorded n :=
  h.keep (h.chain.congr hj hr hp) hf (fun _ job hq => ⟨job,hj ▸ hq,rfl⟩)
    (fun _ job hq => .inr ⟨job,hj ▸ hq,rfl⟩)

/- The running job proceeds: when it fails now, a target is recorded. -/
theorem Recorded.proceed {job : RevocationJob} (h : Recorded m) (hc : Chain n) (hj : m.jobs p=some job)
    (unsettled : job.phase.settled=false) (phase : RevocationPhase)
    (hjob : n.jobs=Function.update m.jobs p (some { job with phase := phase })) (hsta : phase≠.waiting)
    (hfai : phase.failing=true → n.failedRevocations≠[] ∨
      (job.phase.failing=true ∧ n.failedRevocations=m.failedRevocations)) : Recorded n := by
  have hsel : n.jobs p=some { job with phase := phase } := by
    rw [hjob]
    exact Function.update_self ..
  have hoth : ∀ q, q≠p → n.jobs q=m.jobs q := by
    intro q hq
    rw [hjob]
    exact Function.update_of_ne hq ..
  refine ⟨hc,?_⟩
  intro q other hq hq' hunc
  rcases Nat.lt_trichotomy q p with hlt | rfl | hgt
  · -- the job has started, so what failed before is with it
    exact absurd (hunc p _ hlt hsel) hsta
  · rw [hsel] at hq
    obtain rfl := Option.some.inj hq
    rcases hfai hq' with hrec | ⟨hbef,hsam⟩
    · exact hrec
    · rw [hsam]
      apply h.failed q job hj hbef
      intro r other hlt hr
      rw [← hoth r (by omega)] at hr
      exact hunc r other hlt hr
  · rw [hoth q (by omega)] at hq
    have hwai : other.phase≠.waiting := by
      intro hw
      rw [hw] at hq'
      cases hq'
    have hset:=h.chain.ordered q other hq hwai p hgt job hj
    rw [unsettled] at hset
    cases hset

theorem recorded_move (h : Recorded m) (hm : Move m m') : Recorded m' := by
  have hcha:=chain_move h.chain hm
  cases hm with
  | revoke targets generation _ _ _ => exact h.enqueue targets rfl rfl rfl rfl
  | enqueue targets => exact h.enqueue targets rfl rfl rfl rfl
  | takeover _ => exact h.enqueue _ rfl rfl rfl rfl
  | resetEpoch epoch => exact h.enqueue _ rfl rfl rfl rfl
  | start p job hj hw ready =>
    exact h.proceed hcha hj (by rw [hw]; rfl) _ rfl nofun nofun
  | skip p job target rest terminated failure hj hp _ =>
    exact h.proceed hcha hj (by rw [hp]; rfl) _ rfl nofun fun hf => .inr ⟨by rw [hp]; exact hf,rfl⟩
  | call p job target rest terminated failure hj hp _ =>
    exact h.proceed hcha hj (by rw [hp]; rfl) _ rfl nofun fun hf => .inr ⟨by rw [hp]; exact hf,rfl⟩
  | finish p job terminated failure hj hp =>
    refine h.proceed hcha hj (by rw [hp]; rfl) _ rfl ?_ ?_
    · exact settled_not_waiting (outcome_settled terminated failure)
    · rw [failing_outcome]
      exact fun hf => .inr ⟨by rw [hp]; exact hf,rfl⟩
  | resolve p job target rest terminated n failure hj hp =>
    exact h.proceed hcha hj (by rw [hp]; rfl) _ rfl nofun fun hf => .inr ⟨by rw [hp]; exact hf,rfl⟩
  | reject p job target rest terminated failure failure' hj hp _ =>
    refine h.proceed hcha hj (by rw [hp]; rfl) _ rfl nofun fun _ => .inl ?_
    show m.failedRevocations++[target]≠[]
    simp
  | observe p job hj hs ho =>
    refine h.keep hcha rfl ?_ ?_
    · intro q other hq
      by_cases he : q=p
      · subst he
        rw [hj] at hq
        cases hq
        exact ⟨_,Function.update_self ..,rfl⟩
      · exact ⟨other,(Function.update_of_ne he ..).trans hq,rfl⟩
    · intro q other hq
      right
      by_cases he : q=p
      · subst he
        have hsel:=(Function.update_self ..).symm.trans hq
        obtain rfl := Option.some.inj hsel
        exact ⟨job,hj,rfl⟩
      · exact ⟨other,(Function.update_of_ne he ..).symm.trans hq,rfl⟩
  | _ => exact h.same rfl rfl rfl rfl

/-- A client that waits while nothing is fenced any more is waiting for a lease to end
or for a failed revocation. -/
def Awaited (m : LeaseManager) : Prop :=
  m.revocation=none → m.waiters≠[] → m.lease.isSome=true ∨ m.failedRevocations≠[]

/- `grant` does not throw for a queued waiter: its actor was validated when it entered. -/
def Validated (m : LeaseManager) : Prop :=
  ∀ waiter ∈ m.waiters, ∃ validated, waiter.actor.mapM validateLeaseActor=.ok validated

/- Nobody enters, and nothing that waiters wait for goes away. -/
structure Steady (m n : LeaseManager) : Prop where
  waiters : ∀ waiter ∈ n.waiters, waiter ∈ m.waiters
  lasting : n.revocation=none → m.revocation=none ∧
    (m.lease.isSome=true → n.lease.isSome=true) ∧
    (m.failedRevocations≠[] → n.failedRevocations≠[])

theorem Steady.refl (m : LeaseManager) : Steady m m := ⟨fun _ h => h,fun h => ⟨h,id,id⟩⟩

theorem Steady.trans {o : LeaseManager} (h : Steady m n) (h' : Steady n o) : Steady m o := by
  refine ⟨fun waiter hw => h.waiters waiter (h'.waiters waiter hw),?_⟩
  intro hr
  obtain ⟨hn,hlea',hfai'⟩ := h'.lasting hr
  obtain ⟨hm,hlea,hfai⟩ := h.lasting hn
  exact ⟨hm,hlea' ∘ hlea,hfai' ∘ hfai⟩

theorem Steady.fencing (hw : n.waiters=m.waiters)
    (hr : n.revocation≠none) : Steady m n :=
  ⟨fun _ h => hw ▸ h,fun h => absurd h hr⟩

theorem Steady.same (hw : n.waiters=m.waiters) (hr : n.revocation=m.revocation)
    (hl : m.lease.isSome=true → n.lease.isSome=true)
    (hf : n.failedRevocations=m.failedRevocations) : Steady m n :=
  ⟨fun _ h => hw ▸ h,fun h => ⟨hr ▸ h,hl,fun hm => hf ▸ hm⟩⟩

theorem Awaited.steady (h : Awaited m) (hs : Steady m n) : Awaited n := by
  intro hr hw
  obtain ⟨hm,hlea,hfai⟩ := hs.lasting hr
  obtain ⟨waiter,hwai⟩ := exists_mem_of_ne_nil _ hw
  have hne : m.waiters≠[] := ne_nil_of_mem (hs.waiters waiter hwai)
  exact (h hm hne).imp hlea hfai

theorem Validated.steady (h : Validated m) (hs : Steady m n) : Validated n :=
  fun waiter hw => h waiter (hs.waiters waiter hw)

theorem expireIfNeeded_steady (m : LeaseManager) : Steady m m.expireIfNeeded := by
  unfold expireIfNeeded
  split
  · exact .refl m
  · split
    · exact .refl m
    · exact .fencing rfl nofun

theorem snapshot_steady (m : LeaseManager) : Steady m m.snapshot.1 := expireIfNeeded_steady m

theorem verify_steady (proof : LeaseProof) (renewActivity : Bool) (m : LeaseManager) :
    Steady m (verify proof renewActivity m).1 := by
  apply (expireIfNeeded_steady m).trans
  unfold verify
  dsimp only
  split
  · exact .refl _
  · split
    · exact .refl _
    · split
      · exact .same rfl rfl (fun _ => rfl) rfl
      · exact .refl _

theorem renew_steady (proof : LeaseProof) (durationSeconds : ℤ) (m : LeaseManager) :
    Steady m (renew proof durationSeconds m).1 := by
  have hv:=verify_steady proof false m
  unfold renew
  split
  next h =>
    rw [h] at hv
    exact hv
  next m' verified h =>
    rw [h] at hv
    dsimp only at hv
    split
    · exact hv
    · exact hv.trans (.same rfl rfl (fun _ => rfl) rfl)

theorem release_steady (proof : LeaseProof) (m : LeaseManager) : Steady m (release proof m).1 := by
  have hv:=verify_steady proof false m
  unfold release
  split
  next h =>
    rw [h] at hv
    exact hv
  next h =>
    rw [h] at hv
    exact hv.trans (.fencing rfl nofun)

theorem revokeAgentControlFor_steady (proof : LeaseProof) (m : LeaseManager) :
    Steady m (revokeAgentControlFor proof m).1 := by
  unfold revokeAgentControlFor
  dsimp only
  split
  · split
    · exact .fencing rfl nofun
    · exact .fencing rfl nofun
  · exact .fencing rfl nofun

theorem retryFailedRevocations_steady (m : LeaseManager) : Steady m m.retryFailedRevocations := by
  unfold retryFailedRevocations
  split
  · exact snapshot_steady m
  · exact .fencing rfl nofun

theorem takeHumanControl_steady (m : LeaseManager) : Steady m (takeHumanControl m) := by
  have hrec : Steady m (m.record [.takeover]) := .same rfl rfl id rfl
  unfold takeHumanControl
  dsimp only
  split
  · split
    · exact hrec.trans (.same rfl rfl id rfl)
    · exact hrec.trans (retryFailedRevocations_steady _)
  · exact .fencing rfl nofun

theorem resumeTakeover_steady {takeover : Takeover} (h : resumeTakeover takeover m=some m') : Steady m m' := by
  have hres : Steady m { m with takeovers := m.takeovers.erase takeover } := .same rfl rfl id rfl
  unfold resumeTakeover at h
  split at h
  swap
  · cases h
  cases takeover with
  | current p =>
    dsimp only at h
    split at h
    · cases h
      exact hres.trans (retryFailedRevocations_steady _)
    · cases h
      exact hres
    · cases h
  | own p =>
    dsimp only at h
    split at h
    · cases h
      exact hres.trans (snapshot_steady _)
    · cases h
      exact hres
    · cases h

theorem grant_steady (durationSeconds : ℤ) (actor : Option LeaseActor) (id : Base64Url)
    (m : LeaseManager) : Steady m (grant durationSeconds actor id m).1 := by
  rcases grant_cases durationSeconds actor id m with ⟨error,h⟩ | ⟨lease,h,_⟩
  · rw [h]
    exact .same rfl rfl (fun h => h) rfl
  · rw [h]
    exact .same rfl rfl (fun _ => rfl) rfl

theorem acquire_steady (durationSeconds : ℤ) (actor : Option LeaseActor) (id : Base64Url)
    (m : LeaseManager) : Steady m (acquire durationSeconds actor id m).1 := by
  apply (expireIfNeeded_steady m).trans
  unfold acquire
  dsimp only
  generalize m.expireIfNeeded=m
  split
  · exact .refl m
  · split
    · exact .refl m
    · split
      · exact snapshot_steady m
      · split
        · exact .refl m
        · exact grant_steady _ _ _ m

theorem waiterTimeout_steady {error : QubiclError} (h : waiterTimeout waiter m=some (m',error)) : Steady m m' := by
  have hera : Steady m { m with
      waiters := m.waiters.eraseP (fun w => w.waiter == waiter)
      log := .waiterTimedOut waiter::m.log } :=
    ⟨fun _ hw => mem_of_mem_eraseP hw,fun hr => ⟨hr,id,id⟩⟩
  unfold waiterTimeout at h
  split at h
  swap
  · cases h
  dsimp only at h
  split at h
  · cases h
    exact hera.trans (snapshot_steady _)
  · cases h
    exact hera.trans ((snapshot_steady _).trans (snapshot_steady _))

/- The loop of a job writes its phase and nothing that waiters wait for. -/
theorem drain_rest (p : ℕ) (job : RevocationJob) (terminated : ℕ) (failure : Option HandlerError)
    (rest : List RevocationTarget) (m : LeaseManager) :
    (drain p job terminated failure rest m).revocation=m.revocation ∧
      (drain p job terminated failure rest m).waiters=m.waiters := by
  induction rest with
  | nil => cases failure <;> exact ⟨rfl,rfl⟩
  | cons target rest ih =>
    unfold drain
    split
    · exact ih
    · exact ⟨rfl,rfl⟩

/- While a job is not settled, a revocation is in progress. -/
theorem Chain.busy (h : Chain m) {job : RevocationJob} (hj : m.jobs p=some job) (unsettled : job.phase.settled=false) :
    m.revocation≠none := by
  intro hr
  have hs:=h.idle hr p job hj
  rw [unsettled] at hs
  cases hs

theorem startRevocation_steady (hc : Chain m) (h : startRevocation p m=some m') : Steady m m' := by
  unfold startRevocation at h
  split at h
  · cases h
  next job hj =>
    dsimp only at h
    split at h
    swap
    · cases h
    next hw =>
      cases h
      obtain ⟨hrev,hwai⟩ := drain_rest p job 0 none
        (deduplicateTargets (m.failedRevocations++job.targets)) { m with failedRevocations := [] }
      apply @Steady.fencing m _ hwai
      rw [hrev]
      exact hc.busy hj (by rw [hw.1]; rfl)

theorem settleHandler_steady {outcome : HandlerOutcome} (hc : Chain m) (h : settleHandler p outcome m=some m') :
    Steady m m' := by
  unfold settleHandler at h
  split at h
  swap
  · cases h
  next job hj =>
    split at h
    next target rest terminated failure n hp =>
      cases h
      obtain ⟨hrev,hwai⟩ := drain_rest p job (terminated+n) failure rest
        (m.record [.resolved target])
      apply @Steady.fencing m _ hwai
      rw [hrev]
      exact hc.busy hj (by rw [hp]; rfl)
    next target rest terminated failure error hp =>
      cases h
      obtain ⟨hrev,hwai⟩ := drain_rest p job terminated (failure <|> some error) rest
        { m.record [.rejected target] with failedRevocations := m.failedRevocations++[target] }
      apply @Steady.fencing m _ hwai
      rw [hrev]
      exact hc.busy hj (by rw [hp]; rfl)
    · cases h

structure Attentive (m : LeaseManager) : Prop where
  validated : Validated m
  awaited : Awaited m

theorem Attentive.steady (h : Attentive m) (hs : Steady m n) : Attentive n :=
  ⟨h.validated.steady hs,h.awaited.steady hs⟩

theorem drainWaiters_attentive (id : Base64Url) (h : Validated m) : Attentive (drainWaiters id m) := by
  have hv:=h.steady (expireIfNeeded_steady m)
  unfold drainWaiters
  dsimp only
  revert hv
  generalize m.expireIfNeeded=m
  intro hv
  split
  next hc =>
    refine ⟨hv,fun hr _ => ?_⟩
    simp only [Bool.or_eq_true,hr,isSome_none,Bool.false_eq_true,or_false,
      Bool.not_eq_true',isEmpty_eq_false_iff] at hc
    exact hc
  next hc =>
    split
    next hnon => exact ⟨hv,fun _ hw => absurd hnon hw⟩
    next waiter rest hq =>
      have hmem : waiter ∈ m.waiters := by
        rw [hq]
        exact mem_cons_self
      obtain ⟨validated,hval⟩ := hv waiter hmem
      have hres : Validated { m with waiters := rest } := by
        intro other hoth
        apply hv other
        rw [hq]
        exact mem_cons_of_mem _ hoth
      unfold LeaseManager.grant
      simp only [hval]
      exact ⟨hres,fun _ _ => .inl rfl⟩

/- Validation returns the actor it was given. -/
theorem mapM_validated {actor validated : Option LeaseActor}
    (h : actor.mapM validateLeaseActor=.ok validated) :
    validated.mapM validateLeaseActor=.ok validated := by
  have hsel : ∀ a b : LeaseActor, validateLeaseActor a=.ok b → b=a := by
    intro a b hab
    unfold validateLeaseActor at hab
    split at hab
    · cases hab
    · exact (Except.ok.inj hab).symm
  cases actor with
  | none =>
    cases h
    rfl
  | some a =>
    cases ha : validateLeaseActor a with
    | error error =>
      simp only [mapM_some,ha] at h
      cases h
    | ok b =>
      have hb:=hsel a b ha
      subst hb
      simp only [mapM_some,ha] at h
      cases h
      simp only [mapM_some,ha]
      rfl

theorem acquireWaiting_attentive (durationSeconds : ℤ) (actor : Option LeaseActor) (waitSeconds : ℤ) (id : Base64Url)
    (h : Attentive m) : Attentive (acquireWaiting durationSeconds actor waitSeconds id m).1 := by
  have he:=h.steady (expireIfNeeded_steady m)
  unfold acquireWaiting
  dsimp only
  revert he
  generalize m.expireIfNeeded=m
  intro he
  split
  · exact he.steady (acquire_steady _ _ _ m)
  · split
    · exact he.steady (grant_steady _ _ _ m)
    · split
      · exact he
      next validated hval =>
        apply drainWaiters_attentive
        intro waiter hw
        rcases mem_append.mp hw with hold | hnew
        · exact he.validated waiter hold
        · rw [mem_singleton.mp hnew]
          exact ⟨validated,mapM_validated hval⟩

theorem releaseHumanControl_attentive (id : Base64Url) (h : Attentive m) :
    Attentive (releaseHumanControl id m).1 := by
  have hv : Validated { m with
      human := false
      generation := if m.human then m.generation+1 else m.generation } := h.validated
  exact (drainWaiters_attentive id hv).steady (snapshot_steady _)

theorem observeRevocation_attentive {id : Base64Url} (hr : Recorded m) (h : Attentive m)
    (hs : observeRevocation p id m=some m') : Attentive m' := by
  unfold observeRevocation at hs
  split at hs
  · cases hs
  next job hj =>
    split at hs
    swap
    · cases hs
    next hc =>
      simp only [Bool.and_eq_true,Bool.not_eq_true'] at hc
      dsimp only at hs
      split at hs
      · cases hs
        exact drainWaiters_attentive id h.validated
      next hful =>
        -- the callback of a rejection does not drain, but its target is recorded
        cases hs
        refine ⟨h.validated,?_⟩
        intro hnon hw
        dsimp only at hnon hw ⊢
        split at hnon
        next hlat =>
          have hfai : job.phase.failing=true := by
            cases hpha : job.phase with
            | fulfilled terminated => exact absurd hpha (hful terminated)
            | rejected failure => rfl
            | waiting => simp [hpha,RevocationPhase.settled] at hc
            | draining => simp [hpha,RevocationPhase.settled] at hc
            | calling => simp [hpha,RevocationPhase.settled] at hc
          right
          apply hr.failed p job hj hfai
          intro q other hlt hq
          have hlas:=hr.chain.latest p hlat
          have hbou:=hr.chain.bounded q other hq
          omega
        · exact h.awaited hnon hw

theorem attentive_step {a : LeaseAction} (hr : Recorded m) (h : Attentive m) (hs : leaseSystem.step m a=some m') :
    Attentive m' := by
  change leaseStep m a=some m' at hs
  cases a with
  | clock now =>
    cases hs
    exact h.steady (.same rfl rfl id rfl)
  | acquire durationSeconds actor id =>
    cases hs
    exact h.steady (acquire_steady _ _ _ m)
  | acquireWaiting durationSeconds actor waitSeconds id =>
    cases hs
    exact acquireWaiting_attentive _ _ _ _ h
  | verify proof renewActivity =>
    cases hs
    exact h.steady (verify_steady _ _ m)
  | verifyInteractive proof =>
    cases hs
    rw [verifyInteractive_state]
    exact h.steady (verify_steady _ _ m)
  | renew proof durationSeconds =>
    cases hs
    exact h.steady (renew_steady _ _ m)
  | release proof =>
    cases hs
    exact h.steady (release_steady _ m)
  | revokeAgentControl =>
    cases hs
    exact h.steady (.fencing rfl nofun)
  | revokeAgentControlFor proof =>
    cases hs
    exact h.steady (revokeAgentControlFor_steady _ m)
  | takeHumanControl =>
    cases hs
    exact h.steady (takeHumanControl_steady m)
  | resumeTakeover takeover => exact h.steady (resumeTakeover_steady hs)
  | releaseHumanControl id =>
    cases hs
    exact releaseHumanControl_attentive id h
  | resetEpoch epoch =>
    cases hs
    exact h.steady (.fencing rfl nofun)
  | snapshot =>
    cases hs
    exact h.steady (snapshot_steady m)
  | expiryTimer =>
    simp only [leaseStep] at hs
    split at hs
    · cases hs
      exact h.steady (expireIfNeeded_steady m)
    · cases hs
  | waiterTimeout waiter =>
    obtain ⟨⟨m₁,error⟩,h₁,rfl⟩ := map_eq_some_iff.mp hs
    exact h.steady (waiterTimeout_steady h₁)
  | startRevocation p => exact h.steady (startRevocation_steady hr.chain hs)
  | settleHandler p outcome => exact h.steady (settleHandler_steady hr.chain hs)
  | observeRevocation p id => exact observeRevocation_attentive hr h hs

theorem reachable_attentive (h : leaseSystem.Reachable m) : Attentive m := by
  have hbot : Recorded m ∧ Attentive m := by
    apply h.invariant
    · rintro _ ⟨now,epoch,rfl⟩
      exact ⟨recorded_create now epoch,⟨(fun _ hw => nomatch hw),fun _ hw => absurd rfl hw⟩⟩
    · rintro s a t ⟨hr,ha⟩ hs
      exact ⟨preserved_by_moves (fun _ _ => recorded_move) (step_moves hs) hr,attentive_step hr ha hs⟩
  exact hbot.2

/- A falling list of numbers below `n` is a part of all of them. -/
theorem sublist_of_falling {n : ℕ} {ws : List ℕ} (hfal : ws.Pairwise (· > ·)) (hlt : ∀ w ∈ ws, w<n) :
    ws.Sublist (List.range n).reverse := by
  induction n generalizing ws with
  | zero =>
    cases ws with
    | nil => exact List.Sublist.refl _
    | cons w rest =>
      have := hlt w mem_cons_self
      omega
  | succ n ih =>
    rw [range_succ,reverse_append]
    cases ws with
    | nil => exact nil_sublist _
    | cons w rest =>
      obtain ⟨hhea,hres⟩ := pairwise_cons.mp hfal
      by_cases hw : w=n
      · subst hw
        exact (ih hres hhea).cons_cons w
      · apply List.Sublist.cons
        apply ih hfal
        intro v hv
        have hw':=hlt w mem_cons_self
        rcases mem_cons.mp hv with rfl | hv
        · omega
        · have := hhea v hv
          omega

theorem reachable_queueHistory (h : leaseSystem.Reachable m) : QueueHistory m :=
  reachable_of_moves queueHistory_create (fun _ _ => queueHistory_move) h

/-- Waiters are served in the order in which they entered, each is settled at most once
and is in the queue until it is, and no waiter is forgotten: without a revocation in
progress, a lease is held or a failed revocation is recorded. -/
theorem waiters_served_in_order {m : LeaseManager} (h : leaseSystem.Reachable m) :
    (servedWaiters m.log).Sublist (enteredWaiters m.log) ∧
      (enteredWaiters m.log).Nodup ∧ (settledWaiters m.log).Nodup ∧
      (∀ waiter ∈ enteredWaiters m.log, waiter ∈ m.queue ↔ waiter ∉ settledWaiters m.log) ∧
      (m.revocation=none → m.waiters≠[] → m.lease.isSome=true ∨ m.failedRevocations≠[]) := by
  have hq:=reachable_queueHistory h
  refine ⟨?_,?_,hq.once,?_,(reachable_attentive h).awaited⟩
  · rw [hq.entered]
    apply sublist_of_falling hq.inOrder
    intro waiter hser
    exact (hq.placed waiter).mpr (.inr (served_settled hser))
  · rw [hq.entered]
    exact nodup_reverse.mpr nodup_range
  · intro waiter hent
    rw [hq.entered,mem_reverse,mem_range] at hent
    constructor
    · exact fun hin hset => hq.left waiter hset hin
    · intro hset
      exact ((hq.placed waiter).mp hent).resolve_right hset

def queueRun : List LeaseAction :=
  [.acquire 60 none ⟨"a",alphabet_a⟩,
    .acquireWaiting 60 none 30 ⟨"x",alphabet_x⟩,
    .acquireWaiting 60 none 30 ⟨"x",alphabet_x⟩,
    .release ⟨"a",1,"e"⟩,.startRevocation 0,.settleHandler 0 (.resolved 0),
    .observeRevocation 0 ⟨"b",alphabet_b⟩,
    .release ⟨"b",3,"e"⟩,.startRevocation 1,.settleHandler 1 (.resolved 0),
    .observeRevocation 1 ⟨"c",alphabet_c⟩]

theorem waiters_served_in_order_run : ∃ m : LeaseManager, servedWaiters m.log=[1,0] ∧
    (servedWaiters m.log).Sublist (enteredWaiters m.log) ∧
    (enteredWaiters m.log).Nodup ∧ (settledWaiters m.log).Nodup ∧
    (∀ waiter ∈ enteredWaiters m.log, waiter ∈ m.queue ↔ waiter ∉ settledWaiters m.log) ∧
    (m.revocation=none → m.waiters≠[] → m.lease.isSome=true ∨ m.failedRevocations≠[]) := by
  have hrun : (leaseSystem.exec (create 0 ⟨"e",alphabet_of_all (by decide)⟩) queueRun).map
      (fun m => servedWaiters m.log)=some [1,0] := by decide
  obtain ⟨m,hm,hser⟩ := reachable_of_exec hrun
  exact ⟨m,hser,waiters_served_in_order hm⟩

end Qubicl.Control
