import Qubicl.Cli.Dashboard.Operations

/-!
# Every step of the dashboard keeps its operations as reviewed

The invariants of the records and of the plans are put together here with the one call that is in progress,
taken through each step, and then through whole histories.
-/

namespace Qubicl.Cli.Dashboard.Ledger
open Foundation List

/-- At most one call is in progress, and under the state lock from its check on. -/
def Single (lock : Lock) (m : Memory) : Prop :=
  (m.tasks=[] ∧ m.busy=false ∧ lock≠.helper) ∨
    ∃ task, m.tasks=[task] ∧ m.busy=true ∧ (lock=.helper ↔ task.phase.locked=true)

structure Up (w : World) (m : Memory) : Prop where
  ledger : MemoryLedger w.disk w.answers w.issued m
  plans : PlanTable w.prepared w.instances w.runs m
  pending : PlansPending w.now w.prepared w.instances w.runs m
  ran : ∀ task ∈ m.tasks, task.phase.accepted=true → task.planId ∈ w.runs.map RunRecord.planId
  single : Single w.lock m

def HelperInv (w : World) : Prop :=
  match w.helper with
  | .down => DiskLedger w.disk w.answers w.issued ∧ w.lock≠.helper
  | .starting rest m => Loading w.disk w.answers w.issued rest m ∧ w.lock≠.helper ∧
      m.objects=[] ∧ m.plans=[] ∧ m.tasks=[] ∧ m.busy=false
  | .up m => Up w m

structure Inv (w : World) : Prop where
  distinct : (w.prepared.map Prepared.id).Nodup
  drawn : ∀ plan ∈ w.prepared, plan.id ∈ w.issued
  once : (w.runs.map RunRecord.planId).Nodup
  reviewed : ∀ run ∈ w.runs, ∃ plan ∈ w.prepared, Reviewed run plan
  helper : HelperInv w

section Single
variable {lock : Lock} {m : Memory} {i : ℕ} {task : Task}

theorem Single.only (h : Single lock m) (hget : m.tasks[i]? = some task) :
    i=0 ∧ m.tasks=[task] ∧ m.busy=true ∧ (lock=.helper ↔ task.phase.locked=true) := by
  rcases h with ⟨hnon,-,-⟩ | ⟨only,htasks,hbus,hloc⟩
  · rw [hnon] at hget
    cases hget
  · rw [htasks] at hget
    cases i with
    | zero =>
      cases hget
      exact ⟨rfl,htasks,hbus,hloc⟩
    | succ i => cases hget

theorem Single.idle (h : Single lock m) (hbus : m.busy=false) : m.tasks=[] ∧ lock≠.helper := by
  rcases h with ⟨hnon,-,hloc⟩ | ⟨only,-,htru,-⟩
  · exact ⟨hnon,hloc⟩
  · rw [hbus] at htru
    cases htru

end Single

/-- The plans may differ, and what is being prepared. -/
structure SameLedger (m m' : Memory) : Prop where
  jobs : m'.jobs=m.jobs
  executions : m'.executions=m.executions
  receipts : m'.receipts=m.receipts
  tasks : m'.tasks=m.tasks
  busy : m'.busy=m.busy

section SameLedger
variable {disk : Disk} {answers : List Answer} {uuids : List String} {lock : Lock} {m m' m'' : Memory}

theorem SameLedger.refl (m : Memory) : SameLedger m m := ⟨rfl,rfl,rfl,rfl,rfl⟩

theorem sameLedger_discardPlan (m : Memory) (id : String) : SameLedger m (m.discardPlan id) := by
  unfold Memory.discardPlan
  split
  next => exact ⟨rfl,rfl,rfl,rfl,rfl⟩
  next => exact .refl m

theorem MemoryLedger.same (h : MemoryLedger disk answers uuids m) (hsam : SameLedger m m') :
    MemoryLedger disk answers uuids m' := by
  refine h.congr (fun id => by rw [hsam.jobs]) hsam.executions hsam.receipts fun task htas => ?_
  rw [hsam.tasks] at htas
  exact ⟨fun _ => htas,fun hacc => ⟨task,htas,rfl,hacc⟩⟩

theorem Single.same (h : Single lock m) (hsam : SameLedger m m') : Single lock m' := by
  unfold Single
  rw [hsam.tasks,hsam.busy]
  exact h

end SameLedger

section Discard
variable {w : World} {m : Memory}

theorem Up.discard (h : Up w m) {id : String}
    (hok : ∀ task ∈ m.tasks, task.phase.accepted=false → task.planId=id → task.phase.acceptingNow=false ∧
      ∀ kept, m.objects.lookup id=some kept → kept.expiresAt≤w.now) : Up w (m.discardPlan id) where
  ledger := h.ledger.same (sameLedger_discardPlan m id)
  plans := h.plans.discard id
  pending := h.pending.discard hok
  ran := by
    rw [(sameLedger_discardPlan m id).tasks]
    exact h.ran
  single := h.single.same (sameLedger_discardPlan m id)

theorem Up.discardAll (ids : List String) (h : Up w m)
    (hnot : ∀ id ∈ ids, ∀ task ∈ m.tasks, task.phase.accepted=false → task.planId≠id) :
    Up w (ids.foldl Memory.discardPlan m) := by
  induction ids generalizing m with
  | nil => exact h
  | cons id ids ih =>
    refine ih (h.discard fun task htas hacc heq => ?_) fun k hk task htas => ?_
    · exact absurd heq (hnot id mem_cons_self task htas hacc)
    · rw [(sameLedger_discardPlan m id).tasks] at htas
      exact hnot k (mem_cons_of_mem _ hk) task htas

theorem plan?_eq_some {id : String} {plan : RetainedPlan} (h : m.plan? id=some plan) :
    id ∈ m.plans ∧ m.objects.lookup id=some plan := by
  unfold Memory.plan? at h
  split at h
  next hmem => exact ⟨hmem,h⟩
  next => cases h

theorem PlansPending.not_idle {now instances : ℕ} {prepared : List Prepared} {runs : List RunRecord}
    (h : PlansPending now prepared instances runs m) {id : String} {plan : RetainedPlan} (hpla : m.plan? id=some plan)
    (hidl : plan.evaluating=false) : ∀ task ∈ m.tasks, task.phase.accepted=false → task.planId≠id := by
  rintro task htas hacc rfl
  obtain ⟨plan',hpre,kept,hid,hins,hkep,hmad,hpen⟩ := h task htas hacc
  rw [(plan?_eq_some hpla).2] at hkep
  cases hkep
  rw [hpen.evaluating] at hidl
  cases hidl

theorem Up.expirePlans (h : Up w m) : Up w (m.expirePlans w.now) := by
  refine h.discardAll _ fun id hid => ?_
  have hexp : m.expirable w.now id=true := (mem_filter.1 hid).2
  unfold Memory.expirable at hexp
  obtain ⟨plan,hpla,hche⟩ := (Option.any_eq_true _ _).1 hexp
  refine h.pending.not_idle hpla ?_
  rw [Bool.and_eq_true] at hche
  simpa using hche.1

end Discard

section Calls
variable {w w' : World} {m : Memory} {task : Task}

theorem ran_none {runs : List RunRecord} (htasks : m.tasks=[]) :
    ∀ task ∈ m.tasks, task.phase.accepted=true → task.planId ∈ runs.map RunRecord.planId := by
  intro task htas
  rw [htasks] at htas
  cases htas

theorem plansPending_none {now instances : ℕ} {prepared : List Prepared} {runs : List RunRecord}
    (htasks : m.tasks=[]) : PlansPending now prepared instances runs m := by
  intro task htas
  rw [htasks] at htas
  cases htas

theorem up_abandon (hled : MemoryLedger w.disk w.answers w.issued m)
    (hpla : PlanTable w.prepared w.instances w.runs m) (htasks : m.tasks=[task]) {lock : Lock}
    (hloc : lock≠.helper) : Up { w with lock } (m.abandon 0 task) := by
  have hnon : (m.abandon 0 task).tasks=[] := by
    unfold Memory.abandon Memory.leave
    split <;> simp [Memory.setEvaluating,htasks]
  refine ⟨?_,hpla.abandon 0 task,plansPending_none hnon,ran_none hnon,Or.inl ⟨hnon,rfl,hloc⟩⟩
  refine hled.congr (fun id => ?_) ?_ ?_ fun task' htas' => ?_
  · unfold Memory.abandon
    split <;> rfl
  · unfold Memory.abandon
    split <;> rfl
  · unfold Memory.abandon
    split <;> rfl
  · rw [hnon] at htas'
    cases htas'

section
variable (h : Up w m) (htasks : m.tasks=[task])
include h htasks

theorem Up.abandoned {lock : Lock} (hloc : lock≠.helper) :
    Up { w with lock } (m.abandon 0 task) :=
  up_abandon h.ledger h.plans htasks hloc

theorem Up.refused {lock : Lock} (hloc : lock≠.helper) :
    Up { w with lock } ((m.discardPlan task.planId).abandon 0 task) :=
  up_abandon (h.ledger.same (sameLedger_discardPlan m _)) (h.plans.discard _)
    ((sameLedger_discardPlan m _).tasks.trans htasks) hloc

theorem Up.left (hloc : w.lock≠.helper) :
    Up w ((m.setEvaluating task.planId false).leave 0) := by
  have hnon : ((m.setEvaluating task.planId false).leave 0).tasks=[] := by
    simp [Memory.setEvaluating,Memory.leave,htasks]
  refine ⟨?_,(h.plans.setEvaluating _ false).congr rfl rfl,plansPending_none hnon,ran_none hnon,Or.inl ⟨hnon,rfl,hloc⟩⟩
  refine h.ledger.congr (fun _ => rfl) rfl rfl fun task' htas' => ?_
  rw [hnon] at htas'
  cases htas'

theorem Up.goesOn (hacc : task.phase.accepted=false) {phase : Phase}
    {lock : Lock} (hpha : phase.acceptingNow=false) (hlat : phase.accepted=false) (hbus : m.busy=true)
    (hloc : lock=.helper ↔ phase.locked=true) : Up { w with lock } (m.setPhase 0 task phase) := by
  have hset : (m.setPhase 0 task phase).tasks=[{ task with phase }] := by
    unfold Memory.setPhase
    rw [htasks]
    rfl
  have hmem : task ∈ m.tasks := htasks ▸ mem_singleton_self task
  refine ⟨?_,h.plans.congr rfl rfl,?_,?_,Or.inr ⟨_,hset,hbus,hloc⟩⟩
  · refine h.ledger.congr (fun _ => rfl) rfl rfl fun task' htas' => ?_
    rw [hset,mem_singleton] at htas'
    subst htas'
    refine ⟨fun hnow => ?_,fun _ => ⟨task,hmem,rfl,hacc⟩⟩
    rw [hpha] at hnow
    cases hnow
  · intro task' htas' _
    rw [hset,mem_singleton] at htas'
    subst htas'
    obtain ⟨plan,hpla,kept,hid,hins,hkep,hmad,hpen⟩ := h.pending task hmem hacc
    refine ⟨plan,hpla,kept,hid,hins,hkep,hmad,{ hpen with accepting := ?_ }⟩
    intro id job f c heq
    have hnow : phase=.accepting id job f c := heq
    rw [hnow] at hpha
    cases hpha
  · intro task' htas' hnot
    rw [hset,mem_singleton] at htas'
    rw [htas',hlat] at hnot
    cases hnot

end

theorem Up.forgotten (h : Up w m) {victim : String} {s : StoredJob} (hs : w.disk.lookup victim=some s)
    (hacc : ∀ task ∈ m.tasks, task.phase.acceptingNow=false) :
    Up { w with disk := mapDelete victim w.disk } (m.forget victim) :=
  ⟨h.ledger.forgotten hs hacc,h.plans.congr rfl rfl,h.pending,h.ran,h.single⟩

theorem Up.unlinked (h : Up w m) (victim : String) : Up { w with disk := mapDelete victim w.disk } m :=
  ⟨h.ledger.unlinked victim,h.plans,h.pending,h.ran,h.single⟩

end Calls

section Each
variable {w w' : World} {m : Memory} {task : Task}

theorem Inv.of (h : Inv w) (hpre : w'.prepared=w.prepared) (hrus : w'.runs=w.runs)
    (hiss : ∀ id ∈ w.issued, id ∈ w'.issued) (hhel : HelperInv w') : Inv w' where
  distinct := hpre ▸ h.distinct
  drawn plan hpla := hiss _ (h.drawn plan (hpre ▸ hpla))
  once := hrus ▸ h.once
  reviewed run hrun := by
    rw [hpre]
    exact h.reviewed run (hrus ▸ hrun)
  helper := hhel

theorem Inv.up (h : Inv w) (hhel : w.helper=.up m) : Up w m := by
  have hinv:=h.helper
  unfold HelperInv at hinv
  rw [hhel] at hinv
  exact hinv

theorem Inv.withMemory (h : Inv w) {m' : Memory} (hup : Up w m') : Inv (w.withMemory m') :=
  h.of rfl rfl (fun _ hid => hid) ⟨hup.ledger,hup.plans,hup.pending,hup.ran,hup.single⟩

theorem Inv.release (h : Inv w) {m' : Memory} (hup : Up { w with lock := .free } m') : Inv (release w m') :=
  h.of rfl rfl (fun _ hid => hid) ⟨hup.ledger,hup.plans,hup.pending,hup.ran,hup.single⟩

theorem Inv.trimStep (h : Inv w) (hup : Up w m) (htasks : m.tasks=[task]) (hbus : m.busy=true)
    (hloc : w.lock≠.helper) {victims : List String} (hpha : task.phase=.trimming victims) (effect : Effect) :
    Inv (trimStep w m 0 task effect victims) := by
  have hfre : w.lock=.helper ↔ (Phase.waiting).locked=true := ⟨fun heq => absurd heq hloc,fun heq => by cases heq⟩
  have hacc : task.phase.accepted=false := by rw [hpha]; rfl
  have hnow : ∀ task' ∈ m.tasks, task'.phase.acceptingNow=false := by
    intro task' htas'
    rw [htasks,mem_singleton] at htas'
    rw [htas',hpha]
    rfl
  have hlef : Up w ((m.setEvaluating task.planId false).leave 0) := hup.left htasks hloc
  unfold Ledger.trimStep
  split
  next =>
    split
    next => exact h.withMemory hlef
    next =>
      have hnex : Up w (m.setPhase 0 task .waiting) := hup.goesOn htasks hacc rfl rfl hbus hfre
      exact h.withMemory hnex
  next victim rest =>
    simp only []
    split
    next => exact h.withMemory hlef
    next hthe =>
      split
      next =>
        obtain ⟨s,hs⟩ : ∃ s, w.disk.lookup victim=some s := Option.isSome_iff_exists.1 (by simpa using hthe)
        have hgon:=hup.forgotten hs hnow
        have hnex : Up { w with disk := mapDelete victim w.disk }
            ((m.forget victim).setPhase 0 task (.trimming rest)) :=
          hgon.goesOn htasks hacc rfl rfl hbus hfre
        exact h.of rfl rfl (fun _ hid => hid) ⟨hnex.ledger,hnex.plans,hnex.pending,hnex.ran,hnex.single⟩
      next => exact h.withMemory hlef
      next =>
        have hgon:=hlef.unlinked victim
        exact h.of rfl rfl (fun _ hid => hid) ⟨hgon.ledger,hgon.plans,hgon.pending,hgon.ran,hgon.single⟩

theorem Inv.lockStep (h : Inv w) (hup : Up w m) (htasks : m.tasks=[task]) (hbus : m.busy=true)
    (hloc : w.lock≠.helper) (hpha : task.phase=.waiting) {acquired : Bool}
    (hste : lockStep w m 0 task acquired=some w') : Inv w' := by
  have hacc : task.phase.accepted=false := by rw [hpha]; rfl
  unfold Ledger.lockStep at hste
  split at hste
  next =>
    cases hste
    exact h.withMemory (hup.abandoned htasks hloc)
  next =>
    split at hste
    next => cases hste
    next hfre =>
      split at hste
      next => cases hste
      next plan hpla =>
        split at hste
        next =>
          cases hste
          exact h.withMemory (hup.refused htasks hloc)
        next =>
          cases hste
          have hnex : Up { w with lock := .helper } (m.setPhase 0 task .checking) :=
            hup.goesOn htasks hacc rfl rfl hbus ⟨fun _ => rfl,fun _ => rfl⟩
          exact h.of rfl rfl (fun _ hid => hid) ⟨hnex.ledger,hnex.plans,hnex.pending,hnex.ran,hnex.single⟩

end Each

section Accepted
variable {w w' : World} {m m' : Memory} {task : Task}

theorem Inv.fingerprintStep (h : Inv w) (hup : Up w m) (htasks : m.tasks=[task]) (hbus : m.busy=true)
    (hloc : w.lock=.helper) (hpha : task.phase=.checking) {value : Option String} {jobId : String}
    (hste : fingerprintStep w m 0 task value jobId=some w') : Inv w' := by
  have hacc : task.phase.accepted=false := by rw [hpha]; rfl
  have hmem : task ∈ m.tasks := htasks ▸ mem_singleton_self task
  have href : Inv (Ledger.release w ((m.discardPlan task.planId).abandon 0 task)) :=
    h.release (hup.refused htasks (by decide))
  obtain ⟨plan,hpla,kept,hid,hins,hkep,hmad,hpen⟩ := hup.pending task hmem hacc
  unfold Ledger.fingerprintStep at hste
  rw [hkep] at hste
  simp only [] at hste
  split at hste
  next =>
    cases hste
    exact h.release (hup.abandoned htasks (by decide))
  next value =>
    split at hste
    next =>
      cases hste
      exact href
    next hsam =>
      split at hste
      next =>
        cases hste
        exact href
      next hcur =>
        split at hste
        next => cases hste
        next hnew =>
          cases hste
          -- neither expired nor scrubbed
          have hval : w.now<plan.expiresAt := by
            rw [← hmad.expiresAt]
            omega
          have hint : kept.request=plan.request := hpen.intact.resolve_right (by omega)
          have hvae : value=plan.fingerprint := by
            rw [← hmad.fingerprint]
            simpa using hsam
          have hset : ∀ receipts phase, ({ m with receipts }.setPhase 0 task phase).tasks=[{ task with phase }] := by
            intro receipts phase
            unfold Memory.setPhase
            rw [htasks]
            rfl
          refine h.of rfl rfl (fun _ hid => mem_cons_of_mem _ hid) ⟨?_,hup.plans.congr rfl rfl,?_,?_,
            Or.inr ⟨_,hset _ _,hbus,⟨fun _ => rfl,fun _ => hloc⟩⟩⟩
          · refine hup.ledger.receive hnew rfl rfl rfl fun task' htas' _ => ?_
            rw [hset,mem_singleton] at htas'
            subst htas'
            refine ⟨hup.ledger.fresh task hmem hacc,fun id job f c hnow => ?_⟩
            cases hnow
            exact ⟨rfl,rfl⟩
          · intro task' htas' _
            rw [hset,mem_singleton] at htas'
            subst htas'
            refine ⟨plan,hpla,kept,hid,hins,hkep,hmad,{ hpen with accepting := ?_ }⟩
            intro id job f c hnow
            cases hnow
            exact ⟨hvae,hval,hint⟩
          · intro task' htas' hnot
            rw [hset,mem_singleton] at htas'
            rw [htas'] at hnot
            cases hnot

theorem Inv.acceptanceStep (h : Inv w) (hup : Up w m) (htasks : m.tasks=[task]) (hbus : m.busy=true)
    (hloc : w.lock=.helper) {jobId fingerprint : String} {job : ManagementJob} {checkedAt : ℕ} {effect : Effect}
    (hpha : task.phase=.accepting jobId job fingerprint checkedAt) (heff : effect≠.failedAfter)
    (hste : acceptanceStep w m 0 task jobId job fingerprint checkedAt effect=some w') : Inv w' := by
  have hacc : task.phase.accepted=false := by rw [hpha]; rfl
  have hmem : task ∈ m.tasks := htasks ▸ mem_singleton_self task
  obtain ⟨plan,hpla,kept,hid,hins,hkep,hmad,hpen⟩ := hup.pending task hmem hacc
  obtain ⟨hfin,hcur,hreq⟩ := hpen.accepting _ _ _ _ hpha
  unfold Ledger.acceptanceStep at hste
  rw [hkep] at hste
  cases effect with
  | failedAfter => exact absurd rfl heff
  | failedBefore =>
    cases hste
    have hlef : Up { w with lock := .free } (m.abandon 0 task) := hup.abandoned htasks (by decide)
    exact h.of rfl rfl (fun _ hid => hid) ⟨hlef.ledger,hlef.plans,hlef.pending,hlef.ran,hlef.single⟩
  | done =>
    cases hste
    have hset : ∀ jobs executions phase, (({ m with jobs, executions }.detachPlan task.planId).setPhase 0 task phase).tasks =
        [{ task with phase }] := by
      intro jobs executions phase
      unfold Memory.setPhase Memory.detachPlan
      rw [htasks]
      rfl
    refine ⟨h.distinct,h.drawn,nodup_cons.2 ⟨hpen.unrun,h.once⟩,?_,⟨?_,?_,?_,?_,
      Or.inr ⟨_,hset _ _ _,hbus,⟨fun _ => rfl,fun _ => hloc⟩⟩⟩⟩
    · intro run hrun
      rcases mem_cons.1 hrun with rfl | hold
      · exact ⟨plan,hpla,hid,hins,hpen.session,hcur,hfin,hreq,hpen.reauthenticated,
          hpen.confirmed⟩
      · exact h.reviewed run hold
    · refine hup.ledger.accept hmem hpha rfl rfl rfl fun task' htas' => ?_
      rw [hset,mem_singleton] at htas'
      rw [htas']
      rfl
    · refine ⟨hup.plans.made,fun id hmem' => ?_⟩
      obtain ⟨hmem',hne⟩ := mem_filter.1 hmem'
      obtain ⟨kept',hkep',hres,hunr⟩ := hup.plans.listed id hmem'
      refine ⟨kept',hkep',hres,fun hran => ?_⟩
      rcases mem_cons.1 hran with heq | hold
      · exact (of_decide_eq_true hne) heq
      · exact hunr hold
    · intro task' htas' hnot
      rw [hset,mem_singleton] at htas'
      rw [htas'] at hnot
      cases hnot
    · intro task' htas' _
      rw [hset,mem_singleton] at htas'
      rw [htas']
      exact mem_cons_self

end Accepted

section Running
variable {w w' : World} {m m' : Memory} {task : Task}

theorem Phase.locked_of_accepted {phase : Phase} (h : phase.accepted=true) :
    phase.locked=true ∧ phase.acceptingNow=false := by
  cases phase <;> first | exact ⟨rfl,rfl⟩ | cases h

theorem Up.carriesOn (h : Up w m) (htasks : m.tasks=[task]) (hacc : task.phase.accepted=true) {phase : Phase}
    (hpha : phase.accepted=true) (hbus : m.busy=true) (hlok : w.lock=.helper) :
    Up w (m.setPhase 0 task phase) := by
  have hset : (m.setPhase 0 task phase).tasks=[{ task with phase }] := by
    unfold Memory.setPhase
    rw [htasks]
    rfl
  have hmem : task ∈ m.tasks := htasks ▸ mem_singleton_self task
  obtain ⟨hloc,hnot⟩ := Phase.locked_of_accepted hpha
  refine ⟨?_,h.plans.congr rfl rfl,?_,?_,Or.inr ⟨_,hset,hbus,⟨fun _ => hloc,fun _ => hlok⟩⟩⟩
  · refine h.ledger.congr (fun _ => rfl) rfl rfl fun task' htas' => ?_
    rw [hset,mem_singleton] at htas'
    subst htas'
    refine ⟨fun hnow => ?_,fun hlat => ?_⟩
    · rw [hnot] at hnow
      cases hnow
    · exact absurd hlat (by simp [hpha])
  · intro task' htas' hnot
    rw [hset,mem_singleton] at htas'
    subst htas'
    exact absurd hnot (by simp [hpha])
  · intro task' htas' _
    rw [hset,mem_singleton] at htas'
    subst htas'
    exact h.ran task hmem hacc

theorem Up.withStatus (h : Up w m) (id : String) (status : JobStatus) : Up w (m.setStatus id status) where
  ledger := h.ledger.congr (fun k => lookup_jobs_setStatus id k status) rfl rfl fun task htas =>
    ⟨fun _ => htas,fun hnot => ⟨task,htas,rfl,hnot⟩⟩
  plans := h.plans.congr rfl rfl
  pending := h.pending
  ran := h.ran
  single := h.single

theorem Up.scrubbed (h : Up w m) (htasks : m.tasks=[task]) (hacc : task.phase.accepted=true) :
    Up w { m with objects := mapModify task.planId RetainedPlan.scrub m.objects } := by
  have hmem : task ∈ m.tasks := htasks ▸ mem_singleton_self task
  refine ⟨h.ledger.same ⟨rfl,rfl,rfl,rfl,rfl⟩,?_,?_,h.ran,h.single⟩
  · refine h.plans.modify rfl (fun _ hid => hid) (fun _ _ hmad => hmad.scrub) fun kept hlis => ?_
    obtain ⟨-,-,-,hunr⟩ := h.plans.listed _ hlis
    exact absurd (h.ran task hmem hacc) hunr
  · intro task' htas' hnot
    rw [show task'=task from mem_singleton.1 (htasks ▸ htas'),hacc] at hnot
    cases hnot

theorem Inv.settle (h : Inv w) (hup : Up w m) (htasks : m.tasks=[task]) (hbus : m.busy=true)
    (hloc : w.lock=.helper) (hacc : task.phase.accepted=true) (jobId : String) (status : JobStatus) :
    Inv (settle w 0 task m jobId status) := by
  have hscr : Up w { m.setStatus jobId status with
      objects := mapModify task.planId RetainedPlan.scrub (m.setStatus jobId status).objects } :=
    (hup.withStatus jobId status).scrubbed htasks hacc
  exact h.withMemory (hscr.carriesOn htasks hacc rfl hbus hloc)

theorem Inv.runStep (h : Inv w) (hup : Up w m) (htasks : m.tasks=[task]) (hbus : m.busy=true)
    (hloc : w.lock=.helper) {jobId : String} (hpha : task.phase=.running jobId) {succeeded pending : Bool}
    (hste : runStep w m 0 task jobId succeeded pending=some w') : Inv w' := by
  have hacc : task.phase.accepted=true := by rw [hpha]; rfl
  unfold Ledger.runStep at hste
  split at hste
  next => cases hste
  next =>
    split at hste
    next =>
      cases hste
      exact h.settle hup htasks hbus hloc hacc jobId _
    next =>
      split at hste
      next =>
        cases hste
        exact h.withMemory (hup.carriesOn htasks hacc rfl hbus hloc)
      next =>
        cases hste
        exact h.settle hup htasks hbus hloc hacc jobId _

theorem Up.persist (h : Up w m) (id : String) (effect : Effect) :
    Up { w with disk := (persist m id effect w.disk).1 } m :=
  ⟨h.ledger.persist id effect,h.plans,h.pending,h.ran,h.single⟩

theorem Up.withHelper (h : Up w m) (helper : Helper) : Up { w with helper } m :=
  ⟨h.ledger,h.plans,h.pending,h.ran,h.single⟩

theorem Inv.recoverStep (h : Inv w) (hup : Up w m) (htasks : m.tasks=[task]) (hbus : m.busy=true)
    (hloc : w.lock=.helper) {jobId : String} {rest : List String} (hpha : task.phase=.recovering jobId rest)
    (effect : Effect) (pending : Bool) : Inv (recoverStep w m 0 task jobId effect pending rest) := by
  have hacc : task.phase.accepted=true := by rw [hpha]; rfl
  unfold Ledger.recoverStep
  split
  next => exact h.settle hup htasks hbus hloc hacc jobId _
  next earlier rest =>
    have hwri:=((hup.withStatus earlier .failed).persist earlier effect).withHelper (.up (m.setStatus earlier .failed))
    have hinv : Inv { w with
        disk := (Ledger.persist (m.setStatus earlier .failed) earlier effect w.disk).1
        helper := .up (m.setStatus earlier .failed) } := h.of rfl rfl (fun _ hid => hid) hwri
    simp only []
    split
    next => exact hinv.withMemory (hwri.carriesOn htasks hacc rfl hbus hloc)
    next => exact hinv.settle hwri htasks hbus hloc hacc jobId _

theorem Inv.finishStep (h : Inv w) (hup : Up w m) (htasks : m.tasks=[task]) (jobId : String) (effect : Effect) :
    Inv (finishStep w m 0 jobId effect) := by
  have hnon : (m.leave 0).tasks=[] := by simp [Memory.leave,htasks]
  refine h.of rfl rfl (fun _ hid => hid) ⟨?_,hup.plans.congr rfl rfl,plansPending_none hnon,ran_none hnon,
    Or.inl ⟨hnon,rfl,fun heq => by cases heq⟩⟩
  refine (hup.ledger.persist jobId effect).congr (fun _ => rfl) rfl rfl fun task' htas' => ?_
  rw [hnon] at htas'
  cases htas'

theorem Inv.taskStep (h : Inv w) (hup : Up w m) {i : ℕ} {event : Event} (hget : m.tasks[i]? = some task)
    (heve : event≠.acceptance .failedAfter) (hste : taskStep w m i task event=some w') : Inv w' := by
  obtain ⟨rfl,htasks,hbus,hloc⟩ := hup.single.only hget
  have hunl : task.phase.locked=false → w.lock≠.helper := fun hnot heq => by
    rw [hloc.1 heq] at hnot
    cases hnot
  cases event with
  | trim effect =>
    simp only [Ledger.taskStep] at hste
    split at hste
    next hpha =>
      cases hste
      exact h.trimStep hup htasks hbus (hunl (by rw [hpha]; rfl)) hpha effect
    next => cases hste
  | lock acquired =>
    simp only [Ledger.taskStep] at hste
    split at hste
    next hpha => exact h.lockStep hup htasks hbus (hunl (by rw [hpha]; rfl)) hpha hste
    next => cases hste
  | fingerprint value jobId =>
    simp only [Ledger.taskStep] at hste
    split at hste
    next hpha => exact h.fingerprintStep hup htasks hbus (hloc.2 (by rw [hpha]; rfl)) hpha hste
    next => cases hste
  | acceptance effect =>
    simp only [Ledger.taskStep] at hste
    split at hste
    next hpha =>
      exact h.acceptanceStep hup htasks hbus (hloc.2 (by rw [hpha]; rfl)) hpha
        (fun heq => heve (congrArg Event.acceptance heq)) hste
    next => cases hste
  | runDone succeeded pending =>
    simp only [Ledger.taskStep] at hste
    split at hste
    next hpha => exact h.runStep hup htasks hbus (hloc.2 (by rw [hpha]; rfl)) hpha hste
    next => cases hste
  | recovered effect pending =>
    simp only [Ledger.taskStep] at hste
    split at hste
    next hpha =>
      cases hste
      exact h.recoverStep hup htasks hbus (hloc.2 (by rw [hpha]; rfl)) hpha effect pending
    next => cases hste
  | finished effect =>
    simp only [Ledger.taskStep] at hste
    split at hste
    next =>
      cases hste
      exact h.finishStep hup htasks _ effect
    next => cases hste

end Running

section Serving
variable {digest : String → String} {w w' : World} {m m' : Memory}

theorem Up.preparing (h : Up w m) (preparing : List (String × Request)) : Up w { m with preparing } where
  ledger := h.ledger.same ⟨rfl,rfl,rfl,rfl,rfl⟩
  plans := h.plans.congr rfl rfl
  pending := h.pending
  ran := h.ran
  single := h.single

theorem Inv.planned (h : Inv w) (hup : Up w m) {id sessionId fingerprint : String} {request : Request} {expiresAt : ℕ}
    {requiresInterruption : Bool} (hnew : id ∉ w.issued) : Inv { w with
      issued := id::w.issued
      prepared := ⟨id,sessionId,request,fingerprint,expiresAt,requiresInterruption,w.instances⟩::w.prepared
      helper := .up { m with
        objects := mapSet id ⟨request,sessionId,fingerprint,expiresAt,requiresInterruption,false⟩ m.objects
        plans := m.plans++[id] } } := by
  have hoth : ∀ plan ∈ w.prepared, plan.id≠id := by
    rintro plan hpla rfl
    exact hnew (h.drawn plan hpla)
  refine ⟨nodup_cons.2 ⟨fun hmem => ?_,h.distinct⟩,fun plan hpla => ?_,h.once,fun run hrun => ?_,?_⟩
  · obtain ⟨plan,hpla,hid⟩ := mem_map.1 hmem
    exact hoth plan hpla hid
  · rcases mem_cons.1 hpla with rfl | hold
    · exact mem_cons_self
    · exact mem_cons_of_mem _ (h.drawn plan hold)
  · obtain ⟨plan,hpla,hrev⟩ := h.reviewed run hrun
    exact ⟨plan,mem_cons_of_mem _ hpla,hrev⟩
  · refine ⟨(hup.ledger.draw id).same ⟨rfl,rfl,rfl,rfl,rfl⟩,⟨?_,?_⟩,?_,hup.ran,hup.single⟩
    · intro k kept hkep
      rw [lookup_mapSet] at hkep
      split at hkep
      next heq =>
        cases hkep
        exact ⟨_,mem_cons_self,heq.symm,rfl,rfl,rfl,rfl,rfl,rfl⟩
      next =>
        obtain ⟨plan,hpla,hid,hins,hmad⟩ := hup.plans.made k kept hkep
        exact ⟨plan,mem_cons_of_mem _ hpla,hid,hins,hmad⟩
    · intro k hk
      rw [lookup_mapSet]
      rcases mem_append.1 hk with hold | hlast
      · obtain ⟨kept,hkep,hreq,hunr⟩ := hup.plans.listed k hold
        obtain ⟨plan,hpla,hid,-⟩ := hup.plans.made k kept hkep
        have hne : k≠id := hid ▸ hoth plan hpla
        rw [if_neg hne]
        refine ⟨kept,hkep,fun plan' hpla' hid' => ?_,hunr⟩
        rcases mem_cons.1 hpla' with rfl | hold'
        · exact absurd hid'.symm hne
        · exact hreq plan' hold' hid'
      · obtain rfl := mem_singleton.1 hlast
        rw [if_pos rfl]
        refine ⟨_,rfl,fun plan hpla hid => ?_,fun hran => ?_⟩
        · rcases mem_cons.1 hpla with rfl | hold
          · rfl
          · exact absurd hid (hoth plan hold)
        · obtain ⟨run,hrun,hid⟩ := mem_map.1 hran
          obtain ⟨plan,hpla,hrev⟩ := h.reviewed run hrun
          exact hoth plan hpla (hrev.id.trans hid)
    · intro task htas hacc
      obtain ⟨plan,hpla,kept,hid,hins,hkep,hmad,hpen⟩ := hup.pending task htas hacc
      refine ⟨plan,mem_cons_of_mem _ hpla,kept,hid,hins,?_,hmad,hpen⟩
      rw [lookup_mapSet,if_neg (hid ▸ hoth plan hpla)]
      exact hkep

theorem Up.cancel (h : Up w m) {id : String} {plan : RetainedPlan} (hpla : m.plan? id=some plan)
    (hidl : plan.evaluating=false) : Up w (m.discardPlan id) :=
  h.discard fun task htas hacc heq => absurd heq (h.pending.not_idle hpla hidl task htas hacc)

theorem lookup_setEvaluating {id : String} {plan : RetainedPlan} (hpla : m.objects.lookup id=some plan)
    (evaluating : Bool) : (m.setEvaluating id evaluating).objects.lookup id=some { plan with evaluating } := by
  unfold Memory.setEvaluating
  rw [lookup_mapModify,if_pos rfl,hpla]
  rfl

theorem Up.admitted (h : Up w m) {call : ExecuteCall} {keyHash : String} {plan : RetainedPlan} {victims : List String}
    (hpla : m.plan? call.planId=some plan) (hfre : m.executions.lookup keyHash=none)
    (hses : plan.sessionId=call.sessionId)
    (hrea : sensitive plan.request.operation=true → call.reauthenticated=true)
    (hcon : plan.requiresInterruption=true → call.confirmInterruption=true) (hbus : m.busy=false) :
    Up w { m.setEvaluating call.planId true with
      busy := true
      tasks := m.tasks++[⟨call.planId,keyHash,call.sessionId,call.reauthenticated,call.confirmInterruption,
        .trimming victims⟩] } := by
  obtain ⟨hnon,hloc⟩ := h.single.idle hbus
  obtain ⟨hlis,hkep⟩ := plan?_eq_some hpla
  obtain ⟨kept,hkep',hreq,hunr⟩ := h.plans.listed _ hlis
  obtain ⟨made,hmad,hid,hins,hsam⟩ := h.plans.made _ _ hkep
  rw [hkep] at hkep'
  cases hkep'
  rw [hnon,nil_append]
  refine ⟨⟨h.ledger.stored,h.ledger.executed,h.ledger.known,h.ledger.answered,h.ledger.issued,h.ledger.drawn,?_,?_⟩,
    (h.plans.setEvaluating call.planId true).congr rfl rfl,?_,?_,Or.inr ⟨_,rfl,rfl,?_⟩⟩
  · intro task htas _
    rw [mem_singleton.1 htas]
    exact hfre
  · intro task htas id job f c hpha
    rw [mem_singleton.1 htas] at hpha
    cases hpha
  · intro task htas _
    obtain rfl := mem_singleton.1 htas
    refine ⟨made,hmad,{ plan with evaluating := true },hid,hins,lookup_setEvaluating hkep true,
      hsam.evaluating true,?_⟩
    · refine ⟨hsam.session ▸ hses,rfl,fun hsen => ?_,fun hnee => ?_,hunr,
        Or.inl (hreq made hmad hid),fun _ _ _ _ hpha => by cases hpha⟩
      · exact hrea (hsam.operation ▸ hsen)
      · exact hcon (hsam.requiresInterruption ▸ hnee)
  · intro task htas hacc
    rw [mem_singleton.1 htas] at hacc
    cases hacc
  · exact ⟨fun heq => absurd heq hloc,fun heq => by cases heq⟩

end Serving

section Execute
variable {digest : String → String} {w w' : World} {m : Memory} {call : ExecuteCall}

theorem execute_cases (digest : String → String) (now : ℕ) (call : ExecuteCall) (m : Memory) :
    (∃ error, execute digest now call m=(m,.refused error)) ∨
    (∃ key e, call.idempotencyKey=some key ∧ m.executions.lookup (keyHash digest call key)=some e ∧
      e.planId=call.planId ∧ execute digest now call m=(m,.answered e.operationId)) ∨
    (∃ plan, discards digest now call m=true ∧ m.plan? call.planId=some plan ∧ plan.expiresAt≤now ∧
      execute digest now call m=(m.discardPlan call.planId,.refused planExpired)) ∨
    ∃ key plan, m.executions.lookup (keyHash digest call key)=none ∧ m.plan? call.planId=some plan ∧
      plan.sessionId=call.sessionId ∧ (sensitive plan.request.operation=true → call.reauthenticated=true) ∧
      (plan.requiresInterruption=true → call.confirmInterruption=true) ∧ m.busy=false ∧
      execute digest now call m=({ m.setEvaluating call.planId true with
        busy := true
        tasks := m.tasks++[⟨call.planId,keyHash digest call key,call.sessionId,call.reauthenticated,
          call.confirmInterruption,.trimming m.trimVictims⟩] },.pending) := by
  unfold execute
  split
  next => exact .inl ⟨_,rfl⟩
  next key hkey =>
    split
    next previous hpre =>
      split
      next => exact .inl ⟨_,rfl⟩
      next hsam => exact .inr (.inl ⟨key,previous,(Option.filter_eq_some_iff.1 hkey).1,hpre,by simpa using hsam,rfl⟩)
    next hfre =>
      split
      next => exact .inl ⟨_,rfl⟩
      next plan hpla =>
        unfold admitPlan
        split
        next => exact .inl ⟨_,rfl⟩
        next hses =>
          have hses : plan.sessionId=call.sessionId := by simpa using hses
          split
          next hexp =>
            refine .inr (.inr (.inl ⟨plan,?_,hpla,hexp,rfl⟩))
            unfold discards
            rw [hkey,Option.any_some,hfre,hpla,Option.any_some]
            simp [hses,hexp]
          next =>
            split
            next => exact .inl ⟨_,rfl⟩
            next hrea =>
              split
              next => exact .inl ⟨_,rfl⟩
              next hcon =>
                split
                next => exact .inl ⟨_,rfl⟩
                next hbus =>
                  refine .inr (.inr (.inr ⟨key,plan,hfre,hpla,hses,?_,?_,by simpa using hbus,rfl⟩))
                  · intro hsen
                    simpa [hsen] using hrea
                  · intro hnee
                    simpa [hnee] using hcon

theorem Inv.execute (h : Inv w) (hup : Up w m) (hhel : w.helper=.up m)
    (hcal : disturbs digest w (.execute call)=false) (hste : step digest w (.execute call)=some w') : Inv w' := by
  unfold step at hste
  unfold disturbs at hcal
  simp only [hhel] at hste hcal
  rcases execute_cases digest w.now call m with ⟨error,heq⟩ | ⟨key,e,hkey,he,hsam,heq⟩ |
    ⟨plan,hdis,hpla,hexp,heq⟩ |
    ⟨key,plan,hfre,hpla,hses,hrea,hcon,hbus,heq⟩
  · rw [heq] at hste
    cases hste
    exact h.withMemory hup
  · rw [heq,hkey] at hste
    cases hste
    have hled:=hup.ledger.answer he
    rw [hsam] at hled
    exact h.of rfl rfl (fun _ hid => hid) ⟨hled,hup.plans,hup.pending,hup.ran,hup.single⟩
  · rw [heq] at hste
    cases hste
    rw [hdis,Bool.true_and,any_eq_false] at hcal
    refine h.withMemory (hup.discard fun task htas _ hid => ⟨?_,fun kept hkep => ?_⟩)
    · simpa [hid] using hcal task htas
    · rw [(plan?_eq_some hpla).2] at hkep
      cases hkep
      exact hexp
  · rw [heq] at hste
    cases hste
    exact h.withMemory (hup.admitted hpla hfre hses hrea hcon hbus)

end Execute

section Restart
variable {digest : String → String} {w w' : World} {m : Memory}

/- What is on disk whichever write was cut. -/
theorem Up.inFlight (h : Up w m) {task : Task} (htas : task ∈ m.tasks) :
    DiskLedger (inFlight m w.disk task) w.answers w.issued := by
  unfold Ledger.inFlight
  split
  next => exact (h.ledger.unlinked _).onDisk
  next hpha => exact h.ledger.crashedAccepting htas hpha
  next => exact ((h.withStatus _ _).ledger.persist _ .done).onDisk
  next => exact (h.ledger.persist _ .done).onDisk
  next => exact h.ledger.onDisk

theorem Inv.crash (h : Inv w) {effect : Bool} (hste : step digest w (.crash effect)=some w') : Inv w' := by
  have hloc : (if w.lock=.helper then Lock.free else w.lock)≠.helper := by
    split
    next => exact Lock.noConfusion
    next hnot => exact hnot
  have hhel:=h.helper
  unfold step at hste
  cases hste
  refine h.of rfl rfl (fun _ hid => hid) ⟨?_,hloc⟩
  cases hkin : w.helper with
  | down =>
    rw [HelperInv,hkin] at hhel
    exact hhel.1
  | starting rest m =>
    rw [HelperInv,hkin] at hhel
    exact hhel.1.records
  | up m =>
    have hup : Up w m := h.up hkin
    show DiskLedger (if effect then m.tasks.foldl (Ledger.inFlight m) w.disk else w.disk) w.answers w.issued
    split
    next =>
      rcases hup.single with ⟨hnon,-⟩ | ⟨task,hone,-⟩
      · rw [hnon]
        exact hup.ledger.onDisk
      · rw [hone]
        exact hup.inFlight (hone ▸ mem_singleton_self task)
    next => exact hup.ledger.onDisk

theorem Inv.loadStep (h : Inv w) {name : String} {rest : List String} {pending : Bool} {effect : Effect}
    (hloa : Loading w.disk w.answers w.issued (name::rest) m) (hloc : w.lock≠.helper)
    (hemp : m.objects=[] ∧ m.plans=[] ∧ m.tasks=[] ∧ m.busy=false) :
    Inv (loadStep w m rest name pending effect) := by
  unfold Ledger.loadStep
  split
  next => exact h.of rfl rfl (fun _ hid => hid) ⟨hloa.records,hloc⟩
  next stored hsto =>
    simp only []
    split
    next =>
      split
      next hdon =>
        subst hdon
        refine h.of rfl rfl (fun _ hid => hid) ⟨?_,hloc,hemp⟩
        have hwri : ∀ job : ManagementJob, (mapSet name ⟨job,stored.acceptance⟩ w.disk).lookup name =
            some ⟨job,stored.acceptance⟩ := fun job => by rw [lookup_mapSet,if_pos rfl]
        exact (hloa.rewritten hsto _).next (hwri _) rfl rfl rfl
      next =>
        refine h.of rfl rfl (fun _ hid => hid) ⟨?_,hloc⟩
        show DiskLedger (effect.write _ _ _) _ _
        unfold Effect.write
        split
        next => exact hloa.records
        next => exact hloa.records.rewritten hsto _
    next => exact h.of rfl rfl (fun _ hid => hid) ⟨hloa.next hsto rfl rfl rfl,hloc,hemp⟩

theorem Inv.ready (h : Inv w) (hloa : Loading w.disk w.answers w.issued [] m) (hloc : w.lock≠.helper)
    (hemp : m.objects=[] ∧ m.plans=[] ∧ m.tasks=[] ∧ m.busy=false) : Inv (w.withMemory m) := by
  obtain ⟨hobj,hpla,htasks,hbus⟩ := hemp
  refine h.withMemory ⟨hloa.ready htasks,⟨fun id kept hkep => ?_,fun id hid => ?_⟩,plansPending_none htasks,
    ran_none htasks,Or.inl ⟨htasks,hbus,hloc⟩⟩
  · rw [hobj] at hkep
    cases hkep
  · rw [hpla] at hid
    cases hid

theorem Up.later (h : Up w m) (elapsed : ℕ) : Up { w with now := w.now+elapsed } m := by
  refine ⟨h.ledger,h.plans,fun task htas hacc => ?_,h.ran,h.single⟩
  obtain ⟨plan,hpla,kept,hid,hins,hkep,hmad,hpen⟩ := h.pending task htas hacc
  refine ⟨plan,hpla,kept,hid,hins,hkep,hmad,{ hpen with intact := ?_ }⟩
  exact hpen.intact.imp_right fun hexp => le_trans hexp (Nat.le_add_right _ _)

theorem Inv.relock (h : Inv w) {lock : Lock} (hbef : w.lock≠.helper) (haft : lock≠.helper) :
    Inv { w with lock } := by
  have hhel:=h.helper
  refine h.of rfl rfl (fun _ hid => hid) ?_
  cases hkin : w.helper with
  | down =>
    rw [HelperInv,hkin] at hhel
    exact ⟨hhel.1,haft⟩
  | starting rest m =>
    rw [HelperInv,hkin] at hhel
    exact ⟨hhel.1,haft,hhel.2.2⟩
  | up m =>
    have hup : Up w m := h.up hkin
    refine ⟨hup.ledger,hup.plans,hup.pending,hup.ran,?_⟩
    refine hup.single.imp (fun hidl => ⟨hidl.1,hidl.2.1,haft⟩) fun ⟨task,htasks,hbus,hlok⟩ => ?_
    exact ⟨task,htasks,hbus,fun heq => absurd heq haft,fun hloc => absurd (hlok.2 hloc) hbef⟩

end Restart

section Histories
variable {digest : String → String} {w w' : World} {action : Action}

theorem inv_initial (hini : (system digest).initial w) : Inv w := by
  obtain ⟨hdis,hhel,hloc,-,hpre,hrun,hans⟩ := hini
  refine ⟨?_,?_,?_,?_,?_⟩
  · rw [hpre]
    exact nodup_nil
  · rw [hpre]
    exact fun _ hmem => absurd hmem not_mem_nil
  · rw [hrun]
    exact nodup_nil
  · rw [hrun]
    exact fun _ hmem => absurd hmem not_mem_nil
  · rw [HelperInv,hhel,hdis,hans]
    exact ⟨⟨by simp,by simp,by simp,by simp⟩,hloc⟩

theorem Inv.step (h : Inv w) (hcal : disturbs digest w action=false) (hste : step digest w action=some w') :
    Inv w' := by
  have hup : ∀ m, w.helper=.up m → Up w m := fun m => h.up
  have hsta : ∀ rest m, w.helper=.starting rest m → Loading w.disk w.answers w.issued rest m ∧
      w.lock≠.helper ∧ m.objects=[] ∧ m.plans=[] ∧ m.tasks=[] ∧ m.busy=false := by
    intro rest m hkin
    have hhel:=h.helper
    rw [HelperInv,hkin] at hhel
    exact hhel
  cases action with
  | pass elapsed =>
    cases hste
    refine h.of rfl rfl (fun _ hid => hid) ?_
    have hhel:=h.helper
    cases hkin : w.helper with
    | down =>
      rw [HelperInv,hkin] at hhel
      exact hhel
    | starting rest m => exact hsta rest m hkin
    | up m => exact ((hup m hkin).later elapsed).withHelper (.up m)
  | otherLock =>
    simp only [Ledger.step] at hste
    split at hste
    next hfre =>
      cases hste
      exact h.relock (by rw [hfre]; exact Lock.noConfusion) Lock.noConfusion
    next => cases hste
  | otherUnlock =>
    simp only [Ledger.step] at hste
    split at hste
    next hoth =>
      cases hste
      exact h.relock (by rw [hoth]; exact Lock.noConfusion) Lock.noConfusion
    next => cases hste
  | start =>
    simp only [Ledger.step] at hste
    split at hste
    next hkin =>
      split at hste
      next => cases hste
      next =>
        cases hste
        have hhel:=h.helper
        rw [HelperInv,hkin] at hhel
        exact h.of rfl rfl (fun _ hid => hid) ⟨.begin hhel.1,hhel.2,rfl,rfl,rfl,rfl⟩
    next => cases hste
  | load pending effect =>
    simp only [Ledger.step] at hste
    split at hste
    next hkin =>
      cases hste
      obtain ⟨hloa,hloc,hemp⟩ := hsta _ _ hkin
      exact h.loadStep hloa hloc hemp
    next => cases hste
  | ready =>
    simp only [Ledger.step] at hste
    split at hste
    next hkin =>
      cases hste
      obtain ⟨hloa,hloc,hemp⟩ := hsta _ _ hkin
      exact h.ready hloa hloc hemp
    next => cases hste
  | plan sessionId request =>
    simp only [Ledger.step] at hste
    split at hste
    next hkin =>
      have hexp:=(hup _ hkin).expirePlans
      split at hste
      next =>
        cases hste
        exact h.withMemory hexp
      next =>
        cases hste
        exact h.withMemory (hexp.preparing _)
    next => cases hste
  | planned i id fingerprint requiresInterruption =>
    simp only [Ledger.step] at hste
    split at hste
    next m hkin =>
      split at hste
      next =>
        split at hste
        next => cases hste
        next hnew =>
          cases hste
          have hinv:=h.withMemory ((hup m hkin).preparing (m.preparing.eraseIdx i))
          exact hinv.planned ((hup m hkin).preparing (m.preparing.eraseIdx i) |>.withHelper _) hnew
      next => cases hste
    next => cases hste
  | planFailed i =>
    simp only [Ledger.step] at hste
    split at hste
    next m hkin =>
      cases hste
      exact h.withMemory ((hup m hkin).preparing _)
    next => cases hste
  | expire =>
    simp only [Ledger.step] at hste
    split at hste
    next m hkin =>
      cases hste
      exact h.withMemory (hup m hkin).expirePlans
    next => cases hste
  | cancel planId sessionId =>
    simp only [Ledger.step] at hste
    split at hste
    next m hkin =>
      split at hste
      next plan hpla =>
        split at hste
        next =>
          cases hste
          exact h
        next hche =>
          cases hste
          exact h.withMemory ((hup m hkin).cancel hpla (by simpa using (not_or.1 hche).2))
      next =>
        cases hste
        exact h
    next => cases hste
  | execute call =>
    cases hkin : w.helper with
    | up m => exact h.execute (hup m hkin) hkin hcal hste
    | down => simp [Ledger.step,hkin] at hste
    | starting rest m => simp [Ledger.step,hkin] at hste
  | task i event =>
    simp only [Ledger.step] at hste
    split at hste
    next m hkin =>
      split at hste
      next task hget =>
        refine h.taskStep (hup m hkin) hget ?_ hste
        rintro rfl
        cases hcal
      next => cases hste
    next => cases hste
  | crash effect => exact h.crash hste

theorem Up.kept {m : Memory} (h : Up w m) {answer : Answer} (hans : answer ∈ w.answers)
    (hthe : (w.disk.lookup answer.operationId).isSome=true) {call : ExecuteCall} {key : String}
    (hkey : call.idempotencyKey=some key) (hpat : idempotencyKeyPattern key=true)
    (hhas : keyHash digest call key=answer.keyHash) (hpla : call.planId=answer.planId) :
    Ledger.execute digest w.now call m=(m,.answered answer.operationId) := by
  obtain ⟨stored,hsto⟩ := Option.isSome_iff_exists.1 hthe
  obtain ⟨hjob,-⟩ := h.ledger.stored _ stored hsto
  obtain ⟨acceptance,hacc,hexe⟩ := h.ledger.executed _ hjob
  rw [h.ledger.answered answer hans hjob] at hacc
  cases hacc
  have hfil : call.idempotencyKey.filter idempotencyKeyPattern=some key := by
    rw [hkey,Option.filter_some,if_pos hpat]
  unfold Ledger.execute
  rw [hfil]
  simp only [hhas,hexe,hpla]
  simp

theorem Inv.asReviewed (h : Inv w) : AsReviewed digest w where
  distinct := h.distinct
  once := h.once
  reviewed := h.reviewed
  exclusive m hkin := by
    rcases (h.up hkin).single with ⟨hnon,-⟩ | ⟨task,hone,-⟩
    · rw [hnon]
      exact Nat.zero_le 1
    · rw [hone]
      exact length_filter_le _ _
  locked m hkin task htas hrun := by
    rcases (h.up hkin).single with ⟨hnon,-⟩ | ⟨only,hone,-,hloc⟩
    · rw [hnon] at htas
      cases htas
    · obtain rfl := mem_singleton.1 (hone ▸ htas)
      refine hloc.2 ?_
      unfold Task.runs at hrun
      split at hrun
      next hpha =>
        rw [hpha]
        rfl
      next => cases hrun
  kept m hkin answer hans hthe call key hkey hpat hhas hpla :=
    (h.up hkin).kept hans hthe hkey hpat hhas hpla

/-- Without such a write or discard, every operation runs at most once and as it was reviewed, alone and under the
state lock, and a call that was answered is answered the same as long as its record is there. -/
theorem operations_as_reviewed (digest : String → String) {init w : World} {actions : List Action}
    (hinit : (system digest).initial init)
    (hrun : (system digest).RunWhere (fun w action => disturbs digest w action=false) init actions w) :
    AsReviewed digest w :=
  (hrun.preserves (fun _ _ _ hinv hcal hste => hinv.step hcal hste) (inv_initial hinit)).asReviewed

end Histories

section Example

def exampleWorld : World := ⟨0,.free,[],.down,0,[],[],[],[]⟩

def exampleCall : ExecuteCall := ⟨"plan","session",some "0123456789abcdef",false,false⟩

def exampleAccepting (jobId : String) : List Action :=
  [.execute exampleCall,.task 0 (.trim .done),.task 0 (.lock true),.task 0 (.fingerprint (some "before") jobId)]

def examplePlanned : List Action :=
  [.start,.ready,.plan "session" ⟨"computer.create",none,[]⟩,.planned 0 "plan" "before" false]

def exampleFinish : List Action :=
  [.task 0 (.acceptance .done),.task 0 (.runDone true false),.task 0 (.finished .done)]

theorem operations_as_reviewed_once : ∃ actions w, w.answers.length=1 ∧ w.runs.length=1 ∧ AsReviewed id w ∧
    (system id).Run exampleWorld actions w := by
  have hexe : (((system id).execWhere (fun w action => !disturbs id w action) exampleWorld
      (examplePlanned++exampleAccepting "a" ++ exampleFinish)).map fun w => (w.answers.length,w.runs.length)) =
        some (1,1) := by decide
  obtain ⟨w,hw,hlen⟩ := Option.map_eq_some_iff.1 hexe
  have hcal : (system id).RunWhere (fun w action => disturbs id w action=false) exampleWorld
      (examplePlanned++exampleAccepting "a" ++ exampleFinish) w := by
    simpa using TransitionSystem.runWhere_of_exec hw
  exact ⟨_,w,congrArg Prod.fst hlen,congrArg Prod.snd hlen,
    operations_as_reviewed id ⟨rfl,rfl,Lock.noConfusion,rfl,rfl,rfl,rfl⟩ hcal,hcal.run⟩

/-- The memory of a helper that is up. -/
def Helper.memory : Helper → Option Memory
  | .up m => some m
  | _ => none

theorem failed_acceptance_answers_later : ∃ actions w, (system id).Run exampleWorld actions w ∧ ¬ AsReviewed id w := by
  have hexe : (((system id).exec exampleWorld (examplePlanned++exampleAccepting "b" ++ [.task 0 (.acceptance .failedAfter)] ++
      exampleAccepting "a" ++ exampleFinish++[.crash false,.start,.load false .done,.load false .done,.ready])).bind
        fun w => w.helper.memory.map fun m => (w.answers,(w.disk.lookup "a").isSome,(execute id w.now exampleCall m).2)) =
      some ([⟨"session:0123456789abcdef","plan","a"⟩],true,.answered "b") := by decide
  obtain ⟨w,hw,hpro⟩ := Option.bind_eq_some_iff.1 hexe
  refine ⟨_,w,TransitionSystem.run_of_exec hw,fun hrev => ?_⟩
  obtain ⟨m,hmem,hval⟩ := Option.map_eq_some_iff.1 hpro
  have hkin : w.helper = .up m := by
    cases hhel : w.helper with
    | up m' =>
      rw [hhel] at hmem
      cases hmem
      rfl
    | down =>
      rw [hhel] at hmem
      cases hmem
    | starting rest m' =>
      rw [hhel] at hmem
      cases hmem
  have hans : w.answers=[⟨"session:0123456789abcdef","plan","a"⟩] := congrArg Prod.fst hval
  have hthe : (w.disk.lookup "a").isSome=true := congrArg (fun v => v.2.1) hval
  have hrep : (execute id w.now exampleCall m).2 = .answered "b" := congrArg (fun v => v.2.2) hval
  have hkep:=hrev.kept m hkin ⟨"session:0123456789abcdef","plan","a"⟩ (by rw [hans]; exact mem_singleton_self _)
    hthe exampleCall "0123456789abcdef" rfl (by decide) (by decide) rfl
  rw [hkep] at hrep
  exact absurd (Reply.answered.inj hrep) (by decide)

end Example

end Qubicl.Cli.Dashboard.Ledger
