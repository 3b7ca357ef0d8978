import Qubicl.Cli.Dashboard.Acceptance

/-!
# The plans that wait for a review (packages/cli/src/dashboard/application.ts:40-59, 196-294, 347-406)

The acceptance ledger with the one timer that expires plans, and with the fields that a request may have.
-/

namespace Qubicl.Cli.Dashboard.Ledger
open Foundation List

def inputFields : String → List String
  | "setup" => ["preset","cpus","memory","gatewayPort","createName"]
  | "computer.create" => ["name","preset","cpus","memory"]
  | "computer.rename" => ["name"]
  | "computer.resources" => ["cpus","memory"]
  | "computer.upgrade" => ["preset"]
  | "process.stop" => ["processId"]
  | "preview.revoke" => ["previewId"]
  | "preview.share" => ["previewId","duration"]
  | "preview.unshare" => ["previewId"]
  | "tools.set" => ["ids"]
  | "skills.set" => ["ids"]
  | "skill.import" => ["url","commit"]
  | "skill.update" => ["id","url","commit"]
  | "skill.reset" => ["id"]
  | "skill.remove" => ["id"]
  | "skill.restore" => ["id"]
  | "network.set" => ["profile","allowDomains","denyDomains","allowCidrs","allowTcpPorts"]
  | "network.approve" => ["domain","duration"]
  | "network.revoke" => ["domain"]
  | "credential.add" => ["id","baseUrl","pathPrefix","methods","header","value"]
  | "credential.replace" => ["id","baseUrl","pathPrefix","methods","header","value"]
  | "credential.remove" => ["id"]
  | "client.create" => ["id","label","scopes","token"]
  | "client.rotate" => ["id","token"]
  | "client.revoke" => ["id"]
  | "backup.create" => ["consistency","encrypted","passphrase"]
  | "checkpoint.create" => ["consistency"]
  | "backup.verify" => ["passphrase"]
  | "backup.restore" => ["name","passphrase"]
  | "backup.prune" => ["keep"]
  | "computer.clone" => ["name"]
  | _ => []

def supported (request : Request) : Bool :=
  request.input.all fun field => field.1 ∈ inputFields request.operation

def expirations (m : Memory) : List ℕ :=
  m.plans.filterMap fun id => ((m.plan? id).filter fun plan => !plan.evaluating).map RetainedPlan.expiresAt

/- `schedulePlanExpiry`: the delay is not negative. -/
def schedulePlanExpiry (now : ℕ) (m : Memory) : Option ℕ :=
  (expirations m).min?.map fun soonest => now+(soonest - now)

/- Which continuations of a call arm the timer again: those that discard or detach its plan, or that fail. -/
def taskReschedules (w : World) (m : Memory) (task : Task) : Event → Bool
  | .trim effect => match task.phase with
    | .trimming [] => 1000 ≤ m.jobs.length
    | .trimming (victim::_) => (w.disk.lookup victim).isNone || effect != .done
    | _ => false
  | .lock acquired =>
    if acquired then (m.objects.lookup task.planId).any fun plan => plan.expiresAt≤w.now else task.planId ∈ m.plans
  | .fingerprint none _ => task.planId ∈ m.plans
  | .fingerprint (some value) _ => (m.objects.lookup task.planId).any fun plan =>
      value != plan.fingerprint || plan.expiresAt≤w.now
  | .acceptance effect => effect == .done || task.planId ∈ m.plans
  | _ => false

/- An `execute` does when it is taken up or its plan has expired, a `cancel` when it discards. -/
def reschedules (digest : String → String) (w : World) (m : Memory) : Action → Bool
  | .plan .. => true
  | .planned .. => true
  | .expire => true
  | .cancel planId sessionId => (m.plan? planId).any fun plan => plan.sessionId == sessionId && !plan.evaluating
  | .execute call => discards digest w.now call m || (execute digest w.now call m).2 == .pending
  | .task i event => m.tasks[i]?.any fun task => taskReschedules w m task event
  | _ => false

structure Timed where
  world : World
  timer : Option ℕ

namespace Timed
variable (digest : String → String) (s : Timed)

def rearm (action : Action) (w : World) : Option ℕ :=
  match s.world.helper, w.helper with
  | .up m, .up m' => if reschedules digest s.world m action then schedulePlanExpiry s.world.now m' else s.timer
  | _, _ => none

def advance (action : Action) : Option Timed :=
  (Ledger.step digest s.world action).map fun w => ⟨w,s.rearm digest action w⟩

/- A plan whose request is refused: those that have expired are discarded all the same. -/
def refuse : Option Timed :=
  match s.world.helper with
  | .up m => some ⟨s.world.withMemory (m.expirePlans s.world.now),
      schedulePlanExpiry s.world.now (m.expirePlans s.world.now)⟩
  | _ => none

/-- The timer runs at any moment from the one on at which it is due. -/
def step : Action → Option Timed
  | .plan sessionId request => if supported request then s.advance digest (.plan sessionId request) else s.refuse
  | .expire => if s.timer.any (· ≤ s.world.now) then s.advance digest .expire else none
  | action => s.advance digest action

end Timed

def timedSystem (digest : String → String) : TransitionSystem Timed Action where
  initial s := (system digest).initial s.world ∧ s.timer=none
  step := Timed.step digest

def Phase.isRunning : Phase → Bool
  | .running _ => true
  | _ => false

def Held (m : Memory) (id : String) : Prop :=
  id ∈ m.plans ∨ ∃ task ∈ m.tasks, task.planId=id ∧ task.phase.isRunning=true

def Scrubbed (m : Memory) : Prop :=
  ∀ id kept, m.objects.lookup id=some kept → kept.request.input=[] ∨ Held m id

/- The timer is due no later than `limit` says for each plan that is retained and not evaluated. -/
def Armed (timer : Option ℕ) (limit : ℕ → ℕ) (m : Memory) : Prop :=
  ∀ id kept, m.plan? id=some kept → kept.evaluating=false → ∃ due, timer=some due ∧ due≤limit kept.expiresAt

/-- At most 100 plans, no request that outlives its plan and its run, and the timer in time. -/
def Bounded (s : Timed) : Prop :=
  ∀ m, s.world.helper=.up m → m.plans.length≤100 ∧ Scrubbed m ∧ Armed s.timer id m

def Action.subject (m : Memory) : Action → Option String
  | .cancel planId _ => some planId
  | .execute call => some call.planId
  | .task i _ => m.tasks[i]?.map Task.planId
  | _ => none

def Event.returns : Event → Bool
  | .trim _ => true
  | .lock acquired => !acquired
  | .fingerprint value _ => value.isNone
  | .acceptance effect => effect != .done
  | _ => false

def leavesIdle (m : Memory) (action : Action) (id : String) (plan : RetainedPlan) : Bool :=
  if action.subject m=some id then match action with
    | .task _ event => event.returns
    | _ => false
  else !plan.evaluating

def Action.sweeps : Action → Bool
  | .plan .. => true
  | .expire => true
  | _ => false

/-- A plan is retained only while there are fewer than 100, and none that is left waiting has expired when the timer
is armed again by a step that does not expire plans. -/
def inTime (digest : String → String) (s : Timed) (action : Action) : Bool :=
  match s.world.helper with
  | .up m =>
    (match action with
      | .planned .. => m.plans.length<100
      | _ => true) &&
    (action.sweeps || !reschedules digest s.world m action ||
      m.plans.all fun id => (m.plan? id).all fun plan => !leavesIdle m action id plan || s.world.now≤plan.expiresAt)
  | _ => true

/- The other records may differ. -/
structure SameTable (m m' : Memory) : Prop where
  objects : m'.objects=m.objects
  plans : m'.plans=m.plans
  preparing : m'.preparing=m.preparing
  tasks : m'.tasks=m.tasks

/-- Everything a call can do to the plans when it goes on. -/
inductive Continued (w : World) (m : Memory) (i : ℕ) (task : Task) (event : Event) : Memory → Prop
  | goesOn {m₁ : Memory} {phase : Phase} (same : SameTable m m₁) (before : task.phase.isRunning=false)
      (after : phase.isRunning=false) (timer : taskReschedules w m task event=false) :
      Continued w m i task event (m₁.setPhase i task phase)
  | returned (before : task.phase.isRunning=false) (returns : event.returns=true)
      (timer : taskReschedules w m task event=true) :
      Continued w m i task event ((m.setEvaluating task.planId false).leave i)
  | left (before : task.phase.isRunning=false) (timer : taskReschedules w m task event=false) :
      Continued w m i task event (m.leave i)
  | discarded (before : task.phase.isRunning=false) :
      Continued w m i task event ((m.discardPlan task.planId).leave i)
  | accepted {m₁ : Memory} {jobId : String} (same : SameTable m m₁) (before : task.phase.isRunning=false) :
      Continued w m i task event ((m₁.detachPlan task.planId).setPhase i task (.running jobId))
  | recovers {jobId : String} {rest : List String} {plan : RetainedPlan}
      (known : m.objects.lookup task.planId=some plan) (resumes : plan.request.operation = "recovery.resume")
      (timer : taskReschedules w m task event=false) :
      Continued w m i task event (m.setPhase i task (.recovering jobId rest))
  | settled {m₁ : Memory} {phase : Phase} (same : SameTable m m₁) (after : phase.isRunning=false)
      (timer : taskReschedules w m task event=false) :
      Continued w m i task event
        ({ m₁ with objects := mapModify task.planId RetainedPlan.scrub m₁.objects }.setPhase i task phase)

variable {effect : Effect} {event : Event} {jobId : String} {pending : Bool} {kept kept' : RetainedPlan}
  {call : ExecuteCall} {timer : Option ℕ}

section Continued
variable {w w' : World} {m : Memory} {i : ℕ} {task : Task}

theorem SameTable.refl (m : Memory) : SameTable m m := ⟨rfl,rfl,rfl,rfl⟩

theorem not_mem_discardPlan (m : Memory) (id : String) : id ∉ (m.discardPlan id).plans := by
  unfold Memory.discardPlan
  split
  next => simp
  next hnot => exact hnot

theorem discarded_abandon (m : Memory) (i : ℕ) (task : Task) :
    (m.discardPlan task.planId).abandon i task=(m.discardPlan task.planId).leave i := by
  rw [Memory.abandon,if_neg (not_mem_discardPlan m task.planId)]

theorem continued_abandon (before : task.phase.isRunning=false) (returns : event.returns=true)
    (htim : taskReschedules w m task event=decide (task.planId ∈ m.plans)) :
    Continued w m i task event (m.abandon i task) := by
  unfold Memory.abandon
  split
  next hmem => exact .returned before returns (htim.trans (decide_eq_true hmem))
  next hnot => exact .left before (htim.trans (decide_eq_false hnot))

theorem trimStep_continued {victims : List String} (hpha : task.phase=.trimming victims) :
    ∃ m', (trimStep w m i task effect victims).helper=.up m' ∧ (trimStep w m i task effect victims).now=w.now ∧
      Continued w m i task (.trim effect) m' := by
  have before : task.phase.isRunning=false := by
    rw [hpha]
    rfl
  unfold trimStep
  split
  next =>
    split
    next hful => exact ⟨_,rfl,rfl,.returned before rfl (by simp [taskReschedules,hpha,hful])⟩
    next hroo => exact ⟨_,rfl,rfl,.goesOn (.refl m) before rfl (by simpa [taskReschedules,hpha] using hroo)⟩
  next victim rest =>
    simp only []
    split
    next hgon => exact ⟨_,rfl,rfl,.returned before rfl (by simp [taskReschedules,hpha,hgon])⟩
    next hthe =>
      split
      next =>
        refine ⟨_,rfl,rfl,.goesOn ⟨rfl,rfl,rfl,rfl⟩ before rfl ?_⟩
        simpa [taskReschedules,hpha] using hthe
      next => exact ⟨_,rfl,rfl,.returned before rfl (by simp [taskReschedules,hpha])⟩
      next => exact ⟨_,rfl,rfl,.returned before rfl (by simp [taskReschedules,hpha])⟩

theorem lockStep_continued {acquired : Bool} (hpha : task.phase=.waiting)
    (hste : lockStep w m i task acquired=some w') :
    ∃ m', w'.helper=.up m' ∧ w'.now=w.now ∧ Continued w m i task (.lock acquired) m' := by
  have before : task.phase.isRunning=false := by
    rw [hpha]
    rfl
  unfold lockStep at hste
  split at hste
  next hfai =>
    cases hste
    have hfai : acquired=false := by simpa using hfai
    subst hfai
    exact ⟨_,rfl,rfl,continued_abandon before rfl rfl⟩
  next hacq =>
    have hacq : acquired=true := by simpa using hacq
    subst hacq
    split at hste
    next => cases hste
    next =>
      split at hste
      next => cases hste
      next plan hpla =>
        split at hste
        next =>
          cases hste
          rw [discarded_abandon]
          exact ⟨_,rfl,rfl,.discarded before⟩
        next hlas =>
          cases hste
          exact ⟨_,rfl,rfl,.goesOn (.refl m) before rfl (by simpa [taskReschedules,hpla] using hlas)⟩

theorem fingerprintStep_continued {value : Option String} (hpha : task.phase=.checking)
    (hste : fingerprintStep w m i task value jobId=some w') :
    ∃ m', w'.helper=.up m' ∧ w'.now=w.now ∧ Continued w m i task (.fingerprint value jobId) m' := by
  have before : task.phase.isRunning=false := by
    rw [hpha]
    rfl
  unfold fingerprintStep at hste
  split at hste
  next => cases hste
  next plan hpla =>
    split at hste
    next =>
      cases hste
      exact ⟨_,rfl,rfl,continued_abandon before rfl rfl⟩
    next value =>
      split at hste
      next =>
        cases hste
        rw [discarded_abandon]
        exact ⟨_,rfl,rfl,.discarded before⟩
      next hsam =>
        split at hste
        next =>
          cases hste
          rw [discarded_abandon]
          exact ⟨_,rfl,rfl,.discarded before⟩
        next hlas =>
          split at hste
          next => cases hste
          next =>
            cases hste
            refine ⟨_,rfl,rfl,.goesOn ⟨rfl,rfl,rfl,rfl⟩ before rfl ?_⟩
            simpa [taskReschedules,hpla] using And.intro hsam hlas

theorem acceptanceStep_continued {fingerprint : String} {job : ManagementJob} {checkedAt : ℕ}
    (hpha : task.phase=.accepting jobId job fingerprint checkedAt)
    (hste : acceptanceStep w m i task jobId job fingerprint checkedAt effect=some w') :
    ∃ m', w'.helper=.up m' ∧ w'.now=w.now ∧ Continued w m i task (.acceptance effect) m' := by
  have before : task.phase.isRunning=false := by
    rw [hpha]
    rfl
  unfold acceptanceStep at hste
  split at hste
  next => cases hste
  next plan hpla =>
    split at hste
    next =>
      cases hste
      exact ⟨_,rfl,rfl,.accepted ⟨rfl,rfl,rfl,rfl⟩ before⟩
    next hfai =>
      cases hste
      refine ⟨_,rfl,rfl,continued_abandon before ?_ ?_⟩
      · cases effect <;> simp_all [Event.returns]
      · cases effect <;> simp_all [taskReschedules]

theorem settle_continued {status : JobStatus} {m₁ : Memory} (hsam : SameTable m m₁)
    (htim : taskReschedules w m task event=false) :
    ∃ m', (settle w i task m₁ jobId status).helper=.up m' ∧ (settle w i task m₁ jobId status).now=w.now ∧
      Continued w m i task event m' := by
  unfold settle
  refine ⟨_,rfl,rfl,?_⟩
  have hsam' : SameTable m (m₁.setStatus jobId status) := ⟨hsam.objects,hsam.plans,hsam.preparing,hsam.tasks⟩
  exact .settled hsam' rfl htim

theorem runStep_continued {succeeded : Bool} (hste : runStep w m i task jobId succeeded pending=some w') :
    ∃ m', w'.helper=.up m' ∧ w'.now=w.now ∧ Continued w m i task (.runDone succeeded pending) m' := by
  unfold runStep at hste
  split at hste
  next => cases hste
  next plan hpla =>
    split at hste
    next =>
      cases hste
      exact settle_continued (.refl m) rfl
    next =>
      split at hste
      next hres =>
        cases hste
        exact ⟨_,rfl,rfl,.recovers hpla hres rfl⟩
      next =>
        cases hste
        exact settle_continued (.refl m) rfl

theorem recoverStep_continued {rest : List String} (hpha : task.phase=.recovering jobId rest) :
    ∃ m', (recoverStep w m i task jobId effect pending rest).helper=.up m' ∧
      (recoverStep w m i task jobId effect pending rest).now=w.now ∧
        Continued w m i task (.recovered effect pending) m' := by
  have before : task.phase.isRunning=false := by
    rw [hpha]
    rfl
  unfold recoverStep
  split
  next => exact settle_continued (.refl m) rfl
  next earlier rest =>
    simp only []
    split
    next => exact ⟨_,rfl,rfl,.goesOn ⟨rfl,rfl,rfl,rfl⟩ before rfl rfl⟩
    next => exact ⟨_,rfl,rfl,.settled ⟨rfl,rfl,rfl,rfl⟩ rfl rfl⟩

theorem taskStep_continued (hste : taskStep w m i task event=some w') :
    ∃ m', w'.helper=.up m' ∧ w'.now=w.now ∧ Continued w m i task event m' := by
  cases event with
  | trim effect =>
    simp only [taskStep] at hste
    split at hste
    next victims hpha =>
      cases hste
      exact trimStep_continued hpha
    next => cases hste
  | lock acquired =>
    simp only [taskStep] at hste
    split at hste
    next hpha => exact lockStep_continued hpha hste
    next => cases hste
  | fingerprint value jobId =>
    simp only [taskStep] at hste
    split at hste
    next hpha => exact fingerprintStep_continued hpha hste
    next => cases hste
  | acceptance effect =>
    simp only [taskStep] at hste
    split at hste
    next hpha => exact acceptanceStep_continued hpha hste
    next => cases hste
  | runDone succeeded pending =>
    simp only [taskStep] at hste
    split at hste
    next => exact runStep_continued hste
    next => cases hste
  | recovered effect pending =>
    simp only [taskStep] at hste
    split at hste
    next hpha =>
      cases hste
      exact recoverStep_continued hpha
    next => cases hste
  | finished effect =>
    simp only [taskStep] at hste
    split at hste
    next jobId hpha =>
      cases hste
      exact ⟨_,rfl,rfl,.left (by rw [hpha]; rfl) rfl⟩
    next => cases hste

end Continued

/-- The requests that can be read, and that none of them resumes a recovery. -/
structure Readable (m : Memory) : Prop where
  scrubbed : Scrubbed m
  resumes : ∀ id kept, m.objects.lookup id=some kept → kept.request.operation = "recovery.resume" →
    kept.request.input=[]
  preparing : ∀ entry ∈ m.preparing, entry.2.operation = "recovery.resume" → entry.2.input=[]

section Readable
variable {w : World} {m m' : Memory} {i : ℕ} {task : Task} {id : String}

theorem supported_resumes {request : Request} (h : supported request=true)
    (hres : request.operation = "recovery.resume") : request.input=[] := by
  unfold supported at h
  rw [hres] at h
  rw [eq_nil_iff_forall_not_mem]
  intro field hfie
  have hmem:=all_eq_true.1 h field hfie
  simp [inputFields] at hmem

theorem mem_tasks_other {other : Task} (hmem : other ∈ m.tasks) (hget : m.tasks[i]? = some task) (hne : other≠task)
    (next : Task) : other ∈ m.tasks.set i next ∧ other ∈ m.tasks.eraseIdx i := by
  obtain ⟨k,hk⟩ := mem_iff_getElem?.1 hmem
  have hki : k≠i := by
    rintro rfl
    rw [hget] at hk
    exact hne (Option.some.inj hk).symm
  refine ⟨mem_iff_getElem?.2 ⟨k,?_⟩,mem_eraseIdx_iff_getElem?.2 ⟨k,hki,hk⟩⟩
  rw [getElem?_set_ne hki.symm]
  exact hk

theorem Held.other (next : Task) (h : Held m id) (hget : m.tasks[i]? = some task)
    (hidle : task.phase.isRunning=false ∨ task.planId≠id) (hpla : id ∈ m.plans → id ∈ m'.plans)
    (htasks : m'.tasks=m.tasks.set i next ∨ m'.tasks=m.tasks.eraseIdx i) : Held m' id := by
  refine h.imp hpla fun ⟨other,hmem,hid,hrun⟩ => ?_
  have hne : other≠task := by
    rintro rfl
    rcases hidle with hidle | hidle
    · rw [hidle] at hrun
      cases hrun
    · exact hidle hid
  have hbot:=mem_tasks_other hmem hget hne next
  rcases htasks with htasks | htasks
  · exact ⟨other,htasks ▸ hbot.1,hid,hrun⟩
  · exact ⟨other,htasks ▸ hbot.2,hid,hrun⟩

section
variable (h : Readable m)
include h

/- Each request is one there was, and held as long as it can be read. -/
theorem Readable.of (hpre : ∀ entry ∈ m'.preparing, entry ∈ m.preparing)
    (hobj : ∀ id kept', m'.objects.lookup id=some kept' → kept'.request.input=[] ∨ ∃ kept,
      m.objects.lookup id=some kept ∧ kept'.request=kept.request ∧ (Held m id → Held m' id)) : Readable m' where
  scrubbed id kept' hkep' := by
    rcases hobj id kept' hkep' with hemp | ⟨kept,hkep,hsam,hhel⟩
    · exact .inl hemp
    · rw [hsam]
      exact (h.scrubbed id kept hkep).imp_right hhel
  resumes id kept' hkep' hres := by
    rcases hobj id kept' hkep' with hemp | ⟨kept,hkep,hsam,-⟩
    · exact hemp
    · rw [hsam] at hres ⊢
      exact h.resumes id kept hkep hres
  preparing entry hent := h.preparing entry (hpre entry hent)

theorem Readable.same (hsam : SameTable m m') : Readable m' := by
  refine h.of (fun entry hent => hsam.preparing ▸ hent) fun id kept hkep => .inr ⟨kept,hsam.objects ▸ hkep,rfl,?_⟩
  unfold Held
  rw [hsam.plans,hsam.tasks]
  exact fun hhel => hhel

theorem Readable.discardPlan (id : String) : Readable (m.discardPlan id) := by
  unfold Memory.discardPlan
  split
  next =>
    refine h.of (fun _ hent => hent) fun k kept' hkep' => ?_
    rw [lookup_mapModify] at hkep'
    split at hkep'
    next =>
      obtain ⟨kept,-,rfl⟩ := Option.map_eq_some_iff.1 hkep'
      exact .inl rfl
    next hne =>
      refine .inr ⟨kept',hkep',rfl,fun hhel => hhel.imp_left fun hmem => mem_filter.2 ⟨hmem,by simpa using hne⟩⟩
  next => exact h

theorem Readable.expirePlans (now : ℕ) : Readable (m.expirePlans now) := by
  unfold Memory.expirePlans
  generalize m.plans.filter (m.expirable now)=ids
  induction ids generalizing m with
  | nil => exact h
  | cons id ids ih => exact ih (h.discardPlan id)

theorem Readable.setEvaluating (id : String) (evaluating : Bool) :
    Readable (m.setEvaluating id evaluating) := by
  refine h.of (fun _ hent => hent) fun k kept' hkep' => .inr ?_
  unfold Memory.setEvaluating at hkep'
  rw [lookup_mapModify] at hkep'
  split at hkep'
  next =>
    obtain ⟨kept,hkep,rfl⟩ := Option.map_eq_some_iff.1 hkep'
    exact ⟨kept,hkep,rfl,fun hhel => hhel⟩
  next => exact ⟨kept',hkep',rfl,fun hhel => hhel⟩

theorem Readable.leave (hget : m.tasks[i]? = some task) (hidl : task.phase.isRunning=false) :
    Readable (m.leave i) :=
  h.of (fun _ hent => hent) fun _ kept hkep => .inr ⟨kept,hkep,rfl,fun hhel =>
    hhel.other task hget (.inl hidl) (fun hmem => hmem) (.inr rfl)⟩

theorem Readable.setPhase (hget : m.tasks[i]? = some task) {phase : Phase}
    (hidl : task.phase.isRunning=false) : Readable (m.setPhase i task phase) :=
  h.of (fun _ hent => hent) fun _ kept hkep => .inr ⟨kept,hkep,rfl,fun hhel =>
    hhel.other _ hget (.inl hidl) (fun hmem => hmem) (.inl rfl)⟩

end

theorem tasks_discardPlan (m : Memory) (id : String) : (m.discardPlan id).tasks=m.tasks :=
  (sameLedger_discardPlan m id).tasks

theorem Readable.continued (h : Readable m) (hget : m.tasks[i]? = some task) (hste : Continued w m i task event m') :
    Readable m' := by
  cases hste with
  | goesOn same before => exact (h.same same).setPhase (same.tasks ▸ hget) before
  | returned before => exact (h.setEvaluating task.planId false).leave hget before
  | left before => exact h.leave hget before
  | discarded before => exact (h.discardPlan task.planId).leave (tasks_discardPlan m _ ▸ hget) before
  | @accepted m₁ jobId same before =>
    -- the plan leaves the table with the step that begins its run
    have hget' : m₁.tasks[i]? = some task := same.tasks ▸ hget
    refine (h.same same).of (fun _ hent => hent) fun id kept hkep => .inr ⟨kept,hkep,rfl,fun hhel => ?_⟩
    by_cases hid : task.planId=id
    · obtain ⟨hlt,-⟩ := List.getElem?_eq_some_iff.1 hget'
      exact .inr ⟨{ task with phase := .running jobId },mem_set hlt _,hid,rfl⟩
    · refine hhel.other _ hget' (.inr hid) (fun hmem => ?_) (.inl rfl)
      exact mem_filter.2 ⟨hmem,by simpa using fun heq : id=task.planId => hid heq.symm⟩
  | @recovers jobId rest plan known resumes =>
    refine h.of (fun _ hent => hent) fun id kept hkep => ?_
    by_cases hid : task.planId=id
    · subst hid
      have hpla : kept=plan := Option.some.inj (hkep.symm.trans known)
      exact .inl (h.resumes _ kept hkep (hpla ▸ resumes))
    · exact .inr ⟨kept,hkep,rfl,fun hhel =>
        hhel.other _ hget (.inr hid) (fun hmem => hmem) (.inl rfl)⟩
  | @settled m₁ phase same =>
    have hget' : m₁.tasks[i]? = some task := same.tasks ▸ hget
    refine (h.same same).of (fun _ hent => hent) fun id kept' hkep' => ?_
    have hmod : (mapModify task.planId RetainedPlan.scrub m₁.objects).lookup id=some kept' := hkep'
    rw [lookup_mapModify] at hmod
    split at hmod
    next =>
      obtain ⟨kept,-,rfl⟩ := Option.map_eq_some_iff.1 hmod
      exact .inl rfl
    next hne =>
      exact .inr ⟨kept',hmod,rfl,fun hhel =>
        hhel.other _ hget' (.inr fun heq => hne heq.symm) (fun hmem => hmem) (.inl rfl)⟩

end Readable

section Idle
variable {w w' : World} {m m' : Memory} {i : ℕ} {task : Task} {id k : String}

theorem plan?_congr (hobj : m'.objects=m.objects) (hpla : m'.plans=m.plans) (id : String) :
    m'.plan? id=m.plan? id := by
  unfold Memory.plan?
  rw [hobj,hpla]

@[simp] theorem plan?_setPhase (m : Memory) (i : ℕ) (task : Task) (phase : Phase) (id : String) :
    (m.setPhase i task phase).plan? id=m.plan? id := rfl

@[simp] theorem plan?_leave (m : Memory) (i : ℕ) (id : String) : (m.leave i).plan? id=m.plan? id := rfl

theorem plan?_discardPlan (m : Memory) (id k : String) :
    (m.discardPlan id).plan? k=if k=id then none else m.plan? k := by
  by_cases hk : k=id
  · subst hk
    rw [if_pos rfl,Memory.plan?,if_neg (not_mem_discardPlan m k)]
  · rw [if_neg hk]
    unfold Memory.discardPlan
    split
    next =>
      unfold Memory.plan?
      simp only [lookup_mapModify,mem_filter,ne_eq,hk,not_false_eq_true,decide_true,and_true,if_false]
    next => rfl

theorem plan?_discardPlan_some (h : (m.discardPlan id).plan? k=some kept) : k≠id ∧ m.plan? k=some kept := by
  rw [plan?_discardPlan] at h
  split at h
  next => cases h
  next hne => exact ⟨hne,h⟩

theorem plan?_detachPlan_some (h : (m.detachPlan id).plan? k=some kept) : k≠id ∧ m.plan? k=some kept := by
  unfold Memory.plan? Memory.detachPlan at h
  split at h
  next hmem =>
    obtain ⟨hmem,hne⟩ := mem_filter.1 hmem
    unfold Memory.plan?
    rw [if_pos hmem]
    exact ⟨by simpa using hne,h⟩
  next => cases h

theorem plan?_modify_some {f : RetainedPlan → RetainedPlan}
    (h : { m with objects := mapModify id f m.objects : Memory }.plan? k=some kept') :
    ∃ kept, m.plan? k=some kept ∧ (k=id ∧ kept'=f kept ∨ k≠id ∧ kept'=kept) := by
  unfold Memory.plan? at h
  simp only [lookup_mapModify] at h
  unfold Memory.plan?
  split at h
  next hmem =>
    rw [if_pos hmem]
    split at h
    next heq =>
      obtain ⟨kept,hkep,rfl⟩ := Option.map_eq_some_iff.1 h
      exact ⟨kept,hkep,.inl ⟨heq,rfl⟩⟩
    next hne => exact ⟨kept',h,.inr ⟨hne,rfl⟩⟩
  next => cases h

theorem plan?_setEvaluating_some {evaluating : Bool} (h : (m.setEvaluating id evaluating).plan? k=some kept') :
    ∃ kept, m.plan? k=some kept ∧ (k=id ∧ kept' = { kept with evaluating } ∨ k≠id ∧ kept'=kept) :=
  plan?_modify_some h

theorem plan?_discardAll (ids : List String) (h : (ids.foldl Memory.discardPlan m).plan? k=some kept) :
    k ∉ ids ∧ m.plan? k=some kept := by
  induction ids generalizing m with
  | nil => exact ⟨not_mem_nil,h⟩
  | cons id ids ih =>
    obtain ⟨hnot,hpla⟩ := ih h
    obtain ⟨hne,hpla⟩ := plan?_discardPlan_some hpla
    exact ⟨fun hmem => (mem_cons.1 hmem).elim hne hnot,hpla⟩

theorem plan?_expirePlans {now : ℕ} (h : (m.expirePlans now).plan? k=some kept) :
    m.plan? k=some kept ∧ (kept.evaluating=false → now<kept.expiresAt) := by
  obtain ⟨hnot,hpla⟩ := plan?_discardAll _ h
  refine ⟨hpla,fun hidl => ?_⟩
  by_contra hexp
  refine hnot (mem_filter.2 ⟨(plan?_eq_some hpla).1,?_⟩)
  unfold Memory.expirable
  rw [hpla,Option.any_some,hidl]
  simpa using hexp

/-- Where a plan comes from that is not evaluated after a step. -/
def Origin (digest : String → String) (w : World) (m : Memory) (action : Action) (id : String) (kept' : RetainedPlan) :
    Prop :=
  (reschedules digest w m action=true ∧ kept'.expiresAt=w.now+300000) ∨
    ∃ kept, m.plan? id=some kept ∧ kept.expiresAt=kept'.expiresAt ∧
      (kept.evaluating=false ∧ reschedules digest w m action=false ∨
        reschedules digest w m action=true ∧ action.sweeps=true ∧ w.now<kept.expiresAt ∨
        reschedules digest w m action=true ∧ action.sweeps=false ∧ leavesIdle m action id kept=true)

theorem leavesIdle_other {action : Action} {plan : RetainedPlan} (hne : action.subject m≠some id)
    (hidl : plan.evaluating=false) : leavesIdle m action id plan=true := by
  unfold leavesIdle
  rw [if_neg hne,hidl]
  rfl

theorem continued_origin {digest : String → String} (hget : m.tasks[i]? = some task)
    (hste : Continued w m i task event m') (hpla : m'.plan? id=some kept') (hidl : kept'.evaluating=false) :
    Origin digest w m (.task i event) id kept' := by
  have hsub : (Action.task i event).subject m=some task.planId := by
    unfold Action.subject
    simp only [hget,Option.map_some]
  have hres : reschedules digest w m (.task i event)=taskReschedules w m task event := by
    unfold reschedules
    simp only [hget,Option.any_some]
  have hunl {kept : RetainedPlan} (hne : id≠task.planId) (hidl : kept.evaluating=false) :
      leavesIdle m (.task i event) id kept=true :=
    leavesIdle_other (by rw [hsub]; exact fun heq => hne (Option.some.inj heq).symm) hidl
  have hfra (hne : id≠task.planId) (hsam : m.plan? id=some kept') : Origin digest w m (.task i event) id kept' := by
    refine Or.inr ⟨kept',hsam,rfl,?_⟩
    by_cases hr : reschedules digest w m (.task i event)=true
    · exact .inr (.inr ⟨hr,rfl,hunl hne hidl⟩)
    · exact .inl ⟨hidl,by simpa using hr⟩
  cases hste with
  | @goesOn m₁ phase same before after timer =>
    rw [plan?_setPhase,plan?_congr same.objects same.plans] at hpla
    exact Or.inr ⟨kept',hpla,rfl,.inl ⟨hidl,hres.trans timer⟩⟩
  | returned before returns timer =>
    rw [plan?_leave] at hpla
    obtain ⟨kept,hkep,⟨hid,heq⟩ | ⟨hne,heq⟩⟩ := plan?_setEvaluating_some hpla
    · refine Or.inr ⟨kept,hkep,by rw [heq],.inr (.inr ⟨hres.trans timer,rfl,?_⟩)⟩
      rw [leavesIdle,if_pos (hsub.trans (congrArg some hid.symm))]
      exact returns
    · subst heq
      exact hfra hne hkep
  | left before timer =>
    rw [plan?_leave] at hpla
    exact Or.inr ⟨kept',hpla,rfl,.inl ⟨hidl,hres.trans timer⟩⟩
  | discarded before =>
    rw [plan?_leave] at hpla
    obtain ⟨hne,hpla⟩ := plan?_discardPlan_some hpla
    exact hfra hne hpla
  | @accepted m₁ jobId same before =>
    rw [plan?_setPhase] at hpla
    obtain ⟨hne,hpla⟩ := plan?_detachPlan_some hpla
    rw [plan?_congr same.objects same.plans] at hpla
    exact hfra hne hpla
  | @recovers jobId rest plan known resumes timer =>
    rw [plan?_setPhase] at hpla
    exact Or.inr ⟨kept',hpla,rfl,.inl ⟨hidl,hres.trans timer⟩⟩
  | @settled m₁ phase same after timer =>
    rw [plan?_setPhase] at hpla
    obtain ⟨kept,hkep,⟨hid,heq⟩ | ⟨hne,heq⟩⟩ := plan?_modify_some hpla
    · subst heq
      rw [plan?_congr same.objects same.plans] at hkep
      exact Or.inr ⟨kept,hkep,rfl,.inl ⟨hidl,hres.trans timer⟩⟩
    · subst heq
      rw [plan?_congr same.objects same.plans] at hkep
      exact Or.inr ⟨kept',hkep,rfl,.inl ⟨hidl,hres.trans timer⟩⟩

end Idle

/-- Everything a step can do to the plans of a helper that stays up. -/
inductive Stepped (digest : String → String) (w : World) (m : Memory) : Action → Memory → Prop
  | same {action : Action} (timer : reschedules digest w m action=false) : Stepped digest w m action m
  | swept {action : Action} (sweeps : action.sweeps=true) : Stepped digest w m action (m.expirePlans w.now)
  | prepares {sessionId : String} {request : Request} :
      Stepped digest w m (.plan sessionId request)
        { m.expirePlans w.now with preparing := (m.expirePlans w.now).preparing++[(sessionId,request)] }
  | retains {i : ℕ} {id fingerprint sessionId : String} {request : Request} {requiresInterruption : Bool}
      (ready : (sessionId,request) ∈ m.preparing) :
      Stepped digest w m (.planned i id fingerprint requiresInterruption) { m with
        preparing := m.preparing.eraseIdx i
        objects := mapSet id ⟨request,sessionId,fingerprint,w.now+300000,requiresInterruption,false⟩ m.objects
        plans := m.plans++[id] }
  | drops {i : ℕ} : Stepped digest w m (.planFailed i) { m with preparing := m.preparing.eraseIdx i }
  | discards {action : Action} {id : String} (subject : action.subject m=some id)
      (timer : reschedules digest w m action=true) : Stepped digest w m action (m.discardPlan id)
  | admits {call : ExecuteCall} {task : Task} (timer : reschedules digest w m (.execute call)=true) :
      Stepped digest w m (.execute call)
        { m.setEvaluating call.planId true with busy := true, tasks := m.tasks++[task] }
  | continues {i : ℕ} {task : Task} {event : Event} {m' : Memory} (get : m.tasks[i]? = some task)
      (step : Continued w m i task event m') : Stepped digest w m (.task i event) m'

section Stepped
variable {digest : String → String} {w w' : World} {m m' : Memory} {action : Action}

theorem cancel_stepped {planId sessionId : String} (hkin : w.helper=.up m)
    (hste : step digest w (.cancel planId sessionId)=some w') :
    ∃ m', w'.helper=.up m' ∧ w.now≤w'.now ∧ Stepped digest w m (.cancel planId sessionId) m' := by
  simp only [step,hkin] at hste
  split at hste
  next plan hpla =>
    split at hste
    next hkee =>
      cases hste
      refine ⟨m,hkin,le_rfl,.same ?_⟩
      show (m.plan? planId).any _=false
      rw [hpla,Option.any_some,Bool.eq_false_iff]
      intro hbot
      rw [Bool.and_eq_true] at hbot
      rcases hkee with hses | hevaluating
      · exact hses (by simpa using hbot.1)
      · simp [hevaluating] at hbot
    next hdis =>
      cases hste
      refine ⟨_,rfl,le_rfl,.discards rfl ?_⟩
      show (m.plan? planId).any _=true
      rw [hpla,Option.any_some]
      simpa [not_or] using hdis
  next hnon =>
    cases hste
    exact ⟨m,hkin,le_rfl,.same (by simp [reschedules,hnon])⟩

theorem execute_discards {now : ℕ} (h : discards digest now call m=true) :
    call.planId ∈ m.plans ∧ execute digest now call m=(m.discardPlan call.planId,.refused planExpired) := by
  unfold discards at h
  obtain ⟨key,hkey,hres⟩ := (Option.any_eq_true _ _).1 h
  rw [Bool.and_eq_true] at hres
  obtain ⟨hfre,hpla⟩ := hres
  obtain ⟨plan,hpla,hche⟩ := (Option.any_eq_true _ _).1 hpla
  obtain ⟨hses,hexp⟩ : plan.sessionId=call.sessionId ∧ plan.expiresAt≤now := by simpa using hche
  have hfre : m.executions.lookup (keyHash digest call key)=none := by simpa using hfre
  refine ⟨(plan?_eq_some hpla).1,?_⟩
  unfold execute
  rw [hkey]
  simp only [hfre,hpla]
  rw [admitPlan,if_neg (not_not.2 hses),if_pos hexp]

theorem execute_same {reply : Reply} (hrep : reply≠.pending) (h : execute digest w.now call m=(m,reply)) :
    reschedules digest w m (.execute call)=false := by
  show (discards digest w.now call m || (execute digest w.now call m).2 == .pending)=false
  rw [h,Bool.or_eq_false_iff]
  refine ⟨?_,by simpa using hrep⟩
  by_contra hdis
  obtain ⟨hmem,heq⟩ := execute_discards (by simpa using hdis)
  rw [h] at heq
  have hsam : m=m.discardPlan call.planId := congrArg Prod.fst heq
  exact not_mem_discardPlan m call.planId (hsam ▸ hmem)

theorem execute_stepped (hkin : w.helper=.up m) (hste : step digest w (.execute call)=some w') :
    ∃ m', w'.helper=.up m' ∧ w.now≤w'.now ∧ Stepped digest w m (.execute call) m' := by
  simp only [step,hkin] at hste
  rcases execute_cases digest w.now call m with ⟨error,heq⟩ | ⟨key,e,hkey,he,hsam,heq⟩ |
    ⟨plan,hdis,hpla,hexp,heq⟩ |
    ⟨key,plan,hfre,hpla,hses,hrea,hcon,hbus,heq⟩
  · rw [heq] at hste
    cases hste
    exact ⟨_,rfl,le_rfl,.same (execute_same Reply.noConfusion heq)⟩
  · rw [heq,hkey] at hste
    cases hste
    exact ⟨_,rfl,le_rfl,.same (execute_same Reply.noConfusion heq)⟩
  · rw [heq] at hste
    cases hste
    refine ⟨_,rfl,le_rfl,.discards rfl ?_⟩
    show (discards digest w.now call m || _)=true
    rw [hdis,Bool.true_or]
  · rw [heq] at hste
    cases hste
    refine ⟨_,rfl,le_rfl,.admits ?_⟩
    show (discards digest w.now call m || (execute digest w.now call m).2 == .pending)=true
    rw [heq,beq_self_eq_true,Bool.or_true]

theorem step_stepped (hkin : w.helper=.up m) (hste : step digest w action=some w') :
    w'.helper=.down ∨ ∃ m', w'.helper=.up m' ∧ w.now≤w'.now ∧ Stepped digest w m action m' := by
  cases action with
  | pass elapsed =>
    cases hste
    exact .inr ⟨m,hkin,Nat.le_add_right _ _,.same rfl⟩
  | otherLock =>
    simp only [step] at hste
    split at hste
    next =>
      cases hste
      exact .inr ⟨m,hkin,le_rfl,.same rfl⟩
    next => cases hste
  | otherUnlock =>
    simp only [step] at hste
    split at hste
    next =>
      cases hste
      exact .inr ⟨m,hkin,le_rfl,.same rfl⟩
    next => cases hste
  | start => simp [step,hkin] at hste
  | load pending effect => simp [step,hkin] at hste
  | ready => simp [step,hkin] at hste
  | plan sessionId request =>
    simp only [step,hkin] at hste
    split at hste
    next =>
      cases hste
      exact .inr ⟨_,rfl,le_rfl,.swept rfl⟩
    next =>
      cases hste
      exact .inr ⟨_,rfl,le_rfl,.prepares⟩
  | planned i id fingerprint requiresInterruption =>
    simp only [step,hkin] at hste
    split at hste
    next sessionId request hrea =>
      split at hste
      next => cases hste
      next =>
        cases hste
        exact .inr ⟨_,rfl,le_rfl,.retains (mem_of_getElem? hrea)⟩
    next => cases hste
  | planFailed i =>
    simp only [step,hkin] at hste
    cases hste
    exact .inr ⟨_,rfl,le_rfl,.drops⟩
  | expire =>
    simp only [step,hkin] at hste
    cases hste
    exact .inr ⟨_,rfl,le_rfl,.swept rfl⟩
  | cancel planId sessionId => exact .inr (cancel_stepped hkin hste)
  | execute call => exact .inr (execute_stepped hkin hste)
  | task i event =>
    simp only [step,hkin] at hste
    split at hste
    next task hget =>
      obtain ⟨m',hup,hnow,hcon⟩ := taskStep_continued hste
      exact .inr ⟨m',hup,hnow.ge,.continues hget hcon⟩
    next => cases hste
  | crash effect =>
    simp only [step] at hste
    cases hste
    exact .inl rfl

end Stepped

section Steps
variable {digest : String → String} {w w' : World} {m m' : Memory} {action : Action}

theorem Readable.stepped (h : Readable m) (hste : Stepped digest w m action m')
    (hsup : ∀ sessionId request, action=.plan sessionId request → supported request=true) : Readable m' := by
  cases hste with
  | same => exact h
  | swept => exact h.expirePlans w.now
  | @prepares sessionId request =>
    have hswe:=h.expirePlans w.now
    refine ⟨hswe.scrubbed,hswe.resumes,fun entry hent => ?_⟩
    rcases mem_append.1 hent with hold | hnew
    · exact hswe.preparing entry hold
    · rw [mem_singleton.1 hnew]
      exact supported_resumes (hsup sessionId request rfl)
  | @retains i id fingerprint sessionId request requiresInterruption ready =>
    refine ⟨fun k kept hkep => ?_,fun k kept hkep => ?_,fun entry hent =>
      h.preparing entry (mem_of_mem_eraseIdx hent)⟩
    · rw [lookup_mapSet] at hkep
      split at hkep
      next heq => exact .inr (.inl (by simp [heq]))
      next => exact (h.scrubbed k kept hkep).imp_right fun hhel => hhel.imp_left fun hmem => mem_append_left _ hmem
    · rw [lookup_mapSet] at hkep
      split at hkep
      next =>
        cases hkep
        exact h.preparing (sessionId,request) ready
      next => exact h.resumes k kept hkep
  | drops => exact ⟨h.scrubbed,h.resumes,fun entry hent => h.preparing entry (mem_of_mem_eraseIdx hent)⟩
  | discards => exact h.discardPlan _
  | @admits call task =>
    have hset:=h.setEvaluating call.planId true
    refine ⟨fun k kept hkep => (hset.scrubbed k kept hkep).imp_right fun hhel => ?_,hset.resumes,hset.preparing⟩
    exact hhel.imp_right fun ⟨other,hmem,hres⟩ => ⟨other,mem_append_left _ hmem,hres⟩
  | continues get step => exact h.continued get step

theorem sweeps_reschedules (h : action.sweeps=true) : reschedules digest w m action=true := by
  cases action <;> first | rfl | cases h

theorem subject_sweeps {id : String} (h : action.subject m=some id) : action.sweeps=false := by
  cases action <;> first | rfl | cases h

theorem stepped_origin (hste : Stepped digest w m action m') {id : String} (hpla : m'.plan? id=some kept')
    (hidl : kept'.evaluating=false) : Origin digest w m action id kept' := by
  have hswe (hsws : action.sweeps=true) (hpla : (m.expirePlans w.now).plan? id=some kept') :
      Origin digest w m action id kept' := by
    obtain ⟨hpla,hlas⟩ := plan?_expirePlans hpla
    exact Or.inr ⟨kept',hpla,rfl,.inr (.inl ⟨sweeps_reschedules hsws,hsws,hlas hidl⟩)⟩
  cases hste with
  | same timer => exact Or.inr ⟨kept',hpla,rfl,.inl ⟨hidl,timer⟩⟩
  | swept sweeps => exact hswe sweeps hpla
  | prepares =>
    exact hswe rfl hpla
  | @retains i k fingerprint sessionId request requiresInterruption ready =>
    obtain ⟨hmem,hkep⟩ := plan?_eq_some hpla
    have hkep : (mapSet k _ m.objects).lookup id=some kept' := hkep
    rw [lookup_mapSet] at hkep
    split at hkep
    next =>
      cases hkep
      exact Or.inl ⟨rfl,rfl⟩
    next hne =>
      have hmem : id ∈ m.plans := (mem_append.1 hmem).resolve_right fun hnew => hne (mem_singleton.1 hnew)
      refine Or.inr ⟨kept',?_,rfl,.inr (.inr ⟨rfl,rfl,leavesIdle_other (fun heq => by cases heq) hidl⟩)⟩
      rw [Memory.plan?,if_pos hmem]
      exact hkep
  | drops =>
    exact Or.inr ⟨kept',hpla,rfl,.inl ⟨hidl,rfl⟩⟩
  | discards subject timer =>
    obtain ⟨hne,hpla⟩ := plan?_discardPlan_some hpla
    refine Or.inr ⟨kept',hpla,rfl,.inr (.inr ⟨timer,subject_sweeps subject,leavesIdle_other ?_ hidl⟩)⟩
    rw [subject]
    exact fun heq => hne (Option.some.inj heq).symm
  | @admits call task timer =>
    have hpla : (m.setEvaluating call.planId true).plan? id=some kept' := hpla
    obtain ⟨kept,hkep,⟨hid,heq⟩ | ⟨hne,heq⟩⟩ := plan?_setEvaluating_some hpla
    · rw [heq] at hidl
      cases hidl
    · subst heq
      exact Or.inr ⟨kept',hkep,rfl,.inr (.inr ⟨timer,rfl,
        leavesIdle_other (fun heq => hne (Option.some.inj heq).symm) hidl⟩)⟩
  | continues get step => exact continued_origin get step hpla hidl

theorem length_discardPlan (m : Memory) (id : String) : (m.discardPlan id).plans.length ≤ m.plans.length := by
  unfold Memory.discardPlan
  split
  next => exact length_filter_le _ _
  next => exact le_rfl

theorem length_expirePlans (m : Memory) (now : ℕ) : (m.expirePlans now).plans.length ≤ m.plans.length := by
  unfold Memory.expirePlans
  generalize m.plans.filter (m.expirable now)=ids
  induction ids generalizing m with
  | nil => exact le_rfl
  | cons id ids ih => exact (ih (m.discardPlan id)).trans (length_discardPlan m id)

theorem stepped_length (hste : Stepped digest w m action m') :
    m'.plans.length ≤ m.plans.length ∨
      (∃ i id f r, action=.planned i id f r) ∧ m'.plans.length=m.plans.length+1 := by
  cases hste with
  | same => exact .inl le_rfl
  | swept => exact .inl (length_expirePlans m w.now)
  | prepares => exact .inl (length_expirePlans m w.now)
  | retains => exact .inr ⟨⟨_,_,_,_,rfl⟩,by simp⟩
  | drops => exact .inl le_rfl
  | discards => exact .inl (length_discardPlan m _)
  | admits => exact .inl le_rfl
  | continues get step =>
    refine .inl ?_
    cases step with
    | goesOn same => exact (congrArg List.length same.plans).le
    | returned => exact le_rfl
    | left => exact le_rfl
    | discarded => exact length_discardPlan m _
    | accepted same => exact (length_filter_le _ _).trans (congrArg List.length same.plans).le
    | recovers => exact le_rfl
    | settled same => exact (congrArg List.length same.plans).le

end Steps

section Timer
variable {digest : String → String} {w : World} {m m' : Memory} {action : Action} {now : ℕ}

theorem armed_schedule (m : Memory) (now : ℕ) : Armed (schedulePlanExpiry now m) (max now) m := by
  intro id kept hpla hidl
  have hmem : kept.expiresAt ∈ expirations m := by
    refine mem_filterMap.2 ⟨id,(plan?_eq_some hpla).1,?_⟩
    rw [hpla,Option.filter_some,if_pos (by simpa using hidl),Option.map_some]
  cases hmin : (expirations m).min? with
  | none =>
    rw [min?_eq_none_iff] at hmin
    rw [hmin] at hmem
    cases hmem
  | some soonest =>
    have hle : soonest≤kept.expiresAt := (min?_eq_some_iff.1 hmin).2 _ hmem
    refine ⟨now+(soonest - now),by rw [schedulePlanExpiry,hmin,Option.map_some],?_⟩
    omega

theorem Armed.in_time (h : Armed timer (max now) m)
    (hlas : ∀ id kept, m.plan? id=some kept → kept.evaluating=false → now≤kept.expiresAt) : Armed timer id m := by
  intro k kept hpla hidl
  obtain ⟨due,htim,hdue⟩ := h k kept hpla hidl
  exact ⟨due,htim,by rwa [max_eq_right (hlas k kept hpla hidl)] at hdue⟩

theorem Armed.stepped {limit : ℕ → ℕ} (h : Armed timer limit m) (hste : Stepped digest w m action m')
    (hkee : reschedules digest w m action=false) : Armed timer limit m' := by
  intro k kept' hpla hidl
  rcases stepped_origin hste hpla hidl with ⟨hr,-⟩ | ⟨kept,hkep,hexp,⟨hwas,-⟩ | ⟨hr,-⟩ | ⟨hr,-,-⟩⟩
  · rw [hkee] at hr
    cases hr
  · exact hexp ▸ h k kept hkep hwas
  · rw [hkee] at hr
    cases hr
  · rw [hkee] at hr
    cases hr

end Timer

structure Blank (m : Memory) : Prop where
  objects : m.objects=[]
  plans : m.plans=[]
  preparing : m.preparing=[]

/-- What holds in every run: requests are scrubbed, and the timer is due at once where a plan has expired. -/
def Sound (s : Timed) : Prop :=
  match s.world.helper with
  | .down => True
  | .starting _ m => Blank m
  | .up m => Readable m ∧ Armed s.timer (max s.world.now) m

section Runs
variable {digest : String → String} {w w' : World} {s s' : Timed} {m m' : Memory} {action : Action}

theorem Blank.readable (h : Blank m) : Readable m := by
  refine ⟨fun id kept hkep => ?_,fun id kept hkep => ?_,fun entry hent => ?_⟩
  · rw [h.objects] at hkep
    cases hkep
  · rw [h.objects] at hkep
    cases hkep
  · rw [h.preparing] at hent
    cases hent

theorem Blank.armed (h : Blank m) (timer : Option ℕ) (limit : ℕ → ℕ) : Armed timer limit m := by
  intro id kept hpla
  have hmem:=(plan?_eq_some hpla).1
  rw [h.plans] at hmem
  cases hmem

theorem Blank.loadStep (h : Blank m) {rest : List String} {name : String} :
    (loadStep w m rest name pending effect).helper=.down ∨
      ∃ m', (loadStep w m rest name pending effect).helper=.starting rest m' ∧ Blank m' := by
  unfold Ledger.loadStep
  split
  next => exact .inl rfl
  next =>
    simp only []
    split
    next =>
      split
      next => exact .inr ⟨_,rfl,h.objects,h.plans,h.preparing⟩
      next => exact .inl rfl
    next => exact .inr ⟨_,rfl,h.objects,h.plans,h.preparing⟩

/-- The helper that is not up yet has no plans, and a timer only when it is up. -/
def Booted (w : World) : Prop :=
  match w.helper with
  | .down => True
  | .starting _ m => Blank m
  | .up m => Blank m

theorem step_booted (h : Booted w) (hnot : ∀ m, w.helper≠.up m) (hste : step digest w action=some w') :
    Booted w' := by
  cases action with
  | pass =>
    cases hste
    exact h
  | otherLock | otherUnlock =>
    simp only [step] at hste
    split at hste
    next =>
      cases hste
      exact h
    next => cases hste
  | start =>
    simp only [step] at hste
    split at hste
    next =>
      split at hste
      next => cases hste
      next =>
        cases hste
        exact Blank.mk rfl rfl rfl
    next => cases hste
  | load pending effect =>
    simp only [step] at hste
    split at hste
    next name rest m hkin =>
      cases hste
      have hbla : Blank m := by
        rw [Booted,hkin] at h
        exact h
      unfold Booted
      rcases hbla.loadStep with hdow | ⟨m',hsta,hbla⟩
      · rw [hdow]
        trivial
      · rw [hsta]
        exact hbla
    next => cases hste
  | ready =>
    simp only [step] at hste
    split at hste
    next m hkin =>
      cases hste
      rw [Booted,hkin] at h
      exact h
    next => cases hste
  | plan | planned | planFailed | expire | cancel | execute | task =>
    simp only [step] at hste
    cases hste
  | crash effect =>
    cases hste
    trivial

theorem timedStep_cases (hste : s.step digest action=some s') :
    (∃ w, Ledger.step digest s.world action=some w ∧ s'=⟨w,s.rearm digest action w⟩ ∧
      ∀ sessionId request, action=.plan sessionId request → supported request=true) ∨
    ∃ sessionId request m, action=.plan sessionId request ∧ s.world.helper=.up m ∧
      s'=⟨s.world.withMemory (m.expirePlans s.world.now),
        schedulePlanExpiry s.world.now (m.expirePlans s.world.now)⟩ := by
  have hadv (hnot : ∀ sessionId request, action≠.plan sessionId request)
      (hadv : s.advance digest action=some s') : ∃ w, Ledger.step digest s.world action=some w ∧
        s'=⟨w,s.rearm digest action w⟩ ∧
          ∀ sessionId request, action=.plan sessionId request → supported request=true := by
    obtain ⟨w,hw,rfl⟩ := Option.map_eq_some_iff.1 hadv
    exact ⟨w,hw,rfl,fun sessionId request heq => absurd heq (hnot sessionId request)⟩
  cases action with
  | plan sessionId request =>
    simp only [Timed.step] at hste
    split at hste
    next hsup =>
      obtain ⟨w,hw,rfl⟩ := Option.map_eq_some_iff.1 hste
      refine .inl ⟨w,hw,rfl,fun sessionId' request' heq => ?_⟩
      cases heq
      exact hsup
    next =>
      unfold Timed.refuse at hste
      split at hste
      next m hkin =>
        cases hste
        exact .inr ⟨sessionId,request,m,rfl,hkin,rfl⟩
      next => cases hste
  | expire =>
    simp only [Timed.step] at hste
    split at hste
    next => exact .inl (hadv (fun _ _ => Action.noConfusion) hste)
    next => cases hste
  | _ => exact .inl (hadv (fun _ _ => Action.noConfusion) hste)

theorem Armed.later {now later : ℕ} (h : Armed timer (max now) m) (hle : now≤later) : Armed timer (max later) m := by
  intro id kept hpla hidl
  obtain ⟨due,htim,hdue⟩ := h id kept hpla hidl
  exact ⟨due,htim,hdue.trans (max_le_max_right _ hle)⟩

theorem rearm_up (hkin : s.world.helper=.up m) (hkin' : w.helper=.up m') : s.rearm digest action w =
    if reschedules digest s.world m action then schedulePlanExpiry s.world.now m' else s.timer := by
  unfold Timed.rearm
  rw [hkin,hkin']

theorem Sound.booted (h : Sound s) (hnot : ∀ m, s.world.helper≠.up m) : Booted s.world := by
  unfold Sound at h
  unfold Booted
  split at h
  next => trivial
  next => exact h
  next m hkin => exact absurd hkin (hnot m)

theorem Sound.up (h : Sound s) (hkin : s.world.helper=.up m) :
    Readable m ∧ Armed s.timer (max s.world.now) m := by
  rw [Sound,hkin] at h
  exact h

theorem Booted.sound (h : Booted w) (timer : Option ℕ) : Sound ⟨w,timer⟩ := by
  unfold Booted at h
  unfold Sound
  split at h
  next hkin => simp only [hkin]
  next hkin =>
    simp only [hkin]
    exact h
  next hkin =>
    simp only [hkin]
    exact ⟨h.readable,h.armed timer _⟩

theorem Sound.step (h : Sound s) (hstp : s.step digest action=some s') : Sound s' := by
  rcases timedStep_cases hstp with ⟨w,hw,rfl,hsup⟩ | ⟨sessionId,request,m,rfl,hkin,rfl⟩
  · by_cases hnot : ∀ m, s.world.helper≠.up m
    · exact (step_booted (h.booted hnot) hnot hw).sound _
    · obtain ⟨m,hkin⟩ : ∃ m, s.world.helper=.up m := by simpa using hnot
      obtain ⟨hrea,harm⟩ := h.up hkin
      rcases step_stepped hkin hw with hdow | ⟨m',hup,hnow,hste⟩
      · simp only [Sound,hdow]
      · simp only [Sound,hup]
        refine ⟨hrea.stepped hste hsup,?_⟩
        rw [rearm_up hkin hup]
        split
        next => exact (armed_schedule m' s.world.now).later hnow
        next hkee => exact (harm.stepped hste (by simpa using hkee)).later hnow
  · exact ⟨(h.up hkin).1.expirePlans _,armed_schedule _ _⟩

/-- What holds besides when every step is in time. -/
structure Timely (s : Timed) : Prop where
  sound : Sound s
  room : ∀ m, s.world.helper=.up m → m.plans.length≤100
  armed : ∀ m, s.world.helper=.up m → Armed s.timer id m

theorem inTime_up (hkin : s.world.helper=.up m) (h : inTime digest s action=true) :
    ((∃ i id f r, action=.planned i id f r) → m.plans.length<100) ∧
      (action.sweeps=false → reschedules digest s.world m action=true → ∀ id kept, m.plan? id=some kept →
        leavesIdle m action id kept=true → s.world.now≤kept.expiresAt) := by
  unfold inTime at h
  rw [hkin] at h
  simp only [Bool.and_eq_true] at h
  obtain ⟨hroo,htim⟩ := h
  refine ⟨fun ⟨i,id,f,r,heq⟩ => ?_,fun hswe hres id kept hpln hidl => ?_⟩
  · subst heq
    simpa using hroo
  · rw [hswe,hres,Bool.false_or,Bool.not_true,Bool.false_or,all_eq_true] at htim
    have hpla:=htim id (plan?_eq_some hpln).1
    rw [hpln,Option.all_some,hidl] at hpla
    simpa using hpla

theorem Timely.step (h : Timely s) (htim : inTime digest s action=true) (hstp : s.step digest action=some s') :
    Timely s' := by
  have hsou:=h.sound.step hstp
  rcases timedStep_cases hstp with ⟨w,hw,rfl,hsup⟩ | ⟨sessionId,request,m,rfl,hkin,rfl⟩
  · by_cases hnot : ∀ m, s.world.helper≠.up m
    · have hboo:=step_booted (h.sound.booted hnot) hnot hw
      have hbla : ∀ m, w.helper=.up m → Blank m := by
        intro m hup
        rw [Booted,hup] at hboo
        exact hboo
      refine ⟨hsou,fun m hup => ?_,fun m hup => (hbla m hup).armed _ _⟩
      rw [(hbla m hup).plans]
      exact Nat.zero_le 100
    · obtain ⟨m,hkin⟩ : ∃ m, s.world.helper=.up m := by simpa using hnot
      obtain ⟨hroo,hpun⟩ := inTime_up hkin htim
      rcases step_stepped hkin hw with hdow | ⟨m',hup,hnow,hste⟩
      · have hno : ∀ m, w.helper≠.up m := by simp [hdow]
        exact ⟨hsou,fun m hup => absurd hup (hno m),fun m hup => absurd hup (hno m)⟩
      · have hsam : ∀ m'', w.helper=.up m'' → m''=m' := by
          intro m'' hup''
          rw [hup] at hup''
          exact (Helper.up.inj hup'').symm
        refine ⟨hsou,fun m'' hup'' => ?_,fun m'' hup'' => ?_⟩
        · rw [hsam m'' hup'']
          rcases stepped_length hste with hle | ⟨hpla,hlen⟩
          · exact hle.trans (h.room m hkin)
          · have hlt:=hroo hpla
            omega
        · rw [hsam m'' hup'',rearm_up hkin hup]
          split
          next hres =>
            refine (armed_schedule m' s.world.now).in_time fun id kept' hpln hidl => ?_
            rcases stepped_origin hste hpln hidl with ⟨-,hfre⟩ | ⟨kept,hkep,hexp,hcas⟩
            · omega
            · rw [← hexp]
              rcases hcas with ⟨-,hkee⟩ | ⟨-,-,hlas⟩ | ⟨-,hswe,hlea⟩
              · rw [hres] at hkee
                cases hkee
              · exact hlas.le
              · exact hpun hswe hres id kept hkep hlea
          next hkee => exact (h.armed m hkin).stepped hste (by simpa using hkee)
  · refine ⟨hsou,fun m' hup => ?_,fun m' hup => ?_⟩
    · cases hup
      exact (length_expirePlans m _).trans (h.room m hkin)
    · cases hup
      exact (armed_schedule _ _).in_time fun id kept hpln hidl => ((plan?_expirePlans hpln).2 hidl).le

end Runs

section Bounded
variable {digest : String → String} {init s : Timed} {actions : List Action}

theorem sound_initial (hini : (timedSystem digest).initial init) : Sound init := by
  obtain ⟨⟨-,hdow,-⟩,-⟩ := hini
  simp only [Sound,hdow]

/-- In every run: no request outlives its plan and its run, and a timer is armed that is due by the expiry of each plan
that waits, or at once. -/
theorem plans_scrubbed (hini : (timedSystem digest).initial init) (hrun : (timedSystem digest).Run init actions s)
    {m : Memory} (hkin : s.world.helper=.up m) : Scrubbed m ∧ Armed s.timer (max s.world.now) m := by
  have hsou : Sound s := hrun.preserves (fun _ _ _ h hste => h.step hste) (sound_initial hini)
  exact ⟨(hsou.up hkin).1.scrubbed,(hsou.up hkin).2⟩

/-- When plans are retained one at a time below the limit, and none that is left waiting has expired when the timer is
armed, at most 100 are retained and the timer is never late. -/
theorem plans_bounded (digest : String → String) {init s : Timed} {actions : List Action}
    (hinit : (timedSystem digest).initial init)
    (hrun : (timedSystem digest).RunWhere (fun s action => inTime digest s action=true) init actions s) :
    Bounded s := by
  have htim : Timely s := by
    refine hrun.preserves (fun _ _ _ h htie hste => h.step htie hste) ⟨sound_initial hinit,?_,?_⟩
    · intro m hup
      rw [hinit.1.2.1] at hup
      cases hup
    · intro m hup
      rw [hinit.1.2.1] at hup
      cases hup
  exact fun m hkin => ⟨htim.room m hkin,(htim.sound.up hkin).1.scrubbed,htim.armed m hkin⟩

end Bounded

section Example

def exampleTimed : Timed := ⟨exampleWorld,none⟩

def examplePlan : Action := .plan "session" ⟨"process.stop",some "main",[("processId",.text "web")]⟩

def exampleReviewed : List Action :=
  [.start,.ready,examplePlan,.planned 0 "plan" "before" false,.pass 1000,examplePlan,
    .planned 0 "other" "before" false]++exampleAccepting "a" ++ exampleFinish++[.pass 300000,.expire]

theorem plans_bounded_reviewed : ∃ actions s, (timedSystem id).Run exampleTimed actions s ∧ s.world.runs.length=1 ∧
    Bounded s := by
  have hexe : ((timedSystem id).execWhere (inTime id) exampleTimed exampleReviewed).map
      (fun s => s.world.runs.length)=some 1 := by decide
  obtain ⟨s,hs,hlen⟩ := Option.map_eq_some_iff.1 hexe
  have hrun:=TransitionSystem.runWhere_of_exec hs
  exact ⟨_,s,hrun.run,hlen,plans_bounded id ⟨⟨rfl,rfl,Lock.noConfusion,rfl,rfl,rfl,rfl⟩,rfl⟩ hrun⟩

theorem plans_scrubbed_reviewed : ∃ (s : Timed) (m : Memory), s.world.runs.length=1 ∧ s.world.helper=.up m ∧ Scrubbed m := by
  have hexe : ((timedSystem id).exec exampleTimed exampleReviewed).map
      (fun s => (s.world.runs.length,s.world.helper.memory.isSome))=some (1,true) := by decide
  obtain ⟨s,hs,hval⟩ := Option.map_eq_some_iff.1 hexe
  obtain ⟨hlen,hmem⟩ := Prod.mk.inj hval
  cases hup : s.world.helper with
  | up m => exact ⟨s,m,hlen,hup,(plans_scrubbed ⟨⟨rfl,rfl,Lock.noConfusion,rfl,rfl,rfl,rfl⟩,rfl⟩
      (TransitionSystem.run_of_exec hs) hup).1⟩
  | _ => simp [hup,Helper.memory] at hmem

def exampleCrowd (count : ℕ) : List Action :=
  [.start,.ready]++List.replicate count examplePlan ++
    (List.range count).map fun n => .planned 0 (String.ofList (List.replicate n 'a')) "before" false

theorem crowd_exceeds_limit : ∃ actions s, (timedSystem id).Run exampleTimed actions s ∧ ¬ Bounded s := by
  have hexe : ((timedSystem id).exec exampleTimed (exampleCrowd 101)).bind
      (fun s => match s.world.helper with
        | .up m => some m.plans.length
        | _ => none)=some 101 := by decide +kernel
  obtain ⟨s,hs,hlen⟩ := Option.bind_eq_some_iff.1 hexe
  refine ⟨_,s,TransitionSystem.run_of_exec hs,fun hbou => ?_⟩
  split at hlen
  next m hkin =>
    have hlen : m.plans.length=101 := Option.some.inj hlen
    have hle:=(hbou m hkin).1
    omega
  next => cases hlen

end Example

end Qubicl.Cli.Dashboard.Ledger
