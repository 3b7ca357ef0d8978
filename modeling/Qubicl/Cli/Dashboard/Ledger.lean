import Mathlib.Data.List.Sort
import Qubicl.Cli.Dashboard.Requests
import Qubicl.Foundation.StringMap
import Qubicl.Foundation.Transition

/-!
# The acceptance ledger of the dashboard (packages/cli/src/dashboard/application.ts:19-58, 145-294, 334-379)

What a helper keeps of plans, operations and receipts, what is on disk of them, and each moment at which
a call goes on. A helper can crash at any of them; the next one reads the records that are there.
-/

namespace Qubicl.Cli.Dashboard.Ledger
open Foundation

structure Request where
  operation : String
  target : Option String
  input : List (String × InputValue)

def startsWith (text start : String) : Bool := start.toList.isPrefixOf text.toList

/- `sensitive` -/
def sensitivePrefixes : List String :=
  ["credential.","client.","token.","network.","tools.","skills.","skill.","preview.share","dashboard.revoke",
    "gateway.revoke","recovery.resume","backup.create","backup.verify","backup.restore","backup.prune"]

def sensitive (operation : String) : Bool := sensitivePrefixes.any (startsWith operation)

def scrubManagementRequest (request : Request) : Request := { request with input := [] }

structure RetainedPlan where
  request : Request
  sessionId : String
  fingerprint : String
  expiresAt : ℕ
  requiresInterruption : Bool
  evaluating : Bool

def RetainedPlan.scrub (plan : RetainedPlan) : RetainedPlan :=
  { plan with request := scrubManagementRequest plan.request }

inductive JobStatus
  | running | succeeded | failed | recoveryRequired | outcomeUnknown
  deriving DecidableEq, Repr

structure ManagementJob where
  operation : String
  target : Option String
  status : JobStatus
  createdAt : ℕ
  deriving DecidableEq, Repr

structure Acceptance where
  keyHash : String
  planId : String
  deriving DecidableEq, Repr

structure StoredJob where
  job : ManagementJob
  acceptance : Acceptance
  deriving DecidableEq, Repr

structure Execution where
  planId : String
  operationId : String
  deriving DecidableEq, Repr

/- Where an `execute` goes on: at the removal of old records, the state lock, the fingerprint, the record of
the acceptance, the operation itself, the records that a recovery settles, and the record of the outcome. -/
inductive Phase
  | trimming (victims : List String)
  | waiting
  | checking
  | accepting (jobId : String) (job : ManagementJob) (fingerprint : String) (checkedAt : ℕ)
  | running (jobId : String)
  | recovering (jobId : String) (rest : List String)
  | finishing (jobId : String)
  deriving DecidableEq, Repr

structure Task where
  planId : String
  keyHash : String
  sessionId : String
  reauthenticated : Bool
  confirmed : Bool
  phase : Phase
  deriving DecidableEq, Repr

/- `objects` are the plans that were made; `plans` has those that are retained. -/
structure Memory where
  preparing : List (String × Request)
  objects : List (String × RetainedPlan)
  plans : List String
  jobs : List (String × ManagementJob)
  executions : List (String × Execution)
  receipts : List (String × Acceptance)
  busy : Bool
  tasks : List Task

def Memory.empty : Memory := ⟨[],[],[],[],[],[],false,[]⟩

namespace Memory
variable (m : Memory)

def plan? (id : String) : Option RetainedPlan := if id ∈ m.plans then m.objects.lookup id else none

def discardPlan (id : String) : Memory :=
  if id ∈ m.plans then
    { m with objects := mapModify id RetainedPlan.scrub m.objects, plans := m.plans.filter (· ≠ id) }
  else m

def detachPlan (id : String) : Memory := { m with plans := m.plans.filter (· ≠ id) }

def setEvaluating (id : String) (evaluating : Bool) : Memory :=
  { m with objects := mapModify id (fun plan => { plan with evaluating }) m.objects }

def expirable (now : ℕ) (id : String) : Bool := (m.plan? id).any fun plan => !plan.evaluating && plan.expiresAt≤now

def expirePlans (now : ℕ) : Memory := (m.plans.filter (m.expirable now)).foldl discardPlan m

/- The operations that are finished, the oldest first, without the last 500. -/
def trimVictims : List String :=
  let completed:=(m.jobs.filter fun entry =>
    entry.2.status == .succeeded || entry.2.status == .failed || entry.2.status == .outcomeUnknown).insertionSort
      fun a b => a.2.createdAt≤b.2.createdAt
  (completed.take (completed.length - 500)).map Prod.fst

/- After the record of an old operation was removed. -/
def forget (id : String) : Memory :=
  { m with
    executions := match m.receipts.lookup id with
      | some receipt => mapDelete receipt.keyHash m.executions
      | none => m.executions
    receipts := mapDelete id m.receipts
    jobs := mapDelete id m.jobs }

def setStatus (id : String) (status : JobStatus) : Memory :=
  { m with jobs := mapModify id (fun job => { job with status }) m.jobs }

def record (id : String) : Option StoredJob :=
  match m.receipts.lookup id, m.jobs.lookup id with
  | some acceptance, some job => some ⟨job,acceptance⟩
  | _, _ => none

def recoveryRequired : List String := (m.jobs.filter fun entry => entry.2.status == .recoveryRequired).map Prod.fst

def setPhase (i : ℕ) (task : Task) (phase : Phase) : Memory := { m with tasks := m.tasks.set i { task with phase } }

def leave (i : ℕ) : Memory := { m with busy := false, tasks := m.tasks.eraseIdx i }

def abandon (i : ℕ) (task : Task) : Memory :=
  (if task.planId ∈ m.plans then m.setEvaluating task.planId false else m).leave i

end Memory

structure ExecuteCall where
  planId : String
  sessionId : String
  idempotencyKey : Option String
  confirmInterruption : Bool
  reauthenticated : Bool

structure ManagementError where
  code : String
  message : String
  status : ℕ
  deriving DecidableEq, Repr

inductive Reply
  | answered (operationId : String)
  | refused (error : ManagementError)
  | pending
  deriving DecidableEq, Repr

def planExpired : ManagementError := ⟨"plan_expired","Prepare a fresh plan.",409⟩

/- `/^[a-zA-Z0-9_-]{16,100}$/u` -/
def idempotencyKeyPattern (key : String) : Bool :=
  decide (16≤key.toList.length) && decide (key.toList.length≤100) &&
    key.toList.all fun c => c.isAlphanum || c == '_' || c == '-'

section Execute
variable (digest : String → String) (now : ℕ) (call : ExecuteCall) (m : Memory)

def keyHash (key : String) : String := digest (call.sessionId ++ ":" ++ key)

def admitPlan (keyHash : String) (plan : RetainedPlan) : Memory × Reply :=
  if plan.sessionId≠call.sessionId then (m,.refused planExpired)
  else if plan.expiresAt≤now then (m.discardPlan call.planId,.refused planExpired)
  else if sensitive plan.request.operation && !call.reauthenticated then
    (m,.refused ⟨"reauthentication_required","Re-enter the administrator password before this change.",403⟩)
  else if plan.requiresInterruption && !call.confirmInterruption then
    (m,.refused ⟨"interruption_confirmation_required","Confirm interruption of active work.",409⟩)
  else if m.busy then (m,.refused ⟨"operation_busy","Another management operation is running.",409⟩)
  else
    ({ m.setEvaluating call.planId true with
      busy := true
      tasks := m.tasks++[⟨call.planId,keyHash,call.sessionId,call.reauthenticated,call.confirmInterruption,
        .trimming m.trimVictims⟩] },.pending)

/-- `execute`, up to its first suspension. -/
def execute : Memory × Reply :=
  match call.idempotencyKey.filter idempotencyKeyPattern with
  | none => (m,.refused ⟨"invalid_idempotency_key","Provide a bounded idempotency key.",400⟩)
  | some key =>
    match m.executions.lookup (keyHash digest call key) with
    | some previous =>
      if previous.planId≠call.planId then
        (m,.refused ⟨"idempotency_conflict","This key belongs to a different plan.",409⟩)
      else (m,.answered previous.operationId)
    | none =>
      match m.plan? call.planId with
      | none => (m,.refused planExpired)
      | some plan => admitPlan now call m (keyHash digest call key) plan

end Execute

inductive Lock
  | free | helper | other
  deriving DecidableEq, Repr

inductive Helper
  | down
  | starting (rest : List String) (memory : Memory)
  | up (memory : Memory)

structure Prepared where
  id : String
  sessionId : String
  request : Request
  fingerprint : String
  expiresAt : ℕ
  requiresInterruption : Bool
  instance_ : ℕ

structure RunRecord where
  planId : String
  sessionId : String
  reauthenticated : Bool
  confirmed : Bool
  fingerprint : String
  checkedAt : ℕ
  request : Request
  instance_ : ℕ

structure Answer where
  keyHash : String
  planId : String
  operationId : String
  deriving DecidableEq, Repr

/- From `instances` on nothing is read by the code: how many helpers there were, the UUIDs that were drawn, and
what was prepared, run and answered. -/
structure World where
  now : ℕ
  lock : Lock
  disk : List (String × StoredJob)
  helper : Helper
  instances : ℕ
  issued : List String
  prepared : List Prepared
  runs : List RunRecord
  answers : List Answer

/- How a write or a removal ends: with its effect, or with an error before it or after it. -/
inductive Effect
  | done | failedBefore | failedAfter
  deriving DecidableEq, Repr

/- What a suspended call goes on with. `pending` is what `pendingManagementRecovery` finds. -/
inductive Event
  | trim (effect : Effect)
  | lock (acquired : Bool)
  | fingerprint (value : Option String) (jobId : String)
  | acceptance (effect : Effect)
  | runDone (succeeded pending : Bool)
  | recovered (effect : Effect) (pending : Bool)
  | finished (effect : Effect)
  deriving DecidableEq, Repr

inductive Action
  | pass (elapsed : ℕ)
  | otherLock
  | otherUnlock
  | start
  | load (pending : Bool) (effect : Effect)
  | ready
  | plan (sessionId : String) (request : Request)
  | planned (i : ℕ) (id fingerprint : String) (requiresInterruption : Bool)
  | planFailed (i : ℕ)
  | expire
  | cancel (planId sessionId : String)
  | execute (call : ExecuteCall)
  | task (i : ℕ) (event : Event)
  | crash (effect : Bool)

def Effect.write (effect : Effect) (id : String) (stored : StoredJob) (disk : List (String × StoredJob)) :
    List (String × StoredJob) :=
  match effect with
  | .failedBefore => disk
  | _ => mapSet id stored disk

def World.withMemory (w : World) (m : Memory) : World := { w with helper := .up m }

def sortedNames (disk : List (String × StoredJob)) : List String := (disk.map Prod.fst).insertionSort (· ≤ ·)

section Steps
variable (w : World) (m : Memory) (i : ℕ) (task : Task)

def release (m : Memory) : World := { w with lock := .free, helper := .up m }

def trimStep (effect : Effect) : List String → World
  | [] =>
    if 1000 ≤ m.jobs.length then w.withMemory ((m.setEvaluating task.planId false).leave i)
    else w.withMemory (m.setPhase i task .waiting)
  | victim::rest =>
    let failed:=(m.setEvaluating task.planId false).leave i
    if (w.disk.lookup victim).isNone then w.withMemory failed
    else match effect with
      | .done => { w with disk := mapDelete victim w.disk, helper := .up ((m.forget victim).setPhase i task (.trimming rest)) }
      | .failedBefore => w.withMemory failed
      | .failedAfter => { w with disk := mapDelete victim w.disk, helper := .up failed }

def lockStep (acquired : Bool) : Option World :=
  if !acquired then some (w.withMemory (m.abandon i task))
  else if w.lock≠.free then none
  else match m.objects.lookup task.planId with
    | none => none
    | some plan =>
      if plan.expiresAt≤w.now then some (w.withMemory ((m.discardPlan task.planId).abandon i task))
      else some { w with lock := .helper, helper := .up (m.setPhase i task .checking) }

/- Neither may it have changed, nor expired meanwhile. -/
def fingerprintStep (value : Option String) (jobId : String) : Option World :=
  match m.objects.lookup task.planId with
  | none => none
  | some plan =>
    match value with
    | none => some (release w (m.abandon i task))
    | some value =>
      if value≠plan.fingerprint then some (release w ((m.discardPlan task.planId).abandon i task))
      else if plan.expiresAt≤w.now then some (release w ((m.discardPlan task.planId).abandon i task))
      else if jobId ∈ w.issued then none
      else
        let job : ManagementJob := ⟨plan.request.operation,plan.request.target,.running,w.now⟩
        some { w with
          issued := jobId::w.issued
          helper := .up ({ m with receipts := mapSet jobId ⟨task.keyHash,task.planId⟩ m.receipts }.setPhase i task
            (.accepting jobId job value w.now)) }

/- The acceptance is recorded: the call is answered and the operation begins. -/
def acceptanceStep (jobId : String) (job : ManagementJob) (fingerprint : String) (checkedAt : ℕ) (effect : Effect) :
    Option World :=
  match m.objects.lookup task.planId with
  | none => none
  | some plan =>
    let disk:=effect.write jobId ⟨job,task.keyHash,task.planId⟩ w.disk
    match effect with
    | .done => some { w with
        disk := disk
        helper := .up (({ m with
          jobs := mapSet jobId job m.jobs
          executions := mapSet task.keyHash ⟨task.planId,jobId⟩ m.executions }.detachPlan task.planId).setPhase i task
            (.running jobId))
        runs := ⟨task.planId,task.sessionId,task.reauthenticated,task.confirmed,fingerprint,checkedAt,plan.request,
          w.instances⟩::w.runs
        answers := ⟨task.keyHash,task.planId,jobId⟩::w.answers }
    | _ => some { release w (m.abandon i task) with disk := disk }

def failedStatus (pending : Bool) : JobStatus := if pending then .recoveryRequired else .failed

def settle (m : Memory) (jobId : String) (status : JobStatus) : World :=
  w.withMemory ({ m.setStatus jobId status with objects := mapModify task.planId RetainedPlan.scrub m.objects }.setPhase
    i task (.finishing jobId))

def runStep (jobId : String) (succeeded pending : Bool) : Option World :=
  match m.objects.lookup task.planId with
  | none => none
  | some plan =>
    if !succeeded then some (settle w i task m jobId (failedStatus pending))
    else if plan.request.operation = "recovery.resume" then
      some (w.withMemory (m.setPhase i task (.recovering jobId m.recoveryRequired)))
    else some (settle w i task m jobId .succeeded)

/- `persist` of what is in memory; without a receipt it throws. -/
def persist (m : Memory) (id : String) (effect : Effect) (disk : List (String × StoredJob)) :
    List (String × StoredJob) × Bool :=
  match m.record id with
  | none => (disk,false)
  | some stored => (effect.write id stored disk,effect == .done)

def recoverStep (jobId : String) (effect : Effect) (pending : Bool) : List String → World
  | [] => settle w i task m jobId .succeeded
  | earlier::rest =>
    let m:=m.setStatus earlier .failed
    let (disk,done) := persist m earlier effect w.disk
    let w:={ w with disk := disk }
    if done then w.withMemory (m.setPhase i task (.recovering jobId rest))
    else settle w i task m jobId (failedStatus pending)

def finishStep (jobId : String) (effect : Effect) : World :=
  { release w (m.leave i) with disk := (persist m jobId effect w.disk).1 }

def taskStep : Event → Option World
  | .trim effect => match task.phase with
    | .trimming victims => some (trimStep w m i task effect victims)
    | _ => none
  | .lock acquired => if task.phase=.waiting then lockStep w m i task acquired else none
  | .fingerprint value jobId => if task.phase=.checking then fingerprintStep w m i task value jobId else none
  | .acceptance effect => match task.phase with
    | .accepting jobId job fingerprint checkedAt => acceptanceStep w m i task jobId job fingerprint checkedAt effect
    | _ => none
  | .runDone succeeded pending => match task.phase with
    | .running jobId => runStep w m i task jobId succeeded pending
    | _ => none
  | .recovered effect pending => match task.phase with
    | .recovering jobId rest => some (recoverStep w m i task jobId effect pending rest)
    | _ => none
  | .finished effect => match task.phase with
    | .finishing jobId => some (finishStep w m i jobId effect)
    | _ => none

/- One record of `initialize`; an operation that was running is settled. -/
def loadStep (rest : List String) (name : String) (pending : Bool) (effect : Effect) : World :=
  match w.disk.lookup name with
  | none => { w with helper := .down }
  | some stored =>
    let m:={ m with
      receipts := mapSet name stored.acceptance m.receipts
      executions := mapSet stored.acceptance.keyHash ⟨stored.acceptance.planId,name⟩ m.executions }
    if stored.job.status=.running then
      let job:={ stored.job with status := if pending then .recoveryRequired else .outcomeUnknown }
      let w:={ w with disk := effect.write name ⟨job,stored.acceptance⟩ w.disk }
      if effect=.done then { w with helper := .starting rest { m with jobs := mapSet name job m.jobs } }
      else { w with helper := .down }
    else { w with helper := .starting rest { m with jobs := mapSet name stored.job m.jobs } }

def inFlight (m : Memory) (disk : List (String × StoredJob)) (task : Task) : List (String × StoredJob) :=
  match task.phase with
  | .trimming (victim::_) => mapDelete victim disk
  | .accepting jobId job _ _ => mapSet jobId ⟨job,task.keyHash,task.planId⟩ disk
  | .recovering _ (earlier::_) => (persist (m.setStatus earlier .failed) earlier .done disk).1
  | .finishing jobId => (persist m jobId .done disk).1
  | _ => disk

end Steps

/-- One action; a lock whose holder has crashed is free. -/
def step (digest : String → String) (w : World) : Action → Option World
  | .pass elapsed => some { w with now := w.now+elapsed }
  | .otherLock => if w.lock=.free then some { w with lock := .other } else none
  | .otherUnlock => if w.lock=.other then some { w with lock := .free } else none
  | .start => match w.helper with
    | .down =>
      if 1000<w.disk.length then none
      else some { w with helper := .starting (sortedNames w.disk) .empty, instances := w.instances+1 }
    | _ => none
  | .load pending effect => match w.helper with
    | .starting (name::rest) m => some (loadStep w m rest name pending effect)
    | _ => none
  | .ready => match w.helper with
    | .starting [] m => some (w.withMemory m)
    | _ => none
  | .plan sessionId request => match w.helper with
    | .up m =>
      let m:=m.expirePlans w.now
      if 100 ≤ m.plans.length then some (w.withMemory m)
      else some (w.withMemory { m with preparing := m.preparing++[(sessionId,request)] })
    | _ => none
  | .planned i id fingerprint requiresInterruption => match w.helper with
    | .up m => match m.preparing[i]? with
      | some (sessionId,request) =>
        if id ∈ w.issued then none
        else some { w with
          issued := id::w.issued
          prepared := ⟨id,sessionId,request,fingerprint,w.now+300000,requiresInterruption,w.instances⟩::w.prepared
          helper := .up { m with
            preparing := m.preparing.eraseIdx i
            objects := mapSet id ⟨request,sessionId,fingerprint,w.now+300000,requiresInterruption,false⟩ m.objects
            plans := m.plans++[id] } }
      | none => none
    | _ => none
  | .planFailed i => match w.helper with
    | .up m => some (w.withMemory { m with preparing := m.preparing.eraseIdx i })
    | _ => none
  | .expire => match w.helper with
    | .up m => some (w.withMemory (m.expirePlans w.now))
    | _ => none
  | .cancel planId sessionId => match w.helper with
    | .up m => match m.plan? planId with
      | some plan =>
        if plan.sessionId≠sessionId ∨ plan.evaluating=true then some w
        else some (w.withMemory (m.discardPlan planId))
      | none => some w
    | _ => none
  | .execute call => match w.helper with
    | .up m =>
      let (m',reply) := execute digest w.now call m
      match reply, call.idempotencyKey with
      | .answered operationId, some key => some { w.withMemory m' with
          answers := ⟨keyHash digest call key,call.planId,operationId⟩::w.answers }
      | _, _ => some (w.withMemory m')
    | _ => none
  | .task i event => match w.helper with
    | .up m => match m.tasks[i]? with
      | some task => taskStep w m i task event
      | none => none
    | _ => none
  | .crash effect =>
    let disk:=match w.helper with
      | .up m => if effect then m.tasks.foldl (inFlight m) w.disk else w.disk
      | _ => w.disk
    some { w with disk := disk, helper := .down, lock := if w.lock=.helper then .free else w.lock }

/-- Nothing on disk and no helper yet. -/
def system (digest : String → String) : TransitionSystem World Action where
  initial w := w.disk=[] ∧ w.helper=.down ∧ w.lock≠.helper ∧ w.issued=[] ∧ w.prepared=[] ∧ w.runs=[] ∧ w.answers=[]
  step := step digest

end Qubicl.Cli.Dashboard.Ledger
