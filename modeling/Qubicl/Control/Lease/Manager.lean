import Mathlib.Algebra.GroupWithZero.Nat
import Mathlib.Data.List.Basic

/-!
# The lease manager (packages/control/src/lease.ts)

Data of `LeaseManager` and its methods, each as the source computes it. A
method is synchronous up to its first `await`, so it maps the state before the
call to the state after it. What an `await` leaves behind is explicit: the
promises that `enqueueRevocations` chains are kept in `jobs`, and the rest of a
`takeHumanControl` that waits for one of them is kept in `takeovers`.

Instants are milliseconds and stay unformatted: where the source prints
`expiresAt` as an ISO date, the model keeps the number it prints. Durations are
whole seconds, as both callers validate them (tools.ts:149,156).
-/

namespace Qubicl.Control

/-- What `randomBytes(n).toString('base64url')` can return. -/
structure Base64Url where
  text : String
  alphabet : ∀ c ∈ text.toList, c.isAlphanum ∨ c = '-' ∨ c = '_'
  deriving DecidableEq

theorem alphabet_of_all {text : String}
    (h : (text.toList.all fun c => c.isAlphanum || c == '-' || c == '_')=true) :
    ∀ c ∈ text.toList, c.isAlphanum ∨ c = '-' ∨ c = '_' := by
  intro c hc
  have := List.all_eq_true.mp h c hc
  simpa [or_assoc] using this

theorem alphabet_a : ∀ c ∈ "a".toList, c.isAlphanum ∨ c = '-' ∨ c = '_' := alphabet_of_all (by decide)

theorem alphabet_b : ∀ c ∈ "b".toList, c.isAlphanum ∨ c = '-' ∨ c = '_' := alphabet_of_all (by decide)

theorem alphabet_c : ∀ c ∈ "c".toList, c.isAlphanum ∨ c = '-' ∨ c = '_' := alphabet_of_all (by decide)

theorem alphabet_f : ∀ c ∈ "f".toList, c.isAlphanum ∨ c = '-' ∨ c = '_' := alphabet_of_all (by decide)

theorem alphabet_x : ∀ c ∈ "x".toList, c.isAlphanum ∨ c = '-' ∨ c = '_' := alphabet_of_all (by decide)

/-- `LeaseProofSchema` (tools.ts:16-20), without its length bounds: the manager
itself never checks them. -/
structure LeaseProof where
  id : String
  generation : ℕ
  epoch : String
  deriving DecidableEq, Repr

inductive LeaseActorProtocol
  | mcp | openapi | openTerminal
  deriving DecidableEq, Repr

structure LeaseActor where
  protocol : LeaseActorProtocol
  untrustedLabel : String
  deriving DecidableEq, Repr

structure Lease extends LeaseProof where
  expiresAt : ℤ
  durationMs : ℤ
  backgroundOnly : Bool
  actor : Option LeaseActor
  deriving DecidableEq, Repr

inductive Controller
  | none | agent | human
  deriving DecidableEq, Repr

inductive Fencing
  | inProgress | failed
  deriving DecidableEq, Repr

structure LeaseSnapshot where
  epoch : String
  generation : ℕ
  controller : Controller
  expiresAt : Option ℤ
  actor : Option LeaseActor
  backgroundAgent : Bool
  fencing : Option Fencing
  deriving DecidableEq, Repr

/-- The proof a client receives, with the deadline it was given. -/
structure PublicLease extends LeaseProof where
  expiresAt : ℤ
  deriving DecidableEq, Repr

structure RevocationTarget where
  proof : Option LeaseProof
  invokeWithoutProof : Bool
  deriving DecidableEq, Repr

/-- `!target.proof && !target.invokeWithoutProof`: nothing to call the handler for. -/
def RevocationTarget.idle (target : RevocationTarget) : Bool :=
  target.proof.isNone && !target.invokeWithoutProof


structure LeaseWaiter where
  waiter : ℕ
  durationSeconds : ℤ
  actor : Option LeaseActor
  deriving DecidableEq, Repr

inductive Detail
  | text (value : String)
  | count (value : ℕ)
  | instant (value : ℤ)
  | owner (protocol : String) (untrustedLabel : String)
  deriving DecidableEq, Repr

/-- `QubiclError` (errors.ts:1-11). -/
structure QubiclError where
  code : String
  message : String
  status : ℕ
  details : List (String × Detail) := []
  deriving DecidableEq, Repr

def LeaseActorProtocol.text : LeaseActorProtocol → String
  | .mcp => "mcp"
  | .openapi => "openapi"
  | .openTerminal => "open-terminal"

def LeaseActor.detail (actor : LeaseActor) : Detail :=
  .owner actor.protocol.text actor.untrustedLabel

def leaseTransition : QubiclError :=
  ⟨"lease_transition","The previous controller is still being fenced; retry shortly.",409,[]⟩

def leaseFencingFailed : QubiclError :=
  ⟨"lease_fencing_failed","The previous controller could not be fully fenced. Retry human takeover or operator recovery before acquiring control.",409,[]⟩

def leaseQueueActive (queuedClients : ℕ) : QubiclError :=
  ⟨"lease_queue_active","Other clients are already waiting for input ownership.",409,
    [("category",.text "ownership"),("queuedClients",.count queuedClients),
      ("remedy",.text "retry-with-wait")]⟩

def leaseWaitTimeout (currentOwner : Option LeaseActor) : QubiclError :=
  ⟨"lease_wait_timeout","Input ownership did not become available before the requested wait ended.",409,
    [("category",.text "ownership")] ++
      (currentOwner.map fun actor => ("currentOwner",actor.detail)).toList ++
      [("remedy",.text "retry-or-use-background-task")]⟩

def staleLease : QubiclError :=
  ⟨"stale_lease","The lease proof is missing, expired, preempted, or stale.",409,[]⟩

def humanControlActive : QubiclError :=
  ⟨"human_control_active","A human currently owns interactive input. Background work and observations remain available.",409,
    [("category",.text "ownership"),("currentOwner",.owner "viewer" "Human desktop viewer"),
      ("remedy",.text "continue-with-observation-or-retained-task")]⟩

def backgroundLease : QubiclError :=
  ⟨"background_lease","This lease was acquired for background work during human control. Release it and acquire interactive input again.",409,
    [("category",.text "ownership"),("remedy",.text "release-and-reacquire-after-human-control")]⟩

def invalidActor : QubiclError :=
  ⟨"invalid_arguments","Lease actor attribution is invalid.",400,[]⟩

/-- Length in UTF-16 code units, the `length` of a JavaScript string. -/
def utf16Length (text : String) : ℕ :=
  (text.toList.map fun c => if c.val<0x10000 then 1 else 2).sum

/-- The protocol check of the source is the type of `protocol` here (lease.ts:345-358). -/
def validateLeaseActor (actor : LeaseActor) : Except QubiclError LeaseActor :=
  if utf16Length actor.untrustedLabel<1 ∨ 120<utf16Length actor.untrustedLabel ∨
      actor.untrustedLabel.toList.any (fun c => c.val≤0x1f || c.val == 0x7f) then
    .error invalidActor
  else .ok actor

def sameProof (left right : LeaseProof) : Bool :=
  left.id == right.id && left.generation == right.generation && left.epoch == right.epoch

/-- The template string that names a target (lease.ts:330-334). -/
def RevocationTarget.key (target : RevocationTarget) : List Char :=
  match target.proof with
  | some proof =>
    proof.epoch.toList ++ ':' :: (Nat.toDigits 10 proof.generation ++ ':' :: proof.id.toList)
  | none => if target.invokeWithoutProof then "without-proof".toList else "noop".toList

/-- The first target of every key is kept, in order (lease.ts:327-338). -/
def deduplicateTargets : List RevocationTarget → List RevocationTarget := go []
where
  go (seen : List (List Char)) : List RevocationTarget → List RevocationTarget
    | [] => []
    | target::rest =>
      if target.key ∈ seen then go seen rest
      else target::go (target.key::seen) rest

inductive HandlerError
  | error (message : String)
  deriving DecidableEq, Repr

/-- What one call of the revocation handler ends with. -/
inductive HandlerOutcome
  | resolved (terminatedManagedProcesses : ℕ)
  | rejected (error : HandlerError)
  deriving DecidableEq, Repr

/- One `pending` promise of `enqueueRevocations` (lease.ts:278-303). In
`draining` the loop is about to look at `rest`; in `calling` it awaits
`onRevoked(target.proof)`. -/
inductive RevocationPhase
  | waiting
  | draining (rest : List RevocationTarget) (terminated : ℕ) (failure : Option HandlerError)
  | calling (target : RevocationTarget) (rest : List RevocationTarget) (terminated : ℕ)
      (failure : Option HandlerError)
  | fulfilled (terminated : ℕ)
  | rejected (failure : HandlerError)
  deriving DecidableEq, Repr

structure RevocationJob where
  previous : Option ℕ
  targets : List RevocationTarget
  phase : RevocationPhase
  /-- whether the callback of `void pending.then(...)` has run -/
  observed : Bool
  deriving DecidableEq, Repr

def RevocationPhase.settled : RevocationPhase → Bool
  | .fulfilled _ | .rejected _ => true
  | _ => false

/- Where a `takeHumanControl` is suspended: at `await this.revocation` while a
human already was in control, or at the revocation it requested itself. -/
inductive Takeover
  | current (promise : ℕ)
  | own (promise : ℕ)
  deriving DecidableEq, Repr

/- What happened, newest first. The log is not read by any method: it is the
history that the properties of whole runs are about. -/
inductive LeaseEvent
  | epochDrawn (epoch : String)
  | granted (proof : LeaseProof) (human : Bool)
  | left (proof : LeaseProof)
  | invoked (target : RevocationTarget)
  | resolved (target : RevocationTarget)
  | rejected (target : RevocationTarget)
  | takeover
  | queued (waiter : ℕ)
  | waiterGranted (waiter : ℕ) (proof : LeaseProof)
  | waiterRejected (waiter : ℕ)
  | waiterTimedOut (waiter : ℕ)
  deriving DecidableEq, Repr

structure LeaseManager where
  now : ℤ
  epoch : String
  generation : ℕ
  lease : Option Lease
  human : Bool
  /-- the expiry timer is armed -/
  timer : Bool
  revocation : Option ℕ
  failedRevocations : List RevocationTarget
  waiters : List LeaseWaiter
  nextWaiter : ℕ
  jobs : ℕ → Option RevocationJob
  nextPromise : ℕ
  takeovers : List Takeover
  log : List LeaseEvent

namespace LeaseManager

def create (now : ℤ) (epoch : Base64Url) : LeaseManager where
  now := now
  epoch := epoch.text
  generation := 0
  lease := none
  human := false
  timer := false
  revocation := none
  failedRevocations := []
  waiters := []
  nextWaiter := 0
  jobs := fun _ => none
  nextPromise := 0
  takeovers := []
  log := [.epochDrawn epoch.text]

def record (m : LeaseManager) (events : List LeaseEvent) : LeaseManager :=
  { m with log := events++m.log }

def departure (lease : Option Lease) : List LeaseEvent :=
  (lease.map fun lease => LeaseEvent.left lease.toLeaseProof).toList

/-- `this.lease = undefined` together with the `clearTimer()` that follows it
on every path. -/
def vacate (m : LeaseManager) : LeaseManager :=
  { m with
    lease := none
    timer := false
    log := departure m.lease++m.log }

def setPhase (m : LeaseManager) (p : ℕ) (job : RevocationJob)
    (phase : RevocationPhase) : LeaseManager :=
  { m with jobs := Function.update m.jobs p (some { job with phase := phase }) }

/-- lease.ts:278-303 up to the return of `pending`. -/
def enqueueRevocations (targets : List RevocationTarget) (m : LeaseManager) : LeaseManager :=
  { m with
    jobs := Function.update m.jobs m.nextPromise (some ⟨m.revocation,targets,.waiting,false⟩)
    nextPromise := m.nextPromise+1
    revocation := some m.nextPromise }

def targetOf (lease : Option Lease) (invokeWithoutProof : Bool) : RevocationTarget :=
  ⟨lease.map Lease.toLeaseProof,invokeWithoutProof⟩

/-- `revoke` (lease.ts:265-267). -/
def revoke (lease : Option Lease) (invokeWithoutProof : Bool) (m : LeaseManager) : LeaseManager :=
  enqueueRevocations [targetOf lease invokeWithoutProof] m

/-- lease.ts:242-250. -/
def expireIfNeeded (m : LeaseManager) : LeaseManager :=
  match m.lease with
  | none => m
  | some lease =>
    if lease.expiresAt > m.now then m
    else revoke (some lease) false { m.vacate with generation := m.generation+1 }

/-- The loop of the queued function (lease.ts:285-297) up to its next `await`
or its end: targets without work are skipped, the next target is handed to the
handler, and after the last one the promise settles. -/
def drain (p : ℕ) (job : RevocationJob) (terminated : ℕ) (failure : Option HandlerError) :
    List RevocationTarget → LeaseManager → LeaseManager
  | [], m =>
    match failure with
    | some error => m.setPhase p job (.rejected error)
    | none => m.setPhase p job (.fulfilled terminated)
  | target::rest, m =>
    if target.idle then
      drain p job terminated failure rest m
    else
      (m.setPhase p job (.calling target rest terminated failure)).record [.invoked target]

/-- The promise a job is chained to, if any, has settled. -/
def previousSettled (m : LeaseManager) (job : RevocationJob) : Bool :=
  job.previous.all fun q => (m.jobs q).any fun before => before.phase.settled

/-- `previous` has settled, so the queued function starts (lease.ts:280-283). -/
def startRevocation (p : ℕ) (m : LeaseManager) : Option LeaseManager :=
  match m.jobs p with
  | none => none
  | some job =>
    if job.phase=.waiting ∧ m.previousSettled job=true then
      let requested:=deduplicateTargets (m.failedRevocations++job.targets)
      some (drain p job 0 none requested { m with failedRevocations := [] })
    else none

/-- The awaited `onRevoked(target.proof)` settles (lease.ts:287-293). -/
def settleHandler (p : ℕ) (outcome : HandlerOutcome) (m : LeaseManager) :
    Option LeaseManager :=
  match m.jobs p with
  | some job =>
    match job.phase, outcome with
    | .calling target rest terminated failure, .resolved n =>
      some (drain p job (terminated+n) failure rest (m.record [.resolved target]))
    | .calling target rest terminated failure, .rejected error =>
      some (drain p job terminated (failure <|> some error) rest
        { m.record [.rejected target] with
          failedRevocations := m.failedRevocations++[target] })
    | _, _ => none
  | none => none

def publicLease (lease : Lease) : PublicLease :=
  { lease.toLeaseProof with expiresAt := lease.expiresAt }

/-- lease.ts:119-133. The generation is bumped before the actor is validated;
`id` is the next draw of `randomBytes(32)`. -/
def grant (durationSeconds : ℤ) (actor : Option LeaseActor) (id : Base64Url) (m : LeaseManager) :
    LeaseManager × Except QubiclError PublicLease :=
  let generation:=m.generation+1
  let durationMs:=durationSeconds*1000
  match actor.mapM validateLeaseActor with
  | .error error => ({ m with generation := generation },.error error)
  | .ok validated =>
    let lease : Lease :=
      { id := id.text, generation := generation, epoch := m.epoch,
        expiresAt := m.now+durationMs, durationMs := durationMs,
        backgroundOnly := m.human, actor := validated }
    ({ m with
        generation := generation
        lease := some lease
        timer := true
        log := .granted lease.toLeaseProof m.human::m.log },
      .ok (publicLease lease))

/-- lease.ts:319-325. -/
def drainWaiters (id : Base64Url) (m : LeaseManager) : LeaseManager :=
  let m:=m.expireIfNeeded
  if m.lease.isSome || m.revocation.isSome || !m.failedRevocations.isEmpty then m
  else match m.waiters with
    | [] => m
    | waiter::rest =>
      match grant waiter.durationSeconds waiter.actor id { m with waiters := rest } with
      | (m,.ok lease) => m.record [.waiterGranted waiter.waiter lease.toLeaseProof]
      | (m,.error _) => m.record [.waiterRejected waiter.waiter]

/-- The callback of `void pending.then(...)` (lease.ts:299-304): `drainWaiters`
runs only when `pending` was fulfilled. -/
def observeRevocation (p : ℕ) (id : Base64Url) (m : LeaseManager) : Option LeaseManager :=
  match m.jobs p with
  | none => none
  | some job =>
    if job.phase.settled && !job.observed then
      let m:={ m with
        jobs := Function.update m.jobs p (some { job with observed := true })
        revocation := if m.revocation=some p then none else m.revocation }
      match job.phase with
      | .fulfilled _ => some (drainWaiters id m)
      | _ => some m
    else none

/-- lease.ts:67-81. -/
def snapshot (m : LeaseManager) : LeaseManager × LeaseSnapshot :=
  let m:=m.expireIfNeeded
  (m, { epoch := m.epoch
        generation := m.generation
        controller :=
          if m.human then .human
          else match m.lease with
            | some lease => if lease.backgroundOnly then .none else .agent
            | none => .none
        expiresAt := m.lease.map Lease.expiresAt
        actor := m.lease.bind Lease.actor
        backgroundAgent := (m.lease.map Lease.backgroundOnly).getD false
        fencing :=
          if m.revocation.isSome then some .inProgress
          else if !m.failedRevocations.isEmpty then some .failed
          else none })

/-- lease.ts:135-144. -/
def unavailableError (m : LeaseManager) : LeaseManager × QubiclError :=
  let (m,snapshot) := m.snapshot
  (m,⟨"lease_unavailable","This computer already has an active agent lease.",409,
    [("category",.text "ownership")] ++
      (snapshot.actor.map fun actor => ("currentOwner",actor.detail)).toList ++
      (snapshot.expiresAt.map fun instant => ("expiresAt",Detail.instant instant)).toList ++
      [("queuedClients",.count m.waiters.length),
        ("remedy",.text "wait-release-or-run-observation")]⟩)

/-- lease.ts:83-90. -/
def acquire (durationSeconds : ℤ) (actor : Option LeaseActor) (id : Base64Url) (m : LeaseManager) :
    LeaseManager × Except QubiclError PublicLease :=
  let m:=m.expireIfNeeded
  if m.revocation.isSome then (m,.error leaseTransition)
  else if !m.failedRevocations.isEmpty then (m,.error leaseFencingFailed)
  else if m.lease.isSome then
    let (m,error) := m.unavailableError
    (m,.error error)
  else if !m.waiters.isEmpty then (m,.error (leaseQueueActive m.waiters.length))
  else grant durationSeconds actor id m

/-- The promise `acquireWaiting` returns: settled at once, or the queue entry
that settles it later. -/
inductive Acquired
  | settled (result : Except QubiclError PublicLease)
  | queued (waiter : ℕ)

/-- lease.ts:92-117. -/
def acquireWaiting (durationSeconds : ℤ) (actor : Option LeaseActor) (waitSeconds : ℤ)
    (id : Base64Url) (m : LeaseManager) : LeaseManager × Acquired :=
  let m:=m.expireIfNeeded
  if waitSeconds≤0 then
    let (m,result) := acquire durationSeconds actor id m
    (m,.settled result)
  else if m.lease.isNone && m.revocation.isNone && m.failedRevocations.isEmpty && m.waiters.isEmpty then
    let (m,result) := grant durationSeconds actor id m
    (m,.settled result)
  else
    match actor.mapM validateLeaseActor with
    | .error error => (m,.settled (.error error))
    | .ok validated =>
      let waiter : LeaseWaiter := ⟨m.nextWaiter,durationSeconds,validated⟩
      let m:={ m with
        waiters := m.waiters++[waiter]
        nextWaiter := m.nextWaiter+1
        log := .queued waiter.waiter::m.log }
      (drainWaiters id m,.queued waiter.waiter)

/-- The timer of a queued waiter (lease.ts:104-113). It is cleared when the
waiter leaves the queue, so it fires only for one that is still in it. -/
def waiterTimeout (waiter : ℕ) (m : LeaseManager) : Option (LeaseManager × QubiclError) :=
  if m.waiters.any (fun w => w.waiter == waiter) then
    let m:={ m with
      waiters := m.waiters.eraseP (fun w => w.waiter == waiter)
      log := .waiterTimedOut waiter::m.log }
    let (m,first) := m.snapshot
    match first.actor with
    | none => some (m,leaseWaitTimeout none)
    | some _ =>
      let (m,second) := m.snapshot
      some (m,leaseWaitTimeout second.actor)
  else none

/-- lease.ts:146-157. -/
def verify (proof : LeaseProof) (renewActivity : Bool) (m : LeaseManager) :
    LeaseManager × Except QubiclError LeaseProof :=
  let m:=m.expireIfNeeded
  match m.lease with
  | none => (m,.error staleLease)
  | some lease =>
    if proof.epoch≠m.epoch ∨ proof.id≠lease.id ∨ proof.generation≠lease.generation then
      (m,.error staleLease)
    else
      let m:=if renewActivity then
          { m with lease := some { lease with expiresAt := m.now+lease.durationMs }, timer := true }
        else m
      (m,.ok lease.toLeaseProof)

/-- lease.ts:159-171. -/
def verifyInteractive (proof : LeaseProof) (m : LeaseManager) :
    LeaseManager × Except QubiclError LeaseProof :=
  match verify proof false m with
  | (m,.error error) => (m,.error error)
  | (m,.ok verified) =>
    if m.human then (m,.error humanControlActive)
    else if (m.lease.map Lease.backgroundOnly).getD false then (m,.error backgroundLease)
    else (m,.ok verified)

/-- lease.ts:173-180. -/
def renew (proof : LeaseProof) (durationSeconds : ℤ) (m : LeaseManager) :
    LeaseManager × Except QubiclError PublicLease :=
  match verify proof false m with
  | (m,.error error) => (m,.error error)
  | (m,.ok _) =>
    match m.lease with
    | none => (m,.error staleLease)
    | some lease =>
      let durationMs:=durationSeconds*1000
      let lease:={ lease with durationMs := durationMs, expiresAt := m.now+durationMs }
      ({ m with lease := some lease, timer := true },.ok (publicLease lease))

/-- lease.ts:182-189. The result is the promise that `release` awaits. -/
def release (proof : LeaseProof) (m : LeaseManager) :
    LeaseManager × Except QubiclError ℕ :=
  match verify proof false m with
  | (m,.error error) => (m,.error error)
  | (m,.ok _) =>
    (revoke m.lease false { m.vacate with generation := m.generation+1 },.ok m.nextPromise)

/-- lease.ts:191-197. -/
def revokeAgentControl (m : LeaseManager) : LeaseManager × ℕ :=
  let generation:=if m.lease.isSome then m.generation+1 else m.generation
  (revoke m.lease false { m.vacate with generation := generation },m.nextPromise)

/-- lease.ts:199-207. -/
def revokeAgentControlFor (proof : LeaseProof) (m : LeaseManager) : LeaseManager × ℕ :=
  let vacated:=match m.lease with
    | some current =>
      if sameProof current.toLeaseProof proof then
        { m.vacate with generation := m.generation+1 }
      else m
    | none => m
  (enqueueRevocations [⟨some proof,false⟩] vacated,m.nextPromise)

/-- The second half of the first branch (lease.ts:212-215). -/
def retryFailedRevocations (m : LeaseManager) : LeaseManager :=
  if m.failedRevocations.isEmpty then m.snapshot.1
  else
    let p:=m.nextPromise
    let m:=enqueueRevocations [] m
    { m with takeovers := m.takeovers++[.own p] }

/-- lease.ts:209-224 up to its first `await`. -/
def takeHumanControl (m : LeaseManager) : LeaseManager :=
  let m:=m.record [.takeover]
  if m.human then
    match m.revocation with
    | some p => { m with takeovers := m.takeovers++[.current p] }
    | none => m.retryFailedRevocations
  else
    let p:=m.nextPromise
    let m:=revoke m.lease false { m.vacate with human := true, generation := m.generation+1 }
    { m with takeovers := m.takeovers++[.own p] }

/-- A suspended `takeHumanControl` continues once its promise has settled: a
rejection ends it, after a fulfilment it goes on to the next `await` or to its
final snapshot. -/
def resumeTakeover (takeover : Takeover) (m : LeaseManager) : Option LeaseManager :=
  if takeover ∈ m.takeovers then
    let resumed:={ m with takeovers := m.takeovers.erase takeover }
    match takeover with
    | .current p => match (m.jobs p).map RevocationJob.phase with
      | some (.fulfilled _) => some resumed.retryFailedRevocations
      | some (.rejected _) => some resumed
      | _ => none
    | .own p => match (m.jobs p).map RevocationJob.phase with
      | some (.fulfilled _) => some resumed.snapshot.1
      | some (.rejected _) => some resumed
      | _ => none
  else none

/-- lease.ts:226-231. -/
def releaseHumanControl (id : Base64Url) (m : LeaseManager) : LeaseManager × LeaseSnapshot :=
  let generation:=if m.human then m.generation+1 else m.generation
  (drainWaiters id { m with human := false, generation := generation }).snapshot

/-- lease.ts:233-247. -/
def resetEpoch (epoch : Base64Url) (m : LeaseManager) : LeaseManager × ℕ :=
  let vacated:={ m.vacate with human := false, generation := 0, epoch := epoch.text }
  (revoke m.lease true (vacated.record [.epochDrawn epoch.text]),m.nextPromise)

end LeaseManager
end Qubicl.Control
