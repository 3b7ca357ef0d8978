import Qubicl.Cli.Lifecycle.Observation
import Qubicl.Cli.State

/-!
# Starting, stopping and restarting a computer (packages/cli/src/lifecycle-operations.ts)

An operation writes its journal before it touches a container and removes it when the runtime is as it should be;
`recoverPendingComputerLifecycle` finishes what a journal says.
-/

namespace Qubicl.Cli
open Foundation Core Durable

inductive LifecycleOperation
  | start
  | stop
  | restart
  deriving DecidableEq, Repr

inductive LifecycleSource
  | absent
  | retained
  deriving DecidableEq, Repr

structure ComputerLifecycleJournal where
  operationId : String
  installationId : String
  computerId : String
  createdAt : String
  operation : LifecycleOperation
  source : LifecycleSource
  runtimeContainers : List RuntimeContainerBinding
  deriving DecidableEq, Repr

structure ContainerCall where
  command : ContainerCommand
  ids : List String
  journal : Place ComputerLifecycleJournal

/- The journal file and the containers with the labels of the computer. `calls` is kept
for the statements; nothing reads it. -/
structure LifecycleWorld where
  journal : Place ComputerLifecycleJournal
  containers : List RuntimeContainerBinding
  calls : List ContainerCall

namespace LifecycleWorld

def journalLens : Lens LifecycleWorld (Place ComputerLifecycleJournal) where
  get w := w.journal
  set journal w := { w with journal }
  get_set _ _ := rfl
  set_get _ := rfl
  set_set _ _ _ := rfl

def containersLens : Lens LifecycleWorld (List RuntimeContainerBinding) where
  get w := w.containers
  set containers w := { w with containers }
  get_set _ _ := rfl
  set_get _ := rfl
  set_set _ _ _ := rfl

end LifecycleWorld

/- `connectNetwork` is the `docker network connect` of the gateway. -/
structure ComputerLifecycleRuntime where
  names : LoadedState → ComputerConfig → RuntimeNames
  validateDocker : Durable (List RuntimeContainerBinding) String Unit
  ensureImages : LoadedState → List ComputerConfig → Durable (List RuntimeContainerBinding) String Unit
  render : LoadedState → Durable (List RuntimeContainerBinding) String Unit
  startGateway : LoadedState → Durable (List RuntimeContainerBinding) String Unit
  verifyGateway : LoadedState → Durable (List RuntimeContainerBinding) String Unit
  startAbsent : LoadedState → ComputerConfig → Durable (List RuntimeContainerBinding) String Unit
  container : ContainerCommand → List String → Durable (List RuntimeContainerBinding) String Unit
  connectNetwork : LoadedState → ComputerConfig → Durable (List RuntimeContainerBinding) String Unit
  waitHealthy : LoadedState → String → Durable (List RuntimeContainerBinding) String Unit
  waitGateway : LoadedState → String → Durable (List RuntimeContainerBinding) String Unit
  synchronizePolicies : LoadedState → List ComputerConfig → Durable (List RuntimeContainerBinding) String Unit
  releaseHumanControl : LoadedState → ComputerConfig → Durable (List RuntimeContainerBinding) String Unit

structure LifecycleHost where
  uid : ℕ
  isDate : String → Bool
  runtime : ComputerLifecycleRuntime

/- `UUID_PATTERN` -/
def lifecycleUuid : String → Bool :=
  open Regex in
  let hexDigit:=choice [range '0' '9',range 'a' 'f',range 'A' 'F']
  (sequence [times 8 hexDigit,text "-",times 4 hexDigit,text "-",range '1' '5',times 3 hexDigit,text "-",
    choice [oneOf "89abAB"],times 3 hexDigit,text "-",times 12 hexDigit]).test

/-- `parseComputerLifecycleJournal`, as far as a document of its fields can fail it. -/
def parseComputerLifecycleJournal (host : LifecycleHost) (record : ComputerLifecycleJournal) :
    Except String ComputerLifecycleJournal :=
  if !lifecycleUuid record.operationId then .error "Computer lifecycle journal has an invalid operation ID."
  else if !lifecycleUuid record.installationId then
    .error "Computer lifecycle journal has an invalid installation ID."
  else if !lifecycleUuid record.computerId then .error "Computer lifecycle journal has an invalid computer ID."
  else if !host.isDate record.createdAt then
    .error "Computer lifecycle journal has an invalid creation timestamp."
  else if !record.runtimeContainers.all runtimeContainerBindingSchema then
    .error "Computer lifecycle journal has invalid runtime containers."
  else if (record.source=.absent ∧ (record.operation≠.start ∨ record.runtimeContainers.length≠0)) ∨
      (record.source=.retained ∧ record.runtimeContainers.length=0) then
    .error "Computer lifecycle journal source state does not match its operation or immutable bindings."
  else if !(allUnique (record.runtimeContainers.map (·.id)) && allUnique (record.runtimeContainers.map (·.name))) then
    .error "Computer lifecycle journal runtime bindings must have unique IDs and names."
  else .ok record

def computerLifecycleJournalPath (state : LoadedState) : String :=
  join state.paths.runtime "computer-lifecycle.json"

def readComputerLifecycleJournal (host : LifecycleHost) (state : LoadedState) :
    Place ComputerLifecycleJournal → Except String (Option ComputerLifecycleJournal)
  | .absent => .ok none
  | .real uid mode record =>
    let path:=computerLifecycleJournalPath state
    if uid≠host.uid ∨ mode≠0o600 then
      .error s!"Computer lifecycle journal {path} must be a regular operator-owned file with mode 0600."
    else (parseComputerLifecycleJournal host record).map some
  | _ =>
    let path:=computerLifecycleJournalPath state
    .error s!"Computer lifecycle journal {path} must be a regular operator-owned file with mode 0600."

section Programs
variable (host : LifecycleHost) (state : LoadedState)

def readJournal : Durable LifecycleWorld String (Option ComputerLifecycleJournal) :=
  reads fun w => readComputerLifecycleJournal host state w.journal

def writeComputerLifecycleJournal (journal : ComputerLifecycleJournal) : Durable LifecycleWorld String Unit :=
  zoom LifecycleWorld.journalLens (atomicWrite host.uid (computerLifecycleJournalPath state) journal 0o600)

def assertNoPendingComputerLifecycle : Durable LifecycleWorld String Unit := do
  let pending ← readJournal host state
  match pending with
  | none => pure ()
  | some pending =>
    fail s!"Computer lifecycle {pending.operationId} requires explicit recovery before another lifecycle mutation."

def beginComputerLifecycle (computer : ComputerConfig) (operationId createdAt : String)
    (operation : LifecycleOperation) (source : LifecycleSource) (runtimeContainers : List RuntimeContainerBinding) :
    Durable LifecycleWorld String ComputerLifecycleJournal := do
  assertNoPendingComputerLifecycle host state
  let journal : ComputerLifecycleJournal :=
    ⟨operationId,state.config.installationId,computer.id,createdAt,operation,source,runtimeContainers⟩
  writeComputerLifecycleJournal host state journal
  pure journal

def clearComputerLifecycleJournal (operationId : String) : Durable LifecycleWorld String Unit := do
  let pending ← readJournal host state
  match pending with
  | some pending =>
    if pending.operationId=operationId then
      zoom LifecycleWorld.journalLens (durableRemove (computerLifecycleJournalPath state))
    else fail "Computer lifecycle journal changed while the operation was running."
  | none => fail "Computer lifecycle journal changed while the operation was running."

def assertLifecycleGroup (computer : ComputerConfig) (observation : ManagedRuntimeGroupObservation)
    (allowAbsent : Bool) (operation : String) : Except String Unit :=
  let name:=computer.name
  let status:=observation.status
  match observation.group with
  | .partly => .error s!"Computer {name} runtime group is partial; refusing to {operation} an ambiguous runtime."
  | .inconsistent =>
    .error s!"Computer {name} runtime group is inconsistent; refusing to {operation} an ambiguous runtime."
  | .absent =>
    if allowAbsent && status = "absent" then .ok ()
    else if status ≠ "absent" then .error s!"Computer {name} runtime group is absent but reports status {status}."
    else .error s!"Computer {name} has no retained runtime to {operation}."
  | .complete =>
    if lifecycleStatuses.contains status then .ok ()
    else .error s!"Computer {name} runtime status {status} cannot be changed safely."

def assertRecoverableRetainedRuntime (computer : ComputerConfig) (expected : List RuntimeContainerBinding)
    (observation : ManagedRuntimeGroupObservation) : Except String Unit :=
  let name:=computer.name
  if !sameRuntimeBindings expected observation.containers then
    .error s!"Computer lifecycle recovery found changed or missing immutable runtime IDs for {name}; no container was changed."
  else
    match observation.containers.find? fun c => !lifecycleStatuses.contains c.status with
    | some c =>
      .error s!"Computer lifecycle recovery found {c.name} in unsafe status {c.status}; no container was changed."
    | none => .ok ()

def assertRecoverableAbsentStart (computer : ComputerConfig) (observation : ManagedRuntimeGroupObservation) :
    Except String Unit :=
  let name:=computer.name
  if observation.group=.absent ∧ observation.status = "absent" then .ok ()
  else
    match computer.image.contentId with
    | none =>
      .error s!"Computer lifecycle recovery cannot prove partial runtime ownership for absent-start {name}; no container was changed."
    | some contentId =>
      if observation.containers.length=0 then
        .error s!"Computer lifecycle recovery cannot prove partial runtime ownership for absent-start {name}; no container was changed."
      else
        match observation.containers.find? fun c =>
          c.imageId != contentId || !lifecycleStatuses.contains c.status with
        | some c =>
          .error s!"Computer lifecycle recovery found an unexpected image or status for {c.name}; no container was changed."
        | none => .ok ()

def groupText : RuntimeGroup → String
  | .absent => "absent"
  | .partly => "partial"
  | .inconsistent => "inconsistent"
  | .complete => "complete"

/- `expected` is `'running'` or `'stopped'`. -/
def recoveredRuntimeState (computer : ComputerConfig) (journal : ComputerLifecycleJournal) (running : Bool)
    (observation : ManagedRuntimeGroupObservation) : Except String Unit :=
  let name:=computer.name
  let group:=groupText observation.group
  let status:=observation.status
  let expected:=if running then "running" else "stopped"
  if observation.group≠.complete ∨
      (if running then status ≠ "running" else status ≠ "exited" ∧ status ≠ "created") then
    .error s!"Computer lifecycle recovery expected {name} {expected}, but found {group}/{status}; the journal was preserved."
  else if journal.source=.retained ∧ sameRuntimeBindings journal.runtimeContainers observation.containers=false then
    .error s!"Computer lifecycle recovery found changed immutable runtime IDs for {name}; the journal was preserved."
  else if journal.source=.absent then assertRecoverableAbsentStart computer observation
  else .ok ()

def runs (m : Durable (List RuntimeContainerBinding) String Unit) : Durable LifecycleWorld String Unit :=
  zoom LifecycleWorld.containersLens m

def observes (computer : ComputerConfig) : Durable LifecycleWorld String ManagedRuntimeGroupObservation :=
  reads fun w => .ok (managedComputerRuntimeObservation (host.runtime.names state computer) w.containers)

def containerCommand (command : ContainerCommand) (ids : List String) : Durable LifecycleWorld String Unit := do
  write fun w => { w with calls := w.calls++[⟨command,ids,w.journal⟩] }
  runs (host.runtime.container command ids)

def includesText (text part : String) : Bool := decide (part.toList <:+: text.toList)

def connectGatewayToComputer (computer : ComputerConfig) : Durable LifecycleWorld String Unit :=
  (runs (host.runtime.connectNetwork state computer)).catching fun error =>
    if includesText error "already exists in network" then pure () else fail error

def requireUnchangedRuntime (computer : ComputerConfig) (expected : List RuntimeContainerBinding) (operation : String) :
    Durable LifecycleWorld String ManagedRuntimeGroupObservation := do
  let current ← observes host state computer
  ofExcept (assertLifecycleGroup computer current false operation)
  let name:=computer.name
  if current.group≠.complete ∨ sameRuntimeBindings expected current.containers=false then
    fail s!"Computer {name} runtime identity changed while preparing to {operation}; no computer container was changed."
  else pure current

def assertRecoveredRuntimeState (computer : ComputerConfig) (journal : ComputerLifecycleJournal) (running : Bool) :
    Durable LifecycleWorld String Unit := do
  let observation ← observes host state computer
  ofExcept (recoveredRuntimeState computer journal running observation)

def waitsReady (computer : ComputerConfig) : Durable LifecycleWorld String Unit := do
  connectGatewayToComputer host state computer
  runs (host.runtime.waitHealthy state computer.id)
  runs (host.runtime.waitGateway state computer.id)

def startRetainedRuntime (computer : ComputerConfig) (expected : List RuntimeContainerBinding)
    (observation : ManagedRuntimeGroupObservation) : Durable LifecycleWorld String Unit := do
  ofExcept (assertRecoverableRetainedRuntime computer expected observation)
  let status id := (observation.containers.reverse.find? (·.id=id)).map (·.status)
  let paused:=(expected.filter fun c => status c.id=some "paused").map (·.id)
  when (!paused.isEmpty) (containerCommand host .unpause paused)
  let stopped:=(expected.reverse.filter fun c =>
    status c.id=some "exited" || status c.id=some "created").map (·.id)
  when (!stopped.isEmpty) (containerCommand host .start stopped)
  waitsReady host state computer

def preparesGateway (computers : List ComputerConfig) : Durable LifecycleWorld String Unit := do
  runs (host.runtime.ensureImages state computers)
  runs (host.runtime.render state)
  runs (host.runtime.startGateway state)
  runs (host.runtime.verifyGateway state)

def startAbsentComputer (computer : ComputerConfig) (operationId createdAt : String) :
    Durable LifecycleWorld String Unit := do
  let current ← observes host state computer
  let name:=computer.name
  if current.group≠.absent ∨ current.status ≠ "absent" then
    fail s!"Computer {name} runtime appeared while preparing to start; no computer container was changed."
  else do
    let journal ← beginComputerLifecycle host state computer operationId createdAt .start .absent []
    runs (host.runtime.startAbsent state computer)
    assertRecoveredRuntimeState host state computer journal true
    runs (host.runtime.synchronizePolicies state [computer])
    clearComputerLifecycleJournal host state journal.operationId

def startRetainedComputer (computer : ComputerConfig) (operationId createdAt : String)
    (observed : ManagedRuntimeGroupObservation) : Durable LifecycleWorld String Unit := do
  let retained ← requireUnchangedRuntime host state computer observed.containers "start"
  if retained.status = "paused" ∨ retained.status = "exited" ∨ retained.status = "created" then do
    let journal ← beginComputerLifecycle host state computer operationId createdAt .start .retained retained.containers
    startRetainedRuntime host state computer journal.runtimeContainers retained
    assertRecoveredRuntimeState host state computer journal true
    runs (host.runtime.synchronizePolicies state [computer])
    clearComputerLifecycleJournal host state journal.operationId
  else do
    waitsReady host state computer
    runs (host.runtime.synchronizePolicies state [computer])

def startManagedComputer (computer : ComputerConfig) (operationId createdAt : String) :
    Durable LifecycleWorld String Unit := do
  assertNoPendingComputerLifecycle host state
  runs host.runtime.validateDocker
  let observed ← observes host state computer
  ofExcept (assertLifecycleGroup computer observed true "start")
  if observed.group=.absent then do
    preparesGateway host state [computer]
    startAbsentComputer host state computer operationId createdAt
  else do
    preparesGateway host state []
    startRetainedComputer host state computer operationId createdAt observed

def stopManagedComputer (computer : ComputerConfig) (operationId createdAt : String) :
    Durable LifecycleWorld String Unit := do
  assertNoPendingComputerLifecycle host state
  runs host.runtime.validateDocker
  let observed ← observes host state computer
  ofExcept (assertLifecycleGroup computer observed false "stop")
  if observed.status = "exited" ∨ observed.status = "created" then pure ()
  else do
    let journal ← beginComputerLifecycle host state computer operationId createdAt .stop .retained observed.containers
    containerCommand host .stop (observed.containers.map (·.id))
    let stopped ← observes host state computer
    ofExcept (assertLifecycleGroup computer stopped false "verify stop")
    let name:=computer.name
    let status:=stopped.status
    if sameRuntimeBindings journal.runtimeContainers stopped.containers=false ∨
        status ≠ "exited" ∧ status ≠ "created" then
      fail s!"Computer {name} remained {status} after Docker reported a successful stop."
    else clearComputerLifecycleJournal host state journal.operationId

def restartManagedComputer (computer : ComputerConfig) (operationId createdAt : String) :
    Durable LifecycleWorld String Unit := do
  assertNoPendingComputerLifecycle host state
  runs host.runtime.validateDocker
  let observed ← observes host state computer
  let name:=computer.name
  let resolved:=computer.image.resolved
  if observed.group=.absent ∧ observed.status = "absent" then
    fail s!"Computer {name} has no retained runtime to restart. Use qubicl start {name}; recreating it requires its exact pinned image {resolved}."
  else do
    ofExcept (assertLifecycleGroup computer observed false "restart")
    preparesGateway host state []
    let retained ← requireUnchangedRuntime host state computer observed.containers "restart"
    let journal ← beginComputerLifecycle host state computer operationId createdAt .restart .retained retained.containers
    containerCommand host .restart (retained.containers.map (·.id))
    waitsReady host state computer
    runs (host.runtime.releaseHumanControl state computer)
    assertRecoveredRuntimeState host state computer journal true
    clearComputerLifecycleJournal host state journal.operationId

def manageComputer (operation : LifecycleOperation) (computer : ComputerConfig) (operationId createdAt : String) :
    Durable LifecycleWorld String Unit :=
  match operation with
  | .start => startManagedComputer host state computer operationId createdAt
  | .stop => stopManagedComputer host state computer operationId createdAt
  | .restart => restartManagedComputer host state computer operationId createdAt

def finishComputerLifecycle (computer : ComputerConfig) (journal : ComputerLifecycleJournal)
    (observed : ManagedRuntimeGroupObservation) : Durable LifecycleWorld String Unit :=
  let ids:=journal.runtimeContainers.map (·.id)
  match journal.operation, journal.source with
  | .stop, _ => do
    containerCommand host .stop ids
    assertRecoveredRuntimeState host state computer journal false
  | .restart, _ => do
    containerCommand host .restart ids
    waitsReady host state computer
    runs (host.runtime.releaseHumanControl state computer)
    assertRecoveredRuntimeState host state computer journal true
  | .start, .absent => do
    when (decide (observed.group≠.complete ∨ observed.status ≠ "running"))
      (runs (host.runtime.startAbsent state computer))
    assertRecoveredRuntimeState host state computer journal true
    runs (host.runtime.synchronizePolicies state [computer])
  | .start, .retained => do
    startRetainedRuntime host state computer journal.runtimeContainers observed
    assertRecoveredRuntimeState host state computer journal true
    runs (host.runtime.synchronizePolicies state [computer])

def recoverable (computer : ComputerConfig) (journal : ComputerLifecycleJournal)
    (observed : ManagedRuntimeGroupObservation) : Except String Unit :=
  match journal.source with
  | .retained => assertRecoverableRetainedRuntime computer journal.runtimeContainers observed
  | .absent => assertRecoverableAbsentStart computer observed

def recoverComputerLifecycle (computer : ComputerConfig) (journal : ComputerLifecycleJournal) :
    Durable LifecycleWorld String Bool := do
  runs host.runtime.validateDocker
  when (journal.operation=.start || journal.operation=.restart)
    (preparesGateway host state (if journal.source=.absent then [computer] else []))
  let observed ← observes host state computer
  ofExcept (recoverable computer journal observed)
  finishComputerLifecycle host state computer journal observed
  clearComputerLifecycleJournal host state journal.operationId
  pure true

def recoverPendingComputerLifecycle : Durable LifecycleWorld String Bool := do
  let journal ← readJournal host state
  match journal with
  | none => pure false
  | some journal =>
    if journal.installationId≠state.config.installationId then
      fail "Computer lifecycle journal belongs to another Qubicl installation and was preserved."
    else
      match state.config.computers.find? (·.id=journal.computerId) with
      | none =>
        fail s!"Computer lifecycle recovery cannot find configured computer {journal.computerId}; the journal was preserved."
      | some computer => recoverComputerLifecycle host state computer journal

end Programs
end Qubicl.Cli
