import Qubicl.Control.Isolation.Summaries
import Qubicl.Core.GatewayAccess
import Qubicl.Foundation.StableSort

/-!
# A manager and what it reports (packages/control/src/processes.ts:406-480, 544-554, 762-855, 1470-1700, 1802-1883; pty.ts:102-148)

The records, queued services, terminals and task records of a `ProcessManager`, with the fields that its summaries read.
When it starts, stops, discards or compacts something is left open here: each can happen at any time.
-/

namespace Qubicl.Control.Isolation
open Foundation Lease
open Process (ProcessLifecycle StreamType JournalRecord)
open Supervision (ServiceStatus ServiceOptions ManagedProcess ProcessEvent TerminateSignal TerminationReason)

def MAX_COMMAND_BYTES : ℕ := 64*1024
def MAX_STATUS_WAIT_MS : ℕ := 30000
def MAX_PAGE_RECORDS : ℕ := 1000
def MAX_PAGE_BYTES : ℕ := 256*1024

/- An array has fewer elements than this. -/
def MAX_ARRAY_LENGTH : ℕ := 2 ^ 32

/- `withinHome` says whether a path resolves to the durable home or to what is beneath it. -/
structure ManagerOptions where
  maxCompletedProcesses : ℕ
  persistTaskRecords : Bool
  withinHome : String → Bool

/- The name that the runtime gives to a signal number. -/
def Platform.signalName (platform : Platform) (signal : ℕ) : Option String :=
  (platform.signals.find? fun entry => entry.2=signal).map Prod.fst

/-- `process` is the part that the events of the child decide. -/
structure ManagedRecord where
  id : String
  label : String
  command : String
  cwd : String
  sessionId : Option String
  compatibilitySession : Bool
  startedAt : ℕ
  finishedAt : Option ℕ
  pid : Option ℕ
  owner : LeaseProof
  process : ManagedProcess
  timedOut : Bool
  lastCheckedAt : Option String
  lastError : Option String
  nextRestartAt : Option String
  lastExitCode : Option ℤ
  outputPath : String
  outputFileTruncated : Bool
  journal : List JournalRecord
  deriving DecidableEq, Repr

namespace ManagedRecord

def serviceState (record : ManagedRecord) : Option ServiceState :=
  if record.process.lifecycle=.service then
    some ⟨record.process.state,record.process.restartAttempts,record.lastCheckedAt,record.lastError,
      record.nextRestartAt,record.lastExitCode⟩
  else none

def status (record : ManagedRecord) : ManagementStatus :=
  if record.process.completed=false then .running
  else if record.timedOut then .timedOut
  else if record.process.terminationReason≠none then .stopped
  else if record.process.signal≠none then .signaled
  else .exited

def managementSummary (platform : Platform) (record : ManagedRecord) : ManagementProcessSummary where
  id := record.id
  pid := if record.process.completed then none else record.pid.filter (· ≠ 0)
  label := record.label
  lifecycle := record.process.lifecycle
  status := record.status
  startedAt := platform.toISOString record.startedAt
  finishedAt := record.finishedAt.map platform.toISOString
  owner := if record.process.lifecycle=.session then .agent else .computer
  ownerGeneration := record.owner.generation
  service := record.serviceState
  exitCode := record.process.exitCode.map fun code : ℤ => (code : ℚ)
  signal := record.process.signal.bind platform.signalName

def compatibilityStatus (record : ManagedRecord) : CompatibilityProcessStatus :=
  if record.process.completed then
    if record.process.terminationReason=none ∧ record.process.signal=none ∧ record.process.exitCode≠some (-1) then
      .done
    else .killed
  else .running

def compatibilitySummary (record : ManagedRecord) : CompatibilityProcessSummary where
  id := record.id
  command := record.command
  status := record.compatibilityStatus
  exit_code := record.process.exitCode
  cwd := record.cwd
  session_id := record.sessionId
  started_at := record.startedAt / 1000
  finished_at := record.finishedAt.map fun instant : ℕ => (instant : ℚ) / 1000

/-- The loop of `compatibilityPage`: `read` is what the file holds of a record, where it can be read. -/
def pageRecords (read : JournalRecord → Option String) : List JournalRecord → ℕ → ℕ → Option (List (StreamType × String))
  | [], _, _ => some []
  | record::records, count, bytes =>
    if MAX_PAGE_RECORDS≤count ∨ MAX_PAGE_BYTES<bytes+record.length then some []
    else do
      let data ← read record
      let output ← pageRecords read records (count+1) (bytes+record.length)
      return (record.type,data)::output

def pageStart (requestedOffset : ℕ) (tail : Option ℕ) (length : ℕ) : ℕ :=
  match tail with
  | none => min requestedOffset length
  | some tail => length - tail

/- `file` is what opening the journal gives; without it the page is an error. -/
def compatibilityPage (file : Option (JournalRecord → Option String)) (requestedOffset : ℕ) (tail : Option ℕ)
    (record : ManagedRecord) : Option CompatibilityProcessOutput := do
  let start:=pageStart requestedOffset tail record.journal.length
  let output ← file.bind fun read => pageRecords read (record.journal.drop start) 0 0
  return { record.compatibilitySummary with
    output := output
    truncated := record.outputFileTruncated || decide (start+output.length<record.journal.length)
    next_offset := start+output.length }

end ManagedRecord

inductive ProcessOutputMode
  | combined
  | split
  deriving DecidableEq, Repr

structure PersistedServiceDefinition where
  service : Option ServiceOptions
  version : ℕ
  id : String
  label : String
  command : String
  cwd : String
  maxOutputBytes : ℕ
  outputMode : ProcessOutputMode
  timeoutMs : Option ℕ
  ownerGeneration : ℕ
  deriving DecidableEq, Repr

/- `/^[A-Za-z0-9_-]{16}$/u` -/
def processId (id : String) : Bool :=
  decide (id.toList.length=16) && id.toList.all fun c => c.isAlphanum || c = '_' || c = '-'

/- The restart policy is what a record reads of the settings; their probe is not modelled. -/
def parseServiceOptions (service : Option ServiceOptions) : Bool :=
  match service.bind ServiceOptions.restart with
  | none => true
  | some restart =>
    decide (restart.maxAttempts≤10) &&
      restart.backoffMs.all fun backoff => decide (100≤backoff) && decide (backoff≤30000)

/-- The checks of `parsePersistedService` that the types leave open. -/
def parsePersistedService (options : ManagerOptions) (definition : PersistedServiceDefinition) : Bool :=
  decide (definition.version=1) && processId definition.id &&
  !(Number.trim definition.label.toList).isEmpty && decide (Core.utf16Length definition.label≤120) &&
  decide (definition.command.utf8ByteSize≤MAX_COMMAND_BYTES) && options.withinHome definition.cwd &&
  decide (1024≤definition.maxOutputBytes) && decide (definition.maxOutputBytes≤50000) &&
  (definition.timeoutMs.all fun timeout => decide (1≤timeout) && decide (timeout≤86400000)) &&
  decide (1≤definition.ownerGeneration) && decide (definition.ownerGeneration≤Json.MAX_SAFE_INTEGER) &&
  parseServiceOptions definition.service

structure PendingService where
  definition : PersistedServiceDefinition
  queuedAt : String
  startError : Option String
  deriving DecidableEq, Repr

def pendingServiceState (pending : PendingService) : ServiceState where
  state := if pending.startError=none then .queued else .unhealthy
  restartAttempts := 0
  lastCheckedAt := none
  lastError := pending.startError
  nextRestartAt := none
  lastExitCode := none

def pendingServiceSummary (pending : PendingService) : ManagementProcessSummary where
  id := pending.definition.id
  label := pending.definition.label
  lifecycle := .service
  status := if pending.startError=none then .queued else .interrupted
  startedAt := pending.queuedAt
  owner := .computer
  ownerGeneration := pending.definition.ownerGeneration
  service := some (pendingServiceState pending)

structure PersistedTaskRecord extends ManagementProcessSummary where
  version : ℕ
  outputPath : String
  outputTruncated : Option Bool
  deriving DecidableEq, Repr

/-- The checks of `parsePersistedTask` that the types leave open. -/
def parsePersistedTask (record : PersistedTaskRecord) : Option PersistedTaskRecord :=
  if (record.version=1 ∨ record.version=2) ∧ processId record.id=true ∧ record.lifecycle=.task ∧
      record.status≠.queued ∧ record.owner=.computer ∧ record.ownerGeneration≤Json.MAX_SAFE_INTEGER ∧
      (∀ code ∈ record.exitCode, Json.SafeInteger code) then some record
  else none

def stripPersistedTask (record : PersistedTaskRecord) : ManagementProcessSummary where
  id := record.id
  label := record.label
  lifecycle := record.lifecycle
  status := record.status
  startedAt := record.startedAt
  finishedAt := record.finishedAt
  owner := record.owner
  ownerGeneration := record.ownerGeneration
  exitCode := record.exitCode
  signal := record.signal

def taskRecord (platform : Platform) (record : ManagedRecord) : PersistedTaskRecord :=
  { record.managementSummary platform with
    version := 2
    outputPath := record.outputPath
    outputTruncated := some record.outputFileTruncated }

structure PtySession where
  id : String
  label : String
  task : Bool
  owner : LeaseProof
  pid : Option ℕ
  startedAt : ℕ
  finishedAt : Option ℕ
  exitCode : Option ℚ
  signal : Option String
  deriving DecidableEq, Repr

def PtySession.managementSummary (platform : Platform) (session : PtySession) : ManagementProcessSummary where
  id := session.id
  kind := some .terminal
  pid := if session.finishedAt=none then session.pid.filter (· ≠ 0) else none
  status :=
    if session.finishedAt=none then .running
    else if session.signal.all (· = "") then .exited else .signaled
  startedAt := platform.toISOString session.startedAt
  finishedAt := session.finishedAt.map platform.toISOString
  label := session.label
  lifecycle := if session.task then .task else .session
  owner := if session.task then .computer else .agent
  ownerGeneration := session.owner.generation
  exitCode := session.exitCode
  signal := session.signal

/- `taskRecords` are the lines of the history file, as the records whose texts they are: reading what was written gives
it back. -/
structure ProcessManager where
  processes : List ManagedRecord
  pendingServices : List PendingService
  terminals : List PtySession
  taskHistory : List (String × PersistedTaskRecord)
  taskRecords : List PersistedTaskRecord
  deriving DecidableEq, Repr

namespace ProcessManager

def sameOwner (left right : LeaseProof) : Bool :=
  left.id=right.id ∧ left.generation=right.generation ∧ left.epoch=right.epoch

def find (manager : ProcessManager) (id : String) : Option ManagedRecord :=
  manager.processes.find? fun record => record.id=id

def listed (platform : Platform) (manager : ProcessManager) : List ManagementProcessSummary :=
  let current:=manager.processes.map (ManagedRecord.managementSummary platform) ++
    manager.pendingServices.map pendingServiceSummary
  let history:=(manager.taskHistory.map Prod.snd).filter fun record => record.id ∉ current.map ManagementProcessSummary.id
  current++manager.terminals.map (PtySession.managementSummary platform)++history.map stripPersistedTask

def listForManagement (platform : Platform) (manager : ProcessManager) : List ManagementProcessSummary :=
  sorted (compareLex (comparing ManagementProcessSummary.startedAt platform.localeCompare)
    (comparing ManagementProcessSummary.id platform.localeCompare)) (manager.listed platform)

def listForAgent (platform : Platform) (manager : ProcessManager) : List ManagementProcessSummary :=
  manager.listForManagement platform

def listCompatibility (platform : Platform) (owner : LeaseProof) (manager : ProcessManager) :
    List CompatibilityProcessSummary :=
  (sorted (compareLex (comparing ManagedRecord.startedAt compare) (comparing ManagedRecord.id platform.localeCompare))
    (manager.processes.filter fun record => record.compatibilitySession && sameOwner record.owner owner)).map
      ManagedRecord.compatibilitySummary

def ownedCompatibility (id : String) (owner : LeaseProof) (manager : ProcessManager) : Option ManagedRecord :=
  (manager.find id).filter fun record =>
    (record.process.lifecycle≠.session || sameOwner record.owner owner) && record.compatibilitySession

def boundedInteger (value : ℚ) (minimum maximum : ℕ) : Option ℕ :=
  if Json.SafeInteger value ∧ minimum≤value ∧ value ≤ maximum then some value.num.toNat else none

def boundedTail : Option ℚ → Option (Option ℕ)
  | none => some none
  | some tail => (boundedInteger tail 1 MAX_PAGE_RECORDS).map some

structure CompatibilityStatusOptions where
  waitMs : Option ℚ
  offset : Option ℚ
  tail : Option ℚ

/-- What `statusCompatibility` answers from the manager that its wait, if it waits, ends with. -/
def statusCompatibility (id : String) (owner : LeaseProof) (options : CompatibilityStatusOptions)
    (file : Option (JournalRecord → Option String)) (manager : ProcessManager) : Option CompatibilityProcessOutput := do
  let record ← manager.ownedCompatibility id owner
  let _ ← boundedInteger (options.waitMs.getD 0) 0 MAX_STATUS_WAIT_MS
  let offset ← boundedInteger (options.offset.getD 0) 0 Json.MAX_SAFE_INTEGER
  let tail ← boundedTail options.tail
  record.compatibilityPage file offset tail

/- `executeCompatibility` ends as `statusCompatibility` does, with the record that it started under `id`. -/
def executeCompatibility (id : String) (owner : LeaseProof) (options : CompatibilityStatusOptions)
    (file : Option (JournalRecord → Option String)) (manager : ProcessManager) : Option CompatibilityProcessOutput :=
  manager.statusCompatibility id owner options file

/- `persisted` says whether the record can be written; where it cannot, `persistTask` throws before it remembers it. -/
def persistTask (platform : Platform) (options : ManagerOptions) (persisted : Bool) (record : ManagedRecord)
    (manager : ProcessManager) : ProcessManager :=
  if persisted then
    { manager with
      taskRecords := manager.taskRecords++if options.persistTaskRecords then [taskRecord platform record] else []
      taskHistory := mapSet record.id (taskRecord platform record) manager.taskHistory }
  else manager

def retained (platform : Platform) (options : ManagerOptions) (manager : ProcessManager) : List PersistedTaskRecord :=
  let latest:=manager.taskHistory.map Prod.snd
  let running:=latest.filter fun record => record.status=.running
  let finished (record : PersistedTaskRecord) : ℤ := platform.dateParse (record.finishedAt.getD record.startedAt)
  let completed:=(sorted (compareLex (comparing finished fun left right => compare right left)
      (comparing (fun record => record.id) fun left right => platform.localeCompare right left))
    (latest.filter fun record => record.status≠.running)).take options.maxCompletedProcesses
  sorted (compareLex (comparing (fun record => record.startedAt) platform.localeCompare)
    (comparing (fun record => record.id) platform.localeCompare)) (running++completed)

def compactTaskRecords (platform : Platform) (options : ManagerOptions) (manager : ProcessManager) : ProcessManager :=
  if options.persistTaskRecords then
    { manager with
      taskRecords := manager.retained platform options
      taskHistory := (manager.retained platform options).map fun record => (record.id,record) }
  else manager

def interrupt (platform : Platform) (now : ℕ) (record : PersistedTaskRecord) : PersistedTaskRecord :=
  { record with status := .interrupted, finishedAt := some (platform.toISOString now) }

def remember (history : List (String × PersistedTaskRecord)) (records : List PersistedTaskRecord) :
    List (String × PersistedTaskRecord) :=
  records.foldl (fun history record => mapSet record.id record history) history

/-- `loadTaskHistory` over the lines that are whole: the history, and the lines it appends. -/
def loadTaskHistory (platform : Platform) (now : ℕ) (lines : List PersistedTaskRecord) :
    List (String × PersistedTaskRecord) × List PersistedTaskRecord :=
  let history:=remember [] (lines.filterMap parsePersistedTask)
  let interrupted:=((history.map Prod.snd).filter fun record => record.status=.running).map (interrupt platform now)
  (remember history interrupted,interrupted)

end ProcessManager

/- What the runtime tells a handler: the instant, the text of an error, the pid of a new child, and whether a task record
can be written. -/
structure Noted where
  now : ℕ
  text : String
  pid : Option ℕ
  persisted : Bool
  deriving DecidableEq, Repr

namespace ManagedRecord

/-- What an event writes into a record beside its process; `process` is what it makes of that. -/
def note (platform : Platform) (paused : Bool) (noted : Noted) (process : ManagedProcess) (record : ManagedRecord) :
    ProcessEvent → ManagedRecord
  | .close _ _ _ =>
    if process.restartAttempts=record.process.restartAttempts then record
    else { record with
      lastExitCode := process.exitCode.or record.lastExitCode
      nextRestartAt := some (platform.toISOString (noted.now+process.backoffs.getLast?.getD 0)) }
  | .restartFenced fenced spawns =>
    if fenced=false then { record with lastError := some noted.text }
    else if record.process.completed ∨ record.process.terminationReason≠none ∨ paused then record
    else if spawns then { record with nextRestartAt := none, pid := noted.pid }
    else { record with lastError := some noted.text }
  | .probed child failed _ =>
    if record.process.completed ∨ record.process.child≠child ∨ record.process.restartTimer≠none then record
    else { record with
      lastCheckedAt := some (platform.toISOString noted.now)
      lastError := if failed then some noted.text else none }
  | .error => record
  | .restartTimer _ => record
  | .terminate _ _ => record

/- `complete` does this, where the event completes the process. -/
def finish (now : ℕ) (record : ManagedRecord) : ManagedRecord :=
  { record with finishedAt := some now, nextRestartAt := none }

def handle (platform : Platform) (paused : Bool) (noted : Noted) (event : ProcessEvent) (record : ManagedRecord) :
    Option ManagedRecord :=
  (event.handle paused record.process).map fun process =>
    let handled : ManagedRecord := { record.note platform paused noted process event with process := process }
    if record.process.completed=false ∧ process.completed=true then handled.finish noted.now else handled

/-- The timers of `start`: a lifetime and a timeout. -/
def expire (platform : Platform) (noted : Noted) (lifetime : Bool) (record : ManagedRecord) : Option ManagedRecord :=
  if record.process.completed then some record
  else
    handle platform false noted
      (if lifetime then .terminate .SIGKILL .lifetime else .terminate (.stop .SIGTERM) .timeout)
      { record with timedOut := true }

end ManagedRecord

def observable (platform : Platform) : ProcessEvent → Bool
  | .close _ code signal =>
    (code.all fun code => decide (code.natAbs≤Json.MAX_SAFE_INTEGER)) &&
      signal.all fun signal => (platform.signalName signal).isSome
  | _ => true

/- What the lease manager hands out: it counts its generations from 1. -/
def ValidProof (owner : LeaseProof) : Prop := 1≤owner.generation ∧ owner.generation≤Json.MAX_SAFE_INTEGER

instance (owner : LeaseProof) : Decidable (ValidProof owner) := inferInstanceAs (Decidable (_ ∧ _))

structure StartRequest where
  id : String
  label : String
  command : String
  cwd : String
  sessionId : Option String
  compatibilitySession : Bool
  lifecycle : ProcessLifecycle
  owner : LeaseProof
  service : Option ServiceOptions
  outputPath : String
  noted : Noted
  deriving DecidableEq, Repr

/-- The record that `start` makes around its child. -/
def StartRequest.record (request : StartRequest) : ManagedRecord where
  id := request.id
  label := request.label
  command := request.command
  cwd := request.cwd
  sessionId := request.sessionId
  compatibilitySession := request.compatibilitySession
  startedAt := request.noted.now
  finishedAt := none
  pid := request.noted.pid
  owner := request.owner
  process := .started request.lifecycle request.service
  timedOut := false
  lastCheckedAt := none
  lastError := none
  nextRestartAt := none
  lastExitCode := none
  outputPath := request.outputPath
  outputFileTruncated := false
  journal := []

structure ExecRequest where
  command : String
  cwd : String
  maxOutputBytes : ℕ
  owner : LeaseProof
  timeoutMs : Option ℕ
  outputMode : ProcessOutputMode
  lifecycle : ProcessLifecycle
  label : String
  service : Option ServiceOptions
  deriving DecidableEq, Repr

structure TerminalRequest where
  id : String
  label : String
  task : Bool
  owner : LeaseProof
  pid : Option ℕ
  now : ℕ
  deriving DecidableEq, Repr

inductive ManagerMove
  | exec (id : String) (request : ExecRequest) (outputPath : String) (noted : Noted)
  | executeCompatibility (id command cwd : String) (sessionId : Option String) (owner : LeaseProof) (outputPath : String)
    (noted : Noted)
  | event (id : String) (paused : Bool) (event : ProcessEvent) (noted : Noted)
  | expired (id : String) (lifetime : Bool) (noted : Noted)
  | journaled (id : String) (records : List JournalRecord) (truncated : Bool)
  | discard (id : String)
  | startPending (id : String) (outputPath : String) (noted : Noted)
  | startFailed (id : String) (message : String)
  | removePending (id : String)
  | terminalOpen (request : TerminalRequest)
  | terminalClosed (id : String) (now : ℕ) (code : Option ℚ) (signal : Option String)
  | deleteSession (id : String)
  | compact
  | restart (now : ℕ) (lines : List PersistedTaskRecord) (definitions : List PersistedServiceDefinition)
  deriving DecidableEq

namespace ProcessManager
variable (platform : Platform) (options : ManagerOptions)

/-- `start`, where it is admitted and its child is spawned. -/
def start (request : StartRequest) (manager : ProcessManager) : Option ProcessManager :=
  if (manager.find request.id).isSome then none
  else
    let started : ProcessManager := { manager with processes := manager.processes++[request.record] }
    some (if request.lifecycle=.task then
      started.persistTask platform options request.noted.persisted request.record
    else started)

def definitionOf (id : String) (request : ExecRequest) : PersistedServiceDefinition where
  service := request.service
  version := 1
  id := id
  label := request.label
  command := request.command
  cwd := request.cwd
  maxOutputBytes := request.maxOutputBytes
  outputMode := request.outputMode
  timeoutMs := request.timeoutMs
  ownerGeneration := request.owner.generation

/- What `exec` checks before it starts anything; a service is saved first. -/
def admitsExec (id : String) (request : ExecRequest) : Bool :=
  parseServiceOptions request.service && (request.service.isNone || request.lifecycle=.service) &&
  (request.lifecycle≠.service ||
    options.persistTaskRecords && parsePersistedService options (definitionOf id request))

def exec (id : String) (request : ExecRequest) (outputPath : String) (noted : Noted) (manager : ProcessManager) :
    Option ProcessManager :=
  if ValidProof request.owner ∧ admitsExec options id request=true then
    manager.start platform options
      ⟨id,request.label,request.command,request.cwd,none,false,request.lifecycle,request.owner,request.service,
        outputPath,noted⟩
  else none

def startCompatibility (id command cwd : String) (sessionId : Option String) (owner : LeaseProof) (outputPath : String)
    (noted : Noted) (manager : ProcessManager) : Option ProcessManager :=
  if ValidProof owner ∧ command.utf8ByteSize≤MAX_COMMAND_BYTES then
    manager.start platform options
      ⟨id,"Open Terminal session",command,cwd,sessionId,true,.session,owner,none,outputPath,noted⟩
  else none

/- The record in the place of the one it was made of; a task that is completed by it is written down. -/
def settle (persisted : Bool) (before after : ManagedRecord) (manager : ProcessManager) : ProcessManager :=
  let settled : ProcessManager := { manager with
    processes := manager.processes.map fun record => if record.id=before.id then after else record }
  if before.process.completed=false ∧ after.process.completed=true ∧ after.process.lifecycle=.task then
    settled.persistTask platform options persisted after
  else settled

def dispatch (id : String) (noted : Noted) (f : ManagedRecord → Option ManagedRecord) (manager : ProcessManager) :
    Option ProcessManager := do
  let record ← manager.find id
  let handled ← f record
  return manager.settle platform options noted.persisted record handled

/- What `appendJournal` makes of the journal of a compatibility session. -/
def journaled (id : String) (records : List JournalRecord) (truncated : Bool) (manager : ProcessManager) :
    Option ProcessManager :=
  (manager.find id).bind fun record =>
    if (record.journal++records).length<MAX_ARRAY_LENGTH then
      some { manager with processes := manager.processes.map fun other =>
        if other.id=id then
          { record with journal := record.journal++records, outputFileTruncated := truncated }
        else other }
    else none

/-- `deleteRecord`: of what is completed, or of a session whose lease is revoked. -/
def discard (id : String) (manager : ProcessManager) : Option ProcessManager :=
  (manager.find id).bind fun record =>
    if record.process.completed ∨ record.process.lifecycle=.session then
      some { manager with processes := manager.processes.filter fun other => other.id≠id }
    else none

def findPending (id : String) (manager : ProcessManager) : Option PendingService :=
  manager.pendingServices.find? fun pending => pending.definition.id=id

def removePending (id : String) (manager : ProcessManager) : ProcessManager :=
  { manager with pendingServices := manager.pendingServices.filter fun pending => pending.definition.id≠id }

/-- One turn of `drainServiceQueue` that starts a service. -/
def startPending (id : String) (outputPath : String) (noted : Noted) (manager : ProcessManager) : Option ProcessManager := do
  let pending ← manager.findPending id
  let started ← manager.start platform options
    ⟨id,pending.definition.label,pending.definition.command,pending.definition.cwd,none,false,.service,
      ⟨"durable-service",pending.definition.ownerGeneration,"computer"⟩,pending.definition.service,outputPath,noted⟩
  if pending.startError=none then return started.removePending id else none

def startErrorText (message : String) : String :=
  s!"Could not start saved service; retry on runtime restart: {message}"

/- The turn of a service that does not start. -/
def startFailed (id : String) (message : String) (manager : ProcessManager) : ProcessManager :=
  { manager with pendingServices := manager.pendingServices.map fun pending =>
      if pending.definition.id=id ∧ pending.startError=none then
        { pending with startError := some (startErrorText message) }
      else pending }

def terminalOpen (request : TerminalRequest) (manager : ProcessManager) : Option ProcessManager :=
  if ValidProof request.owner then
    some { manager with terminals := manager.terminals ++
      [⟨request.id,request.label,request.task,request.owner,request.pid,request.now,none,none,none⟩] }
  else none

/-- `PtyManager.complete`. -/
def terminalClosed (id : String) (now : ℕ) (code : Option ℚ) (signal : Option String) (manager : ProcessManager) :
    ProcessManager :=
  { manager with terminals := manager.terminals.map fun session =>
      if session.id=id ∧ session.finishedAt=none then
        { session with finishedAt := some now, exitCode := code, signal := signal }
      else session }

/-- `PtyManager.deleteSession`. -/
def deleteSession (id : String) (manager : ProcessManager) : ProcessManager :=
  { manager with terminals := manager.terminals.filter fun session => session.id≠id ∨ session.finishedAt=none }

/-- A new instance over what is left on disk: of the lines that were written, those that a crash did not lose, and saved
services that all pass their checks. -/
def restart (now : ℕ) (lines : List PersistedTaskRecord) (definitions : List PersistedServiceDefinition)
    (manager : ProcessManager) : Option ProcessManager :=
  if options.persistTaskRecords=false then some ⟨[],[],[],[],manager.taskRecords⟩
  else if lines.isSublist manager.taskRecords ∧ definitions.all (parsePersistedService options) then
    let loaded:=loadTaskHistory platform now lines
    some ⟨[],definitions.map fun definition => ⟨definition,platform.toISOString now,none⟩,[],loaded.1,
      lines++loaded.2⟩
  else none

end ProcessManager

def managerStep (platform : Platform) (options : ManagerOptions) (manager : ProcessManager) :
    ManagerMove → Option ProcessManager
  | .exec id request outputPath noted => manager.exec platform options id request outputPath noted
  | .executeCompatibility id command cwd sessionId owner outputPath noted =>
    manager.startCompatibility platform options id command cwd sessionId owner outputPath noted
  | .event id paused event noted =>
    if observable platform event then
      manager.dispatch platform options id noted fun record => record.handle platform paused noted event
    else none
  | .expired id lifetime noted =>
    manager.dispatch platform options id noted fun record => record.expire platform noted lifetime
  | .journaled id records truncated => manager.journaled id records truncated
  | .discard id => manager.discard id
  | .startPending id outputPath noted => manager.startPending platform options id outputPath noted
  | .startFailed id message => some (manager.startFailed id message)
  | .removePending id => some (manager.removePending id)
  | .terminalOpen request => manager.terminalOpen request
  | .terminalClosed id now code signal => some (manager.terminalClosed id now code signal)
  | .deleteSession id => some (manager.deleteSession id)
  | .compact => some (manager.compactTaskRecords platform options)
  | .restart now lines definitions => manager.restart platform options now lines definitions

/-- The first instance finds no history file. -/
def managerSystem (platform : Platform) (options : ManagerOptions) : TransitionSystem ProcessManager ManagerMove where
  initial manager := manager=⟨[],[],[],[],[]⟩
  step := managerStep platform options

end Qubicl.Control.Isolation
