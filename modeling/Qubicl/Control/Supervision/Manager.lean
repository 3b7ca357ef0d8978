import Mathlib.Data.List.Count
import Qubicl.Control.Supervision.Restart

/-!
# Admission of managed work (packages/control/src/processes.ts:524-533, 559-644, 848-855, 1510-1568; pty.ts:102-129)

`ProcessManager` with its records, its queue of saved services and the terminals it
counts. A record is known by the number it got: the saved definitions come first, in the
order of their names. The ids of the source are 12 random bytes and taken as distinct.
-/

namespace Qubicl.Control.Supervision
open Process (ProcessLifecycle)
open Foundation

structure ManagerOptions where
  maxProcesses : ℕ
  maxTerminals : ℕ

/- Of a saved definition only the restart and readiness settings matter here. -/
structure PendingService where
  id : ℕ
  service : Option ServiceOptions
  startError : Option String
  deriving DecidableEq, Repr

structure PtySession where
  id : ℕ
  running : Bool
  deriving DecidableEq, Repr

/- The loop of `stopAllForManagement`: the ids still to come, and the id whose
`stopForManagement` it awaits. -/
structure StopAll where
  remaining : List ℕ
  awaiting : Option ℕ
  deriving DecidableEq, Repr

/- `managed` keeps the records that left `processes`, since closures still hold them.
`stopping` are the calls of `stop` and `stopForManagement` at their `await`. The last
four fields only remember: how many definitions were loaded, which ids were explicitly
stopped, which queued ids a stop of everything could not disable, and how many children
were spawned. -/
structure ProcessManager where
  managed : ℕ → Option ManagedProcess
  created : ℕ
  processes : List ℕ
  pendingServices : List PendingService
  terminals : List PtySession
  bulkStopping : Bool
  shuttingDown : Bool
  stopAllOperation : Option StopAll
  stopping : List ℕ
  loaded : ℕ
  stopped : List ℕ
  survivors : List ℕ
  launches : ℕ

namespace ProcessManager

def live (manager : ProcessManager) (id : ℕ) : Bool :=
  match manager.managed id with
  | some managed => !managed.completed
  | none => false

def count (manager : ProcessManager) : ℕ :=
  (manager.processes.filter manager.live).length+(manager.terminals.filter PtySession.running).length

def paused (manager : ProcessManager) : Bool := manager.bulkStopping || manager.shuttingDown

/-- The end of `start`: the record enters the map with its first child. -/
def launch (id : ℕ) (lifecycle : ProcessLifecycle) (service : Option ServiceOptions)
    (manager : ProcessManager) : ProcessManager :=
  { manager with
    managed := Function.update manager.managed id (some (.started lifecycle service))
    processes := manager.processes++[id]
    launches := manager.launches+1 }

/- Why `start` throws for a saved definition: what went wrong outside, or the id is taken. -/
def startFailure (failing : List (ℕ × String)) (id : ℕ) (manager : ProcessManager) : Option String :=
  if id ∈ manager.processes then some s!"Managed process {id} already exists." else failing.lookup id

def startErrorText (message : String) : String :=
  s!"Could not start saved service; retry on runtime restart: {message}"

/- The loop of `drainServiceQueue`, with the entries already visited in `pendingServices`.
The nested `assertCapacity` does not drain, and what it checks was just checked. -/
def drainLoop (options : ManagerOptions) (failing : List (ℕ × String)) :
    ProcessManager → List PendingService → ProcessManager
  | manager, [] => manager
  | manager, pending::rest =>
    if options.maxProcesses ≤ manager.count then
      { manager with pendingServices := manager.pendingServices++pending::rest }
    else if pending.startError≠none then
      drainLoop options failing
        { manager with pendingServices := manager.pendingServices++[pending] } rest
    else match manager.startFailure failing pending.id with
      | some message =>
        drainLoop options failing
          { manager with pendingServices := manager.pendingServices ++
              [{ pending with startError := some (startErrorText message) }] } rest
      | none => drainLoop options failing (manager.launch pending.id .service pending.service) rest

def drainServiceQueue (options : ManagerOptions) (failing : List (ℕ × String))
    (manager : ProcessManager) : ProcessManager :=
  if manager.paused then manager
  else drainLoop options failing { manager with pendingServices := [] } manager.pendingServices

/-- The queue after it was drained, and whether new work is admitted. -/
def assertCapacity (options : ManagerOptions) (failing : List (ℕ × String)) (manager : ProcessManager) :
    ProcessManager × Bool :=
  if manager.paused then (manager,false)
  else
    let manager:=manager.drainServiceQueue options failing
    (manager,decide (manager.count<options.maxProcesses))

def start (options : ManagerOptions) (lifecycle : ProcessLifecycle) (service : Option ServiceOptions)
    (spawns : Bool) (failing : List (ℕ × String)) (manager : ProcessManager) : ProcessManager :=
  let admission:=manager.assertCapacity options failing
  if admission.2 && spawns then
    { admission.1.launch admission.1.created lifecycle service with created := admission.1.created+1 }
  else admission.1

/-- `exec`; `executeCompatibility` is the case of a session without service settings. -/
def exec (options : ManagerOptions) (lifecycle : ProcessLifecycle) (service : Option ServiceOptions)
    (spawns : Bool) (failing : List (ℕ × String)) (manager : ProcessManager) : ProcessManager :=
  if service.isSome ∧ lifecycle≠.service then manager
  else manager.start options lifecycle service spawns failing

/-- `terminalOpen` up to the `await` of `PtyManager.open`. -/
def terminalOpen (options : ManagerOptions) (spawns : Bool) (failing : List (ℕ × String))
    (manager : ProcessManager) : ProcessManager :=
  let admission:=manager.assertCapacity options failing
  let runningCount:=(admission.1.terminals.filter PtySession.running).length
  if admission.2 && decide (runningCount<options.maxTerminals) && spawns then
    { admission.1 with
      terminals := admission.1.terminals++[⟨admission.1.created,true⟩]
      created := admission.1.created+1
      launches := admission.1.launches+1 }
  else admission.1

/-- `PtyManager.complete`: the queue is not drained. -/
def terminalExit (id : ℕ) (manager : ProcessManager) : ProcessManager :=
  { manager with terminals := manager.terminals.map fun session =>
      if session.id=id then { session with running := false } else session }

/-- `PtyManager.deleteSession`. -/
def deleteSession (id : ℕ) (manager : ProcessManager) : ProcessManager :=
  { manager with terminals := manager.terminals.filter fun session => session.id≠id ∨ session.running }

/- The record after an event; a completion drains the queue. -/
def settle (options : ManagerOptions) (failing : List (ℕ × String)) (id : ℕ)
    (managed managed' : ManagedProcess) (manager : ProcessManager) : ProcessManager :=
  let settled:={ manager with
    managed := Function.update manager.managed id (some managed')
    launches := manager.launches+(managed'.spawned - managed.spawned) }
  if managed.completed=false ∧ managed'.completed=true then settled.drainServiceQueue options failing
  else settled

def dispatch (options : ManagerOptions) (failing : List (ℕ × String)) (id : ℕ) (event : ProcessEvent)
    (manager : ProcessManager) : Option ProcessManager :=
  (manager.managed id).bind fun managed =>
    (event.handle manager.paused managed).map fun managed' =>
      manager.settle options failing id managed managed'

def deleteRecord (id : ℕ) (manager : ProcessManager) : ProcessManager :=
  { manager with processes := manager.processes.filter (· ≠ id) }

/-- `discard`, where it is called by itself: for what is completed and no service. -/
def discard (id : ℕ) (fenced : Bool) (manager : ProcessManager) : Option ProcessManager :=
  (manager.managed id).bind fun managed =>
    if managed.completed ∧ managed.lifecycle≠.service ∧ fenced then some (manager.deleteRecord id) else none

/-- The last line of `terminateOwner`, for one of its records. -/
def revoke (id : ℕ) (manager : ProcessManager) : Option ProcessManager :=
  (manager.managed id).bind fun managed =>
    if managed.lifecycle=.session then some (manager.deleteRecord id) else none

def isPending (id : ℕ) (manager : ProcessManager) : Bool := manager.pendingServices.any (·.id=id)

def disable (id : ℕ) (manager : ProcessManager) : ProcessManager :=
  { manager with
    pendingServices := manager.pendingServices.filter (·.id≠id)
    stopped := manager.stopped++[id] }

def awaitStop (id : ℕ) (manager : ProcessManager) : ProcessManager :=
  { manager with stopping := manager.stopping++[id] }

/-- `stop` up to its `await`; `removed` says whether `removeServiceDefinition` succeeds. -/
def stop (options : ManagerOptions) (failing : List (ℕ × String)) (id : ℕ) (signal : StopSignal)
    (removed : Bool) (manager : ProcessManager) : Option ProcessManager :=
  if manager.isPending id then some (if removed then manager.disable id else manager)
  else if id ∈ manager.processes then
    (manager.dispatch options failing id (.terminate (.stop signal) .stop)).map (awaitStop id)
  else none

/- The `terminate` of `stopForManagement` and of `shutdown`: only of what is not completed. -/
def terminateLive (options : ManagerOptions) (failing : List (ℕ × String)) (id : ℕ)
    (manager : ProcessManager) : ProcessManager :=
  if manager.live id then
    (manager.dispatch options failing id (.terminate (.stop .SIGTERM) .stop)).getD manager
  else manager

/-- `stopForManagement` up to its `await`. Closing a terminal only sends signals. -/
def stopForManagement (options : ManagerOptions) (failing : List (ℕ × String)) (id : ℕ) (removed : Bool)
    (manager : ProcessManager) : ProcessManager :=
  if manager.isPending id then if removed then manager.disable id else manager
  else if id ∈ manager.processes then (manager.terminateLive options failing id).awaitStop id
  else manager

/- What `stop` and `stopForManagement` do after their `await`: the definition and the
record of what is completed go, each where that succeeds. -/
def finishStop (id : ℕ) (removed fenced : Bool) (manager : ProcessManager) : ProcessManager :=
  match manager.managed id with
  | some managed =>
    if managed.completed ∧ (managed.lifecycle=.service → removed) ∧ fenced ∧ id ∈ manager.processes then
      { manager.deleteRecord id with stopped := manager.stopped++[id] }
    else manager
  | none => manager

def stopSettled (id : ℕ) (removed fenced : Bool) (manager : ProcessManager) : Option ProcessManager :=
  if id ∈ manager.stopping then
    some ({ manager with stopping := manager.stopping.erase id }.finishStop id removed fenced)
  else none

/-- `stopAllForManagement` up to its loop. -/
def stopAllForManagement (manager : ProcessManager) : ProcessManager :=
  if manager.stopAllOperation.isSome then manager
  else
    let services:=manager.processes.filter fun id =>
      match manager.managed id with
      | some managed => managed.lifecycle=.service ∨ managed.completed=false
      | none => false
    let terminals:=(manager.terminals.filter PtySession.running).map PtySession.id
    { manager with
      bulkStopping := true
      stopAllOperation := some ⟨manager.pendingServices.map PendingService.id++services++terminals,none⟩ }

def stopNext (options : ManagerOptions) (removed : Bool) (manager : ProcessManager) : Option ProcessManager :=
  match manager.stopAllOperation with
  | some ⟨id::remaining,none⟩ =>
    let manager:={ manager with stopAllOperation := some ⟨remaining,none⟩ }
    some (if manager.isPending id then
        if removed then manager.disable id else { manager with survivors := manager.survivors++[id] }
      else if id ∈ manager.processes then
        { manager.terminateLive options [] id with stopAllOperation := some ⟨remaining,some id⟩ }
      else manager)
  | _ => none

def stopAwaited (removed fenced : Bool) (manager : ProcessManager) : Option ProcessManager :=
  match manager.stopAllOperation with
  | some ⟨remaining,some id⟩ =>
    some ({ manager with stopAllOperation := some ⟨remaining,none⟩ }.finishStop id removed fenced)
  | _ => none

/- The `finally` of `stopAllForManagement`: the queue is not drained. -/
def stopAllFinished (manager : ProcessManager) : Option ProcessManager :=
  match manager.stopAllOperation with
  | some ⟨[],none⟩ => some { manager with bulkStopping := false, stopAllOperation := none }
  | _ => none

/-- `shutdown` up to its `await`. -/
def shutdown (options : ManagerOptions) (manager : ProcessManager) : ProcessManager :=
  if manager.shuttingDown then manager
  else manager.processes.foldl (fun manager id => manager.terminateLive options [] id)
    { manager with shuttingDown := true }

def queued (definitions : List (Option ServiceOptions)) : ProcessManager where
  managed := fun _ => none
  created := definitions.length
  processes := []
  pendingServices := definitions.mapIdx fun id service => ⟨id,service,none⟩
  terminals := []
  bulkStopping := false
  shuttingDown := false
  stopAllOperation := none
  stopping := []
  loaded := definitions.length
  stopped := []
  survivors := []
  launches := 0

def loadServices (options : ManagerOptions) (failing : List (ℕ × String))
    (definitions : List (Option ServiceOptions)) : ProcessManager :=
  (queued definitions).drainServiceQueue options failing

end ProcessManager

/- `failing` are the saved definitions that do not start in a drain, with the messages;
`spawns`, `removed` and `fenced` say whether a spawn, `removeServiceDefinition` and
`terminateCompletedGroup` succeed. -/
inductive ManagerAction
  | exec (lifecycle : ProcessLifecycle) (service : Option ServiceOptions) (spawns : Bool)
    (failing : List (ℕ × String))
  | terminalOpen (spawns : Bool) (failing : List (ℕ × String))
  | terminalExit (id : ℕ)
  | deleteSession (id : ℕ)
  | event (id : ℕ) (event : ProcessEvent) (failing : List (ℕ × String))
  | discard (id : ℕ) (fenced : Bool)
  | revoke (id : ℕ)
  | stop (id : ℕ) (signal : StopSignal) (removed : Bool) (failing : List (ℕ × String))
  | stopForManagement (id : ℕ) (removed : Bool) (failing : List (ℕ × String))
  | stopSettled (id : ℕ) (removed fenced : Bool)
  | stopAllForManagement
  | stopNext (removed : Bool)
  | stopAwaited (removed fenced : Bool)
  | stopAllFinished
  | shutdown

open ProcessManager

def managerStep (options : ManagerOptions) (manager : ProcessManager) : ManagerAction → Option ProcessManager
  | .exec lifecycle service spawns failing => some (manager.exec options lifecycle service spawns failing)
  | .terminalOpen spawns failing => some (manager.terminalOpen options spawns failing)
  | .terminalExit id => some (manager.terminalExit id)
  | .deleteSession id => some (manager.deleteSession id)
  | .event id event failing => manager.dispatch options failing id event
  | .discard id fenced => manager.discard id fenced
  | .revoke id => manager.revoke id
  | .stop id signal removed failing => manager.stop options failing id signal removed
  | .stopForManagement id removed failing => some (manager.stopForManagement options failing id removed)
  | .stopSettled id removed fenced => manager.stopSettled id removed fenced
  | .stopAllForManagement => some manager.stopAllForManagement
  | .stopNext removed => manager.stopNext options removed
  | .stopAwaited removed fenced => manager.stopAwaited removed fenced
  | .stopAllFinished => manager.stopAllFinished
  | .shutdown => some (manager.shutdown options)

def managerSystem (options : ManagerOptions) : TransitionSystem ProcessManager ManagerAction where
  initial manager := ∃ failing definitions, manager=loadServices options failing definitions
  step := managerStep options

end Qubicl.Control.Supervision
