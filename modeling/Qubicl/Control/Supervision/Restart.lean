import Qubicl.Control.Process.Output

/-!
# One managed process and its restarts (packages/control/src/processes.ts:857-936, 1213-1241, 1322-1345)

What the child's close handler, the restart timer, `restartService`, the readiness
monitor and `terminate` do to one `ManagedProcess`. An `await` ends an event: whatever
happens meanwhile is another event.
-/

namespace Qubicl.Control.Supervision
open List
open Process (ProcessLifecycle)

inductive StopSignal
  | SIGTERM
  | SIGINT
  | SIGHUP
  deriving DecidableEq, Repr

inductive TerminateSignal
  | stop (signal : StopSignal)
  | SIGKILL
  deriving DecidableEq, Repr

inductive TerminationReason
  | stop
  | timeout
  | lifetime
  | lease_revoked
  deriving DecidableEq, Repr

inductive ServiceStatus
  | queued
  | starting
  | ready
  | unhealthy
  | exited
  | unverified
  deriving DecidableEq, Repr

structure RestartPolicy where
  maxAttempts : ℕ
  backoffMs : Option ℕ
  deriving DecidableEq, Repr

/- `readiness` says whether a probe is configured; what it probes is the environment's. -/
structure ServiceOptions where
  readiness : Bool
  restart : Option RestartPolicy
  deriving DecidableEq, Repr

/- Children and timers are numbered per record. `openChildren`, `pendingTimers` and
`restarting` are what the runtime still owes the record: children whose `close` is not
delivered, timers that have not fired, calls of `restartService` at their `await`. The
last three fields only remember: how many children there were, the delay of every
restart timer, and whether `terminate` was ever called. -/
structure ManagedProcess where
  lifecycle : ProcessLifecycle
  serviceOptions : Option ServiceOptions
  child : ℕ
  exitCode : Option ℤ
  signal : Option ℕ
  completed : Bool
  finished : Bool
  requestedSignal : Option StopSignal
  terminationReason : Option TerminationReason
  state : ServiceStatus
  restartAttempts : ℕ
  restartTimer : Option ℕ
  openChildren : List ℕ
  pendingTimers : List ℕ
  restarting : ℕ
  spawned : ℕ
  backoffs : List ℕ
  terminateCalled : Bool
  deriving DecidableEq, Repr

namespace ManagedProcess

def readiness (managed : ManagedProcess) : Bool :=
  (managed.serviceOptions.map ServiceOptions.readiness).getD false

def restart (managed : ManagedProcess) : Option RestartPolicy :=
  managed.serviceOptions.bind ServiceOptions.restart

def initialStatus (readiness : Bool) : ServiceStatus :=
  if readiness then .starting else .unverified

/-- The record that `start` makes around its child. -/
def started (lifecycle : ProcessLifecycle) (serviceOptions : Option ServiceOptions) : ManagedProcess where
  lifecycle := lifecycle
  serviceOptions := serviceOptions
  child := 0
  exitCode := none
  signal := none
  completed := false
  finished := false
  requestedSignal := none
  terminationReason := none
  state := initialStatus ((serviceOptions.map ServiceOptions.readiness).getD false)
  restartAttempts := 0
  restartTimer := none
  openChildren := [0]
  pendingTimers := []
  restarting := 0
  spawned := 1
  backoffs := []
  terminateCalled := false

/- `clearTimeout(managed.restartTimer)` keeps the handle. -/
def clearRestartTimer (managed : ManagedProcess) : ManagedProcess :=
  { managed with pendingTimers := managed.pendingTimers.filter fun timer => some timer≠managed.restartTimer }

def complete (managed : ManagedProcess) : ManagedProcess :=
  if managed.completed then managed
  else { managed.clearRestartTimer with completed := true, state := .exited }

/-- Resolves `managed.finished`. -/
def finish (managed : ManagedProcess) : ManagedProcess := { managed with finished := true }

/- Only a service keeps its `finish` in the record. -/
def finishCallback (managed : ManagedProcess) : ManagedProcess :=
  if managed.lifecycle=.service then managed.finish else managed

def DEFAULT_BACKOFF_MS : ℕ := 1000
def MAX_BACKOFF_MS : ℕ := 30000

/-- The delay before the restart that follows `attempts` earlier ones. -/
def waitMs (policy : RestartPolicy) (attempts : ℕ) : ℕ :=
  min MAX_BACKOFF_MS (policy.backoffMs.getD DEFAULT_BACKOFF_MS*2 ^ attempts)

/-- The policy under which a process that has just exited is restarted. -/
def nextRestart (managed : ManagedProcess) : Option RestartPolicy :=
  managed.restart.filter fun policy =>
    managed.lifecycle=.service ∧ managed.terminationReason=none ∧
      (managed.exitCode≠some 0 ∨ managed.signal≠none) ∧ managed.restartAttempts<policy.maxAttempts

def scheduleRestart (policy : RestartPolicy) (managed : ManagedProcess) : ManagedProcess :=
  { managed with
    restartAttempts := managed.restartAttempts+1
    state := .starting
    restartTimer := some managed.restartAttempts
    pendingTimers := managed.restartAttempts::managed.pendingTimers
    backoffs := managed.backoffs++[waitMs policy managed.restartAttempts] }

def exited (code : Option ℤ) (signal : Option ℕ) (managed : ManagedProcess) : ManagedProcess :=
  { managed with exitCode := managed.exitCode.or code, signal := signal }

/-- The `close` handler of one child. -/
def onClose (child : ℕ) (code : Option ℤ) (signal : Option ℕ) (managed : ManagedProcess) : ManagedProcess :=
  if managed.child≠child ∨ managed.completed then managed
  else
    let managed:=managed.exited code signal
    match managed.nextRestart with
    | some policy => managed.scheduleRestart policy
    | none => managed.complete.finish

/- The last lines of `restartService`: the new child takes the place of the old one. -/
def respawn (managed : ManagedProcess) : ManagedProcess :=
  { managed with
    child := managed.spawned
    exitCode := none
    signal := none
    state := initialStatus managed.readiness
    openChildren := managed.spawned::managed.openChildren
    spawned := managed.spawned+1 }

/- The `catch` of `restartService`. -/
def restartFailed (managed : ManagedProcess) : ManagedProcess :=
  { managed with exitCode := some (-1) }.complete.finish

/-- `restartService` from its `await` on; `paused` is `bulkStopping || shuttingDown`. -/
def restartService (paused fenced spawns : Bool) (managed : ManagedProcess) : ManagedProcess :=
  if fenced=false then managed.restartFailed
  else if managed.completed ∨ managed.terminationReason≠none ∨ paused then managed
  else if spawns then { managed with restartTimer := none }.respawn
  else { managed with restartTimer := none }.restartFailed

/-- One round of the readiness monitor of a child, after its probe. -/
def probed (child : ℕ) (failed expired : Bool) (managed : ManagedProcess) : ManagedProcess :=
  if managed.completed ∨ managed.child≠child ∨ managed.restartTimer≠none then managed
  else if failed then
    if managed.state=.ready ∨ expired then { managed with state := .unhealthy } else managed
  else { managed with state := .ready }

def requested : TerminateSignal → StopSignal
  | .stop signal => signal
  | .SIGKILL => .SIGTERM

/-- `terminate` up to its first `await`; what follows only sends signals. -/
def terminate (signal : TerminateSignal) (reason : TerminationReason) (managed : ManagedProcess) :
    ManagedProcess :=
  let managed:={ managed with terminateCalled := true }
  if managed.restartTimer≠none then
    { managed.clearRestartTimer with
      restartTimer := none
      terminationReason := some reason
      requestedSignal := some (requested signal) }.complete.finishCallback
  else if managed.completed then managed
  else if managed.requestedSignal≠none then managed
  else { managed with requestedSignal := some (requested signal), terminationReason := some reason }

end ManagedProcess

inductive ProcessEvent
  | error
  | close (child : ℕ) (code : Option ℤ) (signal : Option ℕ)
  | restartTimer (timer : ℕ)
  | restartFenced (fenced spawns : Bool)
  | probed (child : ℕ) (failed expired : Bool)
  | terminate (signal : TerminateSignal) (reason : TerminationReason)
  deriving DecidableEq, Repr

open ManagedProcess in
/-- What an event does to the record, where it can happen. -/
def ProcessEvent.handle (paused : Bool) (managed : ManagedProcess) : ProcessEvent → Option ManagedProcess
  | .error => some { managed with exitCode := some (-1) }
  | .close child code signal =>
    if child ∈ managed.openChildren then
      some ({ managed with openChildren := managed.openChildren.erase child }.onClose child code signal)
    else none
  | .restartTimer timer =>
    if timer ∈ managed.pendingTimers then
      some { managed with
        pendingTimers := managed.pendingTimers.erase timer
        restarting := managed.restarting+1 }
    else none
  | .restartFenced fenced spawns =>
    if 0 < managed.restarting then
      some ({ managed with restarting := managed.restarting - 1 }.restartService paused fenced spawns)
    else none
  | .probed child failed expired => some (managed.probed child failed expired)
  | .terminate signal reason => some (managed.terminate signal reason)

/-- What holds also between the two halves of an event. -/
structure Tracked (managed : ManagedProcess) : Prop where
  /- The runtime owes the record at most one thing. -/
  single : managed.openChildren.length+managed.pendingTimers.length+managed.restarting≤1
  current : ∀ child ∈ managed.openChildren, child=managed.child
  handle : ∀ timer ∈ managed.pendingTimers, managed.restartTimer=some timer
  idle : managed.restartTimer≠none → managed.openChildren=[]
  done : managed.completed=true → managed.openChildren=[] ∧ managed.pendingTimers=[]
  stopping : managed.terminationReason≠none → managed.completed=false → managed.restartTimer=none
  requested : managed.requestedSignal≠none → managed.terminationReason≠none
  service : managed.restartTimer≠none → managed.lifecycle=.service
  unrestarted : managed.restart=none → managed.restartAttempts=0
  bounded : ∀ policy, managed.restart=some policy → managed.restartAttempts≤policy.maxAttempts
  backedOff : ∀ policy, managed.restart=some policy →
    managed.backoffs=(List.range managed.restartAttempts).map (ManagedProcess.waitMs policy)

structure Supervised (managed : ManagedProcess) : Prop extends Tracked managed where
  alive : managed.completed=false → managed.restartTimer=none → managed.openChildren=[managed.child]
  settled : managed.finished=managed.completed
  terminated : managed.terminateCalled=true → managed.completed=false →
    managed.terminationReason≠none

open ManagedProcess
variable {managed : ManagedProcess}

@[simp] theorem complete_lifecycle (managed : ManagedProcess) :
    managed.complete.lifecycle=managed.lifecycle := by
  unfold complete
  split <;> rfl

@[simp] theorem complete_spawned (managed : ManagedProcess) : managed.complete.spawned=managed.spawned := by
  unfold complete
  split <;> rfl

@[simp] theorem complete_completed (managed : ManagedProcess) : managed.complete.completed=true := by
  unfold complete
  split
  next hdon => exact hdon
  next => rfl

theorem Tracked.pending_clearRestartTimer (h : Tracked managed) :
    managed.clearRestartTimer.pendingTimers=[] := by
  apply filter_eq_nil_iff.2
  intro timer hmem
  have := h.handle timer hmem
  simp [this]

theorem Tracked.complete_finish (h : Tracked managed) (hope : managed.openChildren=[]) :
    Supervised managed.complete.finish := by
  unfold complete
  split
  next hdon =>
    exact { h with
      alive := fun hliv => by simp [finish,hdon] at hliv
      settled := hdon.symm
      terminated := fun _ hliv => by simp [finish,hdon] at hliv }
  next hdon =>
    have hpen:=h.pending_clearRestartTimer
    exact { h with
      single := by
        have := h.single
        show managed.openChildren.length+managed.clearRestartTimer.pendingTimers.length+_≤1
        rw [hpen,hope]
        simp only [finish,clearRestartTimer,length_nil]
        omega
      handle := fun timer hmem => by
        have hmem' : timer ∈ managed.clearRestartTimer.pendingTimers := hmem
        rw [hpen] at hmem'
        cases hmem'
      done := fun _ => ⟨hope,hpen⟩
      stopping := fun _ hliv => by cases hliv
      alive := fun hliv => by cases hliv
      settled := rfl
      terminated := fun _ hliv => by cases hliv }

namespace Supervised

theorem started (lifecycle : ProcessLifecycle) (serviceOptions : Option ServiceOptions) :
    Supervised (ManagedProcess.started lifecycle serviceOptions) := by
  constructor
  · constructor <;> simp [ManagedProcess.started]
  all_goals simp [ManagedProcess.started]

/- A record with an open child is not completed, waits for nothing, and has no other child. -/
theorem open_child (h : Supervised managed) {child : ℕ} (hmem : child ∈ managed.openChildren) :
    managed.openChildren=[managed.child] ∧ child=managed.child ∧ managed.completed=false ∧
      managed.restartTimer=none ∧ managed.pendingTimers=[] ∧ managed.restarting=0 := by
  have hchi:=h.current child hmem
  have hne : managed.openChildren≠[] := ne_nil_of_mem hmem
  have hliv : managed.completed=false := by
    cases hdon : managed.completed with
    | false => rfl
    | true => exact absurd (h.done hdon).1 hne
  have htim : managed.restartTimer=none := by
    cases hhan : managed.restartTimer with
    | none => rfl
    | some timer => exact absurd (h.idle (by simp [hhan])) hne
  have hope:=h.alive hliv htim
  have hsin:=h.single
  rw [hope] at hsin
  have hpen : managed.pendingTimers.length=0 := by simp at hsin; omega
  have hres : managed.restarting=0 := by simp at hsin; omega
  exact ⟨hope,hchi,hliv,htim,length_eq_zero_iff.1 hpen,hres⟩

variable {policy : RestartPolicy}

theorem nextRestart_policy (h : managed.nextRestart=some policy) :
    managed.restart=some policy ∧ managed.lifecycle=.service ∧ managed.terminationReason=none ∧
      managed.restartAttempts<policy.maxAttempts := by
  unfold nextRestart at h
  obtain ⟨hpol,hcon⟩ := Option.filter_eq_some_iff.1 h
  simp only [decide_eq_true_eq] at hcon
  exact ⟨hpol,hcon.1,hcon.2.1,hcon.2.2.2⟩

theorem scheduled (h : Tracked managed) (hpol : managed.nextRestart=some policy) (hope : managed.openChildren=[])
    (hpen : managed.pendingTimers=[]) (hreg : managed.restarting=0) (hliv : managed.completed=false)
    (hset : managed.finished=managed.completed) (hcal : managed.terminateCalled=true → managed.terminationReason≠none) :
    Supervised (managed.scheduleRestart policy) := by
  obtain ⟨hres,hser,hrea,hatt⟩ := nextRestart_policy hpol
  exact { h with
    single := by simp [scheduleRestart,hope,hpen,hreg]
    handle := fun timer hmem => by
      simp only [scheduleRestart,hpen,mem_singleton] at hmem
      rw [hmem]
      rfl
    idle := fun _ => hope
    done := fun hdon => absurd hdon (by simp [scheduleRestart,hliv])
    stopping := fun hsto => absurd hrea hsto
    service := fun _ => hser
    unrestarted := fun hnon => by
      have hnon' : managed.restart=none := hnon
      rw [hres] at hnon'
      cases hnon'
    bounded := fun policy' hpol' => by
      have hsam : some policy=some policy' := hres.symm.trans hpol'
      cases hsam
      exact hatt
    backedOff := fun policy' hpol' => by
      have hsam : some policy=some policy' := hres.symm.trans hpol'
      cases hsam
      show managed.backoffs++_=(List.range (managed.restartAttempts+1)).map _
      rw [range_succ,map_append,← h.backedOff policy hres]
      rfl
    alive := fun _ hnon => by cases hnon
    settled := hset
    terminated := fun hter _ => hcal hter }

section
variable (h : Supervised managed)
include h

theorem close {child : ℕ} (hmem : child ∈ managed.openChildren) (code : Option ℤ)
    (signal : Option ℕ) :
    Supervised ({ managed with openChildren := managed.openChildren.erase child }.onClose child code signal) := by
  obtain ⟨hope,hchi,hliv,htim,hpen,hres⟩ := h.open_child hmem
  have hera : managed.openChildren.erase child=[] := by rw [hope,hchi]; simp
  have hclo : Tracked (exited code signal { managed with openChildren := managed.openChildren.erase child }) :=
    { h with
      single := by
        show (managed.openChildren.erase child).length+managed.pendingTimers.length+managed.restarting≤1
        rw [hera,hpen,hres]
        exact Nat.zero_le 1
      current := fun c hc => by simp [exited,hera] at hc
      idle := fun _ => hera
      done := fun hdon => absurd hdon (by simp [exited,hliv]) }
  unfold onClose
  rw [if_neg (by simp [hchi,hliv])]
  dsimp only
  split
  next policy hpol =>
    exact scheduled hclo hpol hera hpen hres hliv h.settled
      fun hcal => h.terminated hcal hliv
  next => exact hclo.complete_finish hera

theorem restartTimer {timer : ℕ} (hmem : timer ∈ managed.pendingTimers) :
    Supervised { managed with
      pendingTimers := managed.pendingTimers.erase timer
      restarting := managed.restarting+1 } :=
  { h with
    single := by
      have hlength:=length_erase_of_mem hmem
      have hpos:=length_pos_of_mem hmem
      have := h.single
      dsimp only
      omega
    handle := fun t ht => h.handle t (mem_of_mem_erase ht)
    done := fun hdon => absurd (h.done hdon).2 (ne_nil_of_mem hmem) }

theorem restartFenced (hreg : 0 < managed.restarting)
    (paused fenced spawns : Bool) :
    Supervised ({ managed with restarting := managed.restarting - 1 }.restartService paused fenced spawns) := by
  have hsin:=h.single
  have hope : managed.openChildren=[] := length_eq_zero_iff.1 (by omega)
  have hpen : managed.pendingTimers=[] := length_eq_zero_iff.1 (by omega)
  have hres : Supervised { managed with restarting := managed.restarting - 1 } :=
    { h with single := by dsimp only; omega }
  unfold restartService
  split
  · exact Tracked.complete_finish { hres.toTracked with } hope
  · split
    · exact hres
    · next hgo =>
      rw [not_or,not_or] at hgo
      obtain ⟨hliv,hrea,hpau⟩ := hgo
      have hliv' : managed.completed=false := by simpa using hliv
      have hrea' : managed.terminationReason=none := by simpa using hrea
      have hcle : Tracked { managed with restarting := managed.restarting - 1, restartTimer := none } :=
        { hres.toTracked with
          handle := fun timer hmem => by simp [hpen] at hmem
          idle := fun hne => absurd rfl hne
          stopping := fun _ _ => rfl
          service := fun hne => absurd rfl hne }
      split
      · exact { hcle with
          single := by
            simp only [respawn,hope,hpen,length_cons,length_nil]
            omega
          current := fun child hmem => by simpa [respawn,hope] using hmem
          idle := fun hne => absurd rfl hne
          done := fun hdon => absurd hdon (by simp [respawn,hliv'])
          alive := fun _ _ => by simp [respawn,hope]
          settled := h.settled
          terminated := fun hcal _ => h.terminated hcal hliv' }
      · exact Tracked.complete_finish { hcle with } hope

theorem probed (child : ℕ) (failed expired : Bool) :
    Supervised (managed.probed child failed expired) := by
  unfold ManagedProcess.probed
  split
  · exact h
  · split
    · split
      · exact { h with }
      · exact h
    · exact { h with }

theorem terminate (signal : TerminateSignal) (reason : TerminationReason) :
    Supervised (managed.terminate signal reason) := by
  unfold ManagedProcess.terminate
  dsimp only
  split
  next hhan =>
    have hser:=h.service hhan
    have hcle : Tracked { managed.clearRestartTimer with
        terminateCalled := true
        restartTimer := none
        terminationReason := some reason
        requestedSignal := some (requested signal) } :=
      { h with
        single := by
          have hsingle:=h.single
          have hfil : managed.clearRestartTimer.pendingTimers.length ≤ managed.pendingTimers.length :=
            length_filter_le ..
          show managed.openChildren.length+managed.clearRestartTimer.pendingTimers.length+managed.restarting≤1
          omega
        handle := fun timer hmem => by
          have hmem' : timer ∈ managed.clearRestartTimer.pendingTimers := hmem
          rw [h.pending_clearRestartTimer] at hmem'
          cases hmem'
        idle := fun hne => absurd rfl hne
        done := fun hdon => ⟨(h.done hdon).1,h.pending_clearRestartTimer⟩
        stopping := fun _ _ => rfl
        requested := fun _ => by simp
        service := fun hne => absurd rfl hne }
    unfold finishCallback
    rw [if_pos (by rw [complete_lifecycle]; exact hser)]
    exact hcle.complete_finish (h.idle hhan)
  next hhan =>
    have hnon : managed.restartTimer=none := by simpa using hhan
    split
    next hdon => exact { h with terminated := fun _ hliv => absurd hliv (by simp [hdon]) }
    next hliv =>
      split
      next hreq => exact { h with terminated := fun _ _ => h.requested hreq }
      next => exact { h with
        stopping := fun _ _ => hnon
        requested := fun _ => by simp
        terminated := fun _ _ => by simp }

end

end Supervised

variable {managed' : ManagedProcess}

theorem ProcessEvent.supervised {paused : Bool} {event : ProcessEvent} (h : Supervised managed)
    (heve : event.handle paused managed=some managed') : Supervised managed' := by
  cases event with
  | error =>
    cases heve
    exact { h with }
  | close child code signal =>
    obtain ⟨hmem,rfl⟩ := by simpa [handle] using heve
    exact h.close hmem code signal
  | restartTimer timer =>
    obtain ⟨hmem,rfl⟩ := by simpa [handle] using heve
    exact h.restartTimer hmem
  | restartFenced fenced spawns =>
    obtain ⟨hpos,rfl⟩ := by simpa [handle] using heve
    exact h.restartFenced hpos paused fenced spawns
  | probed child failed expired =>
    cases heve
    exact h.probed child failed expired
  | terminate signal reason =>
    cases heve
    exact h.terminate signal reason

def Evolves : ManagedProcess → ManagedProcess → Prop :=
  Relation.ReflTransGen fun managed managed' => ∃ paused event, ProcessEvent.handle paused managed event=some managed'

theorem Evolves.refl (managed : ManagedProcess) : Evolves managed managed := Relation.ReflTransGen.refl

theorem Evolves.event {paused : Bool} {event : ProcessEvent} (h : event.handle paused managed=some managed') :
    Evolves managed managed' :=
  Relation.ReflTransGen.single ⟨paused,event,h⟩

theorem Evolves.trans {managed'' : ManagedProcess} (h : Evolves managed managed') (h' : Evolves managed' managed'') :
    Evolves managed managed'' :=
  Relation.ReflTransGen.trans h h'

/-- A property that every event keeps is kept by all that happens to a record. -/
theorem Evolves.preserves {P : ManagedProcess → Prop} (h : Evolves managed managed') (hsta : P managed)
    (hste : ∀ m m' paused (event : ProcessEvent), P m → event.handle paused m=some m' → P m') : P managed' := by
  induction h with
  | refl => exact hsta
  | tail _ heve ih =>
    obtain ⟨paused,event,heve⟩ := heve
    exact hste _ _ paused event ih heve

theorem Evolves.supervised (h : Evolves managed managed') (hsup : Supervised managed) : Supervised managed' :=
  h.preserves hsup fun _ _ _ _ hm heve => ProcessEvent.supervised hm heve

/-- `terminate` was called, or the record is completed. -/
def Halted (managed : ManagedProcess) : Prop :=
  managed.terminateCalled=true ∨ managed.completed=true

namespace Halted

variable {managed' : ManagedProcess}

section
variable (h : Supervised managed)
include h

theorem onClose (hhal : Halted managed) {child : ℕ}
    (hmem : child ∈ managed.openChildren) (code : Option ℤ) (signal : Option ℕ) :
    { managed with openChildren := managed.openChildren.erase child }.onClose child code signal =
      (exited code signal
        { managed with openChildren := managed.openChildren.erase child }).complete.finish := by
  obtain ⟨_,hchi,hliv,_⟩ := h.open_child hmem
  have hcal : managed.terminateCalled=true := hhal.resolve_right (by simp [hliv])
  have hrea:=h.terminated hcal hliv
  unfold ManagedProcess.onClose
  rw [if_neg (by simp [hchi,hliv])]
  dsimp only
  split
  next policy hpol => exact absurd (Supervised.nextRestart_policy hpol).2.2.1 hrea
  next => rfl

theorem event (hhal : Halted managed) {paused : Bool} {event : ProcessEvent}
    (heve : event.handle paused managed=some managed') : Halted managed' ∧ managed'.spawned=managed.spawned := by
  cases event with
  | error =>
    cases heve
    exact ⟨hhal,rfl⟩
  | close child code signal =>
    obtain ⟨hmem,rfl⟩ := by simpa [ProcessEvent.handle] using heve
    rw [onClose h hhal hmem]
    exact ⟨Or.inr (complete_completed _),complete_spawned _⟩
  | restartTimer timer =>
    obtain ⟨hmem,rfl⟩ := by simpa [ProcessEvent.handle] using heve
    exact ⟨hhal,rfl⟩
  | restartFenced fenced spawns =>
    obtain ⟨hpos,rfl⟩ := by simpa [ProcessEvent.handle] using heve
    unfold restartService
    split
    · exact ⟨Or.inr (complete_completed _),complete_spawned _⟩
    · rw [if_pos]
      · exact ⟨hhal,rfl⟩
      · cases hliv : managed.completed with
        | true => exact Or.inl rfl
        | false => exact Or.inr (Or.inl (h.terminated (hhal.resolve_right (by simp [hliv])) hliv))
  | probed child failed expired =>
    cases heve
    unfold ManagedProcess.probed
    split
    · exact ⟨hhal,rfl⟩
    · split
      · split
        · exact ⟨hhal,rfl⟩
        · exact ⟨hhal,rfl⟩
      · exact ⟨hhal,rfl⟩
  | terminate signal reason =>
    cases heve
    unfold ManagedProcess.terminate
    dsimp only
    split
    · unfold finishCallback
      split
      · exact ⟨Or.inr (complete_completed _),complete_spawned _⟩
      · exact ⟨Or.inr (complete_completed _),complete_spawned _⟩
    · split
      · exact ⟨Or.inl rfl,rfl⟩
      · split
        · exact ⟨Or.inl rfl,rfl⟩
        · exact ⟨Or.inl rfl,rfl⟩

theorem completed (hdon : managed.completed=true) {paused : Bool} {event : ProcessEvent}
    (heve : event.handle paused managed=some managed') : managed'.completed=true := by
  cases event with
  | error =>
    cases heve
    exact hdon
  | close child code signal =>
    obtain ⟨hmem,rfl⟩ := by simpa [ProcessEvent.handle] using heve
    rw [(h.done hdon).1] at hmem
    cases hmem
  | restartTimer timer =>
    obtain ⟨_,rfl⟩ := by simpa [ProcessEvent.handle] using heve
    exact hdon
  | restartFenced fenced spawns =>
    obtain ⟨_,rfl⟩ := by simpa [ProcessEvent.handle] using heve
    unfold restartService
    split
    · exact complete_completed _
    · rw [if_pos (Or.inl hdon)]
      exact hdon
  | probed child failed expired =>
    cases heve
    unfold ManagedProcess.probed
    rw [if_pos (Or.inl hdon)]
    exact hdon
  | terminate signal reason =>
    cases heve
    unfold ManagedProcess.terminate
    dsimp only
    split
    · unfold finishCallback
      split
      · exact complete_completed _
      · exact complete_completed _
    · exact hdon

theorem evolves (hhal : Halted managed) (hrun : Evolves managed managed') :
    Supervised managed' ∧ Halted managed' ∧ managed'.spawned=managed.spawned := by
  refine hrun.preserves (P := fun m => Supervised m ∧ Halted m ∧ m.spawned=managed.spawned) ⟨h,hhal,rfl⟩ ?_
  intro m m' paused event hm heve
  obtain ⟨hs,hh,hspa⟩ := hm
  obtain ⟨hh',hspa'⟩ := Halted.event hs hh heve
  exact ⟨ProcessEvent.supervised hs heve,hh',hspa'.trans hspa⟩

theorem close (hhal : Halted managed) (hliv : managed.completed=false) :
    managed.openChildren=[managed.child] ∧
      ∀ paused code signal, ∃ managed',
        (ProcessEvent.close managed.child code signal).handle paused managed=some managed' ∧
          managed'.completed=true ∧ managed'.finished=true := by
  have hcal : managed.terminateCalled=true := hhal.resolve_right (by simp [hliv])
  have hope:=h.alive hliv (h.stopping (h.terminated hcal hliv) hliv)
  have hmem : managed.child ∈ managed.openChildren := by rw [hope]; exact mem_singleton_self _
  refine ⟨hope,fun paused code signal => ?_⟩
  refine ⟨_,if_pos hmem,?_,?_⟩
  · rw [onClose h hhal hmem]
    exact complete_completed _
  · rw [onClose h hhal hmem]
    rfl

end

end Halted
end Qubicl.Control.Supervision
