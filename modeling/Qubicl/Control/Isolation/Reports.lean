import Qubicl.Control.Isolation.Manager

/-!
# What comes through the runner

The records of a manager keep within what the validators of the control service ask, but for the two properties that these
do not know: `pid` and `kind`.
-/

namespace Qubicl.Control.Isolation
open Foundation Lease List
open Process (ProcessLifecycle JournalRecord)
open Supervision (ServiceOptions RestartPolicy ManagedProcess ProcessEvent Supervised)

variable {event : ProcessEvent}

section
variable {managed managed' : ManagedProcess}

theorem complete_restart (managed : ManagedProcess) : managed.complete.restart=managed.restart := by
  unfold ManagedProcess.complete
  split <;> rfl

theorem complete_exitCode (managed : ManagedProcess) : managed.complete.exitCode=managed.exitCode := by
  unfold ManagedProcess.complete
  split <;> rfl

/-- What an event may do to the settings and to the exit code of a process. -/
structure Observed (event : ProcessEvent) (managed managed' : ManagedProcess) : Prop where
  restart : managed'.restart=managed.restart
  exitCode : ∀ code, managed'.exitCode=some code →
    managed.exitCode=some code ∨ code = -1 ∨ ∃ child signal, event=.close child (some code) signal

theorem Observed.of_same (hres : managed'.restart=managed.restart) (hcod : managed'.exitCode=managed.exitCode) :
    Observed event managed managed' :=
  ⟨hres,fun _ hsom => .inl (hcod.symm.trans hsom)⟩

theorem Observed.of_failed (hres : managed'.restart=managed.restart) (hcod : managed'.exitCode=some (-1)) :
    Observed event managed managed' :=
  ⟨hres,fun _ hsom => .inr (.inl (Option.some.inj (hsom.symm.trans hcod)))⟩

theorem handle_observed {paused : Bool} (h : event.handle paused managed=some managed') :
    Observed event managed managed' := by
  cases event with
  | error =>
    cases h
    exact .of_failed rfl rfl
  | close child code signal =>
    obtain ⟨_,rfl⟩ := by simpa [ProcessEvent.handle] using h
    have hexi : ∀ exit, managed.exitCode.or code=some exit →
        managed.exitCode=some exit ∨ exit = -1 ∨ ∃ child' signal', ProcessEvent.close child code signal =
          .close child' (some exit) signal' := by
      intro exit hsom
      rcases Option.or_eq_some_iff.1 hsom with hold | ⟨_,rfl⟩
      · exact .inl hold
      · exact .inr (.inr ⟨child,signal,rfl⟩)
    unfold ManagedProcess.onClose
    split
    · exact .of_same rfl rfl
    · dsimp only
      split
      · exact ⟨rfl,hexi⟩
      · refine ⟨complete_restart _,fun exit hsom => hexi exit ?_⟩
        have hfin (m : ManagedProcess) : m.complete.finish.exitCode=m.exitCode := complete_exitCode m
        exact (hfin _).symm.trans hsom
  | restartTimer timer =>
    obtain ⟨_,rfl⟩ := by simpa [ProcessEvent.handle] using h
    exact .of_same rfl rfl
  | restartFenced fenced spawns =>
    obtain ⟨_,rfl⟩ := by simpa [ProcessEvent.handle] using h
    unfold ManagedProcess.restartService
    split
    · exact .of_failed (complete_restart _) (complete_exitCode _)
    · split
      · exact .of_same rfl rfl
      · split
        · exact ⟨rfl,fun _ hsom => by cases hsom⟩
        · exact .of_failed (complete_restart _) (complete_exitCode _)
  | probed child failed expired =>
    cases h
    unfold ManagedProcess.probed
    split
    · exact .of_same rfl rfl
    · split
      · split
        · exact .of_same rfl rfl
        · exact .of_same rfl rfl
      · exact .of_same rfl rfl
  | terminate signal reason =>
    cases h
    unfold ManagedProcess.terminate
    dsimp only
    split
    · unfold ManagedProcess.finishCallback
      split
      · exact .of_same (complete_restart _) (complete_exitCode _)
      · exact .of_same (complete_restart _) (complete_exitCode _)
    · split
      · exact .of_same rfl rfl
      · split
        · exact .of_same rfl rfl
        · exact .of_same rfl rfl

end

def Safe (code : Option ℤ) : Prop := ∀ value, code=some value → value.natAbs≤Json.MAX_SAFE_INTEGER

/-- What a record keeps to, whatever happens to it. -/
structure Sound (record : ManagedRecord) : Prop where
  owner : ValidProof record.owner
  supervised : Supervised record.process
  settings : ∀ policy, record.process.restart=some policy → policy.maxAttempts≤10
  exitCode : Safe record.process.exitCode
  lastExitCode : Safe record.lastExitCode
  journal : record.journal.length<MAX_ARRAY_LENGTH

namespace Sound
variable {platform : Platform} {record record' : ManagedRecord}

theorem attempts (h : Sound record) : record.process.restartAttempts≤Json.MAX_SAFE_INTEGER := by
  have hten : 10≤Json.MAX_SAFE_INTEGER := by decide
  cases hpol : record.process.restart with
  | none => rw [h.supervised.unrestarted hpol]; exact Nat.zero_le _
  | some policy =>
    have hbou:=h.supervised.bounded policy hpol
    have hset:=h.settings policy hpol
    omega

theorem parseServiceOptions_restart {service : Option ServiceOptions} (h : parseServiceOptions service=true)
    {policy : RestartPolicy} (hpol : service.bind ServiceOptions.restart=some policy) : policy.maxAttempts≤10 := by
  unfold parseServiceOptions at h
  rw [hpol] at h
  exact of_decide_eq_true (Bool.and_eq_true_iff.1 h).1

theorem started {request : StartRequest} (hown : ValidProof request.owner)
    (hser : parseServiceOptions request.service=true) : Sound request.record where
  owner := hown
  supervised := .started _ _
  settings := fun _ hpol => parseServiceOptions_restart hser hpol
  exitCode := fun _ hcod => by cases hcod
  lastExitCode := fun _ hcod => by cases hcod
  journal := Nat.two_pow_pos 32

variable {noted : Noted}

theorem note (h : Sound record) {paused : Bool} {event : ProcessEvent} {process : ManagedProcess}
    (hobe : observable platform event=true) (heve : event.handle paused record.process=some process) :
    Sound { record.note platform paused noted process event with process := process } := by
  have hobs:=handle_observed heve
  have hcod : Safe process.exitCode := by
    intro value hval
    rcases hobs.exitCode value hval with hold | rfl | ⟨child,signal,rfl⟩
    · exact h.exitCode value hold
    · decide
    · exact of_decide_eq_true (Bool.and_eq_true_iff.1 hobe).1
  have hnot : (record.note platform paused noted process event).owner=record.owner ∧
      (record.note platform paused noted process event).journal=record.journal ∧
      Safe (record.note platform paused noted process event).lastExitCode := by
    cases event with
    | error => exact ⟨rfl,rfl,h.lastExitCode⟩
    | close child code signal =>
      unfold ManagedRecord.note
      dsimp only
      split
      · exact ⟨rfl,rfl,h.lastExitCode⟩
      · refine ⟨rfl,rfl,fun value hval => ?_⟩
        rcases Option.or_eq_some_iff.1 hval with hnew | ⟨_,hold⟩
        · exact hcod value hnew
        · exact h.lastExitCode value hold
    | restartTimer timer => exact ⟨rfl,rfl,h.lastExitCode⟩
    | restartFenced fenced spawns =>
      unfold ManagedRecord.note
      dsimp only
      split
      · exact ⟨rfl,rfl,h.lastExitCode⟩
      · split
        · exact ⟨rfl,rfl,h.lastExitCode⟩
        · split
          · exact ⟨rfl,rfl,h.lastExitCode⟩
          · exact ⟨rfl,rfl,h.lastExitCode⟩
    | probed child failed expired =>
      unfold ManagedRecord.note
      dsimp only
      split
      · exact ⟨rfl,rfl,h.lastExitCode⟩
      · exact ⟨rfl,rfl,h.lastExitCode⟩
    | terminate signal reason => exact ⟨rfl,rfl,h.lastExitCode⟩
  exact {
    owner := by
      show ValidProof (record.note platform paused noted process event).owner
      rw [hnot.1]
      exact h.owner
    supervised := ProcessEvent.supervised h.supervised heve
    settings := fun policy hpol => h.settings policy (hobs.restart.symm.trans hpol)
    exitCode := hcod
    lastExitCode := hnot.2.2
    journal := by
      show (record.note platform paused noted process event).journal.length<_
      rw [hnot.2.1]
      exact h.journal }

theorem handle (h : Sound record) {paused : Bool} {event : ProcessEvent} (hobs : observable platform event=true)
    (heve : record.handle platform paused noted event=some record') : Sound record' := by
  obtain ⟨process,hpro,rfl⟩ := Option.map_eq_some_iff.1 heve
  have hsou : Sound { record.note platform paused noted process event with process := process } :=
    h.note hobs hpro
  dsimp only
  split
  · exact { hsou with }
  · exact hsou

theorem expire (h : Sound record) {lifetime : Bool} (hexp : record.expire platform noted lifetime=some record') :
    Sound record' := by
  unfold ManagedRecord.expire at hexp
  split at hexp
  · cases hexp
    exact h
  · have htim : Sound { record with timedOut := true } := { h with }
    refine htim.handle ?_ hexp
    cases lifetime <;> rfl

theorem status_ne_queued (record : ManagedRecord) : record.status≠.queued := by
  unfold ManagedRecord.status
  split
  · decide
  · split
    · decide
    · split
      · decide
      · split
        · decide
        · decide

theorem reportable (h : Sound record) : (record.managementSummary platform).Reportable platform where
  generation := h.owner
  exitCode := fun code hcod => by
    obtain ⟨value,hval,rfl⟩ := Option.map_eq_some_iff.1 hcod
    exact safeInteger_intCast.2 (h.exitCode value hval)
  signal := fun name hnam => by
    obtain ⟨signal,-,hsig⟩ := Option.bind_eq_some_iff.1 hnam
    obtain ⟨entry,hent,rfl⟩ := Option.map_eq_some_iff.1 hsig
    exact mem_map.2 ⟨entry,mem_of_find?_eq_some hent,rfl⟩
  service := fun service hser => by
    have hsta : record.serviceState=some service := hser
    unfold ManagedRecord.serviceState at hsta
    split at hsta
    next hlif =>
      cases hsta
      exact ⟨hlif,⟨h.attempts,h.lastExitCode⟩⟩
    next => cases hsta
  queued := fun hque => absurd hque (status_ne_queued record)

end Sound
/-- What the manager keeps to: its records, the definitions it starts, and the task records it has or has written. -/
structure WellReported (platform : Platform) (manager : ProcessManager) : Prop where
  processes : ∀ record ∈ manager.processes, Sound record
  pending : ∀ pending ∈ manager.pendingServices,
    (1≤pending.definition.ownerGeneration ∧ pending.definition.ownerGeneration≤Json.MAX_SAFE_INTEGER) ∧
      parseServiceOptions pending.definition.service=true
  history : ∀ entry ∈ manager.taskHistory, (stripPersistedTask entry.2).Reportable platform
  lines : ∀ record ∈ manager.taskRecords, (stripPersistedTask record).Reportable platform

theorem taskRecord_reportable {platform : Platform} {record : ManagedRecord} (h : Sound record) :
    (stripPersistedTask (taskRecord platform record)).Reportable platform := by
  have hsum : (record.managementSummary platform).Reportable platform := h.reportable
  exact {
    generation := hsum.generation
    exitCode := hsum.exitCode
    signal := hsum.signal
    service := fun _ hser => by cases hser
    queued := fun hque => absurd hque (Sound.status_ne_queued record) }

theorem interrupt_reportable {platform : Platform} {record : PersistedTaskRecord} (now : ℕ)
    (h : (stripPersistedTask record).Reportable platform) :
    (stripPersistedTask (ProcessManager.interrupt platform now record)).Reportable platform where
  generation := h.generation
  exitCode := h.exitCode
  signal := h.signal
  service := fun _ hser => by cases hser
  queued := fun hque => by cases hque

theorem mem_remember {history : List (String × PersistedTaskRecord)} {records : List PersistedTaskRecord}
    {entry : String × PersistedTaskRecord} (h : entry ∈ ProcessManager.remember history records) :
    entry ∈ history ∨ entry.2 ∈ records := by
  induction records generalizing history with
  | nil => exact .inl h
  | cons record records ih =>
    rcases ih h with hmem | hmem
    · rcases mem_mapSet hmem with rfl | hold
      · exact .inr mem_cons_self
      · exact .inl hold
    · exact .inr (mem_cons_of_mem _ hmem)

/- Reading the history drops lines and changes none. -/
theorem mem_parsed {lines : List PersistedTaskRecord} {record : PersistedTaskRecord}
    (h : record ∈ lines.filterMap parsePersistedTask) : record ∈ lines := by
  obtain ⟨line,hmem,hpar⟩ := mem_filterMap.1 h
  unfold parsePersistedTask at hpar
  split at hpar
  · cases hpar
    exact hmem
  · cases hpar

namespace WellReported
variable {platform : Platform} {options : ManagerOptions} {manager manager' : ProcessManager}

variable {id : String} {lines : List PersistedTaskRecord}

section
variable (h : WellReported platform manager)
include h

theorem find {record : ManagedRecord} (hfin : manager.find id=some record) : Sound record :=
  h.processes record (mem_of_find?_eq_some hfin)

theorem persistTask {record : ManagedRecord} (hrec : Sound record)
    (persisted : Bool) : WellReported platform (manager.persistTask platform options persisted record) := by
  unfold ProcessManager.persistTask
  split
  · exact { h with
      history := fun entry hent => by
        rcases mem_mapSet hent with rfl | hold
        · exact taskRecord_reportable hrec
        · exact h.history entry hold
      lines := fun line hlin => by
        rcases mem_append.1 hlin with hold | hnew
        · exact h.lines line hold
        · split at hnew
          · rw [mem_singleton.1 hnew]
            exact taskRecord_reportable hrec
          · cases hnew }
  · exact h

theorem start {request : StartRequest} (hown : ValidProof request.owner)
    (hser : parseServiceOptions request.service=true)
    (hsta : manager.start platform options request=some manager') : WellReported platform manager' := by
  unfold ProcessManager.start at hsta
  split at hsta
  · cases hsta
  · have hsou:=Sound.started hown hser
    have hstd : WellReported platform { manager with processes := manager.processes++[request.record] } :=
      { h with
        processes := fun record hrec => by
          rcases mem_append.1 hrec with hold | hnew
          · exact h.processes record hold
          · rw [mem_singleton.1 hnew]
            exact hsou }
    dsimp only at hsta
    obtain rfl := Option.some.inj hsta
    split
    · exact hstd.persistTask hsou _
    · exact hstd

theorem settle {before after : ManagedRecord} (haft : Sound after)
    (persisted : Bool) : WellReported platform (manager.settle platform options persisted before after) := by
  have hset : WellReported platform { manager with
      processes := manager.processes.map fun record => if record.id=before.id then after else record } :=
    { h with
      processes := fun record hrec => by
        obtain ⟨old,hold,rfl⟩ := mem_map.1 hrec
        split
        · exact haft
        · exact h.processes old hold }
  unfold ProcessManager.settle
  dsimp only
  split
  · exact hset.persistTask haft _
  · exact hset

theorem dispatch {noted : Noted} {f : ManagedRecord → Option ManagedRecord}
    (hf : ∀ record record', Sound record → f record=some record' → Sound record')
    (hdis : manager.dispatch platform options id noted f=some manager') : WellReported platform manager' := by
  obtain ⟨record,hfin,hres⟩ := Option.bind_eq_some_iff.1 hdis
  obtain ⟨record',hhan,hset⟩ := Option.bind_eq_some_iff.1 hres
  obtain rfl := Option.some.inj hset
  exact h.settle (hf record record' (h.find hfin) hhan) _

theorem compact :
    WellReported platform (manager.compactTaskRecords platform options) := by
  have hret : ∀ record ∈ manager.retained platform options, (stripPersistedTask record).Reportable platform := by
    intro record hrec
    have hlat : record ∈ manager.taskHistory.map Prod.snd := by
      rcases mem_append.1 (mem_sorted.1 hrec) with hrun | hcompleted
      · exact (mem_filter.1 hrun).1
      · exact (mem_filter.1 (mem_sorted.1 (mem_of_mem_take hcompleted))).1
    obtain ⟨entry,hent,rfl⟩ := mem_map.1 hlat
    exact h.history entry hent
  unfold ProcessManager.compactTaskRecords
  split
  · exact { h with
      history := fun entry hent => by
        obtain ⟨record,hrec,rfl⟩ := mem_map.1 hent
        exact hret record hrec
      lines := hret }
  · exact h

end

theorem loadTaskHistory (now : ℕ) (h : ∀ record ∈ lines, (stripPersistedTask record).Reportable platform) :
    (∀ entry ∈ (ProcessManager.loadTaskHistory platform now lines).1, (stripPersistedTask entry.2).Reportable platform) ∧
      ∀ record ∈ (ProcessManager.loadTaskHistory platform now lines).2, (stripPersistedTask record).Reportable platform := by
  have hloa : ∀ entry ∈ ProcessManager.remember [] (lines.filterMap parsePersistedTask),
      (stripPersistedTask entry.2).Reportable platform := by
    intro entry hent
    rcases mem_remember hent with hnil | hparsed
    · cases hnil
    · exact h entry.2 (mem_parsed hparsed)
  have hint : ∀ record ∈ (ProcessManager.loadTaskHistory platform now lines).2,
      (stripPersistedTask record).Reportable platform := by
    intro record hrec
    obtain ⟨running,hrun,rfl⟩ := mem_map.1 hrec
    obtain ⟨entry,hent,rfl⟩ := mem_map.1 (mem_filter.1 hrun).1
    exact interrupt_reportable now (hloa entry hent)
  refine ⟨fun entry hent => ?_,hint⟩
  rcases mem_remember hent with hold | hnew
  · exact hloa entry hold
  · exact hint entry.2 hnew

theorem parsed_definition {definition : PersistedServiceDefinition}
    (h : parsePersistedService options definition=true) :
    (1≤definition.ownerGeneration ∧ definition.ownerGeneration≤Json.MAX_SAFE_INTEGER) ∧
      parseServiceOptions definition.service=true := by
  unfold parsePersistedService at h
  simp only [Bool.and_eq_true,decide_eq_true_eq] at h
  exact ⟨⟨h.1.1.2,h.1.2⟩,h.2⟩

theorem restart (h : WellReported platform manager) {now : ℕ} {definitions : List PersistedServiceDefinition}
    (hres : manager.restart platform options now lines definitions=some manager') :
    WellReported platform manager' := by
  unfold ProcessManager.restart at hres
  split at hres
  · cases hres
    exact ⟨by simp,by simp,by simp,h.lines⟩
  · split at hres
    next hcon =>
      obtain ⟨hsub,hdes⟩ := hcon
      have hlin : ∀ record ∈ lines, (stripPersistedTask record).Reportable platform :=
        fun record hrec => h.lines record ((isSublist_iff_sublist.1 hsub).subset hrec)
      obtain ⟨hhis,hint⟩ := loadTaskHistory now hlin
      cases hres
      refine ⟨by simp,fun pending hpen => ?_,hhis,fun record hrec => ?_⟩
      · obtain ⟨definition,hdef,rfl⟩ := mem_map.1 hpen
        exact parsed_definition (all_eq_true.1 hdes definition hdef)
      · rcases mem_append.1 hrec with hold | hnew
        · exact hlin record hold
        · exact hint record hnew
    next => cases hres

theorem startPending (h : WellReported platform manager) {outputPath : String} {noted : Noted}
    (hsta : manager.startPending platform options id outputPath noted=some manager') :
    WellReported platform manager' := by
  obtain ⟨pending,hfin,hres⟩ := Option.bind_eq_some_iff.1 hsta
  obtain ⟨started,hstd,hrem⟩ := Option.bind_eq_some_iff.1 hres
  obtain ⟨hgen,hser⟩ := h.pending pending (mem_of_find?_eq_some hfin)
  have hown : ValidProof ⟨"durable-service",pending.definition.ownerGeneration,"computer"⟩ := hgen
  have hsou : WellReported platform started := h.start hown hser hstd
  split at hrem
  · cases hrem
    exact { hsou with pending := fun other hoth => hsou.pending other (mem_filter.1 hoth).1 }
  · cases hrem

theorem step {move : ManagerMove} (h : WellReported platform manager)
    (hste : managerStep platform options manager move=some manager') : WellReported platform manager' := by
  cases move with
  | exec id request outputPath noted =>
    have hexe : manager.exec platform options id request outputPath noted=some manager' := hste
    unfold ProcessManager.exec at hexe
    split at hexe
    next hcon =>
      have hadm:=hcon.2
      unfold ProcessManager.admitsExec at hadm
      rw [Bool.and_eq_true,Bool.and_eq_true] at hadm
      exact h.start hcon.1 hadm.1.1 hexe
    next => cases hexe
  | executeCompatibility id command cwd sessionId owner outputPath noted =>
    have hsta : manager.startCompatibility platform options id command cwd sessionId owner outputPath noted =
        some manager' := hste
    unfold ProcessManager.startCompatibility at hsta
    split at hsta
    next hcon => exact h.start hcon.1 rfl hsta
    next => cases hsta
  | event id paused event noted =>
    by_cases hobs : observable platform event=true
    · have hdis : manager.dispatch platform options id noted (fun record =>
          record.handle platform paused noted event)=some manager' := by rw [← hste]; exact (if_pos hobs).symm
      exact h.dispatch (fun _ _ hrec => hrec.handle hobs) hdis
    · have hnon : managerStep platform options manager (.event id paused event noted)=none := if_neg hobs
      rw [hnon] at hste
      cases hste
  | expired id lifetime noted => exact h.dispatch (fun _ _ hrec => hrec.expire) hste
  | journaled id records truncated =>
    obtain ⟨record,hfin,hres⟩ := Option.bind_eq_some_iff.1 hste
    split at hres
    next hlen =>
      cases hres
      refine { h with processes := fun other hoth => ?_ }
      obtain ⟨old,hold,rfl⟩ := mem_map.1 hoth
      split
      · exact { h.find hfin with journal := hlen }
      · exact h.processes old hold
    next => cases hres
  | discard id =>
    obtain ⟨record,hfin,hres⟩ := Option.bind_eq_some_iff.1 hste
    split at hres
    · cases hres
      exact { h with processes := fun other hoth => h.processes other (mem_filter.1 hoth).1 }
    · cases hres
  | startPending id outputPath noted => exact h.startPending hste
  | startFailed id message =>
    cases hste
    refine { h with pending := fun pending hpen => ?_ }
    obtain ⟨old,hold,rfl⟩ := mem_map.1 hpen
    split
    · exact h.pending old hold
    · exact h.pending old hold
  | removePending id =>
    cases hste
    exact { h with pending := fun pending hpen => h.pending pending (mem_filter.1 hpen).1 }
  | terminalOpen request =>
    have hope : manager.terminalOpen request=some manager' := hste
    unfold ProcessManager.terminalOpen at hope
    split at hope
    · cases hope
      exact { h with }
    · cases hope
  | terminalClosed id now code signal =>
    cases hste
    exact { h with }
  | deleteSession id =>
    cases hste
    exact { h with }
  | compact =>
    cases hste
    exact h.compact
  | restart now lines definitions => exact h.restart hste

end WellReported

/-- The lists and pages of the manager are accepted and come back as they were sent. -/
structure ComesThrough (platform : Platform) (manager : ProcessManager) : Prop where
  management : RemoteProcessManager.listForManagement platform
      (.array ((manager.listForManagement platform).map ManagementProcessSummary.toJson)) =
    .ok ((manager.listForManagement platform).map ManagementProcessSummary.toJson)
  agent : RemoteProcessManager.listForAgent platform
      (.array ((manager.listForAgent platform).map ManagementProcessSummary.toJson)) =
    .ok ((manager.listForAgent platform).map ManagementProcessSummary.toJson)
  compatibility : ∀ owner, RemoteProcessManager.listCompatibility
      (.array ((manager.listCompatibility platform owner).map CompatibilityProcessSummary.toJson)) =
    .ok ((manager.listCompatibility platform owner).map CompatibilityProcessSummary.toJson)
  execute : ∀ id owner options file page, manager.executeCompatibility id owner options file=some page →
    RemoteProcessManager.executeCompatibility page.toJson=.ok page.toJson
  status : ∀ id owner options file page, manager.statusCompatibility id owner options file=some page →
    RemoteProcessManager.statusCompatibility page.toJson=.ok page.toJson

def Unidentified (manager : ProcessManager) : Prop :=
  (∀ record ∈ manager.processes, record.process.completed=false → record.pid.filter (· ≠ 0)=none) ∧
    manager.terminals=[]

namespace WellReported
variable {platform : Platform} {manager : ProcessManager}

theorem pendingService_reportable {pending : PendingService}
    (hgen : 1≤pending.definition.ownerGeneration ∧ pending.definition.ownerGeneration≤Json.MAX_SAFE_INTEGER) :
    (pendingServiceSummary pending).Reportable platform where
  generation := hgen
  exitCode := fun _ hcod => by cases hcod
  signal := fun _ hsig => by cases hsig
  service := fun service hser => by
    cases hser
    exact ⟨rfl,⟨Nat.zero_le _,fun _ hcod => by cases hcod⟩⟩
  queued := fun hque => by
    refine ⟨rfl,pendingServiceState pending,rfl,?_⟩
    unfold pendingServiceSummary at hque
    unfold pendingServiceState
    dsimp only at hque ⊢
    split at hque
    next hnon => exact if_pos hnon
    next => cases hque

theorem mem_listForManagement {summary : ManagementProcessSummary} (h : summary ∈ manager.listForManagement platform) :
    (∃ record ∈ manager.processes, summary=record.managementSummary platform) ∨
      (∃ pending ∈ manager.pendingServices, summary=pendingServiceSummary pending) ∨
      (∃ session ∈ manager.terminals, summary=session.managementSummary platform) ∨
      ∃ entry ∈ manager.taskHistory, summary=stripPersistedTask entry.2 := by
  have hlis : summary ∈ manager.listed platform := mem_sorted.1 h
  unfold ProcessManager.listed at hlis
  dsimp only at hlis
  rcases mem_append.1 hlis with hliv | hhistory
  · rcases mem_append.1 hliv with hcur | hterminal
    · rcases mem_append.1 hcur with hpro | hpending
      · obtain ⟨record,hmem,rfl⟩ := mem_map.1 hpro
        exact .inl ⟨record,hmem,rfl⟩
      · obtain ⟨pending,hmem,rfl⟩ := mem_map.1 hpending
        exact .inr (.inl ⟨pending,hmem,rfl⟩)
    · obtain ⟨session,hmem,rfl⟩ := mem_map.1 hterminal
      exact .inr (.inr (.inl ⟨session,hmem,rfl⟩))
  · obtain ⟨record,hmem,rfl⟩ := mem_map.1 hhistory
    obtain ⟨entry,hent,rfl⟩ := mem_map.1 (mem_filter.1 hmem).1
    exact .inr (.inr (.inr ⟨entry,hent,rfl⟩))

theorem record_mem {record : ManagedRecord} (h : record ∈ manager.processes) :
    record.managementSummary platform ∈ manager.listForManagement platform := by
  apply mem_sorted.2
  apply mem_append_left
  apply mem_append_left
  exact mem_append_left _ (mem_map.2 ⟨record,h,rfl⟩)

theorem session_mem {session : PtySession} (h : session ∈ manager.terminals) :
    session.managementSummary platform ∈ manager.listForManagement platform := by
  apply mem_sorted.2
  apply mem_append_left
  exact mem_append_right _ (mem_map.2 ⟨session,h,rfl⟩)

/-- The list comes through exactly when nothing in it has a `pid` or a `kind`. -/
theorem management_iff (h : WellReported platform manager) :
    RemoteProcessManager.listForManagement platform
        (.array ((manager.listForManagement platform).map ManagementProcessSummary.toJson)) =
      .ok ((manager.listForManagement platform).map ManagementProcessSummary.toJson) ↔ Unidentified manager := by
  unfold RemoteProcessManager.listForManagement
  rw [RemoteProcessManager.entries_eq_ok,forall_mem_map]
  constructor
  · intro hall
    constructor
    · intro record hrec hrun
      obtain ⟨⟨hpid,-⟩,-⟩ := managementProcessSummary_toJson.1 (hall _ (record_mem hrec))
      have hliv : (record.managementSummary platform).pid=record.pid.filter (· ≠ 0) := if_neg (by simp [hrun])
      rw [← hliv]
      exact hpid
    · rw [eq_nil_iff_forall_not_mem]
      intro session hses
      obtain ⟨⟨-,hkin⟩,-⟩ := managementProcessSummary_toJson.1 (hall _ (session_mem hses))
      cases hkin
  · intro ⟨hpro,hter⟩ summary hsum
    apply managementProcessSummary_toJson.2
    rcases mem_listForManagement hsum with ⟨record,hmem,rfl⟩ | ⟨pending,hmem,rfl⟩ | ⟨session,hmem,rfl⟩ |
      ⟨entry,hmem,rfl⟩
    · refine ⟨⟨?_,rfl⟩,(h.processes record hmem).reportable⟩
      unfold ManagedRecord.managementSummary
      dsimp only
      split
      next => rfl
      next hrun => exact hpro record hmem (Bool.eq_false_iff.2 hrun)
    · exact ⟨⟨rfl,rfl⟩,pendingService_reportable (h.pending pending hmem).1⟩
    · rw [hter] at hmem
      cases hmem
    · exact ⟨⟨rfl,rfl⟩,h.history entry hmem⟩

theorem compatibility (h : WellReported platform manager) (owner : LeaseProof) :
    RemoteProcessManager.listCompatibility
        (.array ((manager.listCompatibility platform owner).map CompatibilityProcessSummary.toJson)) =
      .ok ((manager.listCompatibility platform owner).map CompatibilityProcessSummary.toJson) := by
  unfold RemoteProcessManager.listCompatibility
  rw [RemoteProcessManager.entries_eq_ok,forall_mem_map]
  intro summary hsum
  obtain ⟨record,hrec,rfl⟩ := mem_map.1 hsum
  have hmem : record ∈ manager.processes := (mem_filter.1 (mem_sorted.1 hrec)).1
  exact compatibilitySummary_toJson (h.processes record hmem).exitCode

theorem pageRecords_length {read : JournalRecord → Option String} {records : List JournalRecord} {count bytes : ℕ}
    {output : List (Process.StreamType × String)} (h : ManagedRecord.pageRecords read records count bytes=some output) :
    output.length≤records.length := by
  induction records generalizing count bytes output with
  | nil =>
    cases h
    exact Nat.zero_le _
  | cons record records ih =>
    unfold ManagedRecord.pageRecords at h
    split at h
    · cases h
      exact Nat.zero_le _
    · obtain ⟨data,-,hres⟩ := Option.bind_eq_some_iff.1 h
      obtain ⟨rest,hpag,hout⟩ := Option.bind_eq_some_iff.1 hres
      cases hout
      exact Nat.succ_le_succ (ih hpag)

variable {file : Option (JournalRecord → Option String)} {page : CompatibilityProcessOutput}

theorem compatibilityPage_spec {requestedOffset : ℕ} {tail : Option ℕ} {record : ManagedRecord}
    (h : record.compatibilityPage file requestedOffset tail=some page) :
    page.exit_code=record.process.exitCode ∧ page.next_offset≤record.journal.length := by
  unfold ManagedRecord.compatibilityPage at h
  obtain ⟨output,hout,hpag⟩ := Option.bind_eq_some_iff.1 h
  obtain ⟨read,-,hrec⟩ := Option.bind_eq_some_iff.1 hout
  have hlen:=pageRecords_length hrec
  rw [length_drop] at hlen
  cases hpag
  refine ⟨rfl,?_⟩
  have hsta : ManagedRecord.pageStart requestedOffset tail record.journal.length≤record.journal.length := by
    cases tail with
    | none => exact Nat.min_le_right _ _
    | some tail => exact Nat.sub_le _ _
  show ManagedRecord.pageStart requestedOffset tail record.journal.length+output.length≤_
  omega

theorem status (h : WellReported platform manager) {ambiguous : Bool} {id : String} {owner : LeaseProof}
    {options : ProcessManager.CompatibilityStatusOptions}
    (hpag : manager.statusCompatibility id owner options file=some page) :
    compatibilityOutput ambiguous page.toJson=.ok page.toJson := by
  unfold ProcessManager.statusCompatibility at hpag
  obtain ⟨record,hown,hres⟩ := Option.bind_eq_some_iff.1 hpag
  obtain ⟨wait,-,hres⟩ := Option.bind_eq_some_iff.1 hres
  obtain ⟨offset,-,hres⟩ := Option.bind_eq_some_iff.1 hres
  obtain ⟨tail,-,hres⟩ := Option.bind_eq_some_iff.1 hres
  obtain ⟨hcod,hoff⟩ := compatibilityPage_spec hres
  have hsou : Sound record := h.find (Option.filter_eq_some_iff.1 hown).1
  have hlim : MAX_ARRAY_LENGTH≤Json.MAX_SAFE_INTEGER := by decide
  have hjou:=hsou.journal
  refine compatibilityOutput_toJson ?_ (by omega)
  rw [hcod]
  exact hsou.exitCode

theorem comesThrough_iff (h : WellReported platform manager) : ComesThrough platform manager ↔ Unidentified manager := by
  constructor
  · exact fun hthr => h.management_iff.1 hthr.management
  · intro huni
    exact {
      management := h.management_iff.2 huni
      agent := h.management_iff.2 huni
      compatibility := h.compatibility
      execute := fun _ _ _ _ _ hpag => h.status hpag
      status := fun _ _ _ _ _ hpag => h.status hpag }

theorem reachable {options : ManagerOptions} (h : (managerSystem platform options).Reachable manager) :
    WellReported platform manager := by
  refine h.invariant (fun s hs => ?_) fun s move t hs hste => hs.step hste
  subst hs
  exact ⟨by simp,by simp,by simp,by simp⟩

end WellReported

/-- The isolated runner reports what its manager does exactly while no listed process that runs has a pid and there is no
terminal. -/
theorem runner_reports_iff (platform : Platform) (options : ManagerOptions) (manager : ProcessManager)
    (h : (managerSystem platform options).Reachable manager) :
    ComesThrough platform manager ↔ Unidentified manager :=
  (WellReported.reachable h).comesThrough_iff

def examplePlatform : Platform where
  signals := [("SIGINT",2),("SIGKILL",9),("SIGTERM",15)]
  toISOString := fun instant => toString instant
  dateParse := fun text => text.length
  localeCompare := compare
  numberText := toString

def exampleOptions : ManagerOptions := ⟨64,true,fun _ => true⟩

def exampleRequest : ExecRequest where
  command := "sleep 60"
  cwd := "/home/qubicl"
  maxOutputBytes := 4096
  owner := ⟨"lease-1",1,"epoch-1"⟩
  timeoutMs := none
  outputMode := .combined
  lifecycle := .task
  label := "Task"
  service := none

def oneTask : List ManagerMove :=
  [.exec "AAAAAAAAAAAAAAAA" exampleRequest "/tmp/AAAAAAAAAAAAAAAA.log" ⟨1000,"",some 4711,true⟩]

theorem runner_reports_closed : ∃ manager, (managerSystem examplePlatform exampleOptions).Reachable manager ∧
    manager.processes.length=1 ∧ ComesThrough examplePlatform manager := by
  have hexe : ((managerSystem examplePlatform exampleOptions).exec ⟨[],[],[],[],[]⟩
      (oneTask++[.event "AAAAAAAAAAAAAAAA" false (.close 0 (some 0) none) ⟨2000,"",none,true⟩])).map
      (fun m => (m.processes.map fun record => record.process.completed,m.terminals))=some ([true],[]) := by
    decide
  obtain ⟨manager,hrun,hsta⟩ := Option.map_eq_some_iff.1 hexe
  obtain ⟨hcom,hter⟩ := Prod.mk.inj hsta
  have hrea : (managerSystem examplePlatform exampleOptions).Reachable manager :=
    ⟨_,_,rfl,TransitionSystem.run_of_exec hrun⟩
  refine ⟨manager,hrea,?_,(runner_reports_iff examplePlatform exampleOptions manager hrea).2 ⟨?_,hter⟩⟩
  · have := congrArg List.length hcom
    rwa [length_map] at this
  · intro record hrec hrug
    have hmem : record.process.completed ∈ [true] := by
      rw [← hcom]
      exact mem_map.2 ⟨record,hrec,rfl⟩
    rw [hrug] at hmem
    cases hmem with
    | tail _ hnil => cases hnil

/-- While it runs, both lists of the isolated computer are refused. -/
theorem running_task_refused : ¬ ∀ platform options manager, (managerSystem platform options).Reachable manager →
    ComesThrough platform manager := by
  intro h
  have hexe : ((managerSystem examplePlatform exampleOptions).exec ⟨[],[],[],[],[]⟩ oneTask).map
      (fun m => m.processes.map fun record => (record.process.completed,record.pid))=some [(false,some 4711)] := by
    decide
  obtain ⟨manager,hrun,hsta⟩ := Option.map_eq_some_iff.1 hexe
  have hrea : (managerSystem examplePlatform exampleOptions).Reachable manager :=
    ⟨_,_,rfl,TransitionSystem.run_of_exec hrun⟩
  have hmem : (false,some 4711) ∈ manager.processes.map fun record => (record.process.completed,record.pid) := by
    rw [hsta]
    exact mem_singleton_self _
  obtain ⟨record,hrec,hfie⟩ := mem_map.1 hmem
  obtain ⟨hrug,hpid⟩ := Prod.mk.inj hfie
  have huni:=(WellReported.reachable hrea).comesThrough_iff.1 (h _ _ manager hrea)
  have hnon:=huni.1 record hrec hrug
  rw [hpid] at hnon
  cases hnon

end Qubicl.Control.Isolation
