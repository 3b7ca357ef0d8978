import Qubicl.Control.Supervision.Manager

/-!
# What a step of the process manager is made of

Every step is a sequence of moves: a launch, an event of one record, the end of one
entry of a table. What each move keeps is kept by every step.
-/

namespace Qubicl.Control.Supervision
open List Option
open Process (ProcessLifecycle)
open Foundation ProcessManager

variable {options : ManagerOptions} {failing : List (ℕ × String)} {m m' : ProcessManager}

/-- Nothing that is queued can be started: what is left failed to start. -/
def Drained (m : ProcessManager) : Prop := ∀ pending ∈ m.pendingServices, pending.startError≠none

/-- New work may start. -/
structure Admits (options : ManagerOptions) (m : ProcessManager) : Prop where
  running : m.paused=false
  room : m.count<options.maxProcesses

inductive Move (options : ManagerOptions) : ProcessManager → ProcessManager → Prop
  | saved (m : ProcessManager) (before : List PendingService) (pending : PendingService)
      (after : List PendingService) : Admits options m → pending.startError=none →
      m.pendingServices=before++pending::after →
      Move options m { m.launch pending.id .service pending.service with pendingServices := before++after }
  | unstartable (m : ProcessManager) (before : List PendingService) (pending : PendingService)
      (after : List PendingService) (message : String) :
      m.pendingServices=before++pending::after →
      Move options m { m with
        pendingServices := before ++ { pending with startError := some message } :: after }
  | started (m : ProcessManager) (lifecycle : ProcessLifecycle) (service : Option ServiceOptions) :
      Admits options m → Drained m →
      Move options m { m.launch m.created lifecycle service with created := m.created+1 }
  | opened (m : ProcessManager) : Admits options m → Drained m →
      Move options m { m with
        terminals := m.terminals++[⟨m.created,true⟩]
        created := m.created+1
        launches := m.launches+1 }
  | terminals (m : ProcessManager) (terminals : List PtySession) :
      (terminals.filter PtySession.running).length≤(m.terminals.filter PtySession.running).length →
      Move options m { m with terminals }
  | record (m : ProcessManager) (id : ℕ) (managed managed' : ManagedProcess) (event : ProcessEvent) :
      m.managed id=some managed → event.handle m.paused managed=some managed' →
      Move options m { m with
        managed := Function.update m.managed id (some managed')
        launches := m.launches+(managed'.spawned - managed.spawned) }
  | deleted (m : ProcessManager) (id : ℕ) (managed : ManagedProcess) :
      m.managed id=some managed → managed.lifecycle≠.service → Move options m (m.deleteRecord id)
  | disabled (m : ProcessManager) (id : ℕ) : m.isPending id=true → Move options m (m.disable id)
  | stopped (m : ProcessManager) (id : ℕ) (managed : ManagedProcess) :
      m.managed id=some managed → managed.completed=true → id ∈ m.processes →
      Move options m { m.deleteRecord id with stopped := m.stopped++[id] }
  | controls (m : ProcessManager) (bulkStopping shuttingDown : Bool) (stopAllOperation : Option StopAll)
      (stopping survivors : List ℕ) :
      Move options m { m with bulkStopping, shuttingDown, stopAllOperation, stopping, survivors }

def Moves (options : ManagerOptions) : ProcessManager → ProcessManager → Prop :=
  Relation.ReflTransGen (Move options)

theorem Moves.refl (m : ProcessManager) : Moves options m m := Relation.ReflTransGen.refl

theorem Moves.single (h : Move options m m') : Moves options m m' := Relation.ReflTransGen.single h

theorem Moves.trans {m'' : ProcessManager} (h : Moves options m m') (h' : Moves options m' m'') :
    Moves options m m'' := Relation.ReflTransGen.trans h h'

theorem Moves.preserves {P : ProcessManager → Prop} (h : Moves options m m') (hsta : P m)
    (hmov : ∀ m m', P m → Move options m m' → P m') : P m' := by
  induction h with
  | refl => exact hsta
  | tail _ hlas ih => exact hmov _ _ ih hlas

/-- The loop stops at a full manager, or has visited the whole queue. -/
theorem drainLoop_moves (rest : List PendingService) (m : ProcessManager) (hpau : m.paused=false) :
    Moves options { m with pendingServices := m.pendingServices++rest } (drainLoop options failing m rest) := by
  induction rest generalizing m with
  | nil =>
    rw [append_nil]
    exact Moves.refl _
  | cons pending rest ih =>
    unfold drainLoop
    split
    · exact Moves.refl _
    next hroo =>
      split
      · have hnex:=ih { m with pendingServices := m.pendingServices++[pending] } hpau
        dsimp only at hnex
        rw [append_assoc] at hnex
        exact hnex
      next herr =>
        split
        next message hfai =>
          have hnex:=ih { m with pendingServices := m.pendingServices ++
            [{ pending with startError := some (startErrorText message) }] } hpau
          dsimp only at hnex
          rw [append_assoc] at hnex
          have hmov : Move options { m with pendingServices := m.pendingServices++pending::rest } _ :=
            .unstartable _ m.pendingServices pending rest (startErrorText message) rfl
          exact (Moves.single hmov).trans hnex
        next hfai =>
          have hnex:=ih (m.launch pending.id .service pending.service) hpau
          have hadm : Admits options { m with pendingServices := m.pendingServices++pending::rest } :=
            ⟨hpau,Nat.lt_of_not_le hroo⟩
          have hmov:=Move.saved _ m.pendingServices pending rest hadm (by simpa using herr) rfl
          exact (Moves.single hmov).trans hnex

theorem drain_moves (m : ProcessManager) : Moves options m (m.drainServiceQueue options failing) := by
  unfold drainServiceQueue
  split
  · exact Moves.refl m
  next hpau =>
    have hmov:=@drainLoop_moves options failing m.pendingServices
      { m with pendingServices := [] } (Bool.not_eq_true _ ▸ hpau)
    exact hmov

structure SameControls (m m' : ProcessManager) : Prop where
  bulkStopping : m'.bulkStopping=m.bulkStopping
  shuttingDown : m'.shuttingDown=m.shuttingDown
  stopAllOperation : m'.stopAllOperation=m.stopAllOperation
  survivors : m'.survivors=m.survivors

theorem SameControls.refl (m : ProcessManager) : SameControls m m := ⟨rfl,rfl,rfl,rfl⟩

theorem SameControls.trans {m'' : ProcessManager} (h : SameControls m m') (h' : SameControls m' m'') :
    SameControls m m'' where
  bulkStopping := h'.bulkStopping.trans h.bulkStopping
  shuttingDown := h'.shuttingDown.trans h.shuttingDown
  stopAllOperation := h'.stopAllOperation.trans h.stopAllOperation
  survivors := h'.survivors.trans h.survivors

theorem SameControls.paused (h : SameControls m m') : m'.paused=m.paused := by
  unfold ProcessManager.paused
  rw [h.bulkStopping,h.shuttingDown]

theorem drainLoop_controls (rest : List PendingService) (m : ProcessManager) :
    SameControls m (drainLoop options failing m rest) := by
  induction rest generalizing m with
  | nil => exact .refl m
  | cons pending rest ih =>
    unfold drainLoop
    split
    · exact ⟨rfl,rfl,rfl,rfl⟩
    · split
      · have hres:=ih { m with pendingServices := m.pendingServices++[pending] }
        exact { hres with }
      · split
        next message _ =>
          have hres:=ih { m with pendingServices := m.pendingServices ++
            [{ pending with startError := some (startErrorText message) }] }
          exact { hres with }
        next =>
          have hres:=ih (m.launch pending.id .service pending.service)
          exact { hres with }

theorem drain_controls (m : ProcessManager) : SameControls m (m.drainServiceQueue options failing) := by
  unfold drainServiceQueue
  split
  · exact .refl m
  · have hloo:=@drainLoop_controls options failing m.pendingServices
      { m with pendingServices := [] }
    exact { hloo with }

theorem drainLoop_full (rest : List PendingService) (m : ProcessManager) (hdra : Drained m) :
    options.maxProcesses≤(drainLoop options failing m rest).count ∨ Drained (drainLoop options failing m rest) := by
  induction rest generalizing m with
  | nil => exact Or.inr hdra
  | cons pending rest ih =>
    unfold drainLoop
    split
    next hful => exact Or.inl hful
    next =>
      split
      next herr =>
        apply ih
        intro p hp
        rcases mem_append.1 hp with hold | hnew
        · exact hdra p hold
        · rw [mem_singleton.1 hnew]
          exact herr
      next =>
        split
        next message _ =>
          apply ih
          intro p hp
          rcases mem_append.1 hp with hold | hnew
          · exact hdra p hold
          · rw [mem_singleton.1 hnew]
            simp
        next => exact ih _ hdra

theorem drain_full (hpau : m.paused=false) :
    options.maxProcesses≤(m.drainServiceQueue options failing).count ∨
      Drained (m.drainServiceQueue options failing) := by
  unfold drainServiceQueue
  rw [if_neg (by simp [hpau])]
  exact drainLoop_full _ _ (fun pending hpen => by cases hpen)

theorem assertCapacity_admits (h : (m.assertCapacity options failing).2=true) :
    Admits options (m.assertCapacity options failing).1 ∧ Drained (m.assertCapacity options failing).1 := by
  unfold assertCapacity at h ⊢
  split at h
  next => cases h
  next hpau =>
    have hpau' : m.paused=false := by simpa using hpau
    rw [if_neg hpau]
    have hroo : (m.drainServiceQueue options failing).count<options.maxProcesses := by simpa using h
    have hful:=@drain_full options failing m hpau'
    exact ⟨⟨(drain_controls m).paused.trans hpau',hroo⟩,hful.resolve_left (by omega)⟩

theorem assertCapacity_moves (m : ProcessManager) : Moves options m (m.assertCapacity options failing).1 := by
  unfold assertCapacity
  split
  · exact Moves.refl m
  · exact drain_moves m

theorem exec_moves (lifecycle : ProcessLifecycle) (service : Option ServiceOptions) (spawns : Bool) :
    Moves options m (m.exec options lifecycle service spawns failing) := by
  unfold ProcessManager.exec
  split
  · exact Moves.refl m
  · unfold start
    dsimp only
    split
    next h =>
      have hadd : (m.assertCapacity options failing).2=true := by
        simp only [Bool.and_eq_true] at h
        exact h.1
      obtain ⟨hadm,hdra⟩ := assertCapacity_admits hadd
      exact (assertCapacity_moves m).trans (Moves.single (.started _ lifecycle service hadm hdra))
    next => exact assertCapacity_moves m

theorem terminalOpen_moves (spawns : Bool) : Moves options m (m.terminalOpen options spawns failing) := by
  unfold terminalOpen
  dsimp only
  split
  next h =>
    have hadd : (m.assertCapacity options failing).2=true := by
      simp only [Bool.and_eq_true] at h
      exact h.1.1
    obtain ⟨hadm,hdra⟩ := assertCapacity_admits hadd
    exact (assertCapacity_moves m).trans (Moves.single (.opened _ hadm hdra))
  next => exact assertCapacity_moves m

theorem terminalExit_running (id : ℕ) (terminals : List PtySession) :
    ((terminals.map fun session => if session.id=id then { session with running := false } else session).filter
      PtySession.running).length≤(terminals.filter PtySession.running).length := by
  induction terminals with
  | nil => exact Nat.le_refl 0
  | cons session terminals ih =>
    simp only [map_cons,filter_cons]
    by_cases hid : session.id=id
    · rw [if_pos hid]
      cases session.running with
      | true =>
        simp only [Bool.false_eq_true,ite_false,ite_true,length_cons]
        omega
      | false =>
        simp only [Bool.false_eq_true,ite_false]
        exact ih
    · rw [if_neg hid]
      cases session.running with
      | true =>
        simp only [ite_true,length_cons]
        omega
      | false =>
        simp only [Bool.false_eq_true,ite_false]
        exact ih

theorem filter_running_le (p : PtySession → Bool) (terminals : List PtySession) :
    ((terminals.filter p).filter PtySession.running).length≤(terminals.filter PtySession.running).length := by
  apply List.Sublist.length_le
  exact (filter_sublist (p := p) (l := terminals)).filter _

variable {event : ProcessEvent} {id : ℕ}

theorem settle_moves {managed managed' : ManagedProcess} (hrec : m.managed id=some managed)
    (heve : event.handle m.paused managed=some managed') :
    Moves options m (m.settle options failing id managed managed') := by
  unfold settle
  have hmov:=Moves.single (@Move.record options m id managed managed' event hrec heve)
  dsimp only
  split
  · exact hmov.trans (drain_moves _)
  · exact hmov

theorem dispatch_cases (h : m.dispatch options failing id event=some m') :
    ∃ managed managed', m.managed id=some managed ∧ event.handle m.paused managed=some managed' ∧
      m'=m.settle options failing id managed managed' := by
  obtain ⟨managed,hrec,hmap⟩ := bind_eq_some_iff.1 h
  obtain ⟨managed',heve,hset⟩ := map_eq_some_iff.1 hmap
  exact ⟨managed,managed',hrec,heve,hset.symm⟩

theorem dispatch_moves (h : m.dispatch options failing id event=some m') : Moves options m m' := by
  obtain ⟨managed,managed',hrec,heve,rfl⟩ := dispatch_cases h
  exact settle_moves hrec heve

theorem terminateLive_moves (id : ℕ) : Moves options m (m.terminateLive options failing id) := by
  unfold terminateLive
  split
  · cases hdis : m.dispatch options failing id (.terminate (.stop .SIGTERM) .stop) with
    | none => exact Moves.refl m
    | some m' => exact dispatch_moves hdis
  · exact Moves.refl m

theorem finishStop_moves (id : ℕ) (removed fenced : Bool) : Moves options m (m.finishStop id removed fenced) := by
  unfold finishStop
  split
  next managed hrec =>
    split
    next h => exact Moves.single (.stopped m id managed hrec h.1 h.2.2.2)
    next => exact Moves.refl m
  next => exact Moves.refl m

theorem stop_moves {signal : StopSignal} {removed : Bool} (h : m.stop options failing id signal removed=some m') :
    Moves options m m' := by
  unfold ProcessManager.stop at h
  split at h
  next hpen =>
    cases h
    cases removed with
    | true => exact Moves.single (.disabled m id hpen)
    | false => exact Moves.refl m
  next =>
    split at h
    next =>
      obtain ⟨m₁,hdis,rfl⟩ := map_eq_some_iff.1 h
      exact (dispatch_moves hdis).trans (Moves.single (.controls m₁ _ _ _ _ _))
    next => cases h

theorem stopForManagement_moves (id : ℕ) (removed : Bool) :
    Moves options m (m.stopForManagement options failing id removed) := by
  unfold ProcessManager.stopForManagement
  split
  next hpen =>
    cases removed with
    | true => exact Moves.single (.disabled m id hpen)
    | false => exact Moves.refl m
  next =>
    split
    · exact (terminateLive_moves id).trans (Moves.single (.controls _ _ _ _ _ _))
    · exact Moves.refl m

theorem stopNext_moves {removed : Bool} (h : m.stopNext options removed=some m') : Moves options m m' := by
  unfold ProcessManager.stopNext at h
  split at h
  next id remaining hope =>
    have hcon : Moves options m { m with stopAllOperation := some ⟨remaining,none⟩ } :=
      Moves.single (.controls m _ _ _ _ _)
    cases h
    apply hcon.trans
    split
    next hpen =>
      split
      · exact Moves.single (.disabled _ id hpen)
      · exact Moves.single (.controls _ _ _ _ _ _)
    next =>
      split
      · exact (terminateLive_moves id).trans (Moves.single (.controls _ _ _ _ _ _))
      · exact Moves.refl _
  next => cases h

theorem shutdown_moves : Moves options m (m.shutdown options) := by
  unfold ProcessManager.shutdown
  split
  · exact Moves.refl m
  · have hcon : Moves options m { m with shuttingDown := true } := Moves.single (.controls m _ _ _ _ _)
    apply hcon.trans
    generalize { m with shuttingDown := true } = m₁
    generalize m.processes=ids
    induction ids generalizing m₁ with
    | nil => exact Moves.refl m₁
    | cons id ids ih => exact (terminateLive_moves id).trans (ih _)

/-- Every step is a sequence of moves. -/
theorem managerStep_moves {action : ManagerAction} (h : managerStep options m action=some m') :
    Moves options m m' := by
  cases action with
  | exec lifecycle service spawns failing =>
    cases h
    exact exec_moves lifecycle service spawns
  | terminalOpen spawns failing =>
    cases h
    exact terminalOpen_moves spawns
  | terminalExit id =>
    cases h
    exact Moves.single (.terminals m _ (terminalExit_running id m.terminals))
  | deleteSession id =>
    cases h
    exact Moves.single (.terminals m _ (filter_running_le _ m.terminals))
  | event id event failing => exact dispatch_moves h
  | discard id fenced =>
    obtain ⟨managed,hrec,hcon⟩ := bind_eq_some_iff.1 h
    split at hcon
    next hdon =>
      cases hcon
      exact Moves.single (.deleted m id managed hrec hdon.2.1)
    next => cases hcon
  | revoke id =>
    obtain ⟨managed,hrec,hcon⟩ := bind_eq_some_iff.1 h
    split at hcon
    next hses =>
      cases hcon
      exact Moves.single (.deleted m id managed hrec (by rw [hses]; decide))
    next => cases hcon
  | stop id signal removed failing => exact stop_moves h
  | stopForManagement id removed failing =>
    cases h
    exact stopForManagement_moves id removed
  | stopSettled id removed fenced =>
    simp only [managerStep,ProcessManager.stopSettled] at h
    split at h
    next =>
      cases h
      exact (Moves.single (.controls m _ _ _ _ _)).trans (finishStop_moves id removed fenced)
    next => cases h
  | stopAllForManagement =>
    cases h
    unfold ProcessManager.stopAllForManagement
    split
    · exact Moves.refl m
    · exact Moves.single (.controls m _ _ _ _ _)
  | stopNext removed => exact stopNext_moves h
  | stopAwaited removed fenced =>
    simp only [managerStep,ProcessManager.stopAwaited] at h
    split at h
    next remaining id hope =>
      cases h
      exact (Moves.single (.controls m _ _ _ _ _)).trans (finishStop_moves id removed fenced)
    next => cases h
  | stopAllFinished =>
    simp only [managerStep,ProcessManager.stopAllFinished] at h
    split at h
    next =>
      cases h
      exact Moves.single (.controls m _ _ _ _ _)
    next => cases h
  | shutdown =>
    cases h
    exact shutdown_moves

end Qubicl.Control.Supervision
