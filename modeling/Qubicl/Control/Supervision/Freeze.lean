import Qubicl.Control.Supervision.Admission

/-!
# Work that is being stopped, and the queue

While a stop is under way nothing starts. A stop of everything disables what is queued;
afterwards, and at any other time, the manager is full where a service waits, unless
disabling that service failed.
-/

namespace Qubicl.Control.Supervision
open List Option
open Process (ProcessLifecycle)
open Foundation ProcessManager

variable {options : ManagerOptions} {failing : List (ℕ × String)} {m m' : ProcessManager}

theorem drain_paused (h : m.paused=true) : m.drainServiceQueue options failing=m := by
  unfold drainServiceQueue
  rw [if_pos h]

theorem assertCapacity_paused (h : m.paused=true) : m.assertCapacity options failing=(m,false) := by
  unfold assertCapacity
  rw [if_pos h]

variable {event : ProcessEvent}

theorem handle_paused {managed managed' : ManagedProcess} (h : event.handle true managed=some managed') :
    managed'.spawned=managed.spawned := by
  cases event with
  | error =>
    cases h
    rfl
  | close child code signal =>
    obtain ⟨_,rfl⟩ := by simpa [ProcessEvent.handle] using h
    unfold ManagedProcess.onClose
    split
    · rfl
    · dsimp only
      split
      · rfl
      · exact complete_spawned _
  | restartTimer timer =>
    obtain ⟨_,rfl⟩ := by simpa [ProcessEvent.handle] using h
    rfl
  | restartFenced fenced spawns =>
    obtain ⟨_,rfl⟩ := by simpa [ProcessEvent.handle] using h
    unfold ManagedProcess.restartService
    split
    · exact complete_spawned _
    · rw [if_pos (Or.inr (Or.inr rfl))]
  | probed child failed expired =>
    cases h
    unfold ManagedProcess.probed
    split
    · rfl
    · split
      · split
        · rfl
        · rfl
      · rfl
  | terminate signal reason =>
    cases h
    unfold ManagedProcess.terminate
    dsimp only
    split
    · unfold ManagedProcess.finishCallback
      split
      · exact complete_spawned _
      · exact complete_spawned _
    · split
      · rfl
      · split
        · rfl
        · rfl

structure Held (m m' : ProcessManager) : Prop where
  paused : m'.paused=true
  launches : m'.launches=m.launches

theorem dispatch_held (hpau : m.paused=true) {id : ℕ} (h : m.dispatch options failing id event=some m') :
    Held m m' := by
  obtain ⟨managed,managed',_,heve,rfl⟩ := dispatch_cases h
  rw [hpau] at heve
  have hspa:=handle_paused heve
  have hset : Held m { m with
      managed := Function.update m.managed id (some managed')
      launches := m.launches+(managed'.spawned - managed.spawned) } := by
    refine ⟨hpau,?_⟩
    show m.launches+(managed'.spawned - managed.spawned)=m.launches
    omega
  unfold settle
  dsimp only
  split
  · rw [drain_paused hset.paused]
    exact hset
  · exact hset

theorem terminateLive_held (hpau : m.paused=true) (id : ℕ) : Held m (m.terminateLive options failing id) := by
  unfold terminateLive
  split
  · cases hdis : m.dispatch options failing id (.terminate (.stop .SIGTERM) .stop) with
    | none => exact ⟨hpau,rfl⟩
    | some m' => exact dispatch_held hpau hdis
  · exact ⟨hpau,rfl⟩

theorem finishStop_launches (id : ℕ) (removed fenced : Bool) :
    (m.finishStop id removed fenced).launches=m.launches := by
  unfold finishStop
  split
  · split
    · rfl
    · rfl
  · rfl

theorem shutdown_launches : (m.shutdown options).launches=m.launches := by
  unfold ProcessManager.shutdown
  split
  · rfl
  · have hpau : ProcessManager.paused { m with shuttingDown := true } = true := Bool.or_true _
    suffices h : ∀ (ids : List ℕ) (m₁ : ProcessManager), m₁.paused=true →
        (ids.foldl (fun manager id => manager.terminateLive options [] id) m₁).launches=m₁.launches from
      h m.processes _ hpau
    intro ids
    induction ids with
    | nil => exact fun _ _ => rfl
    | cons id ids ih =>
      intro m₁ hm₁
      have hhel:=@terminateLive_held options [] m₁ hm₁ id
      exact (ih _ hhel.paused).trans hhel.launches

theorem paused_step (hpau : m.paused=true) {action : ManagerAction}
    (h : managerStep options m action=some m') : m'.launches=m.launches := by
  cases action with
  | exec lifecycle service spawns failing =>
    cases h
    unfold ProcessManager.exec
    split
    · rfl
    · unfold start
      rw [assertCapacity_paused hpau]
      rfl
  | terminalOpen spawns failing =>
    cases h
    unfold terminalOpen
    rw [assertCapacity_paused hpau]
    rfl
  | terminalExit id =>
    cases h
    rfl
  | deleteSession id =>
    cases h
    rfl
  | event id event failing => exact (dispatch_held hpau h).launches
  | discard id fenced =>
    obtain ⟨managed,_,hcon⟩ := bind_eq_some_iff.1 h
    split at hcon
    · cases hcon
      rfl
    · cases hcon
  | revoke id =>
    obtain ⟨managed,_,hcon⟩ := bind_eq_some_iff.1 h
    split at hcon
    · cases hcon
      rfl
    · cases hcon
  | stop id signal removed failing =>
    simp only [managerStep,ProcessManager.stop] at h
    split at h
    · cases h
      cases removed with
      | true => rfl
      | false => rfl
    · split at h
      · obtain ⟨m₁,hdis,rfl⟩ := map_eq_some_iff.1 h
        exact (dispatch_held hpau hdis).launches
      · cases h
  | stopForManagement id removed failing =>
    cases h
    unfold ProcessManager.stopForManagement
    split
    · cases removed with
      | true => rfl
      | false => rfl
    · split
      · exact (terminateLive_held hpau id).launches
      · rfl
  | stopSettled id removed fenced =>
    simp only [managerStep,ProcessManager.stopSettled] at h
    split at h
    · cases h
      exact finishStop_launches id removed fenced
    · cases h
  | stopAllForManagement =>
    cases h
    unfold ProcessManager.stopAllForManagement
    split
    · rfl
    · rfl
  | stopNext removed =>
    simp only [managerStep,ProcessManager.stopNext] at h
    split at h
    next id remaining hope =>
      cases h
      split
      · split
        · rfl
        · rfl
      · split
        · exact (terminateLive_held (m := { m with stopAllOperation := some ⟨remaining,none⟩ }) hpau id).launches
        · rfl
    · cases h
  | stopAwaited removed fenced =>
    simp only [managerStep,ProcessManager.stopAwaited] at h
    split at h
    · cases h
      exact finishStop_launches _ removed fenced
    · cases h
  | stopAllFinished =>
    simp only [managerStep,ProcessManager.stopAllFinished] at h
    split at h
    · cases h
      rfl
    · cases h
  | shutdown =>
    cases h
    exact shutdown_launches

theorem assertCapacity_controls (m : ProcessManager) :
    SameControls m (m.assertCapacity options failing).1 := by
  unfold assertCapacity
  split
  · exact .refl m
  · exact drain_controls m

theorem exec_controls (lifecycle : ProcessLifecycle) (service : Option ServiceOptions) (spawns : Bool) :
    SameControls m (m.exec options lifecycle service spawns failing) := by
  have hadm:=@assertCapacity_controls options failing m
  unfold ProcessManager.exec
  split
  · exact .refl m
  · unfold start
    dsimp only
    split
    · exact { hadm with }
    · exact hadm

theorem terminalOpen_controls (spawns : Bool) : SameControls m (m.terminalOpen options spawns failing) := by
  have hadm:=@assertCapacity_controls options failing m
  unfold terminalOpen
  dsimp only
  split
  · exact { hadm with }
  · exact hadm

theorem dispatch_controls {id : ℕ} (h : m.dispatch options failing id event=some m') : SameControls m m' := by
  obtain ⟨managed,managed',_,_,rfl⟩ := dispatch_cases h
  unfold settle
  dsimp only
  split
  · have hdra:=@drain_controls options failing { m with
      managed := Function.update m.managed id (some managed')
      launches := m.launches+(managed'.spawned - managed.spawned) }
    exact { hdra with }
  · exact ⟨rfl,rfl,rfl,rfl⟩

theorem terminateLive_controls (id : ℕ) : SameControls m (m.terminateLive options failing id) := by
  unfold terminateLive
  split
  · cases hdis : m.dispatch options failing id (.terminate (.stop .SIGTERM) .stop) with
    | none => exact .refl m
    | some m' => exact dispatch_controls hdis
  · exact .refl m

theorem finishStop_controls (id : ℕ) (removed fenced : Bool) :
    SameControls m (m.finishStop id removed fenced) := by
  unfold finishStop
  split
  · split
    · exact ⟨rfl,rfl,rfl,rfl⟩
    · exact .refl m
  · exact .refl m

theorem stop_controls {id : ℕ} {signal : StopSignal} {removed : Bool}
    (h : m.stop options failing id signal removed=some m') : SameControls m m' := by
  unfold ProcessManager.stop at h
  split at h
  · cases h
    cases removed with
    | true => exact ⟨rfl,rfl,rfl,rfl⟩
    | false => exact .refl m
  · split at h
    · obtain ⟨m₁,hdis,rfl⟩ := map_eq_some_iff.1 h
      exact { dispatch_controls hdis with }
    · cases h

theorem stopForManagement_controls (id : ℕ) (removed : Bool) :
    SameControls m (m.stopForManagement options failing id removed) := by
  unfold ProcessManager.stopForManagement
  split
  · cases removed with
    | true => exact ⟨rfl,rfl,rfl,rfl⟩
    | false => exact .refl m
  · split
    · have hter:=@terminateLive_controls options failing m id
      exact { hter with }
    · exact .refl m

/- What `shutdown` leaves as it is, and that it pauses for good. -/
theorem shutdown_controls : (m.shutdown options).shuttingDown=true ∧
    (m.shutdown options).bulkStopping=m.bulkStopping ∧
    (m.shutdown options).stopAllOperation=m.stopAllOperation ∧
    (m.shutdown options).survivors=m.survivors := by
  unfold ProcessManager.shutdown
  split
  next hdow => exact ⟨hdow,rfl,rfl,rfl⟩
  next =>
    suffices h : ∀ (ids : List ℕ) (m₁ : ProcessManager),
        SameControls m₁ (ids.foldl (fun manager id => manager.terminateLive options [] id) m₁) by
      have hids:=h m.processes { m with shuttingDown := true }
      exact ⟨hids.shuttingDown,hids.bulkStopping,hids.stopAllOperation,hids.survivors⟩
    intro ids
    induction ids with
    | nil => exact fun m₁ => .refl m₁
    | cons id ids ih => exact fun m₁ => (terminateLive_controls id).trans (ih _)

/-- A stop of everything goes through what was queued when it began: what is left of that
is still to come, or could not be disabled. -/
structure Frozen (m : ProcessManager) : Prop where
  bulk : m.bulkStopping=m.stopAllOperation.isSome
  remaining : ∀ operation, m.stopAllOperation=some operation → ∀ pending ∈ m.pendingServices,
    pending.startError=none → pending.id ∈ operation.remaining ∨ pending.id ∈ m.survivors

namespace Frozen

theorem keep (h : Frozen m) (hbul : m'.bulkStopping=m.bulkStopping)
    (hope : m'.stopAllOperation=m.stopAllOperation) (hsur : m'.survivors=m.survivors)
    (hmov : Moves options m m') : Frozen m' where
  bulk := by rw [hbul,hope]; exact h.bulk
  remaining := fun operation hsom pending hmem herr => by
    rw [hope] at hsom
    rw [hsur]
    exact h.remaining operation hsom pending (hmov.startable hmem herr) herr

theorem same (h : Frozen m) (hsam : SameControls m m') (hmov : Moves options m m') : Frozen m' :=
  h.keep hsam.bulkStopping hsam.stopAllOperation hsam.survivors hmov

theorem stopAllForManagement (h : Frozen m) : Frozen m.stopAllForManagement := by
  unfold ProcessManager.stopAllForManagement
  split
  · exact h
  · constructor
    · rfl
    · intro operation hope pending hmem _
      cases hope
      left
      apply mem_append_left
      exact mem_append_left _ (mem_map_of_mem hmem)

theorem isPending_of_mem {id : ℕ} {pending : PendingService} (hmem : pending ∈ m.pendingServices)
    (hid : pending.id=id) : m.isPending id=true :=
  any_eq_true.2 ⟨pending,hmem,by simpa using hid⟩

theorem stopNext (h : Frozen m) {removed : Bool} (hste : m.stopNext options removed=some m') : Frozen m' := by
  unfold ProcessManager.stopNext at hste
  split at hste
  next id remaining hope =>
    have hbul : m.bulkStopping=true := by rw [h.bulk,hope]; rfl
    have hlef : ∀ pending ∈ m.pendingServices, pending.startError=none → pending.id≠id →
        pending.id ∈ remaining ∨ pending.id ∈ m.survivors := by
      intro pending hmem herr hne
      rcases h.remaining _ hope pending hmem herr with hin | hsurvives
      · exact Or.inl ((mem_cons.1 hin).resolve_left hne)
      · exact Or.inr hsurvives
    cases hste
    split
    next hpen =>
      split
      · refine ⟨hbul,fun operation hsom pending hmem herr => ?_⟩
        cases hsom
        obtain ⟨hmem',hne⟩ := mem_filter.1 hmem
        exact hlef pending hmem' herr (by simpa using hne)
      · refine ⟨hbul,fun operation hsom pending hmem herr => ?_⟩
        cases hsom
        by_cases heq : pending.id=id
        · exact Or.inr (mem_append_right _ (by simp [heq]))
        · rcases hlef pending hmem herr heq with hin | hsurvives
          · exact Or.inl hin
          · exact Or.inr (mem_append_left _ hsurvives)
    next hpen =>
      have hne : ∀ pending ∈ m.pendingServices, pending.id≠id :=
        fun pending hmem heq => hpen (isPending_of_mem (m := m) hmem heq)
      split
      · have hsam:=@terminateLive_controls options [] { m with stopAllOperation := some ⟨remaining,none⟩ } id
        have hmov:=@terminateLive_moves options [] { m with stopAllOperation := some ⟨remaining,none⟩ } id
        refine ⟨hsam.bulkStopping.trans hbul,fun operation hsom pending hmem herr => ?_⟩
        cases hsom
        have hold : pending ∈ m.pendingServices := hmov.startable hmem herr
        rcases hlef pending hold herr (hne pending hold) with hin | hsurvives
        · exact Or.inl hin
        · right
          have hkep:=hsam.survivors
          dsimp only at hkep ⊢
          rw [hkep]
          exact hsurvives
      · refine ⟨hbul,fun operation hsom pending hmem herr => ?_⟩
        cases hsom
        exact hlef pending hmem herr (hne pending hmem)
  next => cases hste

theorem stopAwaited (h : Frozen m) {removed fenced : Bool} (hste : m.stopAwaited removed fenced=some m') :
    Frozen m' := by
  unfold ProcessManager.stopAwaited at hste
  split at hste
  next remaining id hope =>
    cases hste
    have hawa : Frozen { m with stopAllOperation := some ⟨remaining,none⟩ } := by
      refine ⟨by rw [h.bulk,hope]; rfl,fun operation hsom pending hmem herr => ?_⟩
      cases hsom
      exact h.remaining _ hope pending hmem herr
    have hmov:=@finishStop_moves ⟨0,0⟩ { m with stopAllOperation := some ⟨remaining,none⟩ } id removed fenced
    exact hawa.same (finishStop_controls id removed fenced) hmov
  next => cases hste

theorem step (h : Frozen m) {action : ManagerAction} (hste : managerStep options m action=some m') :
    Frozen m' := by
  have hmov:=managerStep_moves hste
  cases action with
  | exec lifecycle service spawns failing =>
    cases hste
    exact h.same (exec_controls lifecycle service spawns) hmov
  | terminalOpen spawns failing =>
    cases hste
    exact h.same (terminalOpen_controls spawns) hmov
  | terminalExit id =>
    cases hste
    exact { h with }
  | deleteSession id =>
    cases hste
    exact { h with }
  | event id event failing => exact h.same (dispatch_controls hste) hmov
  | discard id fenced =>
    obtain ⟨managed,_,hcon⟩ := bind_eq_some_iff.1 hste
    split at hcon
    · cases hcon
      exact { h with }
    · cases hcon
  | revoke id =>
    obtain ⟨managed,_,hcon⟩ := bind_eq_some_iff.1 hste
    split at hcon
    · cases hcon
      exact { h with }
    · cases hcon
  | stop id signal removed failing => exact h.same (stop_controls hste) hmov
  | stopForManagement id removed failing =>
    cases hste
    exact h.same (stopForManagement_controls id removed) hmov
  | stopSettled id removed fenced =>
    simp only [managerStep,ProcessManager.stopSettled] at hste
    split at hste
    · cases hste
      have hset : Frozen { m with stopping := m.stopping.erase id } := { h with }
      have hmov:=@finishStop_moves options { m with stopping := m.stopping.erase id } id removed fenced
      exact hset.same (finishStop_controls id removed fenced) hmov
    · cases hste
  | stopAllForManagement =>
    cases hste
    exact h.stopAllForManagement
  | stopNext removed => exact h.stopNext hste
  | stopAwaited removed fenced => exact h.stopAwaited hste
  | stopAllFinished =>
    simp only [managerStep,ProcessManager.stopAllFinished] at hste
    split at hste
    · cases hste
      exact ⟨rfl,fun operation hsom => by cases hsom⟩
    · cases hste
  | shutdown =>
    cases hste
    obtain ⟨_,hbul,hope,hsur⟩ := @shutdown_controls options m
    exact h.keep hbul hope hsur hmov

end Frozen

/-- Where a service waits that can be started, the manager is full, or a stop of
everything failed to disable the service. -/
def Served (options : ManagerOptions) (m : ProcessManager) : Prop :=
  m.paused=false → ∀ pending ∈ m.pendingServices, pending.startError=none →
    pending.id ∈ m.survivors ∨ options.maxProcesses ≤ m.count

namespace Served

theorem drain (m : ProcessManager) : Served options (m.drainServiceQueue options failing) := by
  intro hpau pending hmem herr
  have hrun : m.paused=false := (@drain_controls options failing m).paused ▸ hpau
  rcases @drain_full options failing m hrun with hful | hdrained
  · exact Or.inr hful
  · exact absurd herr (hdrained pending hmem)

theorem of_drained (h : Drained m) : Served options m :=
  fun _ pending hmem herr => absurd herr (h pending hmem)

theorem of_paused (h : m.paused=true) : Served options m := by
  intro hpau
  rw [h] at hpau
  cases hpau

theorem keep (h : Served options m) (hsam : SameControls m m') (hmov : Moves options m m')
    (hcou : ∀ pending ∈ m'.pendingServices, pending.startError=none → m.count ≤ m'.count) :
    Served options m' := by
  intro hpau pending hmem herr
  have hrun : m.paused=false := hsam.paused ▸ hpau
  have hle:=hcou pending hmem herr
  rw [hsam.survivors]
  rcases h hrun pending (hmov.startable hmem herr) herr with hsur | hfull
  · exact Or.inl hsur
  · exact Or.inr (Nat.le_trans hfull hle)

theorem assertCapacity (h : Served options m) : Served options (m.assertCapacity options failing).1 := by
  unfold ProcessManager.assertCapacity
  split
  · exact h
  · exact drain m

theorem exec (h : Served options m) (lifecycle : ProcessLifecycle) (service : Option ServiceOptions)
    (spawns : Bool) : Served options (m.exec options lifecycle service spawns failing) := by
  unfold ProcessManager.exec
  split
  · exact h
  · unfold start
    dsimp only
    split
    next hadm =>
      simp only [Bool.and_eq_true] at hadm
      exact of_drained (assertCapacity_admits hadm.1).2
    next => exact h.assertCapacity

theorem terminalOpen (h : Served options m) (spawns : Bool) :
    Served options (m.terminalOpen options spawns failing) := by
  unfold ProcessManager.terminalOpen
  dsimp only
  split
  next hadm =>
    simp only [Bool.and_eq_true] at hadm
    exact of_drained (assertCapacity_admits hadm.1.1).2
  next => exact h.assertCapacity

theorem dispatch (hman : Managed m) (h : Served options m) {id : ℕ} {event : ProcessEvent}
    (hste : m.dispatch options failing id event=some m') : Served options m' := by
  obtain ⟨managed,managed',hrec,heve,heq⟩ := dispatch_cases hste
  by_cases hcom : managed.completed=false ∧ managed'.completed=true
  · unfold settle at heq
    rw [if_pos hcom] at heq
    rw [heq]
    exact drain _
  · have hsam : managed'.completed=managed.completed := by
      have hsup:=hman.supervised id managed hrec
      cases hdon : managed.completed with
      | true => exact Halted.completed hsup hdon heve
      | false =>
        cases hdon' : managed'.completed with
        | false => rfl
        | true => exact absurd ⟨hdon,hdon'⟩ hcom
    unfold settle at heq
    rw [if_neg hcom] at heq
    refine h.keep (dispatch_controls hste) (dispatch_moves hste) fun _ _ _ => ?_
    have hcou:=@count_record_eq m m' id managed managed' hrec hsam (by rw [heq]) (by rw [heq]) (by rw [heq])
    omega

theorem terminateLive (hman : Managed m) (h : Served options m) (id : ℕ) :
    Served options (m.terminateLive options failing id) := by
  unfold ProcessManager.terminateLive
  split
  · cases hdis : m.dispatch options failing id (.terminate (.stop .SIGTERM) .stop) with
    | none => exact h
    | some m' => exact h.dispatch hman hdis
  · exact h

theorem finishStop (h : Served options m) (id : ℕ) (removed fenced : Bool) :
    Served options (m.finishStop id removed fenced) := by
  refine h.keep (finishStop_controls id removed fenced) (finishStop_moves id removed fenced) fun _ _ _ => ?_
  unfold ProcessManager.finishStop
  split
  next managed hrec =>
    split
    next hdon =>
      have hliv : m.live id=false := by rw [live_eq hrec,hdon.1]; rfl
      have hcou:=@count_deleteRecord m id fun _ => hliv
      exact Nat.le_of_eq hcou.symm
    next => exact Nat.le_refl _
  next => exact Nat.le_refl _

theorem disable (h : Served options m) {id : ℕ} (hpen : m.isPending id=true) :
    Served options (m.disable id) :=
  h.keep ⟨rfl,rfl,rfl,rfl⟩ (Moves.single (.disabled m id hpen)) fun _ _ _ => Nat.le_refl _

variable {removed : Bool}

theorem stop (hman : Managed m) (h : Served options m) {id : ℕ} {signal : StopSignal}
    (hste : m.stop options failing id signal removed=some m') : Served options m' := by
  unfold ProcessManager.stop at hste
  split at hste
  next hpen =>
    cases hste
    cases removed with
    | true => exact h.disable hpen
    | false => exact h
  next =>
    split at hste
    · obtain ⟨m₁,hdis,rfl⟩ := map_eq_some_iff.1 hste
      have hser:=h.dispatch hman hdis
      exact hser
    · cases hste

theorem stopForManagement (hman : Managed m) (h : Served options m) (id : ℕ) (removed : Bool) :
    Served options (m.stopForManagement options failing id removed) := by
  unfold ProcessManager.stopForManagement
  split
  next hpen =>
    cases removed with
    | true => exact h.disable hpen
    | false => exact h
  next =>
    split
    · exact h.terminateLive hman id
    · exact h

theorem terminals (hlim : Limited options m) (h : Served options m) (terminals : List PtySession)
    (hle : (terminals.filter PtySession.running).length≤(m.terminals.filter PtySession.running).length) :
    Served options { m with terminals } := by
  refine h.keep ⟨rfl,rfl,rfl,rfl⟩ (Moves.single (.terminals m terminals hle)) fun pending hmem herr => ?_
  have hzer:=running_zero (hlim.services pending hmem herr)
  show m.count≤(m.processes.filter m.live).length+(terminals.filter PtySession.running).length
  unfold ProcessManager.count
  omega

theorem stopping_paused (hfro : Frozen m) {operation : StopAll} (h : m.stopAllOperation=some operation) :
    m.paused=true := by
  unfold ProcessManager.paused
  rw [hfro.bulk,h]
  rfl

theorem stopNext (hfro : Frozen m) (hste : m.stopNext options removed=some m') : Served options m' := by
  apply of_paused
  unfold ProcessManager.stopNext at hste
  split at hste
  next id remaining hope =>
    have hpau:=stopping_paused hfro hope
    cases hste
    split
    · split
      · exact hpau
      · exact hpau
    · split
      · exact (terminateLive_held (m := { m with stopAllOperation := some ⟨remaining,none⟩ }) hpau id).paused
      · exact hpau
  next => cases hste

theorem stopAwaited (hfro : Frozen m) {fenced : Bool} (hste : m.stopAwaited removed fenced=some m') :
    Served options m' := by
  apply of_paused
  unfold ProcessManager.stopAwaited at hste
  split at hste
  next remaining id hope =>
    have hpau:=stopping_paused hfro hope
    cases hste
    have hsam:=finishStop_controls (m := { m with stopAllOperation := some ⟨remaining,none⟩ }) id removed fenced
    rw [hsam.paused]
    exact hpau
  next => cases hste

theorem step (hman : Managed m) (hlim : Limited options m) (hfro : Frozen m) (h : Served options m)
    {action : ManagerAction} (hste : managerStep options m action=some m') : Served options m' := by
  cases action with
  | exec lifecycle service spawns failing =>
    cases hste
    exact h.exec lifecycle service spawns
  | terminalOpen spawns failing =>
    cases hste
    exact h.terminalOpen spawns
  | terminalExit id =>
    cases hste
    exact h.terminals hlim _ (terminalExit_running id m.terminals)
  | deleteSession id =>
    cases hste
    exact h.terminals hlim _ (filter_running_le _ m.terminals)
  | event id event failing => exact h.dispatch hman hste
  | discard id fenced =>
    obtain ⟨managed,hrec,hcon⟩ := bind_eq_some_iff.1 hste
    split at hcon
    next hdon =>
      cases hcon
      have hliv : m.live id=false := by rw [live_eq hrec,hdon.1]; rfl
      refine h.keep ⟨rfl,rfl,rfl,rfl⟩ (Moves.single (.deleted m id managed hrec hdon.2.1)) fun _ _ _ => ?_
      exact Nat.le_of_eq (count_deleteRecord fun _ => hliv).symm
    next => cases hcon
  | revoke id =>
    obtain ⟨managed,hrec,hcon⟩ := bind_eq_some_iff.1 hste
    split at hcon
    next hses =>
      cases hcon
      have hlif : managed.lifecycle≠.service := by rw [hses]; decide
      refine h.keep ⟨rfl,rfl,rfl,rfl⟩ (Moves.single (.deleted m id managed hrec hlif))
        fun pending hmem herr => ?_
      have honl:=hlim.services pending hmem herr
      have hliv : id ∈ m.processes → m.live id=false := by
        intro hid
        rw [live_eq hrec]
        cases hcom : managed.completed with
        | true => rfl
        | false => exact absurd (honl.2 id hid managed hrec hcom) hlif
      exact Nat.le_of_eq (count_deleteRecord hliv).symm
    next => cases hcon
  | stop id signal removed failing => exact h.stop hman hste
  | stopForManagement id removed failing =>
    cases hste
    exact h.stopForManagement hman id removed
  | stopSettled id removed fenced =>
    simp only [managerStep,ProcessManager.stopSettled] at hste
    split at hste
    · cases hste
      have hset : Served options { m with stopping := m.stopping.erase id } := h
      exact hset.finishStop id removed fenced
    · cases hste
  | stopAllForManagement =>
    cases hste
    unfold ProcessManager.stopAllForManagement
    split
    · exact h
    · exact of_paused rfl
  | stopNext removed => exact stopNext hfro hste
  | stopAwaited removed fenced => exact stopAwaited hfro hste
  | stopAllFinished =>
    simp only [managerStep,ProcessManager.stopAllFinished] at hste
    split at hste
    next hope =>
      cases hste
      intro _ pending hmem herr
      rcases hfro.remaining _ hope pending hmem herr with hin | hsurvives
      · cases hin
      · exact Or.inl hsurvives
    · cases hste
  | shutdown =>
    cases hste
    have hdow:=(@shutdown_controls options m).1
    exact of_paused (by unfold ProcessManager.paused; rw [hdow,Bool.or_true])

end Served

theorem queue_invariant (h : (managerSystem options).Reachable m) : Frozen m ∧ Served options m := by
  refine h.induct (P := fun m => Frozen m ∧ Served options m) ?_ ?_
  · intro m hini
    obtain ⟨failing,definitions,rfl⟩ := hini
    have hque : Frozen (queued definitions) := ⟨rfl,fun operation hsom => by cases hsom⟩
    exact ⟨hque.same (drain_controls _) (@drain_moves options failing _),Served.drain _⟩
  · intro m action m' hrea hm hste
    exact ⟨hm.1.step hste,hm.2.step (.reachable hrea) (.reachable hrea) hm.1 hste⟩

/-- The limit, the freeze, the places of the saved services, and the queue. -/
theorem admission_serves_the_queue (options : ManagerOptions) {m : ProcessManager}
    (h : (managerSystem options).Reachable m) :
    m.count≤options.maxProcesses ∧
    (m.bulkStopping=true ∨ m.shuttingDown=true → ∀ action m',
      managerStep options m action=some m' → m'.launches=m.launches) ∧
    (∀ id < m.loaded, (m.pendingServices.map PendingService.id).count id+m.processes.count id +
      m.stopped.count id=1) ∧
    (m.bulkStopping=false → m.shuttingDown=false →
      ∀ pending ∈ m.pendingServices, pending.startError=none → pending.id ∉ m.survivors →
        m.count=options.maxProcesses) := by
  have hlim:=Limited.reachable h
  obtain ⟨_,hser⟩ := queue_invariant h
  refine ⟨hlim.capacity,?_,(WellFormed.reachable h).placed,?_⟩
  · intro hsto action m' hste
    have hpau : m.paused=true := by
      unfold ProcessManager.paused
      rw [Bool.or_eq_true]
      exact hsto
    exact paused_step hpau hste
  · intro hbul hdow pending hmem herr hsur
    have hpau : m.paused=false := by
      unfold ProcessManager.paused
      rw [hbul,hdow]
      rfl
    have hful:=(hser hpau pending hmem herr).resolve_left hsur
    have hle:=hlim.capacity
    omega

/- Three saved services and two places: one exits, and the next one has its place. -/
theorem admission_serves_the_queue_run :
    ∃ m, (managerSystem ⟨2,2⟩).Reachable m ∧ m.processes=[0,1,2] ∧
      m.pendingServices=[⟨3,none,none⟩] ∧ m.count=2 := by
  have hrun : ((managerSystem ⟨2,2⟩).exec (loadServices ⟨2,2⟩ [] [none,none,none,none])
      [.event 0 (.close 0 (some 0) none) [],.exec .task none true []]).map (fun m =>
        (m.processes,m.pendingServices,m.survivors,m.bulkStopping,m.shuttingDown)) =
      some ([0,1,2],[⟨3,none,none⟩],[],false,false) := by decide
  obtain ⟨m,hexe,hfie⟩ := map_eq_some_iff.1 hrun
  obtain ⟨hpro,hpen,hsur,hbul,hdow⟩ := by simpa using hfie
  have hrea : (managerSystem ⟨2,2⟩).Reachable m :=
    ⟨_,_,⟨[],[none,none,none,none],rfl⟩,TransitionSystem.run_of_exec hexe⟩
  obtain ⟨_,_,_,hser⟩ := admission_serves_the_queue ⟨2,2⟩ hrea
  have hful:=hser hbul hdow ⟨3,none,none⟩ (by rw [hpen]; simp) rfl (by rw [hsur]; simp)
  exact ⟨m,hrea,hpro,hpen,hful⟩

/- A stop of everything that cannot remove the definition of a queued service stops the one
that runs, and starts nothing afterwards: the service waits beside free capacity. -/
theorem undisabled_service_waits :
    ∃ m, (managerSystem ⟨1,1⟩).Reachable m ∧ m.bulkStopping=false ∧ m.shuttingDown=false ∧
      m.stopping=[] ∧ m.stopAllOperation=none ∧
      (∃ pending ∈ m.pendingServices, pending.startError=none) ∧ m.count≠1 := by
  have hrun : ((managerSystem ⟨1,1⟩).exec (loadServices ⟨1,1⟩ [] [none,none])
      [.stopAllForManagement,.stopNext false,.stopNext true,.event 0 (.close 0 none (some 15)) [],
        .stopAwaited true true,.stopAllFinished]).map (fun m =>
        (m.pendingServices,m.count,m.paused,m.stopping,m.stopAllOperation.isSome)) =
      some ([⟨1,none,none⟩],0,false,[],false) := by decide
  obtain ⟨m,hexe,hfie⟩ := map_eq_some_iff.1 hrun
  obtain ⟨hpen,hcou,hpau,hsto,hope⟩ := by simpa using hfie
  obtain ⟨hbul,hdow⟩ := by simpa [ProcessManager.paused] using hpau
  have hrea : (managerSystem ⟨1,1⟩).Reachable m :=
    ⟨_,_,⟨[],[none,none],rfl⟩,TransitionSystem.run_of_exec hexe⟩
  exact ⟨m,hrea,hbul,hdow,hsto,hope,⟨⟨1,none,none⟩,by rw [hpen]; simp,rfl⟩,
    by rw [hcou]; decide⟩

end Qubicl.Control.Supervision
