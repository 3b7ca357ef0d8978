import Qubicl.Cli.Lifecycle.Recovery
import Qubicl.Core.LegacyJournal

/-!
# Attempts

The operation first, then recovery, each cut somewhere or ended.
-/

namespace Qubicl.Cli
open Foundation Core Durable List

/-- No operation is pending, and Docker gives the containers names and IDs of their own. -/
structure Idle (w : LifecycleWorld) : Prop where
  journal : w.journal=.absent
  calls : w.calls=[]
  named : (w.containers.map RuntimeContainerBinding.name).Nodup
  ids : (w.containers.map RuntimeContainerBinding.id).Nodup
  schema : ∀ c ∈ w.containers, runtimeContainerBindingSchema c=true

def Accepted (names : RuntimeNames) (operation : LifecycleOperation)
    (containers : List RuntimeContainerBinding) : Prop :=
  let observation:=managedComputerRuntimeObservation names containers
  (observation.group=.absent ∧ operation=.start) ∨
    (observation.group=.complete ∧ observation.status ∈ lifecycleStatuses)

/-- No command was issued; at most what Docker restarts itself has got on. -/
structure Untouched (before : List RuntimeContainerBinding) (w : LifecycleWorld) : Prop where
  journal : w.journal=.absent
  calls : w.calls=[]
  containers : w.containers=before ∨ (∀ c ∈ before, Up c.status) ∧ Restated Up before w.containers

variable {before : List RuntimeContainerBinding} {journal : ComputerLifecycleJournal}
  {observation : ManagedRuntimeGroupObservation} {r : Except String Unit}

section Operations
variable {host : LifecycleHost} {state : LoadedState} {computer : ComputerConfig}
  {contentId operationId createdAt status : String} {w : LifecycleWorld}

theorem Idle.grouped {names : RuntimeNames} (h : Idle w)
    (hobs : (managedComputerRuntimeObservation names w.containers).group≠.inconsistent) :
    Grouped names w.containers :=
  ⟨h.named,h.ids,expected_of_observed hobs⟩

theorem nil_of_absent {names : RuntimeNames} (h : Idle w)
    (habs : (managedComputerRuntimeObservation names w.containers).group=.absent) : w.containers=[] := by
  have hgro : Grouped names w.containers := h.grouped (by rw [habs]; decide)
  have hnil : sortedBindings names.names w.containers=[] := by
    cases hsor : sortedBindings names.names w.containers with
    | nil => rfl
    | cons first rest =>
      unfold managedComputerRuntimeObservation at habs
      rw [hgro.observe,hsor] at habs
      dsimp only at habs
      split at habs
      next => cases habs
      next =>
        split at habs
        next => cases habs
        next => cases habs
  apply eq_nil_iff_forall_not_mem.2
  intro c hc
  have hmem:=hgro.mem_sorted hc
  rw [hnil] at hmem
  exact not_mem_nil hmem

theorem accepted_complete {found : List RuntimeContainerBinding} {allowAbsent : Bool} {operation : String}
    (h : status ∈ lifecycleStatuses) :
    assertLifecycleGroup computer ⟨status,.complete,found⟩ allowAbsent operation=.ok () := by
  unfold assertLifecycleGroup
  dsimp only
  rw [if_pos (by simpa using h)]

section First
variable {α : Type} {C : LifecycleWorld → Prop} {R : α → LifecycleWorld → Prop} {X : String → LifecycleWorld → Prop}

theorem Still.first {m : Durable LifecycleWorld String Unit} {n : Unit → Durable LifecycleWorld String α}
    (h : Still m) (hcut : C w) (hn : Durable.wp (n ()) ⟨C,R,X⟩ w) : Durable.wp (m >>= n) ⟨C,R,X⟩ w := by
  rw [wp_bind]
  exact h.wp hcut hn

theorem observes_first {n : ManagedRuntimeGroupObservation → Durable LifecycleWorld String α}
    (hobs : managedComputerRuntimeObservation (host.runtime.names state computer) w.containers=observation)
    (hn : wp (n observation) ⟨C,R,X⟩ w) : wp (observes host state computer >>= n) ⟨C,R,X⟩ w := by
  rw [wp_bind]
  unfold observes
  rw [wp_reads,hobs]
  exact hn

theorem check_first {n : Unit → Durable LifecycleWorld String α} (hr : r=.ok ()) (hn : wp (n ()) ⟨C,R,X⟩ w) :
    wp (ofExcept r >>= n) ⟨C,R,X⟩ w := by
  rw [wp_bind,hr,wp_ofExcept_ok]
  exact hn

theorem noPending_first {n : Unit → Durable LifecycleWorld String α} (habs : w.journal=.absent)
    (hn : wp (n ()) ⟨C,R,X⟩ w) : wp (assertNoPendingComputerLifecycle host state >>= n) ⟨C,R,X⟩ w := by
  rw [wp_bind]
  exact wp_assertNoPending habs hn

theorem begin_first {n : ComputerLifecycleJournal → Durable LifecycleWorld String α} {operation : LifecycleOperation}
    {source : LifecycleSource} {bindings : List RuntimeContainerBinding} {P : List RuntimeContainerBinding → Prop}
    (hjou : lifecycleJournal state computer operationId createdAt operation source bindings=journal)
    (habs : w.journal=.absent) (hcal : Journaled w.calls) (hP : P w.containers)
    (hcut : ∀ t, UnderWay host.uid journal P t → C t)
    (hn : ∀ t, UnderWay host.uid journal P t → wp (n journal) ⟨C,R,X⟩ t) :
    wp (beginComputerLifecycle host state computer operationId createdAt operation source bindings >>= n)
      ⟨C,R,X⟩ w := by
  rw [wp_bind]
  exact wp_begin hjou habs hcal hP hcut hn

theorem requireUnchanged_first {n : ManagedRuntimeGroupObservation → Durable LifecycleWorld String α}
    {operation : String} (hset : LifecycleSetting host state computer contentId operationId createdAt)
    (hwhole : Whole (host.runtime.names state computer) status w.containers) (hstatus : status ∈ lifecycleStatuses)
    (hbef : before=sortedBindings (host.runtime.names state computer).names w.containers)
    (hn : wp (n ⟨status,.complete,before⟩) ⟨C,R,X⟩ w) :
    wp (requireUnchangedRuntime host state computer before operation >>= n) ⟨C,R,X⟩ w := by
  have hsam:=((@Restated.refl (· = status) _ hwhole.status).sorted (host.runtime.names state computer).names).sameBindings
    (sorted_map hset.names hwhole.grouped.ids)
  subst hbef
  rw [wp_bind]
  unfold requireUnchangedRuntime
  apply observes_first (hwhole.observed hset.nonempty)
  apply check_first (accepted_complete hstatus)
  dsimp only
  rw [if_neg (by simp [hsam])]
  exact (wp_pure _ _ _).2 hn

end First

/-- What an operation that is cut or ends has done. -/
def Attempt (host : LifecycleHost) (state : LoadedState) (computer : ComputerConfig)
    (before : List RuntimeContainerBinding) (journal : ComputerLifecycleJournal)
    (K : List RuntimeContainerBinding → Prop) (t : LifecycleWorld) : Prop :=
  Untouched before t ∨ Pending host state computer before journal K t

theorem Attempt.underWay {K : List RuntimeContainerBinding → Prop} (t : LifecycleWorld)
    (h : UnderWay host.uid journal K t) :
    Attempt host state computer before journal K t := Or.inr (Or.inl h)

theorem Idle.untouched (h : Idle w) : Untouched w.containers w := ⟨h.journal,h.calls,Or.inl rfl⟩

theorem Idle.journaled (h : Idle w) : Journaled w.calls := by
  rw [h.calls]
  exact fun call hcal => absurd hcal not_mem_nil

section
variable (hset : LifecycleSetting host state computer contentId operationId createdAt) (h : Idle w)
include hset h

theorem starts_absent
    (hnil : w.containers=[]) :
    wp (startManagedComputer host state computer operationId createdAt)
      ⟨Attempt host state computer []
          (lifecycleJournal state computer operationId createdAt .start .absent [])
          (Pinned (host.runtime.names state computer) contentId),
        fun _ t => Finished (host.runtime.names state computer) .start [] t,fun _ _ => False⟩ w := by
  have hrec:=recoverable_of_absent hset
  have heff:=hset.effects
  have hobs : managedComputerRuntimeObservation (host.runtime.names state computer) w.containers =
      ⟨"absent",.absent,[]⟩ := by
    rw [hnil]
    have hsor : sortedBindings (host.runtime.names state computer).names []=[] :=
      filterMap_eq_nil_iff.2 fun _ _ => rfl
    unfold managedComputerRuntimeObservation
    rw [hsor]
    rfl
  have hunt:=h.untouched
  rw [hnil] at hunt
  have hpin : Pinned (host.runtime.names state computer) contentId w.containers := by
    rw [hnil]
    constructor
    · exact ⟨nodup_nil,nodup_nil,fun c hc => absurd hc not_mem_nil⟩
    · exact fun c hc => absurd hc not_mem_nil
    · exact fun c hc => absurd hc not_mem_nil
  unfold startManagedComputer
  apply noPending_first h.journal
  apply Still.first (still_runs heff.validateDocker) (Or.inl hunt)
  apply observes_first hobs
  apply check_first rfl
  rw [if_pos rfl]
  apply Still.first (still_preparesGateway heff _) (Or.inl hunt)
  unfold startAbsentComputer
  apply observes_first hobs
  dsimp only
  rw [if_neg (by decide)]
  apply begin_first rfl h.journal h.journaled hpin
  · intro t ht
    exact Or.inr (Or.inl ht)
  intro t₁ ht₁
  apply Phase.andThen (Phase.runs fun c hc => heff.startAbsent c hc) Attempt.underWay _ ht₁
  intro _ t₂ ht₂
  apply Phase.andThen (phase_recovered_absent hset rfl) Attempt.underWay _ ht₂
  intro _ t₃ ht₃
  apply Phase.andThen (Phase.still (still_runs heff.synchronizePolicies) fun c hc => hc.1) Attempt.underWay _ ht₃
  intro _ t₄ ht₄
  exact wp_finish hrec (fun _ ht => Or.inr (Or.inr ht)) (fun _ ht => ht) ht₄

section
variable (hwhole : Whole (host.runtime.names state computer) status w.containers) (hstatus : status ∈ lifecycleStatuses)
include hwhole hstatus

theorem starts_retained :
    wp (startManagedComputer host state computer operationId createdAt)
      ⟨Attempt host state computer w.containers
          (lifecycleJournal state computer operationId createdAt .start .retained
            (sortedBindings (host.runtime.names state computer).names w.containers))
          (Restated (· ∈ lifecycleStatuses) w.containers),
        fun _ t => Finished (host.runtime.names state computer) .start w.containers t,fun _ _ => False⟩ w := by
  have hrec:=recoverable_of_retained hset hwhole h.schema .start
  have heff:=hset.effects
  have hnow : Restated (· ∈ lifecycleStatuses) w.containers w.containers :=
    Restated.refl fun c hc => by rw [hwhole.status c hc]; exact hstatus
  unfold startManagedComputer
  apply noPending_first h.journal
  apply Still.first (still_runs heff.validateDocker) (Or.inl h.untouched)
  apply observes_first (hwhole.observed hset.nonempty)
  apply check_first (accepted_complete hstatus)
  dsimp only
  rw [if_neg (by decide)]
  apply Still.first (still_preparesGateway heff _) (Or.inl h.untouched)
  unfold startRetainedComputer
  apply requireUnchanged_first hset hwhole hstatus rfl
  dsimp only
  split
  next =>
    apply begin_first rfl h.journal h.journaled (P := (· = w.containers)) rfl
    · intro t ht
      refine Or.inr (Or.inl (ht.mono ?_))
      rintro _ rfl
      exact hnow
    intro t₁ ht₁
    have hbin : (lifecycleJournal state computer operationId createdAt .start .retained
        (sortedBindings (host.runtime.names state computer).names w.containers)).runtimeContainers =
          sortedBindings (host.runtime.names state computer).names w.containers := rfl
    have hsta:=phase_startRetained heff hwhole.grouped hset.names hbin hnow
    rw [hwhole.observed hset.nonempty] at hsta
    apply Phase.andThen hsta Attempt.underWay _ ht₁
    intro _ t₂ ht₂
    refine Phase.andThen (phase_recovered_retained hset hwhole rfl rfl rfl) Attempt.underWay ?_ ht₂
    intro _ t₃ ht₃
    apply Phase.andThen (Phase.still (still_runs heff.synchronizePolicies)
      fun c hc => hc.mono fun _ heq => lifecycle_of_up (Or.inl heq)) Attempt.underWay _ ht₃
    intro _ t₄ ht₄
    exact wp_finish hrec (fun _ ht => Or.inr (Or.inr ht)) (fun _ ht => ht) ht₄
  next hup =>
    -- a group that is up already: nothing but Docker itself changes it
    have hups : ∀ c ∈ w.containers, Up c.status := by
      intro c hc
      rw [hwhole.status c hc]
      apply up_of_other hstatus
      · exact fun hpau => hup (Or.inl hpau)
      · exact fun hsto => hup (Or.inr hsto)
    rw [wp_bind]
    apply wp_waitsReady heff hups
    · intro t ht
      exact Or.inl ⟨h.journal,h.calls,Or.inr ⟨hups,ht⟩⟩
    · intro t ht
      apply (still_runs heff.synchronizePolicies).wp
      · exact Or.inl ⟨h.journal,h.calls,Or.inr ⟨hups,ht.mono fun _ heq => Or.inl heq⟩⟩
      · exact hrec.finished _ h.journal h.journaled ht

theorem stops :
    wp (stopManagedComputer host state computer operationId createdAt)
      ⟨Attempt host state computer w.containers
          (lifecycleJournal state computer operationId createdAt .stop .retained
            (sortedBindings (host.runtime.names state computer).names w.containers))
          (Restated (· ∈ underWay .stop) w.containers),
        fun _ t => Finished (host.runtime.names state computer) .stop w.containers t,fun _ _ => False⟩ w := by
  have hobs:=hwhole.observed hset.nonempty
  have heff:=hset.effects
  unfold stopManagedComputer
  apply noPending_first h.journal
  apply Still.first (still_runs heff.validateDocker) (Or.inl h.untouched)
  apply observes_first hobs
  apply check_first (accepted_complete hstatus)
  dsimp only
  split
  next hsto =>
    -- stopped already
    refine (wp_pure () _ w).2 ⟨h.journal,h.journaled,?_,?_,?_⟩
    · rw [hobs]
    · rw [hobs]
      show status ∈ ["exited","created"]
      simpa using hsto
    · exact fun _ => Restated.refl fun _ _ => trivial
  next hrun =>
    have hrec:=recoverable_of_retained hset hwhole h.schema .stop
    have hund : status ∈ underWay .stop := by
      simp only [lifecycleStatuses,mem_cons,not_mem_nil,or_false] at hstatus
      simp only [underWay,mem_cons,not_mem_nil,or_false]
      tauto
    have hnow : Restated (· ∈ underWay .stop) w.containers w.containers :=
      Restated.refl fun c hc => by rw [hwhole.status c hc]; exact hund
    apply begin_first rfl h.journal h.journaled (P := (· = w.containers)) rfl
    · intro t ht
      refine Or.inr (Or.inl (ht.mono ?_))
      rintro _ rfl
      exact hnow
    intro t₁ ht₁
    refine Phase.andThen (phase_stop heff hwhole.grouped rfl hnow) Attempt.underWay ?_ ht₁
    intro _ t₂ ht₂
    have haft:=hwhole.restated ht₂.containers
    apply observes_first (haft.observed hset.nonempty)
    apply check_first (accepted_complete (by decide))
    have hsam:=(ht₂.containers.sorted (host.runtime.names state computer).names).sameBindings
      (sorted_map hset.names hwhole.grouped.ids)
    dsimp only
    rw [if_neg (by simp [lifecycleJournal,hsam])]
    exact wp_finish hrec (fun _ ht => Or.inr (Or.inr ht)) (fun _ ht => ht) ht₂

theorem restarts :
    wp (restartManagedComputer host state computer operationId createdAt)
      ⟨Attempt host state computer w.containers
          (lifecycleJournal state computer operationId createdAt .restart .retained
            (sortedBindings (host.runtime.names state computer).names w.containers))
          (Restated (· ∈ lifecycleStatuses) w.containers),
        fun _ t => Finished (host.runtime.names state computer) .restart w.containers t,fun _ _ => False⟩ w := by
  have hobs:=hwhole.observed hset.nonempty
  have heff:=hset.effects
  have hrec:=recoverable_of_retained hset hwhole h.schema .restart
  have hnow : Restated (· ∈ lifecycleStatuses) w.containers w.containers :=
    Restated.refl fun c hc => by rw [hwhole.status c hc]; exact hstatus
  unfold restartManagedComputer
  apply noPending_first h.journal
  apply Still.first (still_runs heff.validateDocker) (Or.inl h.untouched)
  apply observes_first hobs
  dsimp only
  rw [if_neg (by simp)]
  apply check_first (accepted_complete hstatus)
  apply Still.first (still_preparesGateway heff _) (Or.inl h.untouched)
  apply requireUnchanged_first hset hwhole hstatus rfl
  apply begin_first rfl h.journal h.journaled (P := (· = w.containers)) rfl
  · intro t ht
    refine Or.inr (Or.inl (ht.mono ?_))
    rintro _ rfl
    exact hnow
  intro t₁ ht₁
  refine Phase.andThen (phase_restart heff hwhole.grouped rfl hnow) Attempt.underWay ?_ ht₁
  intro _ t₂ ht₂
  apply Phase.andThen (phase_waitsRunning heff) Attempt.underWay _ ht₂
  intro _ t₃ ht₃
  apply Phase.andThen (Phase.still (still_runs heff.releaseHumanControl)
    fun c hc => hc.mono fun _ heq => lifecycle_of_up (Or.inl heq)) Attempt.underWay _ ht₃
  intro _ t₄ ht₄
  refine Phase.andThen (phase_recovered_retained hset hwhole rfl rfl rfl) Attempt.underWay ?_ ht₄
  intro _ t₅ ht₅
  exact wp_finish hrec (fun _ ht => Or.inr (Or.inr ht)) (fun _ ht => ht) ht₅

end

theorem manages
    {operation : LifecycleOperation}
    (hacc : Accepted (host.runtime.names state computer) operation w.containers) :
    ∃ journal K Q, Recoverable host state computer w.containers journal K Q ∧ journal.operation=operation ∧
      journal.runtimeContainers=sortedBindings (host.runtime.names state computer).names w.containers ∧
      wp (manageComputer host state operation computer operationId createdAt)
        ⟨Attempt host state computer w.containers journal K,
          fun _ t => Finished (host.runtime.names state computer) operation w.containers t,fun _ _ => False⟩ w := by
  rcases hacc with ⟨habs,rfl⟩ | ⟨hcom,hstatus⟩
  · have hnil:=nil_of_absent h habs
    rw [hnil]
    refine ⟨_,_,_,recoverable_of_absent hset,rfl,?_,starts_absent hset h hnil⟩
    exact (filterMap_eq_nil_iff.2 fun _ _ => rfl).symm
  · have hgro : Grouped (host.runtime.names state computer) w.containers :=
      h.grouped (by rw [hcom]; decide)
    have hwhole:=whole_of_complete hgro hcom
    cases operation with
    | start => exact ⟨_,_,_,recoverable_of_retained hset hwhole h.schema .start,rfl,rfl,
        starts_retained hset h hwhole hstatus⟩
    | stop => exact ⟨_,_,_,recoverable_of_retained hset hwhole h.schema .stop,rfl,rfl,
        stops hset h hwhole hstatus⟩
    | restart => exact ⟨_,_,_,recoverable_of_retained hset hwhole h.schema .restart,rfl,rfl,
        restarts hset h hwhole hstatus⟩

end

theorem refused_group {allowAbsent : Bool} (operation : String) (habs : observation.group=.absent → allowAbsent=false)
    (hcom : observation.group=.complete → observation.status ∉ lifecycleStatuses) :
    ∃ e, assertLifecycleGroup computer observation allowAbsent operation=.error e := by
  unfold assertLifecycleGroup
  cases hgro : observation.group with
  | partly => exact ⟨_,rfl⟩
  | inconsistent => exact ⟨_,rfl⟩
  | absent =>
    rw [habs hgro]
    dsimp only
    rw [if_neg (by simp)]
    split <;> exact ⟨_,rfl⟩
  | complete =>
    dsimp only
    rw [if_neg (by simpa using hcom hgro)]
    exact ⟨_,rfl⟩

theorem refusal_first {α : Type} {n : Unit → Durable LifecycleWorld String α} (h : ∃ e, r=.error e) :
    wp (ofExcept r >>= n) ⟨fun t => t=w,fun _ _ => False,fun _ t => t=w⟩ w := by
  obtain ⟨e,rfl⟩ := h
  rw [wp_bind,wp_ofExcept_error]

theorem refuses (heff : NamedEffects host.runtime state computer contentId) (h : Idle w)
    {operation : LifecycleOperation}
    (href : ¬ Accepted (host.runtime.names state computer) operation w.containers) :
    wp (manageComputer host state operation computer operationId createdAt)
      ⟨fun t => t=w,fun _ _ => False,fun _ t => t=w⟩ w := by
  have hcom : (managedComputerRuntimeObservation (host.runtime.names state computer) w.containers).group =
      .complete → (managedComputerRuntimeObservation (host.runtime.names state computer) w.containers).status ∉
        lifecycleStatuses := fun hgro hstatus => href (Or.inr ⟨hgro,hstatus⟩)
  cases operation with
  | start =>
    show wp (startManagedComputer host state computer operationId createdAt) _ w
    unfold startManagedComputer
    apply noPending_first h.journal
    refine Still.first (still_runs heff.validateDocker) rfl ?_
    apply observes_first rfl
    apply refusal_first (refused_group "start" _ hcom)
    exact fun habs => absurd (Or.inl ⟨habs,rfl⟩) href
  | stop =>
    show wp (stopManagedComputer host state computer operationId createdAt) _ w
    unfold stopManagedComputer
    apply noPending_first h.journal
    refine Still.first (still_runs heff.validateDocker) rfl ?_
    apply observes_first rfl
    exact refusal_first (refused_group "stop" (fun _ => rfl) hcom)
  | restart =>
    show wp (restartManagedComputer host state computer operationId createdAt) _ w
    unfold restartManagedComputer
    apply noPending_first h.journal
    refine Still.first (still_runs heff.validateDocker) rfl ?_
    apply observes_first rfl
    dsimp only
    split
    next => exact (wp_fail _ _ _).2 rfl
    next => exact refusal_first (refused_group "restart" (fun _ => rfl) hcom)

end Operations

/-- The states that the operation, and then any number of recoveries, get to: each is cut
after one of its steps, or ends. -/
inductive Attempted (host : LifecycleHost) (state : LoadedState) (computer : ComputerConfig)
    (operation : LifecycleOperation) (operationId createdAt : String) (w₀ : LifecycleWorld) : LifecycleWorld → Prop
  | manage {w : LifecycleWorld} (h : (manageComputer host state operation computer operationId createdAt).Visits w₀ w) :
      Attempted host state computer operation operationId createdAt w₀ w
  | recover {w w' : LifecycleWorld} (h : Attempted host state computer operation operationId createdAt w₀ w)
      (hvisit : (recoverPendingComputerLifecycle host state).Visits w w') :
      Attempted host state computer operation operationId createdAt w₀ w'

section Attempts
variable {host : LifecycleHost} {state : LoadedState} {computer : ComputerConfig} {operation : LifecycleOperation}
  {contentId operationId createdAt : String} {w₀ w : LifecycleWorld}

theorem recover_absent (habs : w.journal=.absent) :
    (∀ t, (recoverPendingComputerLifecycle host state).Visits w t → t=w) ∧
      (recoverPendingComputerLifecycle host state).result w=.ok false ∧
        (recoverPendingComputerLifecycle host state).final w=w := by
  have hwp : wp (recoverPendingComputerLifecycle host state)
      ⟨fun _ => False,fun recovered t => recovered=false ∧ t=w,fun _ _ => False⟩ w :=
    wp_recoverPending_absent habs ⟨rfl,rfl⟩
  obtain ⟨recovered,hres,rfl,hfin⟩ := hwp.returns fun _ _ hfal => hfal
  refine ⟨?_,hres,hfin⟩
  rintro t (heq | hcut)
  · exact heq
  · exact (hwp.cutAt hcut).elim

theorem Attempted.attempt {K Q : List RuntimeContainerBinding → Prop}
    (hset : LifecycleSetting host state computer contentId operationId createdAt) (h₀ : Idle w₀)
    (hrec : Recoverable host state computer w₀.containers journal K Q)
    (hwp : wp (manageComputer host state operation computer operationId createdAt)
      ⟨Attempt host state computer w₀.containers journal K,
        fun _ t => Finished (host.runtime.names state computer) operation w₀.containers t,fun _ _ => False⟩ w₀)
    (hw : Attempted host state computer operation operationId createdAt w₀ w) :
    Attempt host state computer w₀.containers journal K w := by
  induction hw with
  | manage hvisit =>
    rcases hvisit with rfl | hcut
    · exact Or.inl h₀.untouched
    · exact hwp.cutAt hcut
  | recover _ hvisit ih =>
    rcases ih with hunt | hunder | hdone
    · rw [(recover_absent hunt.journal).1 _ hvisit]
      exact Or.inl hunt
    · rcases hvisit with rfl | hcut
      · exact Or.inr (Or.inl hunder)
      · exact Or.inr ((wp_recoverPending hset hrec hunder).cutAt hcut)
    · rw [(recover_absent hdone.journal).1 _ hvisit]
      exact Or.inr (Or.inr hdone)

theorem Attempted.refused (heff : NamedEffects host.runtime state computer contentId) (h₀ : Idle w₀)
    (href : ¬ Accepted (host.runtime.names state computer) operation w₀.containers)
    (hw : Attempted host state computer operation operationId createdAt w₀ w) : w=w₀ := by
  induction hw with
  | manage hvisit =>
    rcases hvisit with rfl | hcut
    · rfl
    · exact (refuses heff h₀ href).cutAt hcut
  | recover _ hvisit ih =>
    subst ih
    exact (recover_absent h₀.journal).1 _ hvisit

/-- Whatever the operation, the group it meets and the points at which it and its recoveries
are cut: a container command names containers of the journal that is there; without a
journal there is nothing to finish, and with one the next recovery that is not cut removes
it and leaves the group whole, in the state the operation is for, with its containers. -/
theorem computer_lifecycle_recovers
    (hset : LifecycleSetting host state computer contentId operationId createdAt) (h₀ : Idle w₀)
    (hw : Attempted host state computer operation operationId createdAt w₀ w) :
    Journaled w.calls ∧
    (Accepted (host.runtime.names state computer) operation w₀.containers →
      (manageComputer host state operation computer operationId createdAt).result w₀ = .ok () ∧
      Finished (host.runtime.names state computer) operation w₀.containers
        ((manageComputer host state operation computer operationId createdAt).final w₀)) ∧
    (¬ Accepted (host.runtime.names state computer) operation w₀.containers →
      (∃ e, (manageComputer host state operation computer operationId createdAt).result w₀ = .error e) ∧ w=w₀) ∧
    ((w.journal=.absent ∧ (Untouched w₀.containers w ∨
        Finished (host.runtime.names state computer) operation w₀.containers w) ∧
        (recoverPendingComputerLifecycle host state).result w=.ok false ∧
        (recoverPendingComputerLifecycle host state).final w=w) ∨
      ∃ journal, w.journal=.real host.uid 0o600 journal ∧
        journal.runtimeContainers=sortedBindings (host.runtime.names state computer).names w₀.containers ∧
        (recoverPendingComputerLifecycle host state).result w=.ok true ∧
        Finished (host.runtime.names state computer) operation w₀.containers
          ((recoverPendingComputerLifecycle host state).final w)) := by
  by_cases hacc : Accepted (host.runtime.names state computer) operation w₀.containers
  · obtain ⟨journal,K,Q,hrec,rfl,hbin,hwp⟩ := manages hset h₀ hacc
    obtain ⟨_,hres,hfin⟩ := hwp.returns fun _ _ hfal => hfal
    have hatt:=hw.attempt hset h₀ hrec hwp
    refine ⟨?_,fun _ => ⟨hres,hfin⟩,fun href => absurd hacc href,?_⟩
    · rcases hatt with hunt | hunder | hdone
      · rw [hunt.calls]
        exact fun call hcal => absurd hcal not_mem_nil
      · exact hunder.calls
      · exact hdone.calls
    · rcases hatt with hunt | hunder | hdone
      · exact Or.inl ⟨hunt.journal,Or.inl hunt,(recover_absent hunt.journal).2⟩
      · obtain ⟨recovered,hred,rfl,hend⟩ :=
          (wp_recoverPending hset hrec hunder).returns fun _ _ hfal => hfal
        exact Or.inr ⟨journal,hunder.journal,hbin,hred,hend⟩
      · exact Or.inl ⟨hdone.journal,Or.inr hdone,(recover_absent hdone.journal).2⟩
  · have hsam:=hw.refused hset.effects h₀ hacc
    subst hsam
    have hres:=(@refuses host state computer contentId operationId createdAt w hset.effects h₀ operation hacc).2
    refine ⟨h₀.journaled,fun h => absurd h hacc,fun _ => ⟨?_,rfl⟩,?_⟩
    · cases hr : (manageComputer host state operation computer operationId createdAt).result w with
      | ok a =>
        rw [hr] at hres
        exact hres.elim
      | error e => exact ⟨e,rfl⟩
    · exact Or.inl ⟨h₀.journal,Or.inl h₀.untouched,(recover_absent h₀.journal).2⟩

end Attempts

theorem partly_commanded (command : ContainerCommand) (ids : List String) (containers : List RuntimeContainerBinding) :
    PartlyCommanded command ids containers (commanded command ids containers) := by
  induction containers with
  | nil => exact .nil
  | cons c rest ih =>
    apply List.Forall₂.cons _ ih
    dsimp only
    split
    next hid => exact Or.inr ⟨hid,rfl⟩
    next => exact Or.inl rfl

theorem restated_map {allowed : String → Prop} {status : String} (h : allowed status)
    (containers : List RuntimeContainerBinding) :
    Restated allowed containers (containers.map (withStatus status)) := by
  induction containers with
  | nil => exact .nil
  | cons c rest ih => exact .cons ⟨rfl,h⟩ ih

def lifecycleImage : String := "sha256:0123456789abcdef0123456789abcdef0123456789abcdef0123456789abcdef"

def lifecycleNames : RuntimeNames := ⟨"qubicl-main",["qubicl-main"]⟩

def lifecycleContainer (status : String) : RuntimeContainerBinding where
  role := .computer
  name := "qubicl-main"
  id := "0123456789abcdef0123456789abcdef0123456789abcdef0123456789abcdef"
  status := status
  imageId := lifecycleImage
  topologyVersion := none

def lifecycleRuntime : ComputerLifecycleRuntime where
  names _ _ := lifecycleNames
  validateDocker := pure ()
  ensureImages _ _ := pure ()
  render _ := pure ()
  startGateway _ := pure ()
  verifyGateway _ := pure ()
  startAbsent _ _ := write fun containers =>
    if containers.isEmpty then [lifecycleContainer "running"] else containers.map (withStatus "running")
  container command ids := write (commanded command ids)
  connectNetwork _ _ := fail "endpoint with name qubicl-gateway already exists in network qubicl-main"
  waitHealthy _ _ := write (·.map (withStatus "running"))
  waitGateway _ _ := pure ()
  synchronizePolicies _ _ := pure ()
  releaseHumanControl _ _ := pure ()

def lifecycleHost : LifecycleHost := ⟨1000,fun date => date == exampleDate,lifecycleRuntime⟩

def lifecycleComputer : ComputerConfig :=
  { exampleComputer with image := { exampleComputer.image with contentId := some lifecycleImage } }

def lifecycleState : LoadedState where
  paths := ⟨"/home/user/.qubicl"⟩
  config := { exampleConfig 5 with computers := [lifecycleComputer] }
  secrets := exampleSecrets 5

theorem lifecycleEffects : NamedEffects lifecycleRuntime lifecycleState lifecycleComputer lifecycleImage where
  validateDocker := fun _ => (wp_pure _ _ _).2 rfl
  ensureImages := fun _ _ => (wp_pure _ _ _).2 rfl
  render := fun _ => (wp_pure _ _ _).2 rfl
  startGateway := fun _ => (wp_pure _ _ _).2 rfl
  verifyGateway := fun _ => (wp_pure _ _ _).2 rfl
  waitGateway := fun _ => (wp_pure _ _ _).2 rfl
  synchronizePolicies := fun _ => (wp_pure _ _ _).2 rfl
  releaseHumanControl := fun _ => (wp_pure _ _ _).2 rfl
  connectNetwork := fun _ => (wp_fail _ _ _).2 ⟨by decide,rfl⟩
  container := fun command ids containers _ _ => (wp_write _ _ _).2 ⟨partly_commanded command ids containers,rfl⟩
  waitHealthy := fun containers _ => (wp_write _ _ _).2
    ⟨restated_map (Or.inl rfl) containers,@restated_map (· = "running") "running" rfl containers⟩
  startAbsent := by
    intro containers hpin
    have hwhole : ∀ c : RuntimeContainerBinding, c.name = "qubicl-main" → c.imageId=lifecycleImage →
        c.status = "running" → Pinned lifecycleNames lifecycleImage [c] ∧ Whole lifecycleNames "running" [c] := by
      intro c hnam hima hstatus
      have hgro : Grouped lifecycleNames [c] := by
        refine ⟨nodup_singleton _,nodup_singleton _,fun d hd => ?_⟩
        rw [mem_singleton.1 hd,hnam]
        exact mem_singleton.2 rfl
      have hsor : sortedBindings lifecycleNames.names [c]=[c] := by
        simp [sortedBindings,lifecycleNames,namedContainer,hnam]
      refine ⟨⟨hgro,fun d hd => ?_,fun d hd => ?_⟩,hgro,by rw [hsor]; rfl,fun d hd => ?_⟩
      · rw [mem_singleton.1 hd,hima]
      · rw [mem_singleton.1 hd,hstatus]
        decide
      · rw [mem_singleton.1 hd,hstatus]
    have hdon:=fun containers' (h : Pinned lifecycleNames lifecycleImage containers' ∧
      Whole lifecycleNames "running" containers') => And.intro h.1 h
    apply (wp_write _ _ _).2
    match containers, hpin with
    | [], _ => exact hdon _ (hwhole _ rfl rfl rfl)
    | [c], hpin =>
      have hnam : c.name ∈ ["qubicl-main"] := hpin.grouped.expected c mem_cons_self
      exact hdon _ (hwhole _ (mem_singleton.1 hnam) (hpin.image c mem_cons_self) rfl)
    | c::d::rest, hpin =>
      have hc : c.name ∈ ["qubicl-main"] := hpin.grouped.expected c mem_cons_self
      have hd : d.name ∈ ["qubicl-main"] := hpin.grouped.expected d (by simp)
      have hnod:=hpin.grouped.named
      simp [mem_singleton.1 hc,mem_singleton.1 hd] at hnod

theorem lifecycleSetting : LifecycleSetting lifecycleHost lifecycleState lifecycleComputer lifecycleImage exampleId
    exampleDate where
  configured := by decide
  operation := by decide
  installation := by decide
  id := by decide
  date := by decide
  image := rfl
  names := by decide
  nonempty := by decide
  effects := lifecycleEffects

def lifecycleStart : LifecycleWorld := ⟨.absent,[lifecycleContainer "exited"],[]⟩

theorem lifecycleStart_idle : Idle lifecycleStart :=
  ⟨rfl,rfl,nodup_singleton _,nodup_singleton _,by decide⟩

def lifecycleCut : LifecycleWorld :=
  ((manageComputer lifecycleHost lifecycleState .start lifecycleComputer exampleId exampleDate)
    lifecycleStart).trace.headD lifecycleStart

theorem lifecycleCut_attempted : Attempted lifecycleHost lifecycleState lifecycleComputer .start exampleId exampleDate
    lifecycleStart lifecycleCut := by
  apply Attempted.manage
  unfold lifecycleCut
  cases htra : ((manageComputer lifecycleHost lifecycleState .start lifecycleComputer exampleId exampleDate)
      lifecycleStart).trace with
  | nil => exact Or.inl rfl
  | cons t rest =>
    right
    show t ∈ ((manageComputer lifecycleHost lifecycleState .start lifecycleComputer exampleId exampleDate)
      lifecycleStart).trace
    rw [htra]
    exact mem_cons_self

/-- Cut after its journal, the start is finished by recovery. -/
theorem lifecycle_start_recovered : ∃ journal, lifecycleCut.journal=.real 1000 0o600 journal ∧
    (recoverPendingComputerLifecycle lifecycleHost lifecycleState).result lifecycleCut=.ok true := by
  obtain ⟨-,-,-,habs | ⟨journal,hjou,-,hres,-⟩⟩ :=
    computer_lifecycle_recovers lifecycleSetting lifecycleStart_idle lifecycleCut_attempted
  · have hpre : lifecycleCut.journal≠.absent := by decide
    exact absurd habs.1 hpre
  · exact ⟨journal,hjou,hres⟩

/-- Cut before its journal, the start has not happened: recovery finds nothing to do, and the
computer stays as it was. -/
theorem lifecycle_start_unrecorded :
    Attempted lifecycleHost lifecycleState lifecycleComputer .start exampleId exampleDate lifecycleStart lifecycleStart ∧
    Accepted lifecycleNames .start lifecycleStart.containers ∧
    (recoverPendingComputerLifecycle lifecycleHost lifecycleState).result lifecycleStart=.ok false ∧
    ¬ Finished lifecycleNames .start lifecycleStart.containers
      ((recoverPendingComputerLifecycle lifecycleHost lifecycleState).final lifecycleStart) := by
  refine ⟨.manage (Or.inl rfl),Or.inr ⟨by decide,by decide⟩,by decide,?_⟩
  intro hfin
  have hstatus : (managedComputerRuntimeObservation lifecycleNames
      ((recoverPendingComputerLifecycle lifecycleHost lifecycleState).final lifecycleStart).containers).status ∉
        finishedStatuses .start := by decide
  exact hstatus hfin.status

end Qubicl.Cli
