import Qubicl.Cli.Lifecycle.Operations

/-!
# Lifecycle recovery converges

Wherever an operation and its recoveries are cut, every container command names containers
of the journal only, and the next recovery that is not cut finishes the operation.
-/

namespace Qubicl.Cli
open Foundation Core Durable List

/-- The call returns and does nothing to the containers. -/
def Quiet (m : Durable (List RuntimeContainerBinding) String Unit) : Prop :=
  ∀ containers, wp m ⟨fun t => t=containers,fun _ t => t=containers,fun _ _ => False⟩ containers

def Commandable : ContainerCommand → String → Prop
  | .unpause, status => status = "paused"
  | .start, status => status = "exited" ∨ status = "created"
  | .stop, status => status ∈ lifecycleStatuses
  | .restart, status => status ∈ lifecycleStatuses

def Up (status : String) : Prop := status = "running" ∨ status = "restarting"

/-- A group, perhaps a partial one, made from the pinned image. -/
structure Pinned (names : RuntimeNames) (contentId : String) (containers : List RuntimeContainerBinding) : Prop where
  grouped : Grouped names containers
  image : ∀ c ∈ containers, c.imageId=contentId
  status : ∀ c ∈ containers, c.status ∈ lifecycleStatuses

/-- The group is whole and its members have a status. -/
structure Whole (names : RuntimeNames) (status : String) (containers : List RuntimeContainerBinding) : Prop where
  grouped : Grouped names containers
  length : (sortedBindings names.names containers).length=names.names.length
  status : ∀ c ∈ containers, c.status=status

/-- The calls of the runtime that return have the effect they are named for; one that is
cut may have been applied to some of its containers. -/
structure NamedEffects (runtime : ComputerLifecycleRuntime) (state : LoadedState) (computer : ComputerConfig)
    (contentId : String) : Prop where
  validateDocker : Quiet runtime.validateDocker
  ensureImages : ∀ computers, Quiet (runtime.ensureImages state computers)
  render : Quiet (runtime.render state)
  startGateway : Quiet (runtime.startGateway state)
  verifyGateway : Quiet (runtime.verifyGateway state)
  waitGateway : Quiet (runtime.waitGateway state computer.id)
  synchronizePolicies : Quiet (runtime.synchronizePolicies state [computer])
  releaseHumanControl : Quiet (runtime.releaseHumanControl state computer)
  connectNetwork : ∀ containers, wp (runtime.connectNetwork state computer)
    ⟨fun t => t=containers,fun _ t => t=containers,
      fun error t => includesText error "already exists in network" = true ∧ t=containers⟩ containers
  container : ∀ command ids containers, (∀ id ∈ ids, ∃ c ∈ containers, c.id=id) →
    (∀ c ∈ containers, c.id ∈ ids → Commandable command c.status) →
    wp (runtime.container command ids)
      ⟨fun t => PartlyCommanded command ids containers t,fun _ t => t=commanded command ids containers,
        fun _ _ => False⟩ containers
  waitHealthy : ∀ containers, (∀ c ∈ containers, Up c.status) →
    wp (runtime.waitHealthy state computer.id)
      ⟨fun t => Restated Up containers t,fun _ t => Restated (· = "running") containers t,fun _ _ => False⟩ containers
  startAbsent : ∀ containers, Pinned (runtime.names state computer) contentId containers →
    wp (runtime.startAbsent state computer)
      ⟨fun t => Pinned (runtime.names state computer) contentId t,
        fun _ t => Pinned (runtime.names state computer) contentId t ∧
          Whole (runtime.names state computer) "running" t,fun _ _ => False⟩ containers

/-- The computer is configured, with IDs as `randomUUID` makes them and a known image. -/
structure LifecycleSetting (host : LifecycleHost) (state : LoadedState) (computer : ComputerConfig)
    (contentId operationId createdAt : String) : Prop where
  configured : state.config.computers.find? (·.id=computer.id)=some computer
  operation : lifecycleUuid operationId=true
  installation : lifecycleUuid state.config.installationId=true
  id : lifecycleUuid computer.id=true
  date : host.isDate createdAt=true
  image : computer.image.contentId=some contentId
  names : (host.runtime.names state computer).names.Nodup
  nonempty : (host.runtime.names state computer).names≠[]
  effects : NamedEffects host.runtime state computer contentId

/-- The containers of a command are those of the journal that was there. -/
def Journaled (calls : List ContainerCall) : Prop :=
  ∀ call ∈ calls, ∃ uid mode journal, call.journal=.real uid mode journal ∧
    ∀ id ∈ call.ids, id ∈ journal.runtimeContainers.map RuntimeContainerBinding.id

structure UnderWay (uid : ℕ) (journal : ComputerLifecycleJournal) (P : List RuntimeContainerBinding → Prop)
    (w : LifecycleWorld) : Prop where
  journal : w.journal=.real uid 0o600 journal
  calls : Journaled w.calls
  containers : P w.containers

/-- Started with the journal there and the containers in `P`, the step does not throw; the
journal stays, with the containers in `K` where it is cut and in `Q` where it returns. -/
def Phase {α : Type} (uid : ℕ) (journal : ComputerLifecycleJournal) (K P : List RuntimeContainerBinding → Prop)
    (m : Durable LifecycleWorld String α) (Q : α → List RuntimeContainerBinding → Prop) : Prop :=
  ∀ w, UnderWay uid journal P w →
    wp m ⟨UnderWay uid journal K,fun a t => UnderWay uid journal (Q a) t,fun _ _ => False⟩ w

/-- The step changes nothing. -/
def Still (m : Durable LifecycleWorld String Unit) : Prop :=
  ∀ w, wp m ⟨fun t => t=w,fun _ t => t=w,fun _ _ => False⟩ w

variable {m : Durable LifecycleWorld String Unit} {P' : List RuntimeContainerBinding → Prop}
  {bindings : List RuntimeContainerBinding} {c : RuntimeContainerBinding} {source : LifecycleSource}

section Rules
variable {C : LifecycleWorld → Prop} {R : Unit → LifecycleWorld → Prop} {X : String → LifecycleWorld → Prop}
  {w : LifecycleWorld}

theorem Still.wp (h : Still m) (hcut : C w) (hret : R () w) : Durable.wp m ⟨C,R,X⟩ w := by
  apply (h w).mono
  · intro t ht
    rw [ht]
    exact hcut
  · intro _ t ht
    rw [ht]
    exact hret
  · intro _ _ hfal
    exact hfal.elim

theorem Still.bind {n : Durable LifecycleWorld String Unit} (hm : Still m) (hn : Still n) :
    Still (m >>= fun _ => n) := by
  intro w
  rw [wp_bind]
  exact hm.wp rfl (hn w)

theorem still_runs {m : Durable (List RuntimeContainerBinding) String Unit} (h : Quiet m) : Still (runs m) := by
  intro w
  unfold runs
  rw [wp_zoom]
  apply (h w.containers).mono
  · intro t ht
    rw [ht]
    rfl
  · intro _ t ht
    rw [ht]
    rfl
  · intro _ _ hfal
    exact hfal

variable {host : LifecycleHost} {state : LoadedState} {computer : ComputerConfig} {contentId : String}

theorem still_preparesGateway (h : NamedEffects host.runtime state computer contentId)
    (computers : List ComputerConfig) : Still (preparesGateway host state computers) :=
  (still_runs (h.ensureImages computers)).bind ((still_runs h.render).bind
    ((still_runs h.startGateway).bind (still_runs h.verifyGateway)))

theorem still_connectGateway (h : NamedEffects host.runtime state computer contentId) :
    Still (connectGatewayToComputer host state computer) := by
  intro w
  unfold connectGatewayToComputer runs
  rw [wp_catching,wp_zoom]
  apply (h.connectNetwork w.containers).mono
  · intro t ht
    rw [ht]
    rfl
  · intro _ t ht
    rw [ht]
    rfl
  · intro error t ht
    dsimp only
    rw [if_pos ht.1,wp_pure,ht.2]
    rfl

end Rules

section Phases
variable {uid : ℕ} {journal : ComputerLifecycleJournal} {K P : List RuntimeContainerBinding → Prop} {α β : Type}

theorem UnderWay.mono {w : LifecycleWorld} (h : UnderWay uid journal P w) (hP : ∀ c, P c → P' c) :
    UnderWay uid journal P' w :=
  { h with containers := hP _ h.containers }

variable {Q : α → List RuntimeContainerBinding → Prop}

theorem Phase.bind {m : Durable LifecycleWorld String α} {n : α → Durable LifecycleWorld String β} {R : β → List RuntimeContainerBinding → Prop}
    (hm : Phase uid journal K P m Q) (hn : ∀ a, Phase uid journal K (Q a) (n a) R) :
    Phase uid journal K P (m >>= n) R := by
  intro w hw
  rw [wp_bind]
  exact (hm w hw).mono (fun _ h => h) (fun a t ht => hn a t ht) (fun _ _ h => h)

theorem Phase.pre {m : Durable LifecycleWorld String α} (hm : Phase uid journal K P' m Q) (h : ∀ c, P c → P' c) :
    Phase uid journal K P m Q := fun w hw => hm w (hw.mono h)

theorem Phase.still (h : Still m) (hP : ∀ c, P c → K c) :
    Phase uid journal K P m fun _ => P := fun _ hw => h.wp (hw.mono hP) hw

theorem Phase.runs {m : Durable (List RuntimeContainerBinding) String α} (h : ∀ c, P c → wp m ⟨K,Q,fun _ _ => False⟩ c) :
    Phase uid journal K P (zoom LifecycleWorld.containersLens m) Q := by
  intro w hw
  rw [wp_zoom]
  apply (h w.containers hw.containers).mono
  · intro t ht
    exact ⟨hw.journal,hw.calls,ht⟩
  · intro _ t ht
    exact ⟨hw.journal,hw.calls,ht⟩
  · intro _ _ hfal
    exact hfal

theorem Phase.check {r : Except String Unit} (h : ∀ c, P c → r=.ok ()) :
    Phase uid journal K P (ofExcept r) fun _ => P := by
  intro w hw
  rw [h _ hw.containers,wp_ofExcept_ok]
  exact hw

theorem Phase.when {p : Bool} {Q : List RuntimeContainerBinding → Prop}
    (hm : p=true → Phase uid journal K P m fun _ => Q) (hski : p=false → ∀ c, P c → Q c) :
    Phase uid journal K P (Durable.when p m) fun _ => Q := by
  intro w hw
  cases p with
  | true => exact hm rfl w hw
  | false => exact (wp_pure () _ w).2 (hw.mono (hski rfl))

variable {host : LifecycleHost} {state : LoadedState} {computer : ComputerConfig} {contentId : String}

theorem Phase.observes :
    Phase uid journal K P (observes host state computer) fun observation c =>
      P c ∧ observation=managedComputerRuntimeObservation (host.runtime.names state computer) c := by
  intro w hw
  unfold Cli.observes
  rw [wp_reads]
  exact ⟨hw.journal,hw.calls,hw.containers,rfl⟩

theorem commanded_nil (command : ContainerCommand) (containers : List RuntimeContainerBinding) :
    commanded command [] containers=containers := by
  unfold commanded
  simp

section
variable (h : NamedEffects host.runtime state computer contentId) {issued : ContainerCommand} {ids : List String}
  {Q : List RuntimeContainerBinding → Prop}
  (hjournal : ∀ id ∈ ids, id ∈ journal.runtimeContainers.map RuntimeContainerBinding.id)
  (hids : ∀ c, P c → ∀ id ∈ ids, id ∈ c.map RuntimeContainerBinding.id)
  (hcommandable : ∀ c, P c → ∀ b ∈ c, b.id ∈ ids → Commandable issued b.status)
  (hcut : ∀ c, P c → ∀ t, PartlyCommanded issued ids c t → K t)
  (hret : ∀ c, P c → Q (commanded issued ids c))
include h hjournal hids hcommandable hcut hret

theorem Phase.command :
    Phase uid journal K P (containerCommand host issued ids) fun _ => Q := by
  intro w hw
  have hcal : Journaled (w.calls++[⟨issued,ids,w.journal⟩]) := by
    intro call hcall
    rcases mem_append.1 hcall with hold | hnew
    · exact hw.calls call hold
    · rw [mem_singleton.1 hnew]
      exact ⟨uid,0o600,journal,hw.journal,hjournal⟩
  have hnam : ∀ id ∈ ids, ∃ c ∈ w.containers, c.id=id :=
    fun id hid => mem_map.1 (hids _ hw.containers id hid)
  unfold containerCommand Cli.runs
  rw [wp_bind,wp_write]
  constructor
  · refine ⟨hw.journal,hcal,hcut _ hw.containers _ (List.forall₂_same.2 fun c _ => Or.inl rfl)⟩
  · dsimp only
    rw [wp_zoom]
    apply (h.container issued ids w.containers hnam (hcommandable _ hw.containers)).mono
    · intro t ht
      exact ⟨hw.journal,hcal,hcut _ hw.containers t ht⟩
    · intro _ t ht
      refine ⟨hw.journal,hcal,?_⟩
      rw [ht]
      exact hret _ hw.containers
    · intro _ _ hfal
      exact hfal

theorem Phase.commandAny :
    Phase uid journal K P (Durable.when (!ids.isEmpty) (containerCommand host issued ids)) fun _ => Q := by
  apply Phase.when
  · intro _
    exact Phase.command h hjournal hids hcommandable hcut hret
  · intro hemp c hc
    have hnil : ids=[] := by simpa using hemp
    subst hnil
    have hdon:=hret c hc
    rwa [commanded_nil] at hdon

end

end Phases

def underWay : LifecycleOperation → List String
  | .stop => ["running","restarting","paused","exited"]
  | _ => lifecycleStatuses

def doneStatus : LifecycleOperation → String
  | .stop => "exited"
  | _ => "running"

section Retained
variable {host : LifecycleHost} {state : LoadedState} {computer : ComputerConfig}
  {contentId operationId createdAt status : String} {before containers : List RuntimeContainerBinding}
  {journal : ComputerLifecycleJournal} {allowed : String → Prop}

theorem leaves_lifecycle (command : ContainerCommand) (status : String) (h : status ∈ lifecycleStatuses) :
    command.leaves status ∈ lifecycleStatuses := by
  simp only [lifecycleStatuses,mem_cons,not_mem_nil,or_false] at h
  rcases h with rfl | rfl | rfl | rfl | rfl <;> cases command <;> decide

theorem lifecycle_of_up (h : Up status) : status ∈ lifecycleStatuses := by
  rcases h with rfl | rfl <;> decide

theorem up_of_other (h : status ∈ lifecycleStatuses) (hpau : status ≠ "paused")
    (hsto : ¬ (status = "exited" ∨ status = "created")) : Up status := by
  simp only [lifecycleStatuses,mem_cons,not_mem_nil,or_false] at h
  unfold Up
  tauto

variable {operation : LifecycleOperation}

theorem underWay_lifecycle (h : status ∈ underWay operation) : status ∈ lifecycleStatuses := by
  cases operation with
  | stop =>
    simp only [underWay,mem_cons,not_mem_nil,or_false] at h
    rcases h with rfl | rfl | rfl | rfl <;> decide
  | start => exact h
  | restart => exact h

theorem leaves_stop (h : status ∈ underWay .stop) : ContainerCommand.stop.leaves status = "exited" := by
  simp only [underWay,mem_cons,not_mem_nil,or_false] at h
  rcases h with rfl | rfl | rfl | rfl <;> rfl

theorem leaves_underWay_stop (status : String) (h : status ∈ underWay .stop) :
    ContainerCommand.stop.leaves status ∈ underWay .stop := by
  rw [leaves_stop h]
  decide

section
variable (h : NamedEffects host.runtime state computer contentId)
include h

theorem wp_waitsReady {C : LifecycleWorld → Prop}
    {R : Unit → LifecycleWorld → Prop} {X : String → LifecycleWorld → Prop} {w : LifecycleWorld}
    (hup : ∀ c ∈ w.containers, Up c.status)
    (hcut : ∀ t, Restated Up w.containers t → C { w with containers := t })
    (hret : ∀ t, Restated (· = "running") w.containers t → R () { w with containers := t }) :
    wp (waitsReady host state computer) ⟨C,R,X⟩ w := by
  unfold waitsReady
  rw [wp_bind]
  apply (still_connectGateway h).wp (hcut w.containers (Restated.refl hup))
  rw [wp_bind]
  unfold runs
  rw [wp_zoom]
  apply (h.waitHealthy w.containers hup).mono
  · intro t ht
    exact hcut t ht
  · intro _ t ht
    apply (still_runs h.waitGateway).wp
    · exact hcut t (ht.mono fun status heq => Or.inl heq)
    · exact hret t ht
  · intro _ _ hfal
    exact hfal.elim

theorem phase_waitsReady
    {K : List RuntimeContainerBinding → Prop} (hK : ∀ c, Restated Up before c → K c) :
    Phase host.uid journal K (Restated Up before) (waitsReady host state computer)
      fun _ => Restated (· = "running") before := by
  intro w hw
  apply wp_waitsReady h hw.containers.status
  · intro t ht
    exact ⟨hw.journal,hw.calls,hK t (hw.containers.trans ht)⟩
  · intro t ht
    exact ⟨hw.journal,hw.calls,hw.containers.trans ht⟩

theorem phase_waitsRunning :
    Phase host.uid journal (Restated (· ∈ lifecycleStatuses) before) (Restated (· = "running") before)
      (waitsReady host state computer) fun _ => Restated (· = "running") before :=
  (phase_waitsReady h fun _ hc => hc.mono fun _ hup => lifecycle_of_up hup).pre
    fun _ hc => hc.mono fun _ heq => Or.inl heq

end

variable {names : RuntimeNames}

theorem observed_find (hgroup : Grouped names containers) (hc : c ∈ containers) :
    (managedComputerRuntimeObservation names containers).containers.reverse.find? (·.id=c.id)=some c := by
  rw [observed_containers hgroup]
  cases hfin : (sortedBindings names.names containers).reverse.find? (·.id=c.id) with
  | none =>
    have hnon:=find?_eq_none.1 hfin c (mem_reverse.2 (hgroup.mem_sorted hc))
    simp at hnon
  | some d =>
    have hd:=mem_sortedBindings (mem_reverse.1 (mem_of_find?_eq_some hfin))
    have hid : d.id=c.id := by simpa using find?_some hfin
    rw [inj_on_of_nodup_map hgroup.ids hd hc hid]

theorem mem_picked {expected : List RuntimeContainerBinding} {f : String → Option RuntimeContainerBinding}
    (hfin : ∀ c ∈ containers, f c.id=some c) (hexp : ∀ c ∈ containers, c.id ∈ expected.map RuntimeContainerBinding.id)
    (p : Option String → Bool) (hc : c ∈ containers) :
    c.id ∈ (expected.filter fun e => p ((f e.id).map (·.status))).map RuntimeContainerBinding.id ↔
      p (some c.status)=true := by
  have hloo : (f c.id).map (·.status)=some c.status := by
    rw [hfin c hc]
    rfl
  constructor
  · intro hid
    obtain ⟨e,he,heq⟩ := mem_map.1 hid
    have hp:=(mem_filter.1 he).2
    rwa [heq,hloo] at hp
  · intro hp
    obtain ⟨e,he,heq⟩ := mem_map.1 (hexp c hc)
    apply mem_map.2
    refine ⟨e,mem_filter.2 ⟨he,?_⟩,heq⟩
    rwa [heq,hloo]

theorem commanded_ids (command : ContainerCommand) (ids : List String) (containers : List RuntimeContainerBinding) :
    (commanded command ids containers).map RuntimeContainerBinding.id =
      containers.map RuntimeContainerBinding.id := by
  unfold commanded
  rw [map_map]
  apply map_congr_left
  intro c _
  show (if c.id ∈ ids then withStatus (command.leaves c.status) c else c).id=c.id
  split <;> rfl

/- Recovery finds the containers of the journal, each in a status it can go on from. -/
theorem recoverable_retained (hgroup : Grouped names before) (hnam : names.names.Nodup)
    (h : Restated (· ∈ lifecycleStatuses) before containers) :
    assertRecoverableRetainedRuntime computer (sortedBindings names.names before)
      (managedComputerRuntimeObservation names containers)=.ok () := by
  have hsam:=(h.sorted names.names).sameBindings (sorted_map hnam hgroup.ids)
  have hsaf : (sortedBindings names.names containers).find? (fun c => !lifecycleStatuses.contains c.status)=none := by
    apply find?_eq_none.2
    intro c hc
    simpa using (h.sorted names.names).status c hc
  unfold assertRecoverableRetainedRuntime
  rw [observed_containers (hgroup.restated h),hsam,hsaf]
  rfl

theorem mem_journaled (hgroup : Grouped names before)
    (hjournal : journal.runtimeContainers=sortedBindings names.names before) (hnow : Restated allowed before containers)
    (id : String) : id ∈ journal.runtimeContainers.map RuntimeContainerBinding.id ↔
      id ∈ containers.map RuntimeContainerBinding.id := by
  rw [hnow.ids,hjournal]
  constructor
  · intro hid
    obtain ⟨old,hold,heq⟩ := mem_map.1 hid
    rw [← heq]
    exact mem_map_of_mem (mem_sortedBindings hold)
  · intro hid
    obtain ⟨old,hold,heq⟩ := mem_map.1 hid
    rw [← heq]
    exact mem_map_of_mem (hgroup.mem_sorted hold)

theorem phase_startRetained (h : NamedEffects host.runtime state computer contentId)
    (hgroup : Grouped (host.runtime.names state computer) before)
    (hnam : (host.runtime.names state computer).names.Nodup)
    (hjournal : journal.runtimeContainers=sortedBindings (host.runtime.names state computer).names before)
    (hnow : Restated (· ∈ lifecycleStatuses) before containers) :
    Phase host.uid journal (Restated (· ∈ lifecycleStatuses) before) (· = containers)
      (startRetainedRuntime host state computer journal.runtimeContainers
        (managedComputerRuntimeObservation (host.runtime.names state computer) containers))
      fun _ => Restated (· = "running") before := by
  have hnowGroup:=hgroup.restated hnow
  let look (id : String) := (managedComputerRuntimeObservation (host.runtime.names state computer)
    containers).containers.reverse.find? (·.id=id)
  have hfin : ∀ c ∈ containers, look c.id=some c := fun c hc => observed_find hnowGroup hc
  have hmem:=mem_journaled hgroup hjournal hnow
  have hexp : ∀ c ∈ containers, c.id ∈ journal.runtimeContainers.map RuntimeContainerBinding.id :=
    fun c hc => (hmem c.id).2 (mem_map_of_mem hc)
  have hbac : ∀ id ∈ journal.runtimeContainers.map RuntimeContainerBinding.id,
      id ∈ containers.map RuntimeContainerBinding.id := fun id hid => (hmem id).1 hid
  unfold startRetainedRuntime
  apply Phase.bind (Q := fun _ => (· = containers))
  · apply Phase.check
    intro _ _
    rw [hjournal]
    exact recoverable_retained hgroup hnam hnow
  intro _
  extract_lets status paused stopped
  have hpau : ∀ c ∈ containers, c.id ∈ paused ↔ c.status = "paused" := by
    intro c hc
    have hpic:=mem_picked hfin hexp (fun s => decide (s=some "paused")) hc
    exact hpic.trans (by simp)
  have hsto : ∀ c ∈ containers, c.id ∈ stopped ↔ c.status = "exited" ∨ c.status = "created" := by
    intro c hc
    have hrev : ∀ c ∈ containers, c.id ∈ journal.runtimeContainers.reverse.map RuntimeContainerBinding.id := by
      intro c hc
      rw [map_reverse,mem_reverse]
      exact hexp c hc
    have hpic:=mem_picked hfin hrev
      (fun s => decide (s=some "exited") || decide (s=some "created")) hc
    exact hpic.trans (by simp)
  -- what is paused is not stopped, so the second command meets what the first has left alone
  have hunp : Restated (fun s => s ∈ lifecycleStatuses ∧ s ≠ "paused") before
      (commanded .unpause paused containers) := by
    apply hnow.commanded
    · intro c hc _ hid
      rw [(hpau c hc).1 hid]
      decide
    · intro c hc hsta hid
      exact ⟨hsta,fun heq => hid ((hpau c hc).2 heq)⟩
  have hsti : ∀ c ∈ commanded .unpause paused containers,
      c.id ∈ stopped ↔ c.status = "exited" ∨ c.status = "created" := by
    intro c hc
    obtain ⟨old,hold,rfl⟩ := mem_map.1 hc
    split
    next hid =>
      have hsta:=(hpau old hold).1 hid
      have hoth:=hsto old hold
      rw [hsta] at hoth
      show old.id ∈ stopped ↔ _
      rw [hoth]
      show _ ↔ ContainerCommand.unpause.leaves old.status = "exited" ∨
        ContainerCommand.unpause.leaves old.status = "created"
      rw [hsta]
      decide
    next => exact hsto old hold
  apply Phase.bind (Q := fun _ => (· = commanded .unpause paused containers))
  · apply Phase.commandAny h
    · intro id hid
      obtain ⟨c,hc,rfl⟩ := mem_map.1 hid
      exact mem_map_of_mem (mem_of_mem_filter hc)
    · rintro _ rfl id hid
      obtain ⟨c,hc,rfl⟩ := mem_map.1 hid
      exact hbac _ (mem_map_of_mem (mem_of_mem_filter hc))
    · rintro _ rfl c hc hid
      exact (hpau c hc).1 hid
    · rintro _ rfl t ht
      exact hnow.partly (leaves_lifecycle _) ht
    · rintro _ rfl
      rfl
  intro _
  apply Phase.bind (Q := fun _ => Restated Up before)
  · apply Phase.commandAny h
    · intro id hid
      obtain ⟨c,hc,rfl⟩ := mem_map.1 hid
      exact mem_map_of_mem (mem_reverse.1 (mem_of_mem_filter hc))
    · rintro _ rfl id hid
      obtain ⟨c,hc,rfl⟩ := mem_map.1 hid
      rw [commanded_ids]
      exact hbac _ (mem_map_of_mem (mem_reverse.1 (mem_of_mem_filter hc)))
    · rintro _ rfl c hc hid
      exact (hsti c hc).1 hid
    · rintro _ rfl t ht
      exact (hunp.mono fun _ h => h.1).partly (leaves_lifecycle _) ht
    · rintro _ rfl
      apply hunp.commanded
      · intro c hc _ hid
        rcases (hsti c hc).1 hid with heq | heq
        · rw [heq]
          exact Or.inl rfl
        · rw [heq]
          exact Or.inl rfl
      · intro c hc hsta hid
        exact up_of_other hsta.1 hsta.2 fun heq => hid ((hsti c hc).2 heq)
  · intro _
    exact phase_waitsReady h fun c hc => hc.mono fun _ hup => lifecycle_of_up hup

def lifecycleJournal (state : LoadedState) (computer : ComputerConfig) (operationId createdAt : String)
    (operation : LifecycleOperation) (source : LifecycleSource) (bindings : List RuntimeContainerBinding) :
    ComputerLifecycleJournal :=
  ⟨operationId,state.config.installationId,computer.id,createdAt,operation,source,bindings⟩

theorem parse_lifecycleJournal (hset : LifecycleSetting host state computer contentId operationId createdAt)
    (hsch : ∀ c ∈ bindings, runtimeContainerBindingSchema c=true)
    (hids : (bindings.map RuntimeContainerBinding.id).Nodup)
    (hnam : (bindings.map RuntimeContainerBinding.name).Nodup)
    (habs : source=.absent → operation=.start ∧ bindings=[]) (hred : source=.retained → bindings≠[]) :
    parseComputerLifecycleJournal host
      (lifecycleJournal state computer operationId createdAt operation source bindings) =
      .ok (lifecycleJournal state computer operationId createdAt operation source bindings) := by
  have hall : bindings.all runtimeContainerBindingSchema=true := all_eq_true.2 hsch
  unfold parseComputerLifecycleJournal lifecycleJournal
  simp [hset.operation,hset.installation,hset.id,hset.date,hall,allUnique,hids,hnam]
  exact ⟨habs,hred⟩

theorem wp_assertNoPending {C : LifecycleWorld → Prop} {R : Unit → LifecycleWorld → Prop}
    {X : String → LifecycleWorld → Prop} {w : LifecycleWorld} (habs : w.journal=.absent) (hret : R () w) :
    wp (assertNoPendingComputerLifecycle host state) ⟨C,R,X⟩ w := by
  unfold assertNoPendingComputerLifecycle readJournal
  rw [wp_bind,wp_reads,habs]
  exact (wp_pure () _ w).2 hret

theorem wp_begin {C : LifecycleWorld → Prop} {R : ComputerLifecycleJournal → LifecycleWorld → Prop}
    {X : String → LifecycleWorld → Prop} {P : List RuntimeContainerBinding → Prop} {w : LifecycleWorld}
    (hjournal : lifecycleJournal state computer operationId createdAt operation source bindings=journal)
    (habs : w.journal=.absent) (hcal : Journaled w.calls) (hP : P w.containers)
    (hcut : ∀ t, UnderWay host.uid journal P t → C t) (hret : ∀ t, UnderWay host.uid journal P t → R journal t) :
    wp (beginComputerLifecycle host state computer operationId createdAt operation source bindings) ⟨C,R,X⟩ w := by
  have hwri : UnderWay host.uid journal P { w with journal := .real host.uid 0o600 journal } :=
    ⟨rfl,hcal,hP⟩
  unfold beginComputerLifecycle
  rw [wp_bind]
  apply wp_assertNoPending habs
  show wp (writeComputerLifecycleJournal host state
    (lifecycleJournal state computer operationId createdAt operation source bindings) >>= fun _ =>
      pure (lifecycleJournal state computer operationId createdAt operation source bindings)) _ w
  rw [hjournal]
  unfold writeComputerLifecycleJournal
  rw [wp_bind,wp_zoom]
  apply @wp_of_ok _ _ _ _ _ [Place.real host.uid 0o600 journal] ()
  · show atomicWrite _ _ _ _ w.journal=_
    rw [habs]
    rfl
  · intro t ht
    rw [mem_singleton.1 ht]
    exact hcut _ hwri
  · exact (wp_pure journal _ _).2 (hret _ hwri)

theorem wp_clear {C : LifecycleWorld → Prop} {R : Unit → LifecycleWorld → Prop} {X : String → LifecycleWorld → Prop}
    {P : List RuntimeContainerBinding → Prop} {w : LifecycleWorld}
    (hpar : parseComputerLifecycleJournal host journal=.ok journal) (hw : UnderWay host.uid journal P w)
    (hcut : C { w with journal := .absent }) (hret : R () { w with journal := .absent }) :
    wp (clearComputerLifecycleJournal host state journal.operationId) ⟨C,R,X⟩ w := by
  have hrea : readComputerLifecycleJournal host state w.journal=.ok (some journal) := by
    rw [hw.journal]
    simp [readComputerLifecycleJournal,hpar,Except.map]
  unfold clearComputerLifecycleJournal readJournal
  rw [wp_bind,wp_reads,hrea]
  show wp (if journal.operationId=journal.operationId then _ else _) _ w
  rw [if_pos rfl,wp_zoom]
  apply @wp_of_ok _ _ _ _ _ [Place.absent] ()
  · show durableRemove _ w.journal=_
    rw [hw.journal]
    rfl
  · intro t ht
    rw [mem_singleton.1 ht]
    exact hcut
  · exact hret

def finishedStatuses : LifecycleOperation → List String
  | .stop => ["exited","created"]
  | _ => ["running"]

/-- The operation is done: no journal, the group whole and in its state, and the containers
the ones that were there, if there were any. -/
structure Finished (names : RuntimeNames) (operation : LifecycleOperation) (before : List RuntimeContainerBinding)
    (w : LifecycleWorld) : Prop where
  journal : w.journal=.absent
  calls : Journaled w.calls
  group : (managedComputerRuntimeObservation names w.containers).group=.complete
  status : (managedComputerRuntimeObservation names w.containers).status ∈ finishedStatuses operation
  same : before≠[] → Restated (fun _ => True) before w.containers

theorem finished_doneStatus (operation : LifecycleOperation) : doneStatus operation ∈ finishedStatuses operation := by
  cases operation <;> decide

theorem Whole.restated {status' : String} (h : Whole names status before)
    (hr : Restated (· = status') before containers) : Whole names status' containers where
  grouped := h.grouped.restated hr
  length := by
    rw [← List.Forall₂.length_eq (hr.sorted names.names)]
    exact h.length
  status := hr.status

theorem Whole.observed (h : Whole names status containers) (hnam : names.names≠[]) :
    managedComputerRuntimeObservation names containers =
      ⟨status,.complete,sortedBindings names.names containers⟩ :=
  observed_complete h.grouped hnam h.length h.status

theorem whole_of_complete (hgroup : Grouped names containers)
    (h : (managedComputerRuntimeObservation names containers).group=.complete) :
    Whole names (managedComputerRuntimeObservation names containers).status containers := by
  have hobs : managedComputerRuntimeObservation names containers =
      ⟨(managedComputerRuntimeObservation names containers).status,.complete,
        (managedComputerRuntimeObservation names containers).containers⟩ := by
    rw [← h]
  obtain ⟨hfou,hlen,_,hsta⟩ := complete_of_observed hobs
  rw [hfou] at hlen hsta
  exact ⟨hgroup,hlen,fun c hc => hsta c (hgroup.mem_sorted hc)⟩

theorem phase_recovered_retained {K : List RuntimeContainerBinding → Prop} {status' : String} {running : Bool}
    (hset : LifecycleSetting host state computer contentId operationId createdAt)
    (hwho : Whole (host.runtime.names state computer) status before)
    (hjournal : journal.runtimeContainers=sortedBindings (host.runtime.names state computer).names before)
    (hsou : journal.source=.retained) (hsta : status'=if running then "running" else "exited") :
    Phase host.uid journal K (Restated (· = status') before)
      (assertRecoveredRuntimeState host state computer journal running) fun _ => Restated (· = status') before := by
  unfold assertRecoveredRuntimeState
  apply Phase.bind Phase.observes
  intro observation
  have hche : ∀ c, (Restated (· = status') before c ∧
      observation=managedComputerRuntimeObservation (host.runtime.names state computer) c) →
      recoveredRuntimeState computer journal running observation=.ok () := by
    rintro c ⟨hc,rfl⟩
    have hsam : sameRuntimeBindings journal.runtimeContainers
        (sortedBindings (host.runtime.names state computer).names c)=true := by
      rw [hjournal]
      exact (hc.sorted _).sameBindings (sorted_map hset.names hwho.grouped.ids)
    rw [(hwho.restated hc).observed hset.nonempty]
    unfold recoveredRuntimeState
    cases running <;> simp [hsta,hsou,hsam]
  intro w hw
  exact (Phase.check hche w hw).mono (fun _ h => h) (fun _ _ h => h.mono fun _ hc => hc.1) (fun _ _ h => h)

section
variable (h : NamedEffects host.runtime state computer contentId) (hgroup : Grouped names before)
   (hjournal : journal.runtimeContainers=sortedBindings names.names before)
include h hgroup hjournal

theorem phase_stop
    (hnow : Restated (· ∈ underWay .stop) before containers) :
    Phase host.uid journal (Restated (· ∈ underWay .stop) before) (· = containers)
      (containerCommand host .stop (journal.runtimeContainers.map RuntimeContainerBinding.id))
      fun _ => Restated (· = "exited") before := by
  have hmem:=mem_journaled hgroup hjournal hnow
  apply Phase.command h (fun _ hid => hid)
  · rintro _ rfl id hid
    exact (hmem id).1 hid
  · rintro _ rfl c hc _
    exact underWay_lifecycle (hnow.status c hc)
  · rintro _ rfl t ht
    exact hnow.partly leaves_underWay_stop ht
  · rintro _ rfl
    apply hnow.commanded
    · intro c hc hsta _
      exact leaves_stop hsta
    · intro c hc _ hid
      exact absurd ((hmem c.id).2 (mem_map_of_mem hc)) hid

theorem phase_restart
    (hnow : Restated (· ∈ lifecycleStatuses) before containers) :
    Phase host.uid journal (Restated (· ∈ lifecycleStatuses) before) (· = containers)
      (containerCommand host .restart (journal.runtimeContainers.map RuntimeContainerBinding.id))
      fun _ => Restated (· = "running") before := by
  have hmem:=mem_journaled hgroup hjournal hnow
  apply Phase.command h (fun _ hid => hid)
  · rintro _ rfl id hid
    exact (hmem id).1 hid
  · rintro _ rfl c hc _
    exact hnow.status c hc
  · rintro _ rfl t ht
    exact hnow.partly (leaves_lifecycle _) ht
  · rintro _ rfl
    apply hnow.commanded
    · intro c hc _ _
      rfl
    · intro c hc _ hid
      exact absurd ((hmem c.id).2 (mem_map_of_mem hc)) hid

end

theorem phase_finish_retained (hset : LifecycleSetting host state computer contentId operationId createdAt)
    (hwho : Whole (host.runtime.names state computer) status before)
    (hjournal : journal.runtimeContainers=sortedBindings (host.runtime.names state computer).names before)
    (hsou : journal.source=.retained)
    (hnow : Restated (· ∈ underWay journal.operation) before containers) :
    Phase host.uid journal (Restated (· ∈ underWay journal.operation) before) (· = containers)
      (finishComputerLifecycle host state computer journal
        (managedComputerRuntimeObservation (host.runtime.names state computer) containers))
      fun _ => Restated (· = doneStatus journal.operation) before := by
  have h:=hset.effects
  unfold finishComputerLifecycle
  cases hop : journal.operation with
  | stop =>
    rw [hop] at hnow
    apply Phase.bind (phase_stop h hwho.grouped hjournal hnow)
    intro _
    exact phase_recovered_retained hset hwho hjournal hsou rfl
  | restart =>
    rw [hop] at hnow
    apply Phase.bind (phase_restart h hwho.grouped hjournal hnow)
    intro _
    apply Phase.bind (phase_waitsRunning h)
    intro _
    apply Phase.bind (Q := fun _ => Restated (· = "running") before)
    · apply Phase.still (still_runs h.releaseHumanControl)
      exact fun c hc => hc.mono fun _ heq => lifecycle_of_up (Or.inl heq)
    · intro _
      exact phase_recovered_retained hset hwho hjournal hsou rfl
  | start =>
    rw [hop] at hnow
    rw [hsou]
    apply Phase.bind (phase_startRetained h hwho.grouped hset.names hjournal hnow)
    intro _
    apply Phase.bind (Q := fun _ => Restated (· = "running") before)
    · exact phase_recovered_retained hset hwho hjournal hsou rfl
    · intro _
      apply Phase.still (still_runs h.synchronizePolicies)
      exact fun c hc => hc.mono fun _ heq => lifecycle_of_up (Or.inl heq)

theorem assertRecoverableAbsentStart_pinned
    (hima : computer.image.contentId=some contentId) (h : Pinned names contentId containers) :
    assertRecoverableAbsentStart computer (managedComputerRuntimeObservation names containers)=.ok () := by
  unfold assertRecoverableAbsentStart
  split
  next => rfl
  next hpre =>
    have hfou : sortedBindings names.names containers≠[] := by
      intro hnil
      apply hpre
      unfold managedComputerRuntimeObservation
      rw [h.grouped.observe,hnil]
      exact ⟨rfl,rfl⟩
    have hsaf : (sortedBindings names.names containers).find?
        (fun c => c.imageId != contentId || !lifecycleStatuses.contains c.status)=none := by
      apply find?_eq_none.2
      intro c hc
      have hmem:=mem_sortedBindings hc
      simp [h.image c hmem,h.status c hmem]
    rw [hima,observed_containers h.grouped]
    dsimp only
    rw [if_neg (by simpa using hfou),hsaf]

def Begun (names : RuntimeNames) (contentId : String) (containers : List RuntimeContainerBinding) : Prop :=
  Pinned names contentId containers ∧ Whole names "running" containers

theorem phase_recovered_absent {K : List RuntimeContainerBinding → Prop}
    (hset : LifecycleSetting host state computer contentId operationId createdAt) (hsou : journal.source=.absent) :
    Phase host.uid journal K (Begun (host.runtime.names state computer) contentId)
      (assertRecoveredRuntimeState host state computer journal true)
      fun _ => Begun (host.runtime.names state computer) contentId := by
  unfold assertRecoveredRuntimeState
  apply Phase.bind Phase.observes
  intro observation
  have hche : ∀ c, (Begun (host.runtime.names state computer) contentId c ∧
      observation=managedComputerRuntimeObservation (host.runtime.names state computer) c) →
      recoveredRuntimeState computer journal true observation=.ok () := by
    rintro c ⟨⟨hpin,hwho⟩,rfl⟩
    have hown:=assertRecoverableAbsentStart_pinned hset.image hpin
    rw [hwho.observed hset.nonempty] at hown ⊢
    unfold recoveredRuntimeState
    simp [hsou,hown]
  intro w hw
  exact (Phase.check hche w hw).mono (fun _ h => h) (fun _ _ h => h.mono fun _ hc => hc.1) (fun _ _ h => h)

theorem phase_finish_absent (hset : LifecycleSetting host state computer contentId operationId createdAt)
    (hope : journal.operation=.start) (hsou : journal.source=.absent)
    (hnow : Pinned (host.runtime.names state computer) contentId containers) :
    Phase host.uid journal (Pinned (host.runtime.names state computer) contentId) (· = containers)
      (finishComputerLifecycle host state computer journal
        (managedComputerRuntimeObservation (host.runtime.names state computer) containers))
      fun _ => Begun (host.runtime.names state computer) contentId := by
  have h:=hset.effects
  unfold finishComputerLifecycle
  rw [hope,hsou]
  apply Phase.bind (Q := fun _ => Begun (host.runtime.names state computer) contentId)
  · apply Phase.when
    · intro _
      apply Phase.runs
      intro c hc
      rw [hc]
      exact h.startAbsent containers hnow
    · intro hski c hc
      rw [hc]
      have hrun : (managedComputerRuntimeObservation (host.runtime.names state computer) containers).group =
          .complete ∧
          (managedComputerRuntimeObservation (host.runtime.names state computer) containers).status = "running" := by
        simpa using hski
      have hwho:=whole_of_complete hnow.grouped hrun.1
      rw [hrun.2] at hwho
      exact ⟨hnow,hwho⟩
  intro _
  apply Phase.bind (phase_recovered_absent hset hsou)
  intro _
  exact Phase.still (still_runs h.synchronizePolicies) fun c hc => hc.1

/-- What recovery needs of a journal: wherever the containers are in `K` it goes on, and
where it has brought them into `Q` the operation is done. -/
structure Recoverable (host : LifecycleHost) (state : LoadedState) (computer : ComputerConfig)
    (before : List RuntimeContainerBinding) (journal : ComputerLifecycleJournal)
    (K Q : List RuntimeContainerBinding → Prop) : Prop where
  parsed : parseComputerLifecycleJournal host journal=.ok journal
  installation : journal.installationId=state.config.installationId
  configured : journal.computerId=computer.id
  accepted : ∀ c, K c → recoverable computer journal
    (managedComputerRuntimeObservation (host.runtime.names state computer) c)=.ok ()
  finishes : ∀ c, K c → Phase host.uid journal K (· = c) (finishComputerLifecycle host state computer journal
    (managedComputerRuntimeObservation (host.runtime.names state computer) c)) fun _ => Q
  finished : ∀ w, w.journal=.absent → Journaled w.calls → Q w.containers →
    Finished (host.runtime.names state computer) journal.operation before w

section Recovery
variable {K Q P : List RuntimeContainerBinding → Prop} {w : LifecycleWorld}

theorem Phase.andThen {α β : Type} {m : Durable LifecycleWorld String α} {n : α → Durable LifecycleWorld String β}
    {Q : α → List RuntimeContainerBinding → Prop} {C : LifecycleWorld → Prop} {R : β → LifecycleWorld → Prop}
    {X : String → LifecycleWorld → Prop} (hm : Phase host.uid journal K P m Q)
    (hcut : ∀ t, UnderWay host.uid journal K t → C t)
    (hn : ∀ a t, UnderWay host.uid journal (Q a) t → wp (n a) ⟨C,R,X⟩ t) (hw : UnderWay host.uid journal P w) :
    wp (m >>= n) ⟨C,R,X⟩ w := by
  rw [wp_bind]
  apply (hm w hw).mono
  · exact hcut
  · exact hn
  · intro _ _ hfal
    exact hfal.elim

/-- Under way, or done. -/
def Pending (host : LifecycleHost) (state : LoadedState) (computer : ComputerConfig)
    (before : List RuntimeContainerBinding) (journal : ComputerLifecycleJournal)
    (K : List RuntimeContainerBinding → Prop) (w : LifecycleWorld) : Prop :=
  UnderWay host.uid journal K w ∨ Finished (host.runtime.names state computer) journal.operation before w

theorem wp_finish (h : Recoverable host state computer before journal K Q) {C : LifecycleWorld → Prop}
    {R : Unit → LifecycleWorld → Prop} {X : String → LifecycleWorld → Prop}
    (hcut : ∀ t, Finished (host.runtime.names state computer) journal.operation before t → C t)
    (hret : ∀ t, Finished (host.runtime.names state computer) journal.operation before t → R () t)
    (hw : UnderWay host.uid journal Q w) :
    wp (clearComputerLifecycleJournal host state journal.operationId) ⟨C,R,X⟩ w := by
  have hdon:=h.finished { w with journal := .absent } rfl hw.calls hw.containers
  exact wp_clear h.parsed hw (hcut _ hdon) (hret _ hdon)

section
variable (hset : LifecycleSetting host state computer contentId operationId createdAt)
include hset

theorem wp_recoverComputerLifecycle
    (h : Recoverable host state computer before journal K Q) (hw : UnderWay host.uid journal K w) :
    wp (recoverComputerLifecycle host state computer journal)
      ⟨Pending host state computer before journal K,
        fun recovered t => recovered=true ∧
          Finished (host.runtime.names state computer) journal.operation before t,
        fun _ _ => False⟩ w := by
  have hcut : ∀ t, UnderWay host.uid journal K t → Pending host state computer before journal K t :=
    fun _ ht => Or.inl ht
  have hpre : ∀ p : Bool, Phase host.uid journal K K (Durable.when p (preparesGateway host state
      (if journal.source=.absent then [computer] else []))) fun _ => K := by
    intro p
    apply Phase.when
    · intro _
      exact Phase.still (still_preparesGateway hset.effects _) fun _ hc => hc
    · intro _ _ hc
      exact hc
  unfold recoverComputerLifecycle
  apply Phase.andThen (Phase.still (still_runs hset.effects.validateDocker) fun _ hc => hc) hcut _ hw
  intro _ w₁ hw₁
  apply Phase.andThen (hpre _) hcut _ hw₁
  intro _ w₂ hw₂
  apply Phase.andThen Phase.observes hcut _ hw₂
  intro observation w₃ hw₃
  obtain ⟨hcon,hobs⟩ := hw₃.containers
  rw [hobs,h.accepted _ hcon,wp_bind,wp_ofExcept_ok]
  apply Phase.andThen (h.finishes _ hcon) hcut _ ⟨hw₃.journal,hw₃.calls,rfl⟩
  intro _ w₄ hw₄
  rw [wp_bind]
  apply wp_finish h (fun _ ht => Or.inr ht) _ hw₄
  intro t ht
  exact (wp_pure true _ t).2 ⟨rfl,ht⟩

theorem recoverable_of_retained
    (hwho : Whole (host.runtime.names state computer) status before)
    (hsch : ∀ c ∈ before, runtimeContainerBindingSchema c=true) (operation : LifecycleOperation) :
    Recoverable host state computer before
      (lifecycleJournal state computer operationId createdAt operation .retained
        (sortedBindings (host.runtime.names state computer).names before))
      (Restated (· ∈ underWay operation) before) (Restated (· = doneStatus operation) before) where
  parsed := by
    apply parse_lifecycleJournal hset
    · exact fun c hc => hsch c (mem_sortedBindings hc)
    · exact sorted_map hset.names hwho.grouped.ids
    · exact sorted_map hset.names hwho.grouped.named
    · intro habs
      cases habs
    · intro _ hnil
      have hlen:=hwho.length
      rw [hnil] at hlen
      exact hset.nonempty (eq_nil_of_length_eq_zero hlen.symm)
  installation := rfl
  configured := rfl
  accepted := fun c hc =>
    recoverable_retained hwho.grouped hset.names (hc.mono fun _ hsta => underWay_lifecycle hsta)
  finishes := fun c hc => phase_finish_retained hset hwho rfl rfl hc
  finished := fun w hjournal hcal hdon => by
    have hobs:=(hwho.restated hdon).observed hset.nonempty
    constructor
    · exact hjournal
    · exact hcal
    · rw [hobs]
    · rw [hobs]
      exact finished_doneStatus operation
    · exact fun _ => hdon.mono fun _ _ => trivial

theorem recoverable_of_absent :
    Recoverable host state computer []
      (lifecycleJournal state computer operationId createdAt .start .absent [])
      (Pinned (host.runtime.names state computer) contentId)
      (Begun (host.runtime.names state computer) contentId) where
  parsed := by
    apply parse_lifecycleJournal hset
    · exact fun c hc => absurd hc not_mem_nil
    · exact nodup_nil
    · exact nodup_nil
    · exact fun _ => ⟨rfl,rfl⟩
    · intro hred
      cases hred
  installation := rfl
  configured := rfl
  accepted := fun c hc => assertRecoverableAbsentStart_pinned hset.image hc
  finishes := fun c hc => phase_finish_absent hset rfl rfl hc
  finished := fun w hjournal hcal hdon => by
    have hobs:=hdon.2.observed hset.nonempty
    constructor
    · exact hjournal
    · exact hcal
    · rw [hobs]
    · rw [hobs]
      exact finished_doneStatus .start
    · exact fun hne => absurd rfl hne

theorem wp_recoverPending
    (h : Recoverable host state computer before journal K Q) (hw : UnderWay host.uid journal K w) :
    wp (recoverPendingComputerLifecycle host state)
      ⟨Pending host state computer before journal K,
        fun recovered t => recovered=true ∧
          Finished (host.runtime.names state computer) journal.operation before t,
        fun _ _ => False⟩ w := by
  have hrea : readComputerLifecycleJournal host state w.journal=.ok (some journal) := by
    rw [hw.journal]
    simp [readComputerLifecycleJournal,h.parsed,Except.map]
  unfold recoverPendingComputerLifecycle readJournal
  rw [wp_bind,wp_reads,hrea]
  dsimp only
  rw [if_neg (not_not_intro h.installation),h.configured,hset.configured]
  exact wp_recoverComputerLifecycle hset h hw

end

theorem wp_recoverPending_absent {R : Bool → LifecycleWorld → Prop} {C : LifecycleWorld → Prop}
    {X : String → LifecycleWorld → Prop} (habs : w.journal=.absent) (hret : R false w) :
    wp (recoverPendingComputerLifecycle host state) ⟨C,R,X⟩ w := by
  unfold recoverPendingComputerLifecycle readJournal
  rw [wp_bind,wp_reads,habs]
  exact (wp_pure false _ w).2 hret

end Recovery
end Retained
end Qubicl.Cli
