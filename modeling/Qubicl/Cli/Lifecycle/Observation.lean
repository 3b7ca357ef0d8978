import Qubicl.Core.Transaction

/-!
# The runtime group of a computer (packages/cli/src/docker.ts:2293-2329, lifecycle-operations.ts:260-273)

The containers that carry the labels of a computer, how the CLI observes them as a group,
and what the container commands of Docker do to their statuses.
-/

namespace Qubicl.Cli
open Foundation Core List

structure RuntimeNames where
  primary : String
  names : List String

inductive RuntimeGroup
  | absent
  | partly
  | inconsistent
  | complete
  deriving DecidableEq, Repr

structure ManagedRuntimeGroupObservation where
  status : String
  group : RuntimeGroup
  containers : List RuntimeContainerBinding
  deriving DecidableEq, Repr

def namedContainer (containers : List RuntimeContainerBinding) (name : String) : Option RuntimeContainerBinding :=
  containers.find? (·.name=name)

def sortedBindings (names : List String) (containers : List RuntimeContainerBinding) :
    List RuntimeContainerBinding :=
  names.filterMap (namedContainer containers)

def sameStatuses : List RuntimeContainerBinding → Bool
  | [] => true
  | first::rest => rest.all (·.status=first.status)

/-- `managedComputerRuntimeObservation`; a labelled container under an expected name has
the labels of its role. -/
def managedComputerRuntimeObservation (names : RuntimeNames) (containers : List RuntimeContainerBinding) :
    ManagedRuntimeGroupObservation :=
  match containers.find? (fun c => !names.names.contains c.name) with
  | some c => ⟨c.status,.inconsistent,[]⟩
  | none =>
    match sortedBindings names.names containers with
    | [] => ⟨"absent",.absent,[]⟩
    | first::rest =>
      let found:=first::rest
      let primaryStatus:=((namedContainer found names.primary).getD first).status
      if found.length≠names.names.length then ⟨primaryStatus,.partly,found⟩
      else if sameStatuses found then ⟨primaryStatus,.complete,found⟩
      else ⟨primaryStatus,.inconsistent,found⟩

/-- `sameRuntimeBindings`: the current binding of an ID has everything but its status. -/
def sameRuntimeBindings (left right : List RuntimeContainerBinding) : Bool :=
  left.length=right.length && left.all fun expected =>
    match right.reverse.find? (·.id=expected.id) with
    | some current => current.name=expected.name && current.imageId=expected.imageId &&
        current.role=expected.role && current.topologyVersion=expected.topologyVersion
    | none => false

def lifecycleStatuses : List String := ["running","restarting","paused","exited","created"]

inductive ContainerCommand
  | stop
  | restart
  | start
  | unpause
  deriving DecidableEq, Repr

/- The status a command leaves a container in. -/
def ContainerCommand.leaves : ContainerCommand → String → String
  | .stop, status => if status = "created" then "created" else "exited"
  | .restart, _ => "running"
  | .start, status => if status = "exited" ∨ status = "created" then "running" else status
  | .unpause, status => if status = "paused" then "running" else status

def withStatus (status : String) (c : RuntimeContainerBinding) : RuntimeContainerBinding := { c with status := status }

/-- All of the named containers are done. -/
def commanded (command : ContainerCommand) (ids : List String) (containers : List RuntimeContainerBinding) :
    List RuntimeContainerBinding :=
  containers.map fun c => if c.id ∈ ids then withStatus (command.leaves c.status) c else c

/-- Some of the named containers are done. -/
def PartlyCommanded (command : ContainerCommand) (ids : List String) (before after : List RuntimeContainerBinding) :
    Prop :=
  List.Forall₂ (fun c c' => c'=c ∨ c.id ∈ ids ∧ c'=withStatus (command.leaves c.status) c) before after

/-- The same containers, each in a status that is allowed. -/
def Restated (allowed : String → Prop) (before after : List RuntimeContainerBinding) : Prop :=
  List.Forall₂ (fun c c' => c'=withStatus c'.status c ∧ allowed c'.status) before after

variable {allowed : String → Prop} {before after containers : List RuntimeContainerBinding}

theorem Restated.refl (h : ∀ c ∈ before, allowed c.status) : Restated allowed before before := by
  induction before with
  | nil => exact .nil
  | cons c rest ih =>
    exact .cons ⟨rfl,h c mem_cons_self⟩ (ih fun c' hc' => h c' (mem_cons_of_mem _ hc'))

/- What is allowed where the command is done, and was allowed before elsewhere. -/
variable {command : ContainerCommand} {allowed' : String → Prop} {c : RuntimeContainerBinding}

theorem Restated.partly {ids : List String} (h : Restated allowed before containers)
    (hall : ∀ status, allowed status → allowed (command.leaves status))
    (hpar : PartlyCommanded command ids containers after) : Restated allowed before after := by
  induction h generalizing after with
  | nil =>
    cases hpar
    exact .nil
  | cons hc _ ih =>
    cases hpar with
    | cons hste hres =>
      apply List.Forall₂.cons _ (ih hres)
      rcases hste with rfl | ⟨_,rfl⟩
      · exact hc
      · refine ⟨?_,hall _ hc.2⟩
        rw [hc.1]
        rfl

theorem Restated.commanded {ids : List String} (h : Restated allowed before containers)
    (hnam : ∀ c ∈ containers, allowed c.status → c.id ∈ ids → allowed' (command.leaves c.status))
    (hoth : ∀ c ∈ containers, allowed c.status → c.id ∉ ids → allowed' c.status) :
    Restated allowed' before (commanded command ids containers) := by
  induction h with
  | nil => exact .nil
  | @cons c c' rest rest' hc _ ih =>
    apply List.Forall₂.cons
    · dsimp only
      split
      next hid =>
        refine ⟨?_,hnam c' mem_cons_self hc.2 hid⟩
        rw [hc.1]
        rfl
      next hid => exact ⟨hc.1,hoth c' mem_cons_self hc.2 hid⟩
    · exact ih (fun c hmem => hnam c (mem_cons_of_mem _ hmem))
        fun c hmem => hoth c (mem_cons_of_mem _ hmem)

theorem Restated.mono (h : Restated allowed before after) (hall : ∀ status, allowed status → allowed' status) :
    Restated allowed' before after :=
  List.Forall₂.imp (fun _ _ hc => ⟨hc.1,hall _ hc.2⟩) h

theorem Restated.trans (h : Restated allowed before containers) (h' : Restated allowed' containers after) :
    Restated allowed' before after := by
  induction h generalizing after with
  | nil =>
    cases h'
    exact .nil
  | cons hc _ ih =>
    cases h' with
    | cons hc' hres =>
      refine .cons ⟨?_,hc'.2⟩ (ih hres)
      rw [hc'.1,hc.1]
      rfl

section
variable (h : Restated allowed before after)
include h

theorem Restated.status : ∀ c ∈ after, allowed c.status := by
  induction h with
  | nil => exact fun c hc => absurd hc not_mem_nil
  | cons hc _ ih =>
    intro c hmem
    rcases mem_cons.1 hmem with rfl | hrest
    · exact hc.2
    · exact ih c hrest

theorem Restated.ids :
    after.map RuntimeContainerBinding.id=before.map RuntimeContainerBinding.id := by
  induction h with
  | nil => rfl
  | cons hc _ ih =>
    rw [map_cons,map_cons,ih,hc.1]
    rfl

theorem Restated.names :
    after.map RuntimeContainerBinding.name=before.map RuntimeContainerBinding.name := by
  induction h with
  | nil => rfl
  | cons hc _ ih =>
    rw [map_cons,map_cons,ih,hc.1]
    rfl

theorem Restated.namedContainer (name : String) :
    Option.Rel (fun c c' => c'=withStatus c'.status c ∧ allowed c'.status)
      (namedContainer before name) (namedContainer after name) := by
  induction h with
  | nil => exact .none
  | @cons c c' rest rest' hc _ ih =>
    have hnam : c'.name=c.name := by rw [hc.1]; rfl
    unfold Cli.namedContainer at ih ⊢
    rw [find?_cons,find?_cons,hnam]
    split
    · exact .some hc
    · exact ih

theorem Restated.sorted (names : List String) :
    Restated allowed (sortedBindings names before) (sortedBindings names after) := by
  induction names with
  | nil => exact .nil
  | cons name rest ih =>
    unfold sortedBindings at ih ⊢
    rw [filterMap_cons,filterMap_cons]
    have hrel:=h.namedContainer name
    generalize Cli.namedContainer before name=found at hrel ⊢
    generalize Cli.namedContainer after name=found' at hrel ⊢
    cases hrel with
    | none => exact ih
    | some hc => exact .cons hc ih

end

/-- The containers have the expected names, and IDs of their own. -/
structure Grouped (names : RuntimeNames) (containers : List RuntimeContainerBinding) : Prop where
  named : (containers.map RuntimeContainerBinding.name).Nodup
  ids : (containers.map RuntimeContainerBinding.id).Nodup
  expected : ∀ c ∈ containers, c.name ∈ names.names

variable {names : RuntimeNames}

theorem Grouped.restated (h : Grouped names before) (hr : Restated allowed before after) : Grouped names after where
  named := by
    rw [hr.names]
    exact h.named
  ids := by
    rw [hr.ids]
    exact h.ids
  expected := fun c hc => by
    have hnam : c.name ∈ before.map RuntimeContainerBinding.name := by
      rw [← hr.names]
      exact mem_map_of_mem hc
    obtain ⟨old,hold,heq⟩ := mem_map.1 hnam
    rw [← heq]
    exact h.expected old hold

theorem mem_sortedBindings (hc : c ∈ sortedBindings names.names containers) : c ∈ containers := by
  obtain ⟨name,_,hfou⟩ := mem_filterMap.1 hc
  exact mem_of_find?_eq_some hfou

theorem Grouped.mem_sorted (h : Grouped names containers) (hc : c ∈ containers) :
    c ∈ sortedBindings names.names containers := by
  apply mem_filterMap.2
  refine ⟨c.name,h.expected c hc,?_⟩
  unfold namedContainer
  cases hfou : containers.find? (·.name=c.name) with
  | none =>
    have := find?_eq_none.1 hfou c hc
    simp at this
  | some c' =>
    have hnam : c'.name=c.name := by simpa using find?_some hfou
    rw [inj_on_of_nodup_map h.named (mem_of_find?_eq_some hfou) hc hnam]

theorem sorted_map {α : Type} {f : RuntimeContainerBinding → α} (hnam : names.names.Nodup)
    (h : (containers.map f).Nodup) : ((sortedBindings names.names containers).map f).Nodup := by
  have hsor : (sortedBindings names.names containers).Nodup := by
    apply List.Nodup.filterMap _ hnam
    intro name name' c hc hc'
    have hnae : c.name=name := by simpa using find?_some hc
    have hnam' : c.name=name' := by simpa using find?_some hc'
    exact hnae.symm.trans hnam'
  apply List.Nodup.map_on _ hsor
  intro c hc c' hc' heq
  exact inj_on_of_nodup_map h (mem_sortedBindings hc) (mem_sortedBindings hc') heq

/- No labelled container has a name that is not expected. -/
theorem Grouped.observe (h : Grouped names containers) :
    containers.find? (fun c => !names.names.contains c.name)=none := by
  apply find?_eq_none.2
  intro c hc
  simpa using h.expected c hc

theorem expected_of_observed (h : (managedComputerRuntimeObservation names containers).group≠.inconsistent) :
    ∀ c ∈ containers, c.name ∈ names.names := by
  have hfin : containers.find? (fun c => !names.names.contains c.name)=none := by
    cases hfou : containers.find? (fun c => !names.names.contains c.name) with
    | none => rfl
    | some c =>
      unfold managedComputerRuntimeObservation at h
      rw [hfou] at h
      exact absurd rfl h
  intro c hc
  simpa using find?_eq_none.1 hfin c hc

theorem observed_containers (h : Grouped names containers) :
    (managedComputerRuntimeObservation names containers).containers=sortedBindings names.names containers := by
  unfold managedComputerRuntimeObservation
  rw [h.observe]
  dsimp only
  cases hsor : sortedBindings names.names containers with
  | nil => rfl
  | cons first rest =>
    dsimp only
    split
    · rfl
    · split
      · rfl
      · rfl

theorem observed_complete (h : Grouped names containers) (hnam : names.names≠[])
    (hlen : (sortedBindings names.names containers).length=names.names.length) {status : String}
    (hsta : ∀ c ∈ containers, c.status=status) :
    managedComputerRuntimeObservation names containers =
      ⟨status,.complete,sortedBindings names.names containers⟩ := by
  have hsor : ∀ c ∈ sortedBindings names.names containers, c.status=status :=
    fun c hc => hsta c (mem_sortedBindings hc)
  unfold managedComputerRuntimeObservation
  rw [h.observe]
  dsimp only
  cases heq : sortedBindings names.names containers with
  | nil =>
    rw [heq] at hlen
    exact absurd (eq_nil_of_length_eq_zero hlen.symm) hnam
  | cons first rest =>
    rw [heq] at hlen hsor
    have hsam : sameStatuses (first::rest)=true := by
      apply all_eq_true.2
      intro c hc
      have hfir:=hsor first mem_cons_self
      have hres:=hsor c (mem_cons_of_mem _ hc)
      simp [hfir,hres]
    have hpri : ((namedContainer (first::rest) names.primary).getD first).status=status := by
      unfold namedContainer
      cases hfou : (first::rest).find? (·.name=names.primary) with
      | none => exact hsor first mem_cons_self
      | some c => exact hsor c (mem_of_find?_eq_some hfou)
    dsimp only
    rw [if_neg (not_not_intro hlen),if_pos hsam,hpri]

theorem complete_of_observed {status : String} {found : List RuntimeContainerBinding}
    (h : managedComputerRuntimeObservation names containers=⟨status,.complete,found⟩) :
    found=sortedBindings names.names containers ∧ found.length=names.names.length ∧ found≠[] ∧
      ∀ c ∈ found, c.status=status := by
  unfold managedComputerRuntimeObservation at h
  split at h
  next => cases h
  next =>
    split at h
    next => cases h
    next first rest heq =>
      dsimp only at h
      split at h
      next => cases h
      next hlen =>
        split at h
        next hsam =>
          simp only [ManagedRuntimeGroupObservation.mk.injEq,true_and] at h
          obtain ⟨hsta,rfl⟩ := h
          have hall : ∀ c ∈ first::rest, c.status=first.status := by
            intro c hc
            rcases mem_cons.1 hc with rfl | hrest
            · rfl
            · simpa using all_eq_true.1 hsam c hrest
          have hpri : ((namedContainer (first::rest) names.primary).getD first).status=first.status := by
            unfold namedContainer
            cases hfou : (first::rest).find? (·.name=names.primary) with
            | none => rfl
            | some c => exact hall c (mem_of_find?_eq_some hfou)
          rw [hpri] at hsta
          refine ⟨heq.symm,not_not.1 hlen,cons_ne_nil _ _,fun c hc => ?_⟩
          rw [hall c hc,hsta]
        next => cases h

theorem Restated.sameBindings (h : Restated allowed before after)
    (hids : (before.map RuntimeContainerBinding.id).Nodup) : sameRuntimeBindings before after=true := by
  have hlen : before.length=after.length := List.Forall₂.length_eq h
  have haft : (after.map RuntimeContainerBinding.id).Nodup := by
    rw [h.ids]
    exact hids
  have hpai : ∀ c ∈ before, ∃ c' ∈ after, c'=withStatus c'.status c := by
    clear hlen haft hids
    induction h with
    | nil => exact fun c hc => absurd hc not_mem_nil
    | @cons c c' rest rest' hc _ ih =>
      intro d hd
      rcases mem_cons.1 hd with rfl | hrest
      · exact ⟨c',mem_cons_self,hc.1⟩
      · obtain ⟨d',hd',heq⟩ := ih d hrest
        exact ⟨d',mem_cons_of_mem _ hd',heq⟩
  unfold sameRuntimeBindings
  rw [Bool.and_eq_true]
  refine ⟨by simpa using hlen,all_eq_true.2 fun c hc => ?_⟩
  obtain ⟨c',hc',heq⟩ := hpai c hc
  have hid : c'.id=c.id := by rw [heq]; rfl
  have hfou : after.reverse.find? (·.id=c.id)=some c' := by
    cases hfin : after.reverse.find? (·.id=c.id) with
    | none =>
      have := find?_eq_none.1 hfin c' (mem_reverse.2 hc')
      simp [hid] at this
    | some d =>
      have hd:=mem_reverse.1 (mem_of_find?_eq_some hfin)
      have hdid : d.id=c.id := by simpa using find?_some hfin
      rw [inj_on_of_nodup_map haft hd hc' (hdid.trans hid.symm)]
  rw [hfou,heq]
  simp [withStatus]

end Qubicl.Cli
