import Qubicl.Cli.BackupCreation.Recovery
import Qubicl.Core.LegacyJournal

/-!
# Attempts at a backup

`createBackup`, whole or cut, and then recovery as often as it takes.
-/

namespace Qubicl.Cli.BackupCreation
open Foundation Core Durable List

variable {A P : Type}

/-- No backup is being created, nothing has the names of the new one, and Docker gives the
containers names and IDs of their own. -/
structure Ready (fresh : BackupFresh) (computer : ComputerConfig) (w : BackupWorld A) : Prop where
  journal : w.journal=.absent
  calls : w.calls=[]
  names : (w.containers.map RuntimeContainerBinding.name).Nodup
  ids : (w.containers.map RuntimeContainerBinding.id).Nodup
  staging : w.backups (".creating-" ++ fresh.operationId)=.absent
  target : w.backups (fresh.backupId computer)=.absent
  distinct : fresh.backupId computer ≠ ".creating-" ++ fresh.operationId

def recordedTargets (host : BackupHost A P) (state : LoadedState) (computer : ComputerConfig) (options : BackupOptions)
    (w : BackupWorld A) : List RuntimeContainerBinding :=
  options.pauseTargets (managedComputerRuntimeObservation (host.names state computer) w.containers)

section Attempts
variable {z : Formats} {host : BackupHost A P} {state : LoadedState} {computer : ComputerConfig} {options : BackupOptions}
  {fresh : BackupFresh} {failure : Option (StepFailure String)} {journal : BackupCreationJournal}
  {before w t : BackupWorld A}

theorem recordedTargets_running : ∀ target ∈ recordedTargets host state computer options w, target ∈ w.containers ∧
    target.status = "running" := by
  intro target htar
  unfold recordedTargets BackupOptions.pauseTargets at htar
  split at htar
  next hrun =>
    generalize hobs : managedComputerRuntimeObservation (host.names state computer) w.containers=observation
      at htar hrun
    obtain ⟨status,group,found⟩ := observation
    obtain ⟨rfl,rfl,-⟩ := hrun
    obtain ⟨hfou,-,-,hall⟩ := complete_of_observed hobs
    dsimp only at htar
    refine ⟨?_,hall target htar⟩
    rw [hfou] at htar
    exact mem_sortedBindings htar
  next => cases htar

theorem Ready.over (h : Ready fresh computer w) :
    Over host computer (fresh.journal state computer (recordedTargets host state computer options w)) w w where
  apart := by
    refine ⟨fun _ _ _ => rfl,.refl _ _,?_⟩
    rw [h.calls]
    exact fun call hcal => absurd hcal not_mem_nil
  gone := h.journal
  staging := h.staging
  target := Or.inl h.target
  resumed := by
    intro c hc hid hpau
    obtain ⟨target,htar,heq⟩ := mem_map.1 hid
    obtain ⟨hmem,hrun⟩ := recordedTargets_running target htar
    rw [inj_on_of_nodup_map h.ids hmem hc heq,hpau] at hrun
    exact absurd hrun (by decide)

theorem wp_recover (hdoc : DockerNames host) (hrun : ∀ target ∈ journal.pauseTargets, target.status = "running")
    (hnam : (before.containers.map RuntimeContainerBinding.name).Nodup)
    (hdis : journal.backupId≠journal.stagingName)
    (hw : Busy host computer journal before w ∨ Over host computer journal before w) :
    wp (recoverPendingBackupCreation z host state)
      ⟨fun t => Busy host computer journal before t ∨ Over host computer journal before t,
        fun _ => Over host computer journal before,
        fun _ t => Busy host computer journal before t ∨ Over host computer journal before t⟩ w := by
  rcases hw with hbus | hover
  · apply (wp_recover_busy hdoc hrun hnam hdis hbus).mono
    · exact fun _ ht => ht
    · exact fun _ _ ht => ht
    · exact fun _ _ ht => Or.inl ht
  · apply (wp_recover_over hover.gone).mono
    · rintro t rfl
      exact Or.inr hover
    · rintro _ t rfl
      exact hover
    · rintro _ t rfl
      exact Or.inr hover

theorem wp_createBackup (hdoc : DockerNames host) (hw : Ready fresh computer w)
    (hjou : journal=fresh.journal state computer (recordedTargets host state computer options w)) :
    wp (createBackup z host state failure fresh options computer)
      ⟨fun t => Busy host computer journal w t ∨ Over host computer journal w t,
        fun _ t => Busy host computer journal w t ∨ Over host computer journal w t,
        fun _ t => Busy host computer journal w t ∨ Over host computer journal w t⟩ w := by
  have hove : Over host computer journal w w := by
    rw [hjou]
    exact hw.over
  have hrun : ∀ target ∈ journal.pauseTargets, target.status = "running" := by
    rw [hjou]
    exact fun target htar => (recordedTargets_running target htar).2
  have hdis : journal.backupId≠journal.stagingName := by
    rw [hjou]
    exact hw.distinct
  have hid : journal.backupId=fresh.backupId computer := by rw [hjou]; rfl
  have hnon : w.backups journal.backupId=.absent := by
    rw [hid]
    exact hw.target
  have hsta : w.backups journal.stagingName=.absent := hove.staging
  apply (wp_ite _ _ _ w).2
  refine ⟨fun _ => (wp_fail _ _ w).2 (Or.inr hove),fun _ => ?_⟩
  apply (wp_bind _ _ _ w).2
  apply (wp_recover_over hw.journal).mono
  · rintro t rfl
    exact Or.inr hove
  · rintro _ t rfl
    apply (wp_bind _ _ _ t).2
    apply (wp_reads _ _ t).2
    apply (wp_bind _ _ _ t).2
    dsimp only
    cases options.assertConsistent computer (managedComputerRuntimeObservation (host.names state computer) t.containers) with
    | error e => exact (wp_ofExcept_error e _ t).2 (Or.inr hove)
    | ok =>
      apply (wp_ofExcept_ok () _ t).2
      apply (wp_bind _ _ _ t).2
      cases options.password with
      | error e => exact (wp_ofExcept_error e _ t).2 (Or.inr hove)
      | ok password =>
        apply (wp_ofExcept_ok password _ t).2
        apply (wp_bind _ _ _ t).2
        show wp (writeBackupCreationJournal host state
          (fresh.journal state computer (recordedTargets host state computer options t))) _ t
        rw [← hjou]
        have hbus : Busy host computer journal t (BackupWorld.journalLens.set (.real host.uid 0o600 journal) t) := by
          refine ⟨⟨fun _ _ _ => rfl,.refl _ _,hove.apart.calls⟩,⟨.prepared,?_⟩,Or.inl hnon⟩
          rw [hjou]
          rfl
        have hget : BackupWorld.journalLens.get t=.absent := hw.journal
        apply (wp_zoom _ _ _ t).2
        rw [hget]
        refine wp_of_ok rfl (fun place hpla => ?_) ?_
        · rw [mem_singleton.1 hpla]
          exact Or.inl hbus
        · -- What fails from here on is recovered before it is reported.
          apply (wp_catching _ _ _ _).2
          show wp (failing failure (captureBackup host state fresh options computer password
            (fresh.journal state computer (recordedTargets host state computer options t)))) _
              (BackupWorld.journalLens.set (.real host.uid 0o600 journal) t)
          rw [← hjou]
          apply (wp_failing (wp_captureBackup hdoc hrun hw.names hdis options password hid hbus
            hsta hnon) (Or.inl hbus) (fun _ _ h => Or.inl h) failure).mono
          · exact fun _ ht => ht
          · exact fun _ _ ht => Or.inr ht
          · intro error u hu
            apply (wp_bind _ _ _ u).2
            apply (wp_catching _ _ _ u).2
            apply (wp_recover hdoc hrun hw.names hdis hu).mono
            · exact fun _ hv => hv
            · exact fun _ v hv => (wp_fail _ _ v).2 (Or.inr hv)
            · exact fun _ v hv => (wp_fail _ _ v).2 hv
  · rintro _ t rfl
    exact Or.inr hove

theorem Busy.attempts (hdoc : DockerNames host) (hrun : ∀ target ∈ journal.pauseTargets, target.status = "running")
    (hnam : (before.containers.map RuntimeContainerBinding.name).Nodup)
    (hdis : journal.backupId≠journal.stagingName)
    (hatt : Relation.ReflTransGen (fun t u => (recoverPendingBackupCreation z host state).Visits t u) w t)
    (hw : Busy host computer journal before w ∨ Over host computer journal before w) :
    Busy host computer journal before t ∨ Over host computer journal before t := by
  induction hatt with
  | refl => exact hw
  | tail _ hvis ih =>
    rcases hvis with rfl | hcut
    · exact ih
    · exact (wp_recover hdoc hrun hnam hdis ih).1 _ hcut

end Attempts

/-- Creation, cut or failed anywhere, and any number of recoveries: only recorded containers are
touched, and the first recovery that completes leaves a whole backup or none. -/
theorem backup_creation_recovers {z : Formats} {host : BackupHost A P} {state : LoadedState} {computer : ComputerConfig}
    {options : BackupOptions} {fresh : BackupFresh} {failure : Option (StepFailure String)} {w t u : BackupWorld A}
    (hdocker : DockerNames host) (hw : Ready fresh computer w)
    (hcreate : (createBackup z host state failure fresh options computer).Visits w t)
    (hrecover : Relation.ReflTransGen (fun t u => (recoverPendingBackupCreation z host state).Visits t u) t u) :
    let targets:=(recordedTargets host state computer options w).map (·.id)
    (∀ call ∈ u.calls, RecordedRunning call) ∧ OnlyNamed targets w.containers u.containers ∧
    ∀ done, (recoverPendingBackupCreation z host state).result u=.ok done →
      let v:=(recoverPendingBackupCreation z host state).final u
      v.journal=.absent ∧ v.backups (".creating-" ++ fresh.operationId)=.absent ∧ NotPaused targets v.containers ∧
      (∀ name, name ≠ ".creating-" ++ fresh.operationId → name≠fresh.backupId computer →
        v.backups name=w.backups name) ∧
      (v.backups (fresh.backupId computer)=.absent ∨
        ∃ tree, v.backups (fresh.backupId computer)=.real host.uid 0o700 tree ∧
          WholeBackup host computer (fresh.backupId computer) tree) := by
  intro targets
  have hrun : ∀ target ∈ (fresh.journal state computer (recordedTargets host state computer options w)).pauseTargets,
      target.status = "running" := fun target htar => (recordedTargets_running target htar).2
  have hcre : Busy host computer (fresh.journal state computer (recordedTargets host state computer options w)) w t ∨
      Over host computer (fresh.journal state computer (recordedTargets host state computer options w)) w t := by
    rcases hcreate with rfl | hcut
    · exact Or.inr hw.over
    · exact (wp_createBackup hdocker hw rfl).1 t hcut
  have hu:=Busy.attempts hdocker hrun hw.names hw.distinct hrecover hcre
  refine ⟨?_,?_,fun done hdon => ?_⟩
  · rcases hu with hbus | hover
    · exact hbus.apart.calls
    · exact hover.apart.calls
  · rcases hu with hbus | hover
    · exact hbus.apart.containers
    · exact hover.apart.containers
  · have hv:=(wp_recover hdocker hrun hw.names hw.distinct hu).returned hdon
    exact ⟨hv.gone,hv.staging,hv.resumed,hv.apart.others,hv.target⟩

def pausedStatus : PauseCommand → String
  | .pause => "paused"
  | .unpause => "running"

def pausingContainer : RuntimeContainerBinding where
  name := "qubicl-main"
  id := exampleDigest
  status := "running"
  imageId := "sha256:" ++ exampleDigest
  role := .computer
  topologyVersion := none

def pausingHost : BackupHost String Unit where
  uid := 1000
  isDate date := date == exampleDate
  names _ _ := ⟨"qubicl-main",["qubicl-main"]⟩
  docker command ids := write (·.map fun c => if c.id ∈ ids then withStatus (pausedStatus command) c else c)
  tools := {
    sha256 := fun _ => exampleDigest
    chunks := fun _ => []
    tar := fun _ => "home"
    archive := fun _ _ => ⟨[.real 1000 0o644 "ho",.real 1000 0o644 "home"],.ok ()⟩
    archive_made := fun _ _ _ => ⟨1000,0o644,rfl⟩
    inspect := fun _ => .ok ()
    cipher := fun _ password => password
    remnants := fun _ => [∅] }

def pausingState : LoadedState where
  paths := ⟨"/home/user/.qubicl"⟩
  config := exampleConfig 5
  secrets := exampleSecrets 5

def pausingOptions : BackupOptions := ⟨true,false,false,false,.ok ""⟩

def pausingFresh : BackupFresh := ⟨exampleId,"2025-01-01T00-00-00-000Z","7d3c1d1e",exampleDate,exampleDate⟩

def pausingStart : BackupWorld String := ⟨.absent,fun _ => .absent,[pausingContainer],[]⟩

def pausingCut : BackupWorld String :=
  ((createBackup exampleFormats pausingHost pausingState none pausingFresh pausingOptions exampleComputer)
    pausingStart).trace.getD 3 pausingStart

theorem pausingHost_names : DockerNames pausingHost := by
  intro command ids containers middle hmid
  have hste : OnlyNamed ids middle
      (middle.map fun c => if c.id ∈ ids then withStatus (pausedStatus command) c else c) := by
    refine List.forall₂_map_right_iff.2 (List.forall₂_same.2 fun c _ => ?_)
    split
    next hid => exact ⟨rfl,fun hnot => absurd hid hnot⟩
    next => exact ⟨rfl,fun _ => rfl⟩
  exact (wp_write _ _ _).2 ⟨hmid.trans hste,hmid.trans hste⟩

theorem pausingStart_ready : Ready pausingFresh exampleComputer pausingStart where
  journal := rfl
  calls := rfl
  names := nodup_singleton _
  ids := nodup_singleton _
  staging := rfl
  target := rfl
  distinct := by decide

theorem pausingCut_visited :
    (createBackup exampleFormats pausingHost pausingState none pausingFresh pausingOptions exampleComputer).Visits
      pausingStart pausingCut := by
  right
  have hlen : 3<((createBackup exampleFormats pausingHost pausingState none pausingFresh pausingOptions
      exampleComputer) pausingStart).trace.length := by decide
  show pausingCut ∈ _
  unfold pausingCut
  rw [getD_eq_getElem?_getD,getElem?_eq_getElem hlen]
  exact getElem_mem hlen

/-- The computer that was paused when the run was cut is resumed by recovery. -/
theorem backup_creation_recovers_paused :
    pausingCut.containers=[withStatus "paused" pausingContainer] ∧
    (recoverPendingBackupCreation exampleFormats pausingHost pausingState).result pausingCut=.ok true ∧
    ∀ c ∈ ((recoverPendingBackupCreation exampleFormats pausingHost pausingState).final pausingCut).containers,
      c.id=exampleDigest → c.status ≠ "paused" := by
  have hdon : (recoverPendingBackupCreation exampleFormats pausingHost pausingState).result pausingCut=.ok true := by
    decide
  refine ⟨by decide,hdon,fun c hc hid => ?_⟩
  obtain ⟨-,-,hrec⟩ := backup_creation_recovers pausingHost_names pausingStart_ready pausingCut_visited .refl
  obtain ⟨-,-,hres,-⟩ := hrec true hdon
  apply hres c hc
  rw [hid]
  decide

end Qubicl.Cli.BackupCreation
