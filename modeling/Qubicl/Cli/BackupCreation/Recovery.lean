import Qubicl.Cli.BackupCreation.Program
import Qubicl.Foundation.Checked

/-!
# Backup creation, wherever it is cut

While the journal is there it names every container that may be paused and the directory
the work is in; once a recovery completes, nothing of the run is left but a whole backup.
-/

namespace Qubicl.Cli.BackupCreation
open Foundation Core Durable List

variable {A P : Type}

/-- The same containers, and the same but for those with the IDs. -/
def OnlyNamed (ids : List String) (before after : List RuntimeContainerBinding) : Prop :=
  List.Forall₂ (fun c c' => c'=withStatus c'.status c ∧ (c.id ∉ ids → c'=c)) before after

def NotPaused (ids : List String) (containers : List RuntimeContainerBinding) : Prop :=
  ∀ c ∈ containers, c.id ∈ ids → c.status ≠ "paused"

/-- `docker pause` and `docker unpause` change the status of the named containers only. -/
def DockerNames (host : BackupHost A P) : Prop :=
  ∀ command ids before, Keeps (OnlyNamed ids before) (host.docker command ids)

section Containers
variable {ids ids' : List String} {before containers after : List RuntimeContainerBinding}

theorem OnlyNamed.refl (ids : List String) (containers : List RuntimeContainerBinding) :
    OnlyNamed ids containers containers := List.forall₂_same.2 fun _ _ => ⟨rfl,fun _ => rfl⟩

theorem OnlyNamed.mono (h : OnlyNamed ids before after) (hsub : ∀ id ∈ ids, id ∈ ids') : OnlyNamed ids' before after :=
  List.Forall₂.imp (fun _ _ hc => ⟨hc.1,fun hid => hc.2 fun hmem => hid (hsub _ hmem)⟩) h

theorem OnlyNamed.trans (h : OnlyNamed ids before containers) (h' : OnlyNamed ids containers after) :
    OnlyNamed ids before after := by
  induction h generalizing after with
  | nil =>
    cases h'
    exact .nil
  | cons hc _ ih =>
    cases h' with
    | cons hc' hres =>
      refine .cons ⟨?_,fun hid => ?_⟩ (ih hres)
      · rw [hc'.1,hc.1]
        rfl
      · have hsam:=hc.2 hid
        subst hsam
        exact hc'.2 hid

theorem OnlyNamed.restated (h : OnlyNamed ids before after) : Restated (fun _ => True) before after :=
  List.Forall₂.imp (fun _ _ hc => ⟨hc.1,trivial⟩) h

theorem OnlyNamed.nodup (h : OnlyNamed ids before after) (hnam : (before.map RuntimeContainerBinding.name).Nodup) :
    (after.map RuntimeContainerBinding.name).Nodup := by
  rw [h.restated.names]
  exact hnam

theorem not_paused_of_coherent {names : RuntimeNames} {computer : ComputerConfig}
    (hnod : (containers.map RuntimeContainerBinding.name).Nodup)
    (h : assertCoherentBackupPauseOutcome computer (managedComputerRuntimeObservation names containers)=.ok ()) :
    ∀ c ∈ containers, c.status ≠ "paused" := by
  unfold assertCoherentBackupPauseOutcome at h
  dsimp only at h
  split at h
  next => cases h
  next hcoh =>
    obtain ⟨hgro,hsta⟩ := not_or.1 hcoh
    have hcom:=not_not.1 hgro
    have hexp : ∀ c ∈ containers, c.name ∈ names.names :=
      expected_of_observed (by rw [hcom]; decide)
    generalize hobs : managedComputerRuntimeObservation names containers=observation at hcom hsta
    obtain ⟨status,group,found⟩ := observation
    dsimp only at hcom hsta
    subst hcom
    obtain ⟨hfou,-,-,hall⟩ := complete_of_observed hobs
    intro c hc hpau
    have hmem : c ∈ found := by
      rw [hfou]
      refine mem_filterMap.2 ⟨c.name,hexp c hc,?_⟩
      unfold namedContainer
      cases hfin : containers.find? (·.name=c.name) with
      | none =>
        have := find?_eq_none.1 hfin c hc
        simp at this
      | some c' =>
        have hnam : c'.name=c.name := by simpa using find?_some hfin
        rw [inj_on_of_nodup_map hnod (mem_of_find?_eq_some hfin) hc hnam]
    rw [hall c hmem] at hpau
    subst hpau
    exact hsta (by decide)

end Containers

def RecordedRunning (call : PauseCall) : Prop :=
  ∃ uid mode journal, call.journal=.real uid mode journal ∧
    ∀ id ∈ call.ids, ∃ target ∈ journal.pauseTargets, target.id=id ∧ target.status = "running"

/-- A whole backup of the computer: its archive passed inspection, and the manifest has its digest. -/
def WholeBackup (host : BackupHost A P) (computer : ComputerConfig) (id : String) (tree : BackupTree A) : Prop :=
  ∃ manifest plan owner archive, tree.manifest=.real host.uid 0o600 manifest ∧ manifest.id=id ∧
    manifest.source=computer ∧ host.tools.inspect (host.tools.tar computer.id)=.ok plan ∧
    archiveOf manifest tree=.real owner 0o600 archive ∧ manifest.sha256=host.tools.sha256 archive ∧
    if manifest.encrypted then ∃ password, archive=host.tools.cipher (host.tools.tar computer.id) password
    else archive=host.tools.tar computer.id

section Invariant
variable (host : BackupHost A P) (computer : ComputerConfig) (journal : BackupCreationJournal) (before : BackupWorld A)

structure Apart (w : BackupWorld A) : Prop where
  others : ∀ name, name≠journal.stagingName → name≠journal.backupId → w.backups name=before.backups name
  containers : OnlyNamed (journal.pauseTargets.map (·.id)) before.containers w.containers
  calls : ∀ call ∈ w.calls, RecordedRunning call

def Published (w : BackupWorld A) : Prop :=
  ∃ tree, w.backups journal.backupId=.real host.uid 0o700 tree ∧ WholeBackup host computer journal.backupId tree

/-- The journal is there, in one of its phases. -/
structure Busy (w : BackupWorld A) : Prop where
  apart : Apart journal before w
  recorded : ∃ phase, w.journal=.real host.uid 0o600 { journal with phase }
  target : w.backups journal.backupId=.absent ∨
    w.backups journal.stagingName=.absent ∧ Published host computer journal w

/-- Nothing is left of the run but a backup, if it came to that. -/
structure Over (w : BackupWorld A) : Prop where
  apart : Apart journal before w
  gone : w.journal=.absent
  staging : w.backups journal.stagingName=.absent
  target : w.backups journal.backupId=.absent ∨ Published host computer journal w
  resumed : NotPaused (journal.pauseTargets.map (·.id)) w.containers

end Invariant

def SameFiles (w t : BackupWorld A) : Prop := t.journal=w.journal ∧ t.backups=w.backups

variable {α : Type}

section Steps
variable {z : Formats} {host : BackupHost A P} {state : LoadedState} {computer : ComputerConfig}
  {journal : BackupCreationJournal} {before w t : BackupWorld A}

theorem Busy.same (h : Busy host computer journal before w) (hsam : SameFiles w t) (hapa : Apart journal before t) :
    Busy host computer journal before t := by
  obtain ⟨hjou,hbac⟩ := hsam
  refine ⟨hapa,?_,?_⟩
  · rw [hjou]
    exact h.recorded
  · rw [Published,hbac]
    exact h.target

theorem wp_pauseCommand (hdoc : DockerNames host) (hrun : ∀ target ∈ journal.pauseTargets, target.status = "running")
    (hw : Busy host computer journal before w) (command : PauseCommand) {ids : List String}
    (hids : ∀ id ∈ ids, id ∈ journal.pauseTargets.map (·.id)) :
    wp (pauseCommand host command ids)
      ⟨fun t => Apart journal before t ∧ SameFiles w t,fun _ t => Apart journal before t ∧ SameFiles w t,
        fun _ t => Apart journal before t ∧ SameFiles w t⟩ w := by
  have hcal : Apart journal before { w with calls := w.calls++[⟨command,ids,w.journal⟩] } := by
    refine ⟨hw.apart.others,hw.apart.containers,?_⟩
    intro call hcall
    rcases mem_append.1 hcall with hold | hnew
    · exact hw.apart.calls call hold
    · rw [mem_singleton.1 hnew]
      obtain ⟨phase,hjou⟩ := hw.recorded
      refine ⟨_,_,_,hjou,fun id hid => ?_⟩
      obtain ⟨target,htar,heq⟩ := mem_map.1 (hids id hid)
      exact ⟨target,htar,heq,hrun target htar⟩
  apply (wp_bind _ _ _ w).2
  refine (wp_write _ _ w).2 ⟨⟨hcal,rfl,rfl⟩,?_⟩
  apply (wp_zoom _ _ _ _).2
  have hste : ∀ containers, OnlyNamed ids w.containers containers →
      Apart journal before { w with calls := w.calls++[⟨command,ids,w.journal⟩], containers } := fun _ h =>
    ⟨hw.apart.others,hw.apart.containers.trans (h.mono hids),hcal.calls⟩
  exact (hdoc command ids w.containers w.containers (.refl _ _)).mono (fun c hc => ⟨hste c hc,rfl,rfl⟩)
    (fun _ c hc => ⟨hste c hc,rfl,rfl⟩) fun _ c hc => ⟨hste c hc,rfl,rfl⟩

theorem paused_named {targets containers : List RuntimeContainerBinding} {id : String}
    (h : id ∈ (targets.filter fun target =>
      (containerById containers target.id).any (·.status = "paused")).map (·.id)) : id ∈ targets.map (·.id) := by
  obtain ⟨target,htar,rfl⟩ := mem_map.1 h
  exact mem_map.2 ⟨target,(mem_filter.1 htar).1,rfl⟩

theorem wp_resume (hdoc : DockerNames host) (hrun : ∀ target ∈ journal.pauseTargets, target.status = "running")
    (hnam : (before.containers.map RuntimeContainerBinding.name).Nodup) (hw : Busy host computer journal before w)
    (phase : BackupCreationPhase) :
    wp (resumeBackupPauseTargets host state { journal with phase })
      ⟨fun t => Apart journal before t ∧ SameFiles w t,
        fun _ t => (Apart journal before t ∧ SameFiles w t) ∧ NotPaused (journal.pauseTargets.map (·.id)) t.containers,
        fun _ t => Apart journal before t ∧ SameFiles w t⟩ w := by
  have hsta : Apart journal before w ∧ SameFiles w w := ⟨hw.apart,rfl,rfl⟩
  apply (wp_ite _ _ _ w).2
  constructor
  · intro hnon
    refine (wp_pure () _ w).2 ⟨hsta,?_⟩
    have hnil : journal.pauseTargets=[] := List.isEmpty_iff.1 hnon
    rw [hnil]
    exact fun c _ hid => absurd hid not_mem_nil
  intro _
  dsimp only
  cases state.config.computers.find? (·.id=journal.computerId) with
  | none => exact (wp_fail _ _ w).2 hsta
  | some configured =>
    have hcoh : ∀ {t : BackupWorld A}, Apart journal before t →
        assertCoherentBackupPauseOutcome configured
          (managedComputerRuntimeObservation (host.names state configured) t.containers)=.ok () →
        NotPaused (journal.pauseTargets.map (·.id)) t.containers := fun ht hok c hc _ =>
      not_paused_of_coherent (ht.containers.nodup hnam) hok c hc
    apply (wp_bind _ _ _ w).2
    apply (wp_reads _ _ w).2
    apply (wp_bind _ _ _ w).2
    dsimp only
    cases assertPauseTargetsPresent configured journal.pauseTargets
      (managedComputerRuntimeObservation (host.names state configured) w.containers) with
    | error e => exact (wp_ofExcept_error e _ w).2 hsta
    | ok =>
      apply (wp_ofExcept_ok () _ w).2
      apply (wp_ite _ _ _ w).2
      constructor
      · intro _
        cases hok : assertCoherentBackupPauseOutcome configured
          (managedComputerRuntimeObservation (host.names state configured) w.containers) with
        | error e => exact (wp_ofExcept_error e _ w).2 hsta
        | ok => exact (wp_ofExcept_ok () _ w).2 ⟨hsta,hcoh hw.apart hok⟩
      · intro _
        apply (wp_bind _ _ _ w).2
        apply (wp_pauseCommand hdoc hrun hw .unpause fun id => paused_named).mono
        · exact fun _ ht => ht
        · intro _ t ht
          apply (wp_bind _ _ _ t).2
          apply (wp_reads _ _ t).2
          dsimp only
          cases hok : assertPauseTargetsResumed configured journal.pauseTargets
            (managedComputerRuntimeObservation (host.names state configured) t.containers) with
          | error e => exact (wp_ofExcept_error e _ t).2 ht
          | ok =>
            refine (wp_ofExcept_ok () _ t).2 ⟨ht,hcoh ht.1 ?_⟩
            unfold assertPauseTargetsResumed at hok
            dsimp only at hok
            cases hche : assertCoherentBackupPauseOutcome configured
              (managedComputerRuntimeObservation (host.names state configured) t.containers) with
            | ok => rfl
            | error e =>
              rw [hche] at hok
              cases hok
        · exact fun _ _ ht => ht

theorem ownedBackupDirectory_false {uid : ℕ} {path : String} {place : Place α}
    (h : ownedBackupDirectory uid path place=.ok false) : place=.absent := by
  unfold ownedBackupDirectory at h
  split at h
  · rfl
  · split at h
    · cases h
    · cases h
  · cases h

theorem ownedBackupDirectory_true {uid : ℕ} {path : String} {place : Place α}
    (h : ownedBackupDirectory uid path place=.ok true) : place≠.absent := by
  rintro rfl
  cases h

theorem treeRemoval_last (remnants : α → List α) (place : Place α) :
    (treeRemoval remnants place).getLastD place=.absent := by
  cases place <;> simp [treeRemoval,getLastD_eq_getLast?]

theorem Busy.staging (h : Busy host computer journal before w) (hdis : journal.backupId≠journal.stagingName)
    (hnon : w.backups journal.backupId=.absent) (place : Place (BackupTree A)) :
    Busy host computer journal before ((BackupWorld.backupLens journal.stagingName).set place w) := by
  refine ⟨⟨fun name hsta htar => ?_,h.apart.containers,h.apart.calls⟩,h.recorded,Or.inl ?_⟩
  · show Function.update w.backups journal.stagingName place name=_
    rw [Function.update_of_ne hsta]
    exact h.apart.others name hsta htar
  · show Function.update w.backups journal.stagingName place journal.backupId=_
    rw [Function.update_of_ne hdis]
    exact hnon

theorem wp_recoverDirectories (hdis : journal.backupId≠journal.stagingName)
    (hw : Busy host computer journal before w) (hres : NotPaused (journal.pauseTargets.map (·.id)) w.containers)
    (phase : BackupCreationPhase) :
    wp (recoverDirectories z host state { journal with phase })
      ⟨Busy host computer journal before,fun _ t => Busy host computer journal before t ∧
          t.backups journal.stagingName=.absent ∧ NotPaused (journal.pauseTargets.map (·.id)) t.containers,
        fun _ => Busy host computer journal before⟩ w := by
  apply (wp_bind _ _ _ w).2
  apply (wp_reads _ _ w).2
  dsimp only
  cases hsta : ownedBackupDirectory host.uid (join state.paths.backups journal.stagingName)
    (w.backups journal.stagingName) with
  | error e => exact hw
  | ok stagingExists =>
    apply (wp_bind _ _ _ w).2
    apply (wp_reads _ _ w).2
    dsimp only
    cases htar : ownedBackupDirectory host.uid (join state.paths.backups journal.backupId)
      (w.backups journal.backupId) with
    | error e => exact hw
    | ok targetExists =>
      apply (wp_ite _ _ _ w).2
      refine ⟨fun _ => (wp_fail _ _ w).2 hw,fun hbot => ?_⟩
      apply (wp_bind _ _ _ w).2
      apply (wp_reads _ _ w).2
      split
      next =>
        cases stagingExists with
        | false => exact (wp_pure () _ w).2 ⟨hw,ownedBackupDirectory_false hsta,hres⟩
        | true =>
          have hnon : w.backups journal.backupId=.absent :=
            hw.target.resolve_right fun hpub => ownedBackupDirectory_true hsta hpub.1
          apply (wp_zoom _ _ _ w).2
          refine (wp_writes _ _ _).2 ⟨fun place _ => hw.staging hdis hnon place,?_⟩
          rw [treeRemoval_last]
          refine ⟨hw.staging hdis hnon .absent,?_,hres⟩
          exact Function.update_self ..
      next => exact hw

theorem parseBackupCreationJournal_same {isDate : String → Bool} {record parsed : BackupCreationJournal}
    (h : parseBackupCreationJournal isDate record=.ok parsed) : parsed=record := by
  obtain ⟨-,-,h⟩ := bind_ok.1 h
  obtain ⟨-,-,h⟩ := bind_ok.1 h
  obtain ⟨-,-,h⟩ := bind_ok.1 h
  obtain ⟨-,-,h⟩ := bind_ok.1 h
  split at h
  · cases h
  obtain ⟨-,-,h⟩ := bind_ok.1 h
  obtain ⟨-,-,h⟩ := bind_ok.1 h
  split at h
  · cases h
  split at h
  · cases h
  split at h
  · cases h
  split at h
  · cases h
  split at h
  · cases h
  split at h
  · cases h
  split at h
  · cases h
  split at h
  · cases h
  exact (Except.ok.inj h).symm

theorem wp_removeJournal_over (hw : Busy host computer journal before w)
    (hsta : w.backups journal.stagingName=.absent)
    (hres : NotPaused (journal.pauseTargets.map (·.id)) w.containers) :
    wp (removeBackupCreationJournal state)
      ⟨Over host computer journal before,fun _ => Over host computer journal before,fun _ _ => False⟩ w := by
  obtain ⟨phase,hjou⟩ := hw.recorded
  have hove : Over host computer journal before (BackupWorld.journalLens.set .absent w) :=
    ⟨⟨hw.apart.others,hw.apart.containers,hw.apart.calls⟩,rfl,hsta,
      hw.target.imp_right fun hpub => hpub.2,hres⟩
  have hget : BackupWorld.journalLens.get w=.real host.uid 0o600 { journal with phase } := hjou
  apply (wp_zoom _ _ _ w).2
  rw [hget]
  refine wp_of_ok rfl (fun place hpla => ?_) hove
  rw [mem_singleton.1 hpla]
  exact hove

theorem wp_recover_busy (hdoc : DockerNames host) (hrun : ∀ target ∈ journal.pauseTargets, target.status = "running")
    (hnam : (before.containers.map RuntimeContainerBinding.name).Nodup)
    (hdis : journal.backupId≠journal.stagingName) (hw : Busy host computer journal before w) :
    wp (recoverPendingBackupCreation z host state)
      ⟨fun t => Busy host computer journal before t ∨ Over host computer journal before t,
        fun _ => Over host computer journal before,fun _ => Busy host computer journal before⟩ w := by
  obtain ⟨phase,hjou⟩ := hw.recorded
  apply (wp_bind _ _ _ w).2
  apply (wp_reads _ _ w).2
  rw [hjou]
  unfold readBackupCreationJournal
  dsimp only
  rw [if_neg (by simp)]
  cases hpar : parseBackupCreationJournal host.isDate { journal with phase } with
  | error e => exact hw
  | ok parsed =>
    have hsam:=parseBackupCreationJournal_same hpar
    subst hsam
    apply (wp_ite _ _ _ w).2
    refine ⟨fun _ => (wp_fail _ _ w).2 hw,fun _ => ?_⟩
    apply (wp_bind _ _ _ w).2
    apply (wp_resume hdoc hrun hnam hw phase).mono
    · exact fun t ht => Or.inl (hw.same ht.2 ht.1)
    · rintro _ t ⟨ht,hres⟩
      apply (wp_bind _ _ _ t).2
      apply (wp_recoverDirectories hdis (hw.same ht.2 ht.1) hres phase).mono
      · exact fun u hu => Or.inl hu
      · rintro _ u ⟨hu,hsta,hres⟩
        apply (wp_bind _ _ _ u).2
        apply (wp_removeJournal_over hu hsta hres).mono
        · exact fun v hv => Or.inr hv
        · exact fun _ v hv => (wp_pure true _ v).2 hv
        · exact fun _ _ hfal => hfal.elim
      · exact fun _ _ hu => hu
    · exact fun _ t ht => hw.same ht.2 ht.1

theorem wp_recover_over (hw : w.journal=.absent) :
    wp (recoverPendingBackupCreation z host state) ⟨fun t => t=w,fun _ t => t=w,fun _ t => t=w⟩ w := by
  apply (wp_bind _ _ _ w).2
  apply (wp_reads _ _ w).2
  rw [hw]
  exact (wp_pure false _ w).2 rfl

def Captured (host : BackupHost A P) (computerId : String) (tree : BackupTree A) : Prop :=
  (∃ owner, tree.plain=.real owner 0o600 (host.tools.tar computerId)) ∧ tree.encrypted=.absent ∧
    tree.manifest=.absent

theorem wp_captureHome (staging computerId : String) :
    wp (captureHome host staging computerId)
      ⟨fun _ => True,fun _ t => Captured host computerId t,fun _ _ => True⟩ (∅ : BackupTree A) := by
  have harc : wp (host.tools.archive computerId) ⟨fun _ => True,
      fun _ t => ∃ owner mode, t=.real owner mode (host.tools.tar computerId),fun _ _ => True⟩ .absent := by
    refine ⟨fun _ _ => trivial,?_⟩
    cases hres : (host.tools.archive computerId).result .absent with
    | ok => exact host.tools.archive_made computerId .absent hres
    | error => trivial
  apply (wp_bind _ _ _ _).2
  apply (wp_zoom _ _ _ _).2
  apply harc.mono
  · exact fun _ _ => trivial
  · rintro _ _ ⟨owner,mode,rfl⟩
    apply (wp_bind _ _ _ _).2
    apply (wp_reads _ _ _).2
    apply (wp_zoom _ _ _ _).2
    exact (wp_write _ _ _).2 ⟨trivial,⟨owner,rfl⟩,rfl,rfl⟩
  · exact fun _ _ _ => trivial

variable {tree : BackupTree A}

theorem wp_writeManifest (path : String) {manifest : BackupManifest}
    (hman : tree.manifest=.absent) {good : BackupTree A → Prop}
    (hgoo : good { tree with manifest := .real host.uid 0o600 manifest }) :
    wp (zoom BackupTree.manifestLens (atomicWrite host.uid path manifest 0o600) >>= fun _ => pure manifest)
      ⟨fun _ => True,fun _ t => good t,fun _ _ => True⟩ tree := by
  apply (wp_bind _ _ _ tree).2
  apply (wp_zoom _ _ _ tree).2
  have hget : BackupTree.manifestLens.get tree=.absent := hman
  rw [hget]
  exact wp_of_ok rfl (fun _ _ => trivial) ((wp_pure manifest _ _).2 hgoo)

theorem wp_encryptBackupFile (path : String) (source : A) (password : String) :
    wp (encryptBackupFile host path source password)
      ⟨fun _ => True,fun _ t => t=.real host.uid 0o600 (host.tools.cipher source password),fun _ _ => True⟩
      .absent := by
  refine wp_of_ok rfl (fun _ _ => trivial) ?_
  rw [getLastD_concat]

theorem wp_finishStaging (staging : String) (fresh : BackupFresh) (options : BackupOptions) (password : Option String) (htre : Captured host computer.id tree) :
    wp (finishStaging host staging fresh options computer password)
      ⟨fun _ => True,fun _ t => WholeBackup host computer (fresh.backupId computer) t,fun _ _ => True⟩ tree := by
  obtain ⟨⟨owner,hpla⟩,henc,hman⟩ := htre
  apply (wp_bind _ _ _ tree).2
  apply (wp_reads _ _ tree).2
  rw [hpla]
  dsimp only [readArchive,Place.content?]
  apply (wp_bind _ _ _ tree).2
  cases hins : host.tools.inspect (host.tools.tar computer.id) with
  | error e => exact (wp_ofExcept_error e _ tree).2 trivial
  | ok plan =>
    apply (wp_ofExcept_ok plan _ tree).2
    cases password with
    | none =>
      apply (wp_bind _ _ _ _).2
      apply (wp_reads _ _ _).2
      rw [hpla]
      exact wp_writeManifest _ hman
        ⟨_,plan,owner,_,rfl,rfl,rfl,hins,hpla,rfl,by simp⟩
    | some password =>
      apply (wp_bind _ _ _ _).2
      apply (wp_zoom _ _ _ _).2
      have hget : BackupTree.encryptedLens.get tree=.absent := henc
      rw [hget]
      apply (wp_encryptBackupFile _ _ password).mono
      · exact fun _ _ => trivial
      · rintro _ _ rfl
        apply (wp_bind _ _ _ _).2
        apply (wp_zoom _ _ _ _).2
        have hfil : BackupTree.plainLens.get (BackupTree.encryptedLens.set
            (.real host.uid 0o600 (host.tools.cipher (host.tools.tar computer.id) password)) tree) =
              .real owner 0o600 (host.tools.tar computer.id) := hpla
        rw [hfil]
        refine wp_of_ok rfl (fun _ _ => trivial) ?_
        apply (wp_bind _ _ _ _).2
        apply (wp_reads _ _ _).2
        show wp (zoom BackupTree.manifestLens (atomicWrite _ _ _ _) >>= fun _ => pure _) _ _
        apply wp_writeManifest
        · exact hman
        · exact ⟨_,plan,host.uid,_,rfl,rfl,rfl,hins,rfl,rfl,by simp⟩
      · exact fun _ _ _ => trivial

structure Working (host : BackupHost A P) (computer : ComputerConfig) (journal : BackupCreationJournal)
    (before : BackupWorld A) (tree : BackupTree A) (w : BackupWorld A) : Prop where
  busy : Busy host computer journal before w
  target : w.backups journal.backupId=.absent
  staging : w.backups journal.stagingName=.real host.uid 0o700 tree

theorem wp_inStaging {m : Durable (BackupTree A) String α} {R : α → BackupTree A → Prop}
    (hm : wp m ⟨fun _ => True,R,fun _ _ => True⟩ tree) (hdis : journal.backupId≠journal.stagingName)
    (hw : Working host computer journal before tree w) (path : String) :
    wp (zoom (BackupWorld.backupLens journal.stagingName) (inside path m))
      ⟨Busy host computer journal before,fun a t => t.containers=w.containers ∧
          ∃ tree', R a tree' ∧ Working host computer journal before tree' t,
        fun _ => Busy host computer journal before⟩ w := by
  have hbus:=hw.busy.staging hdis hw.target
  have hget : (BackupWorld.backupLens journal.stagingName).get w=.real host.uid 0o700 tree := hw.staging
  apply (wp_zoom _ _ _ w).2
  rw [hget]
  apply wp_inside.2
  apply hm.mono
  · exact fun tree' _ => hbus (.real host.uid 0o700 tree')
  · refine fun a tree' ha => ⟨rfl,tree',ha,hbus _,?_,Function.update_self ..⟩
    show Function.update w.backups journal.stagingName _ journal.backupId=.absent
    rw [Function.update_of_ne hdis]
    exact hw.target
  · exact fun _ tree' _ => hbus (.real host.uid 0o700 tree')

theorem wp_writePhase (hw : Working host computer journal before tree w)
    (phase : BackupCreationPhase) :
    wp (writeBackupCreationJournal host state { journal with phase })
      ⟨Busy host computer journal before,
        fun _ t => t.containers=w.containers ∧ Working host computer journal before tree t,fun _ _ => False⟩ w := by
  obtain ⟨old,hjou⟩ := hw.busy.recorded
  have hbus : Busy host computer journal before
      (BackupWorld.journalLens.set (.real host.uid 0o600 { journal with phase }) w) :=
    ⟨⟨hw.busy.apart.others,hw.busy.apart.containers,hw.busy.apart.calls⟩,⟨phase,rfl⟩,hw.busy.target⟩
  have hget : BackupWorld.journalLens.get w=.real host.uid 0o600 { journal with phase := old } := hjou
  apply (wp_zoom _ _ _ w).2
  rw [hget]
  refine wp_of_ok rfl (fun place hpla => ?_) ⟨rfl,hbus,hw.target,hw.staging⟩
  rw [mem_singleton.1 hpla]
  exact hbus

theorem wp_publishBackup (hdis : journal.backupId≠journal.stagingName)
    (hw : Working host computer journal before tree w) (hwho : WholeBackup host computer journal.backupId tree) :
    wp (publishBackup journal)
      ⟨Busy host computer journal before,fun _ t => t.containers=w.containers ∧
          t.backups journal.stagingName=.absent ∧ Busy host computer journal before t,fun _ _ => False⟩ w := by
  have hpub : publishBackup journal w =
      ⟨[{ w with backups := renamedBackup journal.stagingName journal.backupId w.backups }],.ok ()⟩ := by
    unfold publishBackup
    rw [hw.staging,hw.target]
  have hbus : Busy host computer journal before
      { w with backups := renamedBackup journal.stagingName journal.backupId w.backups } := by
    refine ⟨⟨fun name hsta htar => ?_,hw.busy.apart.containers,hw.busy.apart.calls⟩,hw.busy.recorded,
      Or.inr ⟨Function.update_self ..,tree,?_,hwho⟩⟩
    · show renamedBackup journal.stagingName journal.backupId w.backups name=_
      rw [renamedBackup,Function.update_of_ne hsta,Function.update_of_ne htar]
      exact hw.busy.apart.others name hsta htar
    · show renamedBackup journal.stagingName journal.backupId w.backups journal.backupId=_
      rw [renamedBackup,Function.update_of_ne hdis,Function.update_self,hw.staging]
  refine wp_of_ok hpub (fun t ht => ?_) ⟨rfl,Function.update_self ..,hbus⟩
  rw [mem_singleton.1 ht]
  exact hbus

theorem wp_mkdirStaging (path : String) (hdis : journal.backupId≠journal.stagingName)
    (hw : Busy host computer journal before w) (hsta : w.backups journal.stagingName=.absent)
    (htar : w.backups journal.backupId=.absent) :
    wp (zoom (BackupWorld.backupLens journal.stagingName) (mkdirStaging host.uid path))
      ⟨Busy host computer journal before,fun _ t => Working host computer journal before ∅ t,fun _ _ => False⟩ w := by
  have hbus:=hw.staging hdis htar (.real host.uid 0o700 ∅)
  have hget : (BackupWorld.backupLens journal.stagingName).get w=.absent := hsta
  apply (wp_zoom _ _ _ w).2
  rw [hget]
  refine wp_of_ok rfl (fun place hpla => ?_) ⟨hbus,?_,Function.update_self ..⟩
  · rw [mem_singleton.1 hpla]
    exact hbus
  · show Function.update w.backups journal.stagingName _ journal.backupId=.absent
    rw [Function.update_of_ne hdis]
    exact htar

theorem wp_pauseTargets (hdoc : DockerNames host)
    (hrun : ∀ target ∈ journal.pauseTargets, target.status = "running")
    (hw : Working host computer journal before tree w) :
    wp (when (!journal.pauseTargets.isEmpty) do
        pauseCommand host .pause (journal.pauseTargets.map (·.id))
        writeBackupCreationJournal host state { journal with phase := .paused })
      ⟨Busy host computer journal before,fun _ t => Working host computer journal before tree t,
        fun _ => Busy host computer journal before⟩ w := by
  apply (wp_ite _ _ _ w).2
  refine ⟨fun _ => ?_,fun _ => (wp_pure () _ w).2 hw⟩
  apply (wp_bind _ _ _ w).2
  apply (wp_pauseCommand hdoc hrun hw.busy .pause fun _ hid => hid).mono
  · exact fun t ht => hw.busy.same ht.2 ht.1
  · rintro _ t ⟨ht,hsam⟩
    have hwor : Working host computer journal before tree t := by
      refine ⟨hw.busy.same hsam ht,?_,?_⟩
      · rw [hsam.2]
        exact hw.target
      · rw [hsam.2]
        exact hw.staging
    apply (wp_writePhase hwor .paused).mono
    · exact fun _ hu => hu
    · exact fun _ _ hu => hu.2
    · exact fun _ _ hfal => hfal.elim
  · exact fun _ t ht => hw.busy.same ht.2 ht.1

theorem wp_captureBackup (hdoc : DockerNames host)
    (hrun : ∀ target ∈ journal.pauseTargets, target.status = "running")
    (hnam : (before.containers.map RuntimeContainerBinding.name).Nodup)
    (hdis : journal.backupId≠journal.stagingName) {fresh : BackupFresh} (options : BackupOptions)
    (password : Option String) (hid : journal.backupId=fresh.backupId computer)
    (hw : Busy host computer journal before w) (hsta : w.backups journal.stagingName=.absent)
    (htar : w.backups journal.backupId=.absent) :
    wp (captureBackup host state fresh options computer password journal)
      ⟨fun t => Busy host computer journal before t ∨ Over host computer journal before t,
        fun _ => Over host computer journal before,fun _ => Busy host computer journal before⟩ w := by
  apply (wp_bind _ _ _ w).2
  apply (wp_mkdirStaging _ hdis hw hsta htar).mono (fun _ ht => Or.inl ht) ?_ (fun _ _ hfal => hfal.elim)
  intro _ w₁ hw₁
  apply (wp_bind _ _ _ w₁).2
  apply (wp_pauseTargets hdoc hrun hw₁).mono (fun _ ht => Or.inl ht) ?_ (fun _ _ ht => ht)
  intro _ w₂ hw₂
  apply (wp_bind _ _ _ w₂).2
  apply (wp_inStaging (wp_captureHome _ computer.id) hdis hw₂ _).mono (fun _ ht => Or.inl ht) ?_
    (fun _ _ ht => ht)
  rintro _ w₃ ⟨-,tree₃,htre,hw₃⟩
  apply (wp_bind _ _ _ w₃).2
  apply (wp_writePhase hw₃ .archiveReady).mono (fun _ ht => Or.inl ht) ?_ (fun _ _ hfal => hfal.elim)
  rintro _ w₄ ⟨-,hw₄⟩
  apply (wp_bind _ _ _ w₄).2
  apply (wp_resume hdoc hrun hnam hw₄.busy .archiveReady).mono (fun t ht => Or.inl (hw₄.busy.same ht.2 ht.1)) ?_
    (fun _ t ht => hw₄.busy.same ht.2 ht.1)
  rintro _ w₅ ⟨⟨hapa,hsam⟩,hres⟩
  have hw₅ : Working host computer journal before tree₃ w₅ := by
    refine ⟨hw₄.busy.same hsam hapa,?_,?_⟩
    · rw [hsam.2]
      exact hw₄.target
    · rw [hsam.2]
      exact hw₄.staging
  apply (wp_bind _ _ _ w₅).2
  apply (wp_writePhase hw₅ .resumed).mono (fun _ ht => Or.inl ht) ?_ (fun _ _ hfal => hfal.elim)
  rintro _ w₆ ⟨hcon,hw₆⟩
  apply (wp_bind _ _ _ w₆).2
  apply (wp_inStaging (wp_finishStaging _ fresh options password htre) hdis hw₆ _).mono
    (fun _ ht => Or.inl ht) ?_ (fun _ _ ht => ht)
  rintro manifest w₇ ⟨hco₇,tree₇,htr₇,hw₇⟩
  rw [← hid] at htr₇
  apply (wp_bind _ _ _ w₇).2
  apply (wp_publishBackup hdis hw₇ htr₇).mono (fun _ ht => Or.inl ht) ?_ (fun _ _ hfal => hfal.elim)
  rintro _ w₈ ⟨hco₈,hgon,hw₈⟩
  have hre₈ : NotPaused (journal.pauseTargets.map (·.id)) w₈.containers := by
    rw [hco₈,hco₇,hcon]
    exact hres
  apply (wp_bind _ _ _ w₈).2
  apply (wp_removeJournal_over hw₈ hgon hre₈).mono (fun _ ht => Or.inr ht) ?_ (fun _ _ hfal => hfal.elim)
  exact fun _ t ht => (wp_pure manifest _ t).2 ht

end Steps

end Qubicl.Cli.BackupCreation
