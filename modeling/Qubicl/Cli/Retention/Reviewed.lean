import Qubicl.Cli.Retention.Prune
import Qubicl.Core.LegacyJournal

/-!
# What is pruned and what was shown

A run removes, newest first, what is left of the verified backups without the ones to keep.
-/

namespace Qubicl.Cli.Retention
open Foundation Core Dashboard BackupCreation List

variable {A : Type} {z : Formats} {host : MetadataHost A} {path : String} {store : BackupStore A}
  {selects : BackupManifest → Bool} {candidate : VerifiedPruneCandidate}

/-- The archive of the backup is a private file of its own, with the checksum of the manifest. -/
def ChecksumVerified (host : MetadataHost A) (store : BackupStore A) (id : String) (manifest : BackupManifest) : Prop :=
  ∃ owner mode directory, (id,.real owner mode directory) ∈ store.entries ∧
    ∃ mode file, directory.archives manifest.archive=.real host.uid mode file ∧ file.nlink=1 ∧ mode &&& 0o077=0 ∧
      manifest.sha256 = .string (host.sha256 file.bytes)

structure Examined (host : MetadataHost A) (store : BackupStore A) (selects : BackupManifest → Bool)
    (candidate : VerifiedPruneCandidate) : Prop where
  selected : selects candidate.manifest=true
  named : candidate.manifest.id=candidate.id
  verified : ChecksumVerified host store candidate.id candidate.manifest
  stored : ∃ owner mode directory, (candidate.id,.real owner mode directory) ∈ store.entries ∧
    directory.inode=candidate.directoryInode ∧
      archiveIdentity (directory.archives candidate.manifest.archive)=some candidate.archive

variable {manifest : BackupManifest}

theorem verifiedArchive_ok {place : Place (ArchiveFile A)} {identity : ArchiveIdentity}
    (h : verifiedArchive host path manifest place=.ok identity) :
    archiveIdentity place=some identity ∧ ∃ mode file, place=.real host.uid mode file ∧ file.nlink=1 ∧
      mode &&& 0o077=0 ∧ manifest.sha256 = .string (host.sha256 file.bytes) := by
  unfold verifiedArchive at h
  split at h
  next => cases h
  next => cases h
  next => cases h
  next owner mode file =>
    split at h
    next => cases h
    next =>
      split at h
      next => cases h
      next hpri =>
        split at h
        next => cases h
        next hdig =>
          cases h
          simp only [ne_eq,not_or,not_not] at hpri hdig
          obtain ⟨hnli,hown,hmod⟩ := hpri
          subst hown
          exact ⟨rfl,mode,file,rfl,hnli,hmod,hdig⟩

variable {directory : Dashboard.BackupDirectory A} {id key target : String}
  {entry : String × Place (Dashboard.BackupDirectory A)} {store' : BackupStore A} {rows : List DashboardBackup}

theorem readManifest_id (h : readManifest z host path id directory=.ok manifest) : manifest.id=id := by
  unfold readManifest at h
  split at h
  next => cases h
  next =>
    cases hrea : readDocument (join (join path id) "manifest.json") directory.manifest with
    | error reason =>
      rw [hrea] at h
      cases h
    | ok document =>
      rw [hrea] at h
      simp only [bind,Except.bind] at h
      split at h
      next => cases h
      next =>
        split at h
        next =>
          split at h
          next =>
            cases h
            rfl
          next => cases h
        next => cases h

theorem verifiedPruneCandidate_ok {place : Place (Dashboard.BackupDirectory A)}
    (h : verifiedPruneCandidate host path id place directory manifest=.ok candidate) :
    candidate.manifest=manifest ∧ candidate.id=id ∧ candidate.directoryInode=directory.inode ∧
      verifiedArchive host (join (join path id) manifest.archive) manifest (directory.archives manifest.archive) =
        .ok candidate.archive := by
  unfold verifiedPruneCandidate at h
  cases hfou : ownedBackupDirectory host.uid (join path id) place with
  | error reason =>
    rw [hfou] at h
    cases h
  | ok found =>
    rw [hfou] at h
    simp only [bind,Except.bind] at h
    split at h
    next => cases h
    next =>
      split at h
      next => cases h
      next archive harc =>
        cases h
        exact ⟨rfl,rfl,rfl,harc⟩

theorem examine_ok (h : (examine z host path selects entry).bind Except.toOption=some candidate)
    (hent : entry ∈ store.entries) : candidate.id=entry.1 ∧ Examined host store selects candidate := by
  obtain ⟨examined,hexa,hok⟩ := Option.bind_eq_some_iff.1 h
  cases examined with
  | error reason => cases hok
  | ok found =>
    cases hok
    unfold examine at hexa
    split at hexa
    next id owner mode directory =>
      split at hexa
      next => cases hexa
      next manifest hrea =>
        split at hexa
        next hsel =>
          obtain ⟨hman,hid,hino,harc⟩ := verifiedPruneCandidate_ok (Option.some.inj hexa)
          obtain ⟨hide,mode',file,hpla,hver⟩ := verifiedArchive_ok harc
          refine ⟨hid,?_,?_,?_,owner,mode,directory,?_,hino.symm,?_⟩
          · rw [hman]
            exact hsel
          · rw [hman,hid]
            exact readManifest_id hrea
          · rw [hman,hid]
            exact ⟨owner,mode,directory,hent,mode',file,hpla,hver⟩
          · rw [hid]
            exact hent
          · rw [hman]
            exact hide
        next => cases hexa
    next => cases hexa

theorem mem_byName : entry ∈ byName host store ↔ entry ∈ store.entries :=
  mem_sorted

theorem candidates_examined (h : candidate ∈ candidates z host path selects store) :
    Examined host store selects candidate := by
  obtain ⟨entry,hent,hexa⟩ := mem_filterMap.1 h
  exact (examine_ok hexa (mem_byName.1 hent)).2

theorem filterMap_sublist {α β γ : Type} {f : α → Option β} {key : α → γ} {key' : β → γ} {xs : List α}
    (h : ∀ x ∈ xs, ∀ y, f x=some y → key' y=key x) : ((xs.filterMap f).map key').Sublist (xs.map key) := by
  induction xs with
  | nil => exact .slnil
  | cons x xs ih =>
    have hres:=ih fun x hx => h x (mem_cons_of_mem _ hx)
    cases hx : f x with
    | none =>
      rw [filterMap_cons_none hx]
      exact hres.cons _
    | some y =>
      rw [filterMap_cons_some hx,map_cons,map_cons,h x mem_cons_self y hx]
      exact hres.cons_cons _

theorem candidates_nodup : ((candidates z host path selects store).map (·.id)).Nodup := by
  have hnam : ((byName host store).map Prod.fst).Nodup :=
    ((sorted_perm _ store.entries).map Prod.fst).nodup_iff.2 store.nodup
  refine hnam.sublist (filterMap_sublist fun entry hent found hfou => ?_)
  exact (examine_ok hfou (mem_byName.1 hent)).1

theorem get_of_mem {α : Type} {r : Record α} {x : α} (h : (key,x) ∈ r.entries) : r.get key=some x := by
  have hfin : ∃ entry, r.entries.find? (fun entry => entry.1=key)=some entry := by
    rw [← Option.isSome_iff_exists,find?_isSome]
    exact ⟨_,h,by simp⟩
  obtain ⟨entry,hent⟩ := hfin
  have hkey : entry.1=key := by simpa using find?_some hent
  have hsam : entry=(key,x) := inj_on_of_nodup_map r.nodup (mem_of_find?_eq_some hent) h hkey
  unfold Record.get
  rw [hent,hsam]
  rfl

theorem unchanged_ok (h : Examined host store selects candidate)
    (hget : store'.get candidate.id=store.get candidate.id) :
    assertPruneCandidateUnchanged store' candidate=.ok () := by
  obtain ⟨owner,mode,directory,hmem,hino,hide⟩ := h.stored
  unfold assertPruneCandidateUnchanged
  rw [hget,get_of_mem hmem]
  exact if_pos ⟨hino,hide⟩

theorem without_get (hne : key≠id) : (without store id).get key=store.get key := by
  unfold Record.get without
  congr 1
  simp only [find?_filter]
  refine congrArg (fun p => store.entries.find? p) (funext fun entry => ?_)
  by_cases hkey : entry.1=key
  · simp [hkey,hne]
  · simp [hkey]

theorem removeCandidates_attempted {refuses : String → Bool} {rest : List VerifiedPruneCandidate}
    (hexa : ∀ candidate ∈ rest, Examined host store selects candidate)
    (hget : ∀ candidate ∈ rest, store'.get candidate.id=store.get candidate.id) (hnod : (rest.map (·.id)).Nodup) :
    (∀ id ∈ (removeCandidates path refuses store' rest).1, id ∈ rest.map (·.id)) ∧
      ((∀ id, refuses id=false) → (removeCandidates path refuses store' rest).1=rest.map (·.id)) := by
  induction rest generalizing store' with
  | nil => exact ⟨fun id hid => hid,fun _ => rfl⟩
  | cons candidate rest ih =>
    obtain ⟨hfre,hnod⟩ := nodup_cons.1 hnod
    have hunc:=unchanged_ok (hexa candidate mem_cons_self) (hget candidate mem_cons_self)
    unfold removeCandidates
    simp only [hunc]
    split
    next href =>
      refine ⟨fun id hid => ?_,fun hnon => ?_⟩
      · rw [mem_singleton.1 hid]
        exact mem_cons_self
      · rw [hnon] at href
        cases href
    next =>
      have hget' : ∀ other ∈ rest, (without store' candidate.id).get other.id=store.get other.id := by
        intro other hoth
        have hne : other.id≠candidate.id := fun heq => hfre (mem_map.2 ⟨other,hoth,heq⟩)
        rw [without_get hne]
        exact hget other (mem_cons_of_mem _ hoth)
      have hres:=ih (fun other hoth => hexa other (mem_cons_of_mem _ hoth)) hget' hnod
      refine ⟨fun id hid => ?_,fun hnon => ?_⟩
      · rcases mem_cons.1 hid with rfl | hid
        · exact mem_cons_self
        · exact mem_cons_of_mem _ (hres.1 id hid)
      · rw [map_cons,hres.2 hnon]

theorem mapM_ok {α β : Type} {f : α → Except String β} {xs : List α} (h : ∀ x ∈ xs, ∃ y, f x=.ok y) :
    ∃ ys, xs.mapM f=.ok ys := by
  induction xs with
  | nil => exact ⟨[],rfl⟩
  | cons x xs ih =>
    obtain ⟨y,hy⟩ := h x mem_cons_self
    obtain ⟨ys,hys⟩ := ih fun x hx => h x (mem_cons_of_mem _ hx)
    refine ⟨y::ys,?_⟩
    rw [mapM_cons,hy,hys]
    rfl

def doomed (z : Formats) (host : MetadataHost A) (path : String) (selects : BackupManifest → Bool) (keep : ℕ)
    (store : BackupStore A) : List VerifiedPruneCandidate :=
  (sorted (newestFirst host) (candidates z host path selects store)).drop keep

theorem mem_doomed {keep : ℕ} : candidate ∈ doomed z host path selects keep store ↔
    candidate ∈ candidates z host path selects store ∧
      keep≤rank (newestFirst host) (candidates z host path selects store) (fun _ => true) candidate := by
  have hnod : (candidates z host path selects store).Nodup := candidates_nodup.of_map _
  constructor
  · intro h
    have hmem:=mem_sorted.1 (mem_of_mem_drop h)
    refine ⟨hmem,(mem_drop_sorted hnod hmem rfl keep).1 ?_⟩
    rw [filter_true]
    exact h
  · rintro ⟨hmem,hkee⟩
    have h:=(mem_drop_sorted hnod hmem rfl keep).2 hkee
    rw [filter_true] at h
    exact h

/-- What a run begins to remove, and all that it removes where no removal fails. -/
theorem pruneVerifiedBackups_attempted (z : Formats) (host : MetadataHost A) (path : String)
    (selects : BackupManifest → Bool) (keep : ℕ) (refuses : String → Bool) (store : BackupStore A) :
    (∀ id ∈ (pruneVerifiedBackups z host path selects keep refuses store).attempted,
        id ∈ (doomed z host path selects keep store).map (·.id)) ∧
      ((∀ id, refuses id=false) → (pruneVerifiedBackups z host path selects keep refuses store).attempted =
        (doomed z host path selects keep store).map (·.id)) := by
  have hper:=sorted_perm (newestFirst host) (candidates z host path selects store)
  have hexa : ∀ candidate ∈ sorted (newestFirst host) (candidates z host path selects store),
      Examined host store selects candidate := fun candidate hmem => candidates_examined (hper.subset hmem)
  obtain ⟨units,huni⟩ := mapM_ok fun candidate hmem => ⟨(),unchanged_ok (hexa candidate hmem) rfl⟩
  unfold pruneVerifiedBackups
  simp only [huni]
  refine removeCandidates_attempted (fun candidate hmem => hexa candidate (mem_of_mem_drop hmem))
    (fun _ _ => rfl) ?_
  have hnod:=(hper.map (·.id)).nodup_iff.2 candidates_nodup
  exact hnod.sublist ((drop_sublist _ _).map _)

def Selected (z : Formats) (host : MetadataHost A) (path : String) (computers : List ComputerConfig)
    (selector : Option String) (store : BackupStore A) (selects : BackupManifest → Bool) : Prop :=
  (selector.filter (· ≠ "")=none ∧ selects=fun _ => true) ∨
    ∃ text id, selector=some text ∧ selects=ofSource id ∧
      ((∃ computer ∈ computers, computer.id=id ∧ (computer.id=text ∨ computer.name=text)) ∨ text=id ∨
        sourceIds z host path store text=[id])

def Outlived (z : Formats) (host : MetadataHost A) (path : String) (selects : BackupManifest → Bool) (keep : ℕ)
    (store : BackupStore A) (attempted : List String) (candidate : VerifiedPruneCandidate) : Prop :=
  ∃ newer : List VerifiedPruneCandidate, newer.length=keep ∧ newer.Nodup ∧ ∀ other ∈ newer,
    other ∈ candidates z host path selects store ∧ candidate.time host≤other.time host ∧ other.id ∉ attempted

/-- What a run begins to remove is verified, belongs to what is selected, and is none of the newest. -/
def SoundlyPruned (z : Formats) (host : MetadataHost A) (path : String) (computers : List ComputerConfig)
    (selector : Option String) (keep : ℕ) (store : BackupStore A) (attempted : List String) : Prop :=
  attempted=[] ∨ ∃ selects, Selected z host path computers selector store selects ∧ ∀ id ∈ attempted,
    ∃ candidate ∈ candidates z host path selects store, candidate.id=id ∧ selects candidate.manifest=true ∧
      ChecksumVerified host store id candidate.manifest ∧ Outlived z host path selects keep store attempted candidate

variable {computers : List ComputerConfig}

theorem directId_selected {text : String} (h : directId computers text=some id) :
    (∃ computer ∈ computers, computer.id=id ∧ (computer.id=text ∨ computer.name=text)) ∨ text=id := by
  unfold directId at h
  split at h
  next computer hfin =>
    cases h
    exact .inl ⟨computer,mem_of_find?_eq_some hfin,rfl,by simpa using find?_some hfin⟩
  next =>
    split at h
    next =>
      cases h
      exact .inr rfl
    next => cases h

theorem selection_selected {selector : Option String}
    (h : selection z host path computers selector store=.ok (some selects)) :
    Selected z host path computers selector store selects := by
  unfold selection at h
  split at h
  next hnon =>
    cases h
    exact .inl ⟨hnon,rfl⟩
  next text hsom =>
    have hsel : selector=some text := (Option.filter_eq_some_iff.1 hsom).1
    split at h
    next id hid =>
      cases h
      refine .inr ⟨text,id,hsel,rfl,?_⟩
      exact (directId_selected hid).imp_right .inl
    next =>
      split at h
      next => cases h
      next id hids =>
        cases h
        exact .inr ⟨text,id,hsel,rfl,.inr (.inr hids)⟩
      next => cases h

theorem time_le {other : VerifiedPruneCandidate} {l : List VerifiedPruneCandidate}
    (h : Precedes (newestFirst host) l other candidate) : candidate.time host≤other.time host := by
  have hle : (newestFirst host other candidate).isLE=true := by
    rcases h with hlt | ⟨heq,-⟩
    · rw [hlt]
      rfl
    · rw [heq]
      rfl
  by_contra hlt
  have hgt : compare (candidate.time host) (other.time host)=.gt := Int.compare_eq_gt.2 (by omega)
  have hnew : newestFirst host other candidate=.gt := by
    show (compare (candidate.time host) (other.time host)).then _=.gt
    rw [hgt]
    rfl
  rw [hnew] at hle
  cases hle

theorem outlived {keep : ℕ} {attempted : List String} (h : candidate ∈ doomed z host path selects keep store)
    (hatt : ∀ id ∈ attempted, id ∈ (doomed z host path selects keep store).map (·.id)) :
    Outlived z host path selects keep store attempted candidate := by
  unfold doomed at h hatt
  generalize hord : sorted (newestFirst host) (candidates z host path selects store)=ordered at h hatt
  have hper : ordered.Perm (candidates z host path selects store) := hord ▸ sorted_perm _ _
  have hids : (ordered.map (·.id)).Nodup := (hper.map _).nodup_iff.2 candidates_nodup
  have hpai : ordered.Pairwise (Precedes (newestFirst host) (candidates z host path selects store)) :=
    hord ▸ pairwise_sorted (candidates_nodup.of_map _)
  have hlen : keep<ordered.length := by
    have := length_pos_of_mem h
    rw [length_drop] at this
    omega
  refine ⟨ordered.take keep,by rw [length_take]; omega,hids.of_map.sublist (take_sublist _ _),?_⟩
  intro other hoth
  refine ⟨hper.subset (mem_of_mem_take hoth),?_,fun hid => ?_⟩
  · rw [← take_append_drop keep ordered] at hpai
    exact time_le ((pairwise_append.1 hpai).2.2 other hoth candidate h)
  · rw [← take_append_drop keep ordered,map_append] at hids
    exact (nodup_append.1 hids).2.2 _ (mem_map_of_mem hoth) _ (hatt _ hid) rfl

theorem prune_sound (z : Formats) (host : MetadataHost A) (path : String) (computers : List ComputerConfig)
    (selector : Option String) (keep : ℕ) (refuses : String → Bool) (store : BackupStore A) :
    SoundlyPruned z host path computers selector keep store
      (pruneBackupsBySelectorDetailed z host path computers selector keep refuses store).attempted := by
  unfold pruneBackupsBySelectorDetailed
  split
  next => exact .inl rfl
  next => exact .inl rfl
  next selects hsel =>
    have hatt:=(pruneVerifiedBackups_attempted z host path selects keep refuses store).1
    refine .inr ⟨selects,selection_selected hsel,fun id hid => ?_⟩
    obtain ⟨candidate,hcan,rfl⟩ := mem_map.1 (hatt id hid)
    have hmem:=(mem_doomed.1 hcan).1
    have hexa:=candidates_examined hmem
    exact ⟨candidate,hmem,rfl,hexa.selected,hexa.verified,outlived hcan hatt⟩

/-- What is removed for a request was shown before, and every run prunes soundly. -/
structure PrunedAsReviewed (z : Formats) (host : MetadataHost A) (path : String) (computers : List ComputerConfig)
    (target : String) (keep : ℕ) (store : BackupStore A) : Prop where
  reviewed : ∀ preview refuses, previewPrune z host computers target keep store=.ok preview →
    ∀ id ∈ (executePrune z host path computers target keep refuses store).attempted, id ∈ preview.pruned
  sound : ∀ selector refuses, SoundlyPruned z host path computers selector keep store
    (pruneBackupsBySelectorDetailed z host path computers selector keep refuses store).attempted

def executedSelection (z : Formats) (host : MetadataHost A) (path : String) (computers : List ComputerConfig)
    (target : String) (store : BackupStore A) : Option (BackupManifest → Bool) :=
  (computers.find? fun computer => computer.id=target ∨ computer.name=target).bind fun computer =>
    ((selection z host path computers (some computer.id) store).toOption).join

/-- Where as many verified backups as are to be kept come before one of them in time, the dashboard accepts that one as a
backup of the target, and as many that it accepts come before it by their texts. -/
def ListsWhatGoes (z : Formats) (host : MetadataHost A) (path : String) (computers : List ComputerConfig)
    (target : String) (keep : ℕ) (store : BackupStore A) : Prop :=
  ∀ rows selects, (∃ computer ∈ computers, computer.id=target) → dashboardRows z host store=.ok rows →
    executedSelection z host path computers target store=some selects →
      ∀ candidate ∈ candidates z host path selects store,
        keep≤rank (newestFirst host) (candidates z host path selects store) (fun _ => true) candidate →
          ∃ row ∈ rows, row.id=candidate.id ∧ ofComputer target row=true ∧
            keep≤rank (writtenLater host) rows (ofComputer target) row

theorem executePrune_attempted (z : Formats) (host : MetadataHost A) (path : String) (computers : List ComputerConfig)
    (target : String) (keep : ℕ) (refuses : String → Bool) (store : BackupStore A) :
    (executePrune z host path computers target keep refuses store).attempted =
      ((executedSelection z host path computers target store).map fun selects =>
        (pruneVerifiedBackups z host path selects keep refuses store).attempted).getD [] := by
  unfold executePrune executedSelection
  split
  next computer hfin =>
    rw [hfin,Option.bind_some]
    unfold pruneBackupsBySelectorDetailed
    cases selection z host path computers (some computer.id) store with
    | error => rfl
    | ok found => cases found <;> rfl
  next hfin =>
    rw [hfin]
    rfl

theorem dashboardBackup_id (entry : String × Dashboard.BackupDirectory A) : (dashboardBackup z host entry).id=entry.1 := by
  unfold dashboardBackup
  cases h : availableBackup z host entry.1 entry.2 with
  | none => rfl
  | some backup =>
    simp only [availableBackup,Option.bind_eq_bind,Option.bind_eq_some_iff,Option.ite_none_right_eq_some,
      Option.some.injEq] at h
    obtain ⟨document,-,-,-,source,-,name,-,createdAt,-,encrypted,-,sha256,-,-,rfl⟩ := h
    rfl

theorem rows_nodup (h : dashboardRows z host store=.ok rows) : rows.Nodup := by
  unfold dashboardRows directories at h
  split at h
  next => cases h
  next =>
    cases h
    refine List.Nodup.of_map (·.id) ?_
    rw [map_map]
    have hid : (fun backup : DashboardBackup => backup.id) ∘ dashboardBackup z host=Prod.fst :=
      funext dashboardBackup_id
    rw [hid]
    refine store.nodup.sublist ((filter_sublist.map _).trans (filterMap_sublist ?_))
    intro entry _ found hfou
    split at hfou
    next =>
      split at hfou
      next =>
        cases hfou
        rfl
      next => cases hfou
    next => cases hfou

theorem previewPrune_pruned {keep : ℕ} {preview : PrunePreview}
    (h : previewPrune z host computers target keep store=.ok preview) :
    (∃ computer ∈ computers, computer.id=target) ∧ ∃ rows, dashboardRows z host store=.ok rows ∧
      ∀ id, id ∈ preview.pruned ↔ ∃ row ∈ rows, row.id=id ∧ ofComputer target row=true ∧
        keep≤rank (writtenLater host) rows (ofComputer target) row := by
  unfold previewPrune dashboardBackups at h
  split at h
  next => cases h
  next computer hfin =>
    have hid : computer.id=target := by simpa using find?_some hfin
    cases hros : dashboardRows z host store with
    | error => rw [hros] at h; cases h
    | ok rows =>
      rw [hros] at h
      cases h
      refine ⟨⟨computer,mem_of_find?_eq_some hfin,hid⟩,rows,rfl,fun id => ?_⟩
      show id ∈ List.map _ _ ↔ _
      rw [mem_map,hid]
      constructor
      · rintro ⟨row,hrow,rfl⟩
        have hfil:=mem_filter.1 (mem_of_mem_drop hrow)
        have hmem:=mem_sorted.1 hfil.1
        exact ⟨row,hmem,rfl,hfil.2,(mem_drop_sorted (rows_nodup hros) hmem hfil.2 keep).1 hrow⟩
      · rintro ⟨row,hmem,rfl,hof,hkee⟩
        exact ⟨row,(mem_drop_sorted (rows_nodup hros) hmem hof keep).2 hkee,rfl⟩

/-- The dashboard has a preview where it has the target and can list the store. -/
theorem previewPrune_ok (keep : ℕ) (htar : ∃ computer ∈ computers, computer.id=target)
    (hrow : dashboardRows z host store=.ok rows) :
    ∃ preview, previewPrune z host computers target keep store=.ok preview := by
  unfold previewPrune dashboardBackups
  split
  next hnon =>
    obtain ⟨computer,hmem,hid⟩ := htar
    have := find?_eq_none.1 hnon computer hmem
    simp [hid] at this
  next =>
    rw [hrow]
    exact ⟨_,rfl⟩

/-- What is pruned for a request was shown before exactly where the two readings of the store agree on it. -/
theorem pruned_as_reviewed_iff (z : Formats) (host : MetadataHost A) (path : String) (computers : List ComputerConfig)
    (target : String) (keep : ℕ) (store : BackupStore A) :
    PrunedAsReviewed z host path computers target keep store ↔
      ListsWhatGoes z host path computers target keep store := by
  constructor
  · intro h rows selects htar hrow hsel candidate hcan hkee
    obtain ⟨preview,hpre⟩ := previewPrune_ok keep htar hrow
    obtain ⟨-,rows',hrow',hpru⟩ := previewPrune_pruned hpre
    obtain rfl : rows=rows' := Except.ok.inj (hrow.symm.trans hrow')
    -- the run in which no removal fails
    have hall:=(pruneVerifiedBackups_attempted z host path selects keep (fun _ => false) store).2 fun _ => rfl
    have hatt : candidate.id ∈ (executePrune z host path computers target keep (fun _ => false) store).attempted := by
      rw [executePrune_attempted,hsel,Option.map_some,Option.getD_some,hall]
      exact mem_map_of_mem (mem_doomed.2 ⟨hcan,hkee⟩)
    exact (hpru _).1 (h.reviewed preview _ hpre _ hatt)
  · intro h
    refine ⟨fun preview refuses hpre id hid => ?_,fun selector refuses =>
      prune_sound z host path computers selector keep refuses store⟩
    obtain ⟨htar,rows,hrow,hpru⟩ := previewPrune_pruned hpre
    rw [executePrune_attempted] at hid
    cases hsel : executedSelection z host path computers target store with
    | none =>
      rw [hsel] at hid
      cases hid
    | some selects =>
      rw [hsel,Option.map_some,Option.getD_some] at hid
      have hdoo:=(pruneVerifiedBackups_attempted z host path selects keep refuses store).1 id hid
      obtain ⟨candidate,hcan,rfl⟩ := mem_map.1 hdoo
      obtain ⟨hmem,hkee⟩ := mem_doomed.1 hcan
      exact (hpru _).2 (h rows selects htar hrow hsel candidate hmem hkee)

def exampleHost : MetadataHost Unit where
  uid := 1000
  dateParse text :=
    if text=exampleDate then some 1735689600000 else if text = "2024-01-01T00:00:00.000Z" then some 1704067200000 else none
  localeCompare := compare
  locale := inferInstance
  sha256 _ := exampleDigest

def exampleManifest (id createdAt : String) : ManifestDocument where
  version := some 1
  id := some id
  name := some "main"
  createdAt := some createdAt
  source := some exampleComputer
  archive := some "home.tar.gz"
  sha256 := .string exampleDigest
  encrypted := some false
  consistency := .string "stopped"

def exampleBackup (id createdAt : String) (mode inode : ℕ) : String × Place (Dashboard.BackupDirectory Unit) :=
  (id,.real 1000 0o700
    { inode
      manifest := .real 1000 mode ⟨true,900,some (exampleManifest id createdAt)⟩
      archives := fun name => if name = "home.tar.gz" then .real 1000 0o600 ⟨true,inode+1,1,()⟩ else .absent })

def exampleStore : BackupStore Unit where
  entries := [exampleBackup "main-1" "2024-01-01T00:00:00.000Z" 0o644 10,exampleBackup "main-2" exampleDate 0o600 20]
  nodup := by decide

/-- The dashboard shows that nothing is removed, and the run removes the older backup. -/
theorem unshown_backup_pruned : ¬ ∀ (z : Formats) (host : MetadataHost Unit) (path : String)
    (computers : List ComputerConfig) (target : String) (keep : ℕ) (store : BackupStore Unit), 1≤keep →
      PrunedAsReviewed z host path computers target keep store := by
  intro h
  have hsho : (previewPrune exampleFormats exampleHost [exampleComputer] exampleId 1 exampleStore).map (·.pruned) =
      .ok [] := by
    decide +kernel
  have hatt : (executePrune exampleFormats exampleHost "/backups" [exampleComputer] exampleId 1 (fun _ => false)
      exampleStore).attempted=["main-1"] := by
    decide +kernel
  cases hpre : previewPrune exampleFormats exampleHost [exampleComputer] exampleId 1 exampleStore with
  | error =>
    rw [hpre] at hsho
    cases hsho
  | ok preview =>
    rw [hpre] at hsho
    have hnon : preview.pruned=[] := Except.ok.inj hsho
    have hmem:=(h exampleFormats exampleHost "/backups" [exampleComputer] exampleId 1 exampleStore le_rfl).reviewed
      preview (fun _ => false) hpre "main-1" (by rw [hatt]; exact mem_singleton_self _)
    rw [hnon] at hmem
    cases hmem

end Qubicl.Cli.Retention
