import Qubicl.Cli.Restore.Recovery

/-!
# The staging tree

Where building a staging tree can be cut or fail, and what the clean-up makes of it.
-/

namespace Qubicl.Cli
open Foundation Core Durable List

variable {A P F R : Type} [EmptyCollection F]

/-- The archive of the backup, and what its inspection found. -/
structure Inspected (tools : ArchiveTools A P F) (verified : VerifiedBackup A) (passphrase : Except String String)
    (archive : A) (plan : P) : Prop where
  checksum : tools.sha256 verified.archive=verified.sha256
  source : if verified.encrypted then
      ∃ password, passphrase=.ok password ∧ tools.decrypt verified.archive password=.ok archive
    else archive=verified.archive
  plan : tools.inspect archive=.ok plan

def withoutHostKeys (tools : ArchiveTools A P F) : Place F → Place F
  | .real owner mode home => .real owner mode ((tools.hostKeys home).getLastD home)
  | .link (some home) => .link (some ((tools.hostKeys home).getLastD home))
  | place => place

def restoredTree (tools : ArchiveTools A P F) (archive : A) (plan : P) : HomeDirectory F :=
  { tools.tree archive plan with qubicl := withoutHostKeys tools (tools.tree archive plan).qubicl }

/-- A home that holds the tree of the archive, without its host keys. -/
def HoldsTree (tools : ArchiveTools A P F) (uid : ℕ) (verified : VerifiedBackup A) (passphrase : Except String String)
    (home : Place (HomeDirectory F)) : Prop :=
  ∃ archive plan, Inspected tools verified passphrase archive plan ∧
    home=.real uid 0o700 (restoredTree tools archive plan)

variable {c : ComputerDirectory F} {root : Bool}

section Building
variable {tools : ArchiveTools A P F} {uid : ℕ} {verified : VerifiedBackup A} {passphrase : Except String String}

theorem getLastD_map {S T : Type} (f : S → T) (xs : List S) (s : S) : (xs.map f).getLastD (f s)=f (xs.getLastD s) := by
  rw [getLastD_eq_getLast?,getLastD_eq_getLast?,getLast?_map,Option.getD_map]

theorem wp_removeHostKeys (path : String) (place : Place F) :
    wp (removeHostKeys tools path) ⟨fun _ => True,fun _ t => t=withoutHostKeys tools place,fun _ _ => True⟩ place := by
  cases place with
  | absent => exact wp_of_ok rfl (fun _ _ => trivial) rfl
  | real owner mode home => exact wp_of_ok rfl (fun _ _ => trivial) (getLastD_map _ _ _)
  | link target =>
    cases target with
    | none => exact wp_of_ok rfl (fun _ _ => trivial) rfl
    | some home => exact wp_of_ok rfl (fun _ _ => trivial) (getLastD_map (fun t => Place.link (some t)) _ _)
  | foreign => exact wp_of_error rfl (fun _ _ => trivial) trivial

theorem wp_mkdirNew {α : Type} [EmptyCollection α] (path : String) :
    wp (mkdirNew uid path) ⟨fun t : Place α => t=.real uid 0o700 ∅,fun _ t => t=.real uid 0o700 ∅,
      fun _ _ => False⟩ .absent :=
  wp_of_ok rfl (fun _ h => mem_singleton.1 h) rfl

theorem wp_prepareArchive (w : RestoreWork A F) :
    wp (prepareArchive tools uid verified passphrase)
      ⟨fun _ => True,fun archive t => t.home=w.home ∧ tools.sha256 verified.archive=verified.sha256 ∧
        if verified.encrypted then
          ∃ password, passphrase=.ok password ∧ tools.decrypt verified.archive password=.ok archive
        else archive=verified.archive,fun _ _ => True⟩ w := by
  have hcop : wp (copyVerifiedBackupArchive tools uid verified.archive verified.sha256)
      ⟨fun _ => True,fun _ _ => tools.sha256 verified.archive=verified.sha256,fun _ _ => True⟩ w.copied := by
    apply (wp_bind _ _ _ _).2
    refine (wp_writes _ _ _).2 ⟨fun _ _ => trivial,?_⟩
    apply (wp_bind _ _ _ _).2
    refine (wp_write _ _ _).2 ⟨trivial,?_⟩
    apply (wp_ite _ _ _ _).2
    refine ⟨fun hsam => (wp_pure () _ _).2 hsam,fun _ => ?_⟩
    apply (wp_bind _ _ _ _).2
    exact (wp_write _ _ _).2 ⟨trivial,(wp_fail _ _ _).2 trivial⟩
  apply (wp_bind _ _ _ _).2
  apply (wp_zoom _ _ _ _).2
  apply hcop.mono
  · exact fun _ _ => trivial
  · intro _ copied hche
    apply (wp_ite _ _ _ _).2
    refine ⟨fun henc => ?_,fun hpla => ?_⟩
    · apply (wp_bind _ _ _ _).2
      cases passphrase with
      | error e => exact (wp_ofExcept_error e _ _).2 trivial
      | ok password =>
        apply (wp_ofExcept_ok password _ _).2
        apply (wp_zoom _ _ _ _).2
        unfold decryptBackupFile
        cases hdec : tools.decrypt verified.archive password with
        | error e => exact (wp_fail e _ _).2 trivial
        | ok decrypted =>
          apply (wp_bind _ _ _ _).2
          refine (wp_writes _ _ _).2 ⟨fun _ _ => trivial,?_⟩
          apply (wp_bind _ _ _ _).2
          refine (wp_write _ _ _).2 ⟨trivial,?_⟩
          refine (wp_pure decrypted _ _).2 ⟨rfl,hche,?_⟩
          rw [if_pos henc]
          exact ⟨password,rfl,hdec⟩
    · refine (wp_pure verified.archive _ _).2 ⟨rfl,hche,?_⟩
      rw [if_neg hpla]
  · exact fun _ _ _ => trivial

theorem wp_extract (archive : A) (plan : P) (home : HomeDirectory F) :
    wp (tools.extract archive plan) ⟨fun _ => True,fun _ t => t=tools.tree archive plan,fun _ _ => True⟩ home := by
  refine ⟨fun _ _ => trivial,?_⟩
  cases hres : (tools.extract archive plan).result home with
  | ok => exact tools.extract_tree archive plan home hres
  | error => trivial

theorem wp_extractHome (extracted : String) (w : RestoreWork A F) (hhom : w.home=.absent) :
    wp (extractHome tools uid extracted verified passphrase)
      ⟨fun _ => True,fun _ t => HoldsTree tools uid verified passphrase t.home,fun _ _ => True⟩ w := by
  apply (wp_bind _ _ _ _).2
  apply (wp_zoom _ _ _ _).2
  have hemp : RestoreWork.homeLens.get w=.absent := hhom
  rw [hemp]
  apply (wp_mkdirNew extracted).mono
  · exact fun _ _ => trivial
  · rintro _ home rfl
    apply (wp_bind _ _ _ _).2
    apply (wp_prepareArchive _).mono
    · exact fun _ _ => trivial
    · rintro archive t ⟨hkep,hche,hsou⟩
      apply (wp_bind _ _ _ _).2
      cases hpla : tools.inspect archive with
      | error e => exact (wp_ofExcept_error e _ _).2 trivial
      | ok plan =>
        apply (wp_ofExcept_ok plan _ _).2
        apply (wp_zoom _ _ _ _).2
        have hget : RestoreWork.homeLens.get t=.real uid 0o700 ∅ := hkep
        rw [hget]
        apply wp_inside.2
        apply (wp_bind _ _ _ _).2
        apply (wp_extract archive plan _).mono
        · exact fun _ _ => trivial
        · rintro _ home rfl
          apply (wp_zoom _ _ _ _).2
          apply (wp_removeHostKeys extracted _).mono
          · exact fun _ _ => trivial
          · rintro _ qubicl rfl
            exact ⟨archive,plan,⟨hche,hsou,hpla⟩,rfl⟩
          · exact fun _ _ _ => trivial
        · exact fun _ _ _ => trivial
    · exact fun _ _ _ => trivial
  · exact fun _ _ hfal => hfal.elim

theorem wp_moveHome {owner mode : ℕ} {w : RestoreWork A F} (home : String)
    (hwor : tools.work.get c.rest=.real owner mode w) (habs : c.home=.absent) (hmar : c.restoreReady=.absent) :
    wp (moveHome tools home) ⟨fun t => t.restoreReady=.absent,fun _ t => t.home=w.home ∧ t.restoreReady=.absent,
      fun _ _ => False⟩ c := by
  have hmov : moveHome tools home c=⟨[{ c with
      home := w.home
      rest := tools.work.set (.real owner mode { w with home := .absent }) c.rest }],.ok ()⟩ := by
    unfold moveHome
    rw [hwor,habs]
  refine wp_of_ok hmov (fun t ht => ?_) ⟨rfl,hmar⟩
  rw [mem_singleton.1 ht]
  exact hmar

theorem wp_markReady {good : Place (HomeDirectory F) → Prop} (marker : String) (hhom : good c.home)
    (hmar : c.restoreReady=.absent) :
    wp (zoom (ComputerDirectory.restLens.comp tools.work) (writes (workRemoval tools)) >>= fun _ =>
        zoom ComputerDirectory.restoreReadyLens (atomicWrite uid marker () 0o600))
      ⟨fun t => t.restoreReady=.absent ∨ Complete uid good t,fun _ t => Complete uid good t,
        fun _ t => t.restoreReady=.absent⟩ c := by
  apply (wp_bind _ _ _ _).2
  apply (wp_zoom _ _ _ _).2
  refine (wp_writes _ _ _).2 ⟨fun _ _ => Or.inl hmar,?_⟩
  generalize (workRemoval tools _).getLastD _=place
  have habs : ComputerDirectory.restoreReadyLens.get
      ((ComputerDirectory.restLens.comp tools.work).set place c)=.absent := hmar
  apply (wp_zoom _ _ _ _).2
  rw [habs]
  refine wp_of_ok rfl (fun t ht => ?_) ⟨hhom,rfl⟩
  rw [mem_singleton.1 ht]
  exact Or.inr ⟨hhom,rfl⟩

theorem wp_buildStaging (staged work : String) :
    wp (buildStaging tools uid staged work verified passphrase)
      ⟨fun c => c.restoreReady=.absent ∨ Complete uid (HoldsTree tools uid verified passphrase) c,
        fun _ c => Complete uid (HoldsTree tools uid verified passphrase) c,fun _ c => c.restoreReady=.absent⟩
      (∅ : ComputerDirectory F) := by
  apply (wp_bind _ _ _ _).2
  apply (wp_zoom _ _ _ _).2
  have hnow : (ComputerDirectory.restLens.comp tools.work).get (∅ : ComputerDirectory F)=.absent := tools.work_empty
  rw [hnow]
  apply (wp_bind _ _ _ _).2
  apply (wp_mkdirNew work).mono
  · exact fun _ _ => Or.inl rfl
  · rintro _ place rfl
    apply wp_inside.2
    apply (wp_extractHome _ ∅ rfl).mono
    · exact fun _ _ => Or.inl rfl
    · intro _ w hw
      apply (wp_bind _ _ _ _).2
      apply (wp_moveHome _ (tools.work.get_set _ _) rfl rfl).mono
      · exact fun _ hmar => Or.inl hmar
      · rintro _ c ⟨hhom,hmar⟩
        exact wp_markReady _ (hhom ▸ hw) hmar
      · exact fun _ _ hfal => hfal.elim
    · exact fun _ _ _ => rfl
  · exact fun _ _ hfal => hfal.elim

end Building

section Stage
variable {z : Formats} {tools : ArchiveTools A P F} {host : Host F R} {paths : StatePaths} {failures : RestoreFailures}
  {fresh : FreshValues} {verified : VerifiedBackup A} {passphrase : Except String String} {id : String}
  {transaction : StateTransaction} {good : Place (HomeDirectory F) → Prop} {before : Disk F}

/-- The clean-up of a complete tree went some way, and its marker is still there. -/
def Torn (host : Host F R) (good : Place (HomeDirectory F) → Prop) (id : String) (d : Disk F) : Prop :=
  ∃ c r, Complete host.uid good c ∧ r ∈ host.remnants c ∧ r.restoreReady≠.absent ∧ ¬ Complete host.uid good r ∧
    (d.slots id).staged=.real host.uid 0o700 r

def Building (uid : ℕ) (id : String) (transaction : StateTransaction) (good : Place (HomeDirectory F) → Prop)
    (before d : Disk F) : Prop :=
  ∃ c, (c.restoreReady=.absent ∨ Complete uid good c) ∧ d=readyDisk uid id transaction before c

theorem forward_ready (hbef : Vacant id before) (c : ComputerDirectory F) :
    Forward z host.uid paths id transaction (readyDisk host.uid id transaction before c)
      (readyDisk host.uid id transaction before c) where
  journal := rfl
  realized := rfl
  kept := .refl _
  arriving := by
    rw [Complete.slot hbef]
    exact ⟨rfl,Or.inl rfl⟩

theorem Building.restoring {d : Disk F} (hbef : Vacant id before)
    (h : Building host.uid id transaction good before d) :
    Restoring z host.uid paths id transaction good before d := by
  obtain ⟨c,hmar | hcomplete,rfl⟩ := h
  · exact Or.inr (Or.inl ⟨true,.real host.uid 0o700 c,hmar,rfl⟩)
  · exact Or.inr (Or.inr ⟨c,hcomplete,Or.inl (forward_ready hbef c)⟩)

omit [EmptyCollection F] in
theorem wp_removeJournal {staged : Place (ComputerDirectory F)} :
    wp (zoom Disk.journalLens (durableRemove paths.journal))
      ⟨fun t => t=stagedDisk before id .absent root staged,fun _ t => t=stagedDisk before id .absent root staged,
        fun _ _ => False⟩ (stagedDisk before id (journalOf host.uid transaction) root staged) := by
  apply (wp_zoom _ _ _ _).2
  exact wp_of_ok rfl (fun place hpla => by rw [mem_singleton.1 hpla]; rfl) rfl

theorem wp_cleanUp {d : Disk F} (hbef : Vacant id before) (h : Building host.uid id transaction good before d) :
    wp (removeStage host paths id >>= fun _ => zoom Disk.journalLens (durableRemove paths.journal))
      ⟨fun t => Restoring z host.uid paths id transaction good before t ∨ Torn host good id t,
        fun _ t => Undone id before t,fun _ t => Restoring z host.uid paths id transaction good before t⟩ d := by
  obtain ⟨c,hc,rfl⟩ := h
  apply (wp_bind _ _ _ _).2
  apply wp_removeStage.mono
  · rintro t ⟨place,hpla,rfl⟩
    rcases mem_append.1 hpla with hrem | hlast
    · obtain ⟨r,hr,rfl⟩ := mem_map.1 hrem
      by_cases hmar : r.restoreReady=.absent
      · exact Or.inl (Building.restoring hbef ⟨r,Or.inl hmar,rfl⟩)
      by_cases hcom : Complete host.uid good r
      · exact Or.inl (Building.restoring hbef ⟨r,Or.inr hcom,rfl⟩)
      · have hwas : Complete host.uid good c := hc.resolve_left fun habs =>
          hmar (host.remnants_ready c habs r hr)
        refine Or.inr ⟨c,r,hwas,hr,hmar,hcom,?_⟩
        rw [stagedDisk_slots]
    · rw [mem_singleton.1 hlast]
      exact Or.inl (Or.inr (Or.inl ⟨true,.absent,trivial,rfl⟩))
  · rintro _ t rfl
    apply wp_removeJournal.mono
    · exact fun t ht => Or.inl (Or.inl ⟨true,ht⟩)
    · exact fun _ t ht => ⟨true,ht⟩
    · exact fun _ _ hfal => hfal.elim
  · rintro _ t rfl
    exact Or.inr (Or.inl ⟨true,.absent,trivial,rfl⟩)

theorem wp_makeStage (hbef : Vacant id before) (hsta : ∀ failure ∈ failures.stage, failure.steps=0) (staged : String) :
    wp (rescued (do
        failing failures.root (zoom Disk.restoreStagingLens (write fun _ => true))
        failing failures.stage (zoom (Disk.stagedLens id) (mkdirNew host.uid staged)))
      (zoom Disk.journalLens (durableRemove paths.journal)))
      ⟨Restoring z host.uid paths id transaction good before,
        fun _ t => t=readyDisk host.uid id transaction before ∅,
        fun _ => Restoring z host.uid paths id transaction good before⟩
      (stagedDisk before id (journalOf host.uid transaction) root .absent) := by
  have hnot : ∀ root, Restoring z host.uid paths id transaction good before
      (stagedDisk before id (journalOf host.uid transaction) root .absent) :=
    fun root => Or.inr (Or.inl ⟨root,.absent,trivial,rfl⟩)
  have hgiveUp : ∀ root, wp (zoom Disk.journalLens (durableRemove paths.journal))
      ⟨Restoring z host.uid paths id transaction good before,
        fun _ => Restoring z host.uid paths id transaction good before,
        fun (_ : String) => Restoring z host.uid paths id transaction good before⟩
      (stagedDisk before id (journalOf host.uid transaction) root .absent) := by
    intro root
    apply wp_removeJournal.mono
    · exact fun t ht => Or.inl ⟨root,ht⟩
    · exact fun _ t ht => Or.inl ⟨root,ht⟩
    · exact fun _ _ hfal => hfal.elim
  have hroo : wp (zoom Disk.restoreStagingLens (write fun _ => true))
      ⟨fun t => ∃ root, t=stagedDisk before id (journalOf host.uid transaction) root .absent,
        fun _ t => t=stagedDisk before id (journalOf host.uid transaction) true .absent,fun (_ : String) _ => False⟩
      (stagedDisk before id (journalOf host.uid transaction) root .absent) := by
    apply (wp_zoom _ _ _ _).2
    exact (wp_write _ _ _).2 ⟨⟨true,rfl⟩,rfl⟩
  have htre : wp (zoom (Disk.stagedLens id) (mkdirNew host.uid staged))
      ⟨fun t => t=readyDisk host.uid id transaction before ∅,fun _ t => t=readyDisk host.uid id transaction before ∅,
        fun _ _ => False⟩ (stagedDisk before id (journalOf host.uid transaction) true .absent) := by
    have hget : (Disk.stagedLens id).get (stagedDisk before id (journalOf host.uid transaction) true .absent) =
        .absent := by
      show ((stagedDisk before id (journalOf host.uid transaction) true .absent).slots id).staged=.absent
      rw [stagedDisk_slots]
    apply (wp_zoom _ _ _ _).2
    rw [hget]
    apply (wp_mkdirNew staged).mono
    · rintro t rfl
      exact set_stagedDisk
    · rintro _ t rfl
      exact set_stagedDisk
    · exact fun _ _ hfal => hfal
  apply wp_rescued.2
  apply (wp_bind _ _ _ _).2
  apply (wp_failing hroo ⟨root,rfl⟩ (fun _ _ hfal => hfal.elim) failures.root).mono
  · rintro t ⟨root,rfl⟩
    exact hnot root
  · rintro _ t rfl
    cases hfai : failures.stage with
    | none =>
      apply htre.mono
      · rintro t rfl
        exact Building.restoring hbef ⟨∅,Or.inl rfl,rfl⟩
      · exact fun _ _ ht => ht
      · exact fun _ _ hfal => hfal.elim
    | some failure =>
      have hste : failure.steps=0 := hsta failure hfai
      have hnon : failing (some failure) (zoom (Disk.stagedLens id) (mkdirNew host.uid staged))
          (stagedDisk before id (journalOf host.uid transaction) true .absent)=⟨[],.error failure.error⟩ := by
        simp [failing,hste]
      exact wp_of_error hnon (by simp) (hgiveUp true)
  · rintro _ t ⟨root,rfl⟩
    exact hgiveUp root

/-- Staging leaves the tree complete, or nothing, or a tree that recovery can tell apart, but for a torn one. -/
theorem wp_stageBackup (hbef : Vacant id before) (hsta : ∀ failure ∈ failures.stage, failure.steps=0) :
    wp (stageBackup tools host paths failures fresh id verified passphrase)
      ⟨fun t => Restoring z host.uid paths id transaction (HoldsTree tools host.uid verified passphrase) before t ∨
          Torn host (HoldsTree tools host.uid verified passphrase) id t,
        fun _ t => ∃ c, Complete host.uid (HoldsTree tools host.uid verified passphrase) c ∧
          t=readyDisk host.uid id transaction before c,
        fun _ t => Restoring z host.uid paths id transaction (HoldsTree tools host.uid verified passphrase) before t⟩
      (stagedDisk before id (journalOf host.uid transaction) root .absent) := by
  apply (wp_bind _ _ _ _).2
  apply (wp_makeStage hbef hsta _).mono
  · exact fun t ht => Or.inl ht
  · rintro _ t rfl
    have hbui : wp (zoom (Disk.stagedLens id) (inside (restoreStage paths id) (buildStaging tools host.uid
          (restoreStage paths id) (join (restoreStage paths id) (".restore-" ++ fresh.workId)) verified passphrase)))
        ⟨Building host.uid id transaction (HoldsTree tools host.uid verified passphrase) before,
          fun _ t => ∃ c, Complete host.uid (HoldsTree tools host.uid verified passphrase) c ∧
            t=readyDisk host.uid id transaction before c,
          fun _ => Building host.uid id transaction (HoldsTree tools host.uid verified passphrase) before⟩
        (readyDisk host.uid id transaction before ∅) := by
      have hget : (Disk.stagedLens id).get (readyDisk host.uid id transaction before ∅)=.real host.uid 0o700 ∅ := by
        show ((readyDisk host.uid id transaction before ∅).slots id).staged=_
        rw [Complete.slot hbef]
      apply (wp_zoom _ _ _ _).2
      rw [hget]
      apply wp_inside.2
      apply (wp_buildStaging _ _).mono
      · exact fun c hc => ⟨c,hc,set_stagedDisk⟩
      · exact fun _ c hc => ⟨c,hc,set_stagedDisk⟩
      · exact fun _ c hmar => ⟨c,Or.inl hmar,set_stagedDisk⟩
    apply wp_rescued.2
    apply (wp_failing hbui ⟨∅,Or.inl rfl,rfl⟩ (fun _ _ ht => ht) failures.build).mono
    · exact fun t ht => Or.inl (Building.restoring hbef ht)
    · exact fun _ _ ht => ht
    · intro _ t ht
      apply (wp_cleanUp hbef ht).mono
      · exact fun _ hu => hu
      · exact fun _ u hu => Or.inl hu
      · exact fun _ _ hu => hu
  · exact fun _ _ ht => ht

end Stage

end Qubicl.Cli
