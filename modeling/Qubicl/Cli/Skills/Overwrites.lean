import Qubicl.Cli.Skills.Store

/-!
# What a replaced working copy was

The record of a skill carries the digest of a package. A working copy with that digest is the package, as long as the same
bytes are not two packages, and it stays so until it is replaced, as long as the agent leaves it alone for that time.
-/

namespace Qubicl.Cli.Skills
open Foundation List Option

section Commands
variable {Digest Finding : Type}
variable (localeCompare : String → String → Ordering) (sha256 : List UInt8 → Digest)
variable (yaml : String → Option (String × String))
variable (scanSkillFiles : List (String × List UInt8) → List Finding) (blockingForSkills : Finding → Bool)

def PlainPackage (entries : List PackageEntry) : Prop := ∀ entry ∈ entries, PlainPath entry.path

theorem PlainPackage.sorted {cmp : PackageEntry → PackageEntry → Ordering} {entries : List PackageEntry}
    (h : PlainPackage entries) : PlainPackage (sorted cmp entries) := fun entry hmem => h entry (mem_sorted.1 hmem)

variable {localeCompare sha256 scanSkillFiles}

theorem inspectWorkingCopy_plain {kind : SkillKind} {root : Node} {entries : List PackageEntry}
    (h : inspectWorkingCopy localeCompare kind root=.ok entries) : PlainPackage entries := by
  cases kind with
  | imported => exact enumeratePackage_plain h
  | core =>
    change (enumeratePackage localeCompare root true).map _=.ok entries at h
    cases hfou : enumeratePackage localeCompare root true with
    | error error =>
      rw [hfou] at h
      cases h
    | ok found =>
      rw [hfou] at h
      cases h
      exact PlainPackage.sorted (enumeratePackage_plain hfou)

mutual
theorem filesOfChildren_plain {pre : String} (hpre : PlainPath pre) :
    ∀ (children : List (FileName × Node)) (entries : List PackageEntry), filesOfChildren pre children=.ok entries →
      PlainPackage entries
  | [], entries, h => by
    rw [filesOfChildren] at h
    cases h
    exact fun entry hmem => by cases hmem
  | child::rest, entries, h => by
    unfold filesOfChildren at h
    cases hfir : filesOfChild pre child with
    | error error =>
      rw [hfir] at h
      cases h
    | ok files =>
      cases hmor : filesOfChildren pre rest with
      | error error =>
        rw [hfir,hmor] at h
        cases h
      | ok more =>
        rw [hfir,hmor] at h
        cases h
        intro entry hmem
        rcases mem_append.1 hmem with hmem | hmem
        · exact filesOfChild_plain hpre child files hfir entry hmem
        · exact filesOfChildren_plain hpre rest more hmor entry hmem

theorem filesOfChild_plain {pre : String} (hpre : PlainPath pre) :
    ∀ (child : FileName × Node) (entries : List PackageEntry), filesOfChild pre child=.ok entries → PlainPackage entries
  | (name,.file bytes mode links), entries, h => by
    rw [filesOfChild] at h
    cases h
    intro entry hmem
    rw [mem_singleton.1 hmem]
    exact childPath_plain hpre name
  | (name,.symlink), entries, h => by
    rw [filesOfChild] at h
    cases h
  | (name,.other), entries, h => by
    rw [filesOfChild] at h
    cases h
    exact fun entry hmem => by cases hmem
  | (name,.directory children), entries, h => by
    rw [filesOfChild] at h
    exact filesOfChildren_plain (childPath_plain hpre name) children entries h
end

theorem verifyCatalogSkillDirectory_ok [DecidableEq Digest] [DecidableEq Finding] {skill : CoreSkill Digest Finding} {entries : List PackageEntry}
    (h : verifyCatalogSkillDirectory sha256 scanSkillFiles skill=.ok entries) :
    skill.sha256=sha256 (flat entries) ∧ PlainPackage entries := by
  unfold verifyCatalogSkillDirectory at h
  split at h
  · cases h
  cases hins : inspectSkillDirectory skill.source skill.files with
  | error error =>
    rw [hins] at h
    cases h
  | ok found =>
    rw [hins] at h
    simp only [Except.bind] at h
    split at h
    · cases h
    next hdig =>
      split at h
      · cases h
      cases h
      refine ⟨(not_not.1 hdig).symm,?_⟩
      unfold inspectSkillDirectory at hins
      cases hfil : skill.source.filesBelow "" with
      | error error =>
        rw [hfil] at hins
        cases hins
      | ok files =>
        rw [hfil] at hins
        simp only [Except.bind] at hins
        split at hins
        · cases hins
        cases hins
        refine PlainPackage.sorted ?_
        unfold Node.filesBelow at hfil
        split at hfil
        · exact filesOfChildren_plain (fun c hc => by cases hc) _ _ hfil
        · cases hfil
          exact fun entry hmem => by cases hmem

theorem inspectImport_plain {source : Node} {expectedName name description : String} {snapshot : List PackageEntry}
    (h : inspectImport localeCompare yaml scanSkillFiles blockingForSkills source expectedName =
      .ok (name,description,snapshot)) : PlainPackage snapshot := by
  unfold inspectImport inspectEditableSkill at h
  cases hfou : enumeratePackage localeCompare source false with
  | error error =>
    rw [hfou] at h
    cases h
  | ok found =>
    rw [hfou] at h
    simp only [Except.bind] at h
    have heq : found=snapshot := by
      repeat' split at h
      all_goals first | cases h; rfl | cases h
    rw [← heq]
    exact enumeratePackage_plain hfou

variable (localeCompare sha256)

/-- The recorded digest is that of the recorded package. -/
structure Sound (skill : InstalledSkill Digest) : Prop where
  digest : skill.baselineSha256=sha256 (flat skill.baseline)
  plain : PlainPackage skill.baseline

def SoundRegistry (registry : List (String × InstalledSkill Digest)) : Prop := ∀ entry ∈ registry, Sound sha256 entry.2

/-- The files of a working copy are those of a package, at the same paths. -/
def Holds (kind : SkillKind) (working : Node) (baseline : List PackageEntry) : Prop :=
  ∃ current, inspectWorkingCopy localeCompare kind working=.ok current ∧ contents current=contents baseline

def HoldsAt (installed : List (String × Node)) (kind : SkillKind) (name : String) (baseline : List PackageEntry) : Prop :=
  ∃ working, installed.lookup name=some working ∧ Holds localeCompare kind working baseline

def SoundJob (installed : List (String × Node)) : Option (Job Digest Finding) → Prop
  | none => True
  | some (.materializing registry _) => SoundRegistry sha256 registry
  | some (.replacing registry skill verified existing _) =>
    SoundRegistry sha256 registry ∧ (skill.sha256=sha256 (flat verified) ∧ PlainPackage verified) ∧ Sound sha256 existing ∧
      HoldsAt localeCompare installed .core skill.name existing.baseline
  | some (.updating registry existing) =>
    SoundRegistry sha256 registry ∧ Sound sha256 existing ∧
      HoldsAt localeCompare installed .imported existing.name existing.baseline

structure Kept (s : SkillStore Digest Finding) : Prop where
  packages : SoundRegistry sha256 s.packages
  job : SoundJob localeCompare sha256 s.installed s.job
  replaced : ∀ r ∈ s.replaced, Holds localeCompare r.kind r.working r.baseline

def awaited : Option (Job Digest Finding) → Option String
  | some (.replacing _ skill _ _ _) => some skill.name
  | some (.updating _ existing) => some existing.name
  | _ => none

instance (entries entries' : List PackageEntry) : Decidable (SameCuts entries entries') := inferInstanceAs (Decidable (_ → _))

/- The working copy and the recorded package are not two packages with the same bytes. -/
def comparable (s : SkillStore Digest Finding) (kind : SkillKind) (name : String) (existing : InstalledSkill Digest) : Bool :=
  (s.installed.lookup name).all fun working =>
    match inspectWorkingCopy localeCompare kind working with
    | .ok current => decide (SameCuts current existing.baseline)
    | .error _ => true

/-- The condition on each step of a run. -/
def careful (s : SkillStore Digest Finding) : Action Digest Finding → Bool
  | .editInstalled name _ => awaited s.job≠some name
  | .nextCoreSkill =>
    match s.job with
    | some (.materializing registry (skill::_)) => (registry.lookup skill.id).all (comparable localeCompare s .core skill.name)
    | _ => true
  | .updateImportedSkill idOrName =>
    (resolveInstalled s.packages idOrName).all fun existing => comparable localeCompare s .imported existing.name existing
  | _ => true

variable {localeCompare sha256} (hsha : Function.Injective sha256)

variable {registry : List (String × InstalledSkill Digest)} {skill : InstalledSkill Digest}

theorem SoundRegistry.set (h : SoundRegistry sha256 registry) (id : String) (hski : Sound sha256 skill) : SoundRegistry sha256 (mapSet id skill registry) := by
  intro entry hmem
  rcases mem_mapSet hmem with rfl | hold
  · exact hski
  · exact h entry hold

theorem SoundRegistry.lookup (h : SoundRegistry sha256 registry) {id : String} (hski : registry.lookup id=some skill) : Sound sha256 skill :=
  h (id,skill) (mem_of_lookup hski)

theorem SoundRegistry.resolved (h : SoundRegistry sha256 registry)
    {idOrName : String} (hski : resolveInstalled registry idOrName=some skill) :
    Sound sha256 skill := by
  unfold resolveInstalled at hski
  split at hski
  next skill' hfou =>
    cases hski
    have hmem : skill ∈ (registry.map Prod.snd).filter fun skill => skill.id=idOrName || skill.name=idOrName := by
      rw [hfou]
      exact mem_singleton.2 rfl
    obtain ⟨entry,hent,rfl⟩ := mem_map.1 (mem_filter.1 hmem).1
    exact h entry hent
  · cases hski

theorem comparable_sameCuts {s : SkillStore Digest Finding} {kind : SkillKind} {name : String} {existing : InstalledSkill Digest}
    (h : comparable localeCompare s kind name existing=true) {working : Node} {current : List PackageEntry}
    (hwor : s.installed.lookup name=some working)
    (hcur : inspectWorkingCopy localeCompare kind working=.ok current) : SameCuts current existing.baseline := by
  unfold comparable at h
  rw [hwor,all_some,hcur] at h
  exact of_decide_eq_true h

include hsha in
theorem holds_of_digest {kind : SkillKind} {working : Node} {current : List PackageEntry} {existing : InstalledSkill Digest}
    (hexi : Sound sha256 existing) (hcur : inspectWorkingCopy localeCompare kind working=.ok current)
    (hcut : SameCuts current existing.baseline) (hdig : existing.baselineSha256=sha256 (flat current)) :
    Holds localeCompare kind working existing.baseline :=
  ⟨current,hcur,(contents_of_digest_iff (inspectWorkingCopy_plain hcur) hexi.plain hsha).2 hcut
    (hdig.symm.trans hexi.digest)⟩

theorem idle_of_started {State : Type} {job : Option (Job Digest Finding)} {s s' : State}
    (h : (if job.isSome then none else some s)=some s') : job=none ∧ s=s' := by
  split at h
  · cases h
  next hidl => exact ⟨not_isSome_iff_eq_none.1 hidl,Option.some.inj h⟩

section Steps
variable {s : SkillStore Digest Finding} (h : Kept localeCompare sha256 s)
include h

theorem failed_kept : Kept localeCompare sha256 s.failed := ⟨h.packages,trivial,h.replaced⟩

variable {registry : List (String × InstalledSkill Digest)}

theorem replaceCoreSkill_kept {skill : CoreSkill Digest Finding}
    {verified : List PackageEntry} {existing : InstalledSkill Digest} {todo : List (CoreSkill Digest Finding)}
    (hjob : s.job=some (.replacing registry skill verified existing todo)) :
    Kept localeCompare sha256 (s.replaceCoreSkill registry skill verified existing todo) := by
  have hsou:=h.job
  rw [hjob] at hsou
  obtain ⟨hreg,hver,hexi,working,hwor,hhol⟩ := hsou
  unfold SkillStore.replaceCoreSkill
  split
  · exact ⟨h.packages,hreg.set _ ⟨hexi.digest,hexi.plain⟩,h.replaced⟩
  next copy hcop =>
    refine ⟨h.packages,hreg.set _ ⟨hver.1,hver.2⟩,fun r hmem => ?_⟩
    rcases mem_append.1 hmem with hold | hnew
    · exact h.replaced r hold
    · rw [hwor] at hnew
      rw [mem_singleton.1 hnew]
      exact hhol

theorem importSkill_kept (hjob : s.job=none) (source : Node) (expectedName : String) (catalog : List (CoreSkill Digest Finding)) :
    Kept localeCompare sha256
      (s.importSkill localeCompare sha256 yaml scanSkillFiles blockingForSkills source expectedName catalog) := by
  unfold SkillStore.importSkill
  split
  · exact h
  next name description snapshot hins =>
    dsimp only
    split
    · exact h
    split
    · exact h
    next copy hcop =>
      refine ⟨h.packages.set _ ⟨rfl,inspectImport_plain yaml blockingForSkills hins⟩,?_,h.replaced⟩
      rw [hjob]
      trivial

theorem replaceImportedSkill_kept {existing : InstalledSkill Digest}
    (hjob : s.job=some (.updating registry existing)) (source : Node) (expectedName : String) (committed : Bool) :
    Kept localeCompare sha256 (s.replaceImportedSkill localeCompare sha256 yaml scanSkillFiles blockingForSkills registry existing
      source expectedName committed) := by
  have hsou:=h.job
  rw [hjob] at hsou
  obtain ⟨hreg,hexi,working,hwor,hhol⟩ := hsou
  unfold SkillStore.replaceImportedSkill
  split
  · exact failed_kept h
  next name description snapshot hins =>
    split
    · exact failed_kept h
    split
    next copy baseline working' hcop hbas hwor' =>
      obtain rfl : working=working' := Option.some.inj (hwor.symm.trans hwor')
      refine ⟨?_,trivial,fun r hmem => ?_⟩
      · cases committed with
        | true => exact hreg.set _ ⟨rfl,inspectImport_plain yaml blockingForSkills hins⟩
        | false => exact h.packages
      · rcases mem_append.1 hmem with hold | hnew
        · exact h.replaced r hold
        · rw [mem_singleton.1 hnew]
          exact hhol
    · exact failed_kept h

theorem removeImportedSkill_kept (hjob : s.job=none) (idOrName trashName : String) :
    Kept localeCompare sha256 (s.removeImportedSkill idOrName trashName) := by
  unfold SkillStore.removeImportedSkill
  split
  · exact h
  next skill hski =>
    split
    · exact h
    · refine ⟨fun entry hmem => h.packages entry (mem_mapDelete.1 hmem).1,?_,h.replaced⟩
      rw [hjob]
      trivial

theorem editInstalled_kept {name : String} {installed : List (String × Node)}
    (hels : ∀ other, other≠name → installed.lookup other=s.installed.lookup other)
    (hawa : awaited s.job≠some name) : Kept localeCompare sha256 { s with installed := installed } := by
  refine ⟨h.packages,?_,h.replaced⟩
  have hsou:=h.job
  show SoundJob localeCompare sha256 installed s.job
  cases hjob : s.job with
  | none => trivial
  | some job =>
    rw [hjob] at hsou hawa
    cases job with
    | materializing registry todo => exact hsou
    | replacing registry skill verified existing todo =>
      obtain ⟨hreg,hver,hexi,working,hwor,hhol⟩ := hsou
      have hne : skill.name≠name := fun heq => hawa (congrArg some heq)
      exact ⟨hreg,hver,hexi,working,(hels _ hne).trans hwor,hhol⟩
    | updating registry existing =>
      obtain ⟨hreg,hexi,working,hwor,hhol⟩ := hsou
      have hne : existing.name≠name := fun heq => hawa (congrArg some heq)
      exact ⟨hreg,hexi,working,(hels _ hne).trans hwor,hhol⟩

variable [DecidableEq Digest]

include hsha in
theorem updateImportedSkill_kept {idOrName : String}
    (hcar : careful localeCompare s (.updateImportedSkill idOrName)=true) :
    Kept localeCompare sha256 (s.updateImportedSkill localeCompare sha256 idOrName) := by
  unfold SkillStore.updateImportedSkill
  split
  · exact h
  next existing hexi =>
    split
    · exact h
    split
    next current hfou =>
      obtain ⟨working,hwor,hcur⟩ := map_eq_some_iff.1 hfou
      split
      · exact h
      next hdig =>
        have hsou : Sound sha256 existing := h.packages.resolved hexi
        have hcom : comparable localeCompare s .imported existing.name existing=true := by
          unfold careful at hcar
          dsimp only at hcar
          rw [hexi] at hcar
          exact hcar
        have hcut:=comparable_sameCuts hcom hwor hcur
        exact ⟨h.packages,⟨h.packages,hsou,working,hwor,
          @holds_of_digest _ localeCompare sha256 hsha .imported working current existing hsou hcur hcut
            (not_not.1 hdig).symm⟩,h.replaced⟩
    · exact h

theorem restoreImportedSkill_kept (hjob : s.job=none) (idOrName : String) :
    Kept localeCompare sha256 (s.restoreImportedSkill localeCompare sha256 idOrName) := by
  unfold SkillStore.restoreImportedSkill
  split
  · exact h
  split
  · exact h
  next directory trashed rest hfou =>
    dsimp only
    split
    · exact h
    split
    · exact h
    next baseline hbas =>
      split
      · exact h
      next verifiedBaseline hver =>
        split
        · exact h
        next hdig =>
          split
          · exact h
          split
          · exact h
          next working hwor =>
            have hrec : Sound sha256 { trashed.metadata with baseline := verifiedBaseline } :=
              ⟨(not_not.1 hdig).symm,enumeratePackage_plain hver⟩
            refine ⟨h.packages.set _ hrec,?_,h.replaced⟩
            rw [hjob]
            trivial

variable [DecidableEq Finding]

include hsha in
theorem nextCoreSkill_kept {todo : List (CoreSkill Digest Finding)}
    (hjob : s.job=some (.materializing registry todo)) (hcar : careful localeCompare s .nextCoreSkill=true) :
    Kept localeCompare sha256 (s.nextCoreSkill localeCompare sha256 scanSkillFiles registry todo) := by
  have hreg : SoundRegistry sha256 registry := by
    have hsou:=h.job
    rw [hjob] at hsou
    exact hsou
  cases todo with
  | nil => exact ⟨hreg,trivial,h.replaced⟩
  | cons skill todo =>
    rw [SkillStore.nextCoreSkill]
    split
    · exact failed_kept h
    next verified hver =>
      have hrec:=verifyCatalogSkillDirectory_ok hver
      split
      · exact failed_kept h
      · split
        · exact failed_kept h
        · exact ⟨h.packages,hreg.set _ ⟨hrec.1,hrec.2⟩,h.replaced⟩
      next existing working hexi hwor =>
        have hsou : Sound sha256 existing := hreg.lookup hexi
        have hann : SoundRegistry sha256
            (mapSet skill.id { existing with updateAvailableSha256 := some skill.sha256 } registry) :=
          hreg.set _ ⟨hsou.digest,hsou.plain⟩
        dsimp only
        split
        · exact failed_kept h
        split
        next current hcur =>
          split
          next hsam =>
            -- the only way to a replacement: the digests are equal
            have hcom : comparable localeCompare s .core skill.name existing=true := by
              unfold careful at hcar
              rw [hjob] at hcar
              dsimp only at hcar
              rw [hexi] at hcar
              exact hcar
            have hcut:=comparable_sameCuts hcom hwor hcur
            exact ⟨h.packages,⟨hreg,hrec,hsou,
              working,hwor,holds_of_digest hsha hsou hcur hcut hsam.1⟩,h.replaced⟩
          · split
            · exact ⟨h.packages,hann,h.replaced⟩
            · exact ⟨h.packages,hreg,h.replaced⟩
        · split
          · exact ⟨h.packages,hann,h.replaced⟩
          · exact ⟨h.packages,hreg,h.replaced⟩

theorem resetInstalledSkill_kept (hjob : s.job=none) (idOrName : String) (catalog : List (CoreSkill Digest Finding)) :
    Kept localeCompare sha256 (s.resetInstalledSkill localeCompare sha256 scanSkillFiles idOrName catalog) := by
  have hidl : ∀ installed, SoundJob localeCompare sha256 installed s.job := by
    intro installed
    rw [hjob]
    trivial
  unfold SkillStore.resetInstalledSkill
  split
  · exact h
  next skill hski =>
    have hsou : Sound sha256 skill := h.packages.resolved hski
    split
    · split
      · exact h
      next core hcor =>
        split
        next verified copy hver hcop =>
          have hrec:=verifyCatalogSkillDirectory_ok hver
          exact ⟨h.packages.set _ ⟨hrec.1,hrec.2⟩,hidl _,h.replaced⟩
        · exact h
    · split
      · exact h
      split
      · split
        · exact h
        · exact ⟨h.packages.set _ hsou,hidl _,h.replaced⟩
      · exact h

end Steps

variable [DecidableEq Digest]

include hsha in
/-- A skill that is reported as unchanged has a working copy with the files of its baseline. -/
theorem unchanged_holds {s : SkillStore Digest Finding} (h : Kept localeCompare sha256 s) {enabled : List String}
    {status : SkillStatus Digest} (hmem : status ∈ skillStatuses localeCompare sha256 s enabled)
    (hdri : status.drift=.unchanged)
    (hcom : comparable localeCompare s status.skill.kind status.skill.name status.skill=true) :
    HoldsAt localeCompare s.installed status.skill.kind status.skill.name status.skill.baseline := by
  obtain ⟨⟨id,skill⟩,hent,rfl⟩ := mem_map.1 (mem_sorted.1 hmem)
  have hski : (skillStatus localeCompare sha256 s enabled skill).skill=skill := by
    unfold skillStatus
    dsimp only
    split
    · rfl
    split
    · rfl
    · rfl
  dsimp only at hdri hcom ⊢
  rw [hski] at hcom ⊢
  unfold skillStatus at hdri
  dsimp only at hdri
  split at hdri
  · cases hdri
  next working hwor =>
    split at hdri
    · cases hdri
    next inspected hins =>
      dsimp only at hdri
      split at hdri
      next hdig =>
        exact ⟨working,hwor,holds_of_digest hsha (h.packages (id,skill) hent) hins
          (comparable_sameCuts hcom hwor hins) hdig.symm⟩
      · cases hdri

variable [DecidableEq Finding]

include hsha in
theorem step_kept {s s' : SkillStore Digest Finding} {action : Action Digest Finding} (h : Kept localeCompare sha256 s)
    (hcar : careful localeCompare s action=true)
    (hste : (skillSystem localeCompare sha256 yaml scanSkillFiles blockingForSkills).step s action=some s') :
    Kept localeCompare sha256 s' := by
  change s.act localeCompare sha256 yaml scanSkillFiles blockingForSkills action=some s' at hste
  cases action with
  | editInstalled name now =>
    cases hste
    refine editInstalled_kept h ?_ (of_decide_eq_true hcar)
    intro other hne
    cases now with
    | none => exact (lookup_mapDelete name other s.installed).trans (if_neg hne)
    | some node => exact (lookup_mapSet name other node s.installed).trans (if_neg hne)
  | editBaseline name now =>
    cases hste
    exact ⟨h.packages,h.job,h.replaced⟩
  | editCustom now =>
    cases hste
    exact ⟨h.packages,h.job,h.replaced⟩
  | editTrash now =>
    cases hste
    exact ⟨h.packages,h.job,h.replaced⟩
  | fail =>
    cases hste
    exact failed_kept h
  | nextCoreSkill =>
    unfold SkillStore.act at hste
    dsimp only at hste
    split at hste
    next registry todo hjob =>
      cases hste
      exact nextCoreSkill_kept hsha h hjob hcar
    · cases hste
  | replaceCoreSkill =>
    unfold SkillStore.act at hste
    dsimp only at hste
    split at hste
    next registry skill verified existing todo hjob =>
      cases hste
      exact replaceCoreSkill_kept h hjob
    · cases hste
  | replaceImportedSkill source expectedName committed =>
    unfold SkillStore.act at hste
    dsimp only at hste
    split at hste
    next registry existing hjob =>
      cases hste
      exact replaceImportedSkill_kept yaml blockingForSkills h hjob source expectedName committed
    · cases hste
  | materializeSkills catalog enabledCatalogSkills =>
    unfold SkillStore.act at hste
    dsimp only at hste
    split at hste
    · cases hste
    split at hste
    · cases hste
      exact h
    · cases hste
      exact ⟨h.packages,h.packages,h.replaced⟩
  | importSkill source expectedName catalog =>
    obtain ⟨hjob,rfl⟩ := idle_of_started hste
    exact importSkill_kept yaml blockingForSkills h hjob source expectedName catalog
  | updateImportedSkill idOrName =>
    obtain ⟨-,rfl⟩ := idle_of_started hste
    exact updateImportedSkill_kept hsha h hcar
  | resetInstalledSkill idOrName catalog =>
    obtain ⟨hjob,rfl⟩ := idle_of_started hste
    exact resetInstalledSkill_kept h hjob idOrName catalog
  | removeImportedSkill idOrName trashName =>
    obtain ⟨hjob,rfl⟩ := idle_of_started hste
    exact removeImportedSkill_kept h hjob idOrName trashName
  | restoreImportedSkill idOrName =>
    obtain ⟨hjob,rfl⟩ := idle_of_started hste
    exact restoreImportedSkill_kept h hjob idOrName

include hsha in
theorem run_kept {s₀ s : SkillStore Digest Finding} {actions : List (Action Digest Finding)}
    (hini : (skillSystem localeCompare sha256 yaml scanSkillFiles blockingForSkills).initial s₀)
    (hrun : (skillSystem localeCompare sha256 yaml scanSkillFiles blockingForSkills).RunWhere
      (fun s action => careful localeCompare s action=true) s₀ actions s) : Kept localeCompare sha256 s := by
  refine hrun.preserves (P := Kept localeCompare sha256)
    (fun _ _ _ hkep hcar hste => step_kept yaml blockingForSkills hsha hkep hcar hste) ?_
  obtain ⟨hpac,hjob,hrep⟩ := hini
  refine ⟨fun entry hmem => ?_,?_,fun r hmem => ?_⟩
  · rw [hpac] at hmem
    cases hmem
  · rw [hjob]
    trivial
  · rw [hrep] at hmem
    cases hmem

include hsha in
/-- Digests tell packages apart exactly where the same bytes are not cut into files in two ways. In a run in which what is
compared is not so cut, and in which the agent leaves alone what waits for its replacement, every working copy that was
replaced had the files of its recorded package, and so has every one that is reported as unchanged. -/
theorem digests_identify_packages :
    (∀ root root' ignorePythonCaches ignorePythonCaches' entries entries',
      enumeratePackage localeCompare root ignorePythonCaches=.ok entries →
      enumeratePackage localeCompare root' ignorePythonCaches'=.ok entries' →
        ((sha256 (flat entries)=sha256 (flat entries') → contents entries=contents entries') ↔ SameCuts entries entries') ∧
          (NulFree entries → NulFree entries' → SameCuts entries entries')) ∧
    ∀ s₀ actions s enabled, (skillSystem localeCompare sha256 yaml scanSkillFiles blockingForSkills).initial s₀ →
      (skillSystem localeCompare sha256 yaml scanSkillFiles blockingForSkills).RunWhere
        (fun s action => careful localeCompare s action=true) s₀ actions s →
      (∀ r ∈ s.replaced, Holds localeCompare r.kind r.working r.baseline) ∧
        ∀ status ∈ skillStatuses localeCompare sha256 s enabled, status.drift=.unchanged →
          comparable localeCompare s status.skill.kind status.skill.name status.skill=true →
          HoldsAt localeCompare s.installed status.skill.kind status.skill.name status.skill.baseline := by
  constructor
  · intro root root' ignorePythonCaches ignorePythonCaches' entries entries' hent hent'
    have hpla:=enumeratePackage_plain hent
    have hpla':=enumeratePackage_plain hent'
    exact ⟨contents_of_digest_iff hpla hpla' hsha,sameCuts_of_nulFree hpla hpla'⟩
  · intro s₀ actions s enabled hini hrun
    have hkep:=run_kept yaml blockingForSkills hsha hini hrun
    exact ⟨hkep.replaced,fun status hmem hdri hcom => unchanged_holds hsha hkep hmem hdri hcom⟩

end Commands

section Example

def fileName (text : String) (plain : ∀ c ∈ text.toList, c ≠ '/' ∧ c≠Char.ofNat 0) : FileName := ⟨text,plain⟩

def skillFile (description : String) : FileName × Node :=
  (fileName "SKILL.md" (forall_chars (by decide)),.file (Utf8.encode ("---\nname: a\ndescription: " ++ description ++ "\n---\n")) 0o644 1)

def oneFile : Node := .directory
  [skillFile "d",(fileName "a" (forall_chars (by decide)),.file [0x25,0x50,0x44,0x46,0x2d,0,0x62,0,0x68,0x69] 0o644 1)]

def twoFiles : Node := .directory
  [skillFile "d",(fileName "a" (forall_chars (by decide)),.file [0x25,0x50,0x44,0x46,0x2d] 0o644 1),
    (fileName "b" (forall_chars (by decide)),.file [0x68,0x69] 0o644 1)]

def exampleYaml (text : String) : Option (String × String) :=
  if text.toList.take 21 = "name: a\ndescription: ".toList then some ("a",String.ofList (text.toList.drop 21)) else none

def exampleSystem : TransitionSystem (SkillStore (List UInt8) String) (Action (List UInt8) String) :=
  skillSystem compareText id exampleYaml (fun _ => []) (fun _ => false)

def emptyStore : SkillStore (List UInt8) String := ⟨[],[],[],[],[],none,[]⟩

def updateRun (edits : List (Action (List UInt8) String)) : List (Action (List UInt8) String) :=
  [.importSkill twoFiles "a" [],.updateImportedSkill "imported/a"]++edits ++
    [.replaceImportedSkill (.directory [skillFile "e"]) "a" true]

instance (kind : SkillKind) (working : Node) (baseline : List PackageEntry) :
    Decidable (Holds compareText kind working baseline) :=
  match hfou : inspectWorkingCopy compareText kind working with
  | .ok current => decidable_of_iff (contents current=contents baseline)
    ⟨fun h => ⟨current,hfou,h⟩,fun ⟨_,hoth,h⟩ => Except.ok.inj (hfou.symm.trans hoth) ▸ h⟩
  | .error _ => .isFalse fun ⟨_,hoth,_⟩ => nomatch hfou.symm.trans hoth

def replacedUnchanged (s : SkillStore (List UInt8) String) : List Bool :=
  s.replaced.map fun r => decide (Holds compareText r.kind r.working r.baseline)

theorem exists_lost {actions : List (Action (List UInt8) String)}
    (h : (exampleSystem.exec emptyStore actions).map replacedUnchanged=some [false]) :
    ∃ s, exampleSystem.Run emptyStore actions s ∧ ∃ r ∈ s.replaced, ¬ Holds compareText r.kind r.working r.baseline := by
  obtain ⟨s,hexe,hrep⟩ := map_eq_some_iff.1 h
  refine ⟨s,TransitionSystem.run_of_exec hexe,?_⟩
  have hmem : false ∈ replacedUnchanged s := by
    rw [hrep]
    exact mem_singleton.2 rfl
  obtain ⟨r,hr,hlos⟩ := mem_map.1 hmem
  exact ⟨r,hr,of_decide_eq_false hlos⟩

/-- Two accepted packages with one digest; an edit that makes one of them of the other is replaced, and so is one that comes
after the comparison. -/
theorem two_packages_with_one_digest :
    (∃ one two, enumeratePackage compareText oneFile false=.ok one ∧ enumeratePackage compareText twoFiles false=.ok two ∧
      (id (flat one) : List UInt8)=id (flat two) ∧ contents one≠contents two) ∧
    (∃ s, exampleSystem.Run emptyStore
        ([.importSkill twoFiles "a" [],.editInstalled "a" (some oneFile)]++[.updateImportedSkill "a",
          .replaceImportedSkill (.directory [skillFile "e"]) "a" true]) s ∧
      ∃ r ∈ s.replaced, ¬ Holds compareText r.kind r.working r.baseline) ∧
    ∃ s, exampleSystem.Run emptyStore (updateRun [.editInstalled "a" (some (.directory [skillFile "mine"]))]) s ∧
      ∃ r ∈ s.replaced, ¬ Holds compareText r.kind r.working r.baseline := by
  refine ⟨?_,exists_lost (by decide +kernel),exists_lost (by decide +kernel)⟩
  have hone : ∀ root, (enumeratePackage compareText root false).toBool=true →
      ∃ entries, enumeratePackage compareText root false=.ok entries := by
    intro root h
    cases hfou : enumeratePackage compareText root false with
    | error error =>
      rw [hfou] at h
      cases h
    | ok entries => exact ⟨entries,rfl⟩
  obtain ⟨one,hone'⟩ := hone oneFile (by decide +kernel)
  obtain ⟨two,htwo⟩ := hone twoFiles (by decide +kernel)
  have hfla : (enumeratePackage compareText oneFile false).map flat=(enumeratePackage compareText twoFiles false).map flat := by
    decide +kernel
  have hcon : ¬ (enumeratePackage compareText oneFile false).map contents =
      (enumeratePackage compareText twoFiles false).map contents := by
    decide +kernel
  rw [hone',htwo] at hfla hcon
  exact ⟨one,two,hone',htwo,Except.ok.inj hfla,fun h => hcon (congrArg Except.ok h)⟩

theorem digests_identify_packages_updated : ∃ s, exampleSystem.RunWhere
    (fun s action => careful compareText s action=true) emptyStore (updateRun []) s ∧ s.replaced.length=1 ∧
      ∀ r ∈ s.replaced, Holds compareText r.kind r.working r.baseline := by
  have hexe : (exampleSystem.execWhere (careful compareText) emptyStore (updateRun [])).map (fun s => s.replaced.length) =
      some 1 := by decide +kernel
  obtain ⟨s,hs,hlen⟩ := map_eq_some_iff.1 hexe
  have hrun:=TransitionSystem.runWhere_of_exec hs
  exact ⟨s,hrun,hlen,((digests_identify_packages exampleYaml (fun _ => false) Function.injective_id).2 emptyStore
    (updateRun []) s [] ⟨rfl,rfl,rfl⟩ hrun).1⟩

end Example

end Qubicl.Cli.Skills
