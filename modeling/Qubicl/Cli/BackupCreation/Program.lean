import Qubicl.Cli.Lifecycle.Operations

/-!
# Creating a backup (packages/cli/src/backups.ts:334-558)

`createBackup` pauses the containers of a computer while it captures their home, and
publishes the backup with one rename. The journal says which containers it pauses and in
which directory it works, and `recoverPendingBackupCreation` undoes what was not published.
-/

namespace Qubicl.Cli.BackupCreation
open Foundation Core Durable

variable {A P : Type}

inductive BackupCreationPhase
  | prepared
  | paused
  | archiveReady
  | resumed
  deriving DecidableEq, Repr

structure BackupCreationJournal where
  operationId : String
  installationId : String
  computerId : String
  backupId : String
  stagingName : String
  createdAt : String
  phase : BackupCreationPhase
  pauseTargets : List RuntimeContainerBinding
  deriving DecidableEq, Repr

inductive BackupConsistency
  | live
  | quiesced
  | stopped
  deriving DecidableEq, Repr

structure BackupManifest where
  id : String
  name : String
  createdAt : String
  source : ComputerConfig
  archive : String
  sha256 : String
  encrypted : Bool
  consistency : BackupConsistency
  deriving DecidableEq, Repr

structure BackupTree (A : Type) where
  plain : Place A
  encrypted : Place A
  manifest : Place BackupManifest

instance : EmptyCollection (BackupTree A) := ⟨⟨.absent,.absent,.absent⟩⟩

inductive PauseCommand
  | pause
  | unpause
  deriving DecidableEq, Repr

/- A pause or an unpause, with the journal that was there when it was issued. -/
structure PauseCall where
  command : PauseCommand
  ids : List String
  journal : Place BackupCreationJournal

/- The journal, what is in the directory of the backups, and the containers with the labels
of the computer. `calls` is kept for the statements; nothing reads it. -/
structure BackupWorld (A : Type) where
  journal : Place BackupCreationJournal
  backups : String → Place (BackupTree A)
  containers : List RuntimeContainerBinding
  calls : List PauseCall

namespace BackupTree

def plainLens : Lens (BackupTree A) (Place A) where
  get tree := tree.plain
  set plain tree := { tree with plain }
  get_set _ _ := rfl
  set_get _ := rfl
  set_set _ _ _ := rfl

def encryptedLens : Lens (BackupTree A) (Place A) where
  get tree := tree.encrypted
  set encrypted tree := { tree with encrypted }
  get_set _ _ := rfl
  set_get _ := rfl
  set_set _ _ _ := rfl

def manifestLens : Lens (BackupTree A) (Place BackupManifest) where
  get tree := tree.manifest
  set manifest tree := { tree with manifest }
  get_set _ _ := rfl
  set_get _ := rfl
  set_set _ _ _ := rfl

end BackupTree

namespace BackupWorld

def journalLens : Lens (BackupWorld A) (Place BackupCreationJournal) where
  get w := w.journal
  set journal w := { w with journal }
  get_set _ _ := rfl
  set_get _ := rfl
  set_set _ _ _ := rfl

def containersLens : Lens (BackupWorld A) (List RuntimeContainerBinding) where
  get w := w.containers
  set containers w := { w with containers }
  get_set _ _ := rfl
  set_get _ := rfl
  set_set _ _ _ := rfl

def backupsLens : Lens (BackupWorld A) (String → Place (BackupTree A)) where
  get w := w.backups
  set backups w := { w with backups }
  get_set _ _ := rfl
  set_get _ := rfl
  set_set _ _ _ := rfl

def backupLens (name : String) : Lens (BackupWorld A) (Place (BackupTree A)) := backupsLens.comp (Lens.at name)

end BackupWorld

/- `chunks` are what a file holds while it is written, and `remnants` the states of a directory
while `rm` removes it. `archive` is `tar` on the home of a computer, and `cipher` uses the salt
and the nonce of the run. -/
structure BackupTools (A P : Type) where
  sha256 : A → String
  chunks : A → List A
  tar : String → A
  archive : String → Durable (Place A) String Unit
  archive_made : ∀ computerId place, (archive computerId).result place=.ok () →
    ∃ uid mode, (archive computerId).final place=.real uid mode (tar computerId)
  inspect : A → Except String P
  cipher : A → String → A
  remnants : BackupTree A → List (BackupTree A)

/- `isDate` is `!Number.isNaN(Date.parse(value))`, and `names` gives the expected names of the containers. -/
structure BackupHost (A P : Type) where
  uid : ℕ
  isDate : String → Bool
  names : LoadedState → ComputerConfig → RuntimeNames
  docker : PauseCommand → List String → Durable (List RuntimeContainerBinding) String Unit
  tools : BackupTools A P

/- `/^[a-zA-Z0-9._-]+$/u` -/
def backupNamePattern : String → Bool :=
  open Regex in
  (oneOrMore (choice [range 'a' 'z',range 'A' 'Z',range '0' '9',oneOf "._-"])).test

def requiredJournalString (value field : String) : Except String Unit :=
  if value = "" then .error s!"Backup creation journal has an invalid {field}." else .ok ()

/-- `parseBackupCreationJournal`, as far as a document of its fields can fail it. -/
def parseBackupCreationJournal (isDate : String → Bool) (record : BackupCreationJournal) :
    Except String BackupCreationJournal := do
  requiredJournalString record.operationId "operationId"
  requiredJournalString record.backupId "backupId"
  requiredJournalString record.stagingName "stagingName"
  requiredJournalString record.createdAt "createdAt"
  if !lifecycleUuid record.operationId then .error "Backup creation journal has an invalid operation ID."
  else do
    requiredJournalString record.installationId "installationId"
    requiredJournalString record.computerId "computerId"
    if !lifecycleUuid record.installationId then .error "Backup creation journal has an invalid installation ID."
    else if !lifecycleUuid record.computerId then .error "Backup creation journal has an invalid computer ID."
    else if !backupNamePattern record.backupId then .error "Backup creation journal has an invalid backup ID."
    else if record.stagingName ≠ ".creating-" ++ record.operationId then
      .error "Backup creation journal has an invalid staging directory binding."
    else if !isDate record.createdAt then .error "Backup creation journal has an invalid creation timestamp."
    else if !record.pauseTargets.all runtimeContainerBindingSchema then
      .error "Backup creation journal has invalid pause targets."
    else if record.pauseTargets.any (·.status ≠ "running") then
      .error "Backup creation journal pause targets must record a previously running container."
    else if !(allUnique (record.pauseTargets.map (·.id)) && allUnique (record.pauseTargets.map (·.name))) then
      .error "Backup creation journal pause targets must have unique immutable IDs and names."
    else .ok record

def backupCreationJournalPath (state : LoadedState) : String := join state.paths.runtime "backup-create.json"

def readBackupCreationJournal (host : BackupHost A P) (state : LoadedState) :
    Place BackupCreationJournal → Except String (Option BackupCreationJournal)
  | .absent => .ok none
  | .real uid mode record =>
    let path:=backupCreationJournalPath state
    if uid≠host.uid ∨ mode≠0o600 then
      .error s!"Backup creation journal {path} must be owned by the current operator with mode 0600."
    else (parseBackupCreationJournal host.isDate record).map some
  | _ =>
    let path:=backupCreationJournalPath state
    .error s!"Backup creation journal {path} must be a regular file."

def assertStableBackupObservation (computer : ComputerConfig) (observation : ManagedRuntimeGroupObservation) :
    Except String Unit :=
  let name:=computer.name
  let group:=groupText observation.group
  let status:=observation.status
  if observation.group=.partly ∨ observation.group=.inconsistent then
    .error s!"Computer {name} runtime group is {group}; refusing a backup from ambiguous runtime state."
  else if observation.group=.absent ∧ status ≠ "absent" then
    .error s!"Computer {name} runtime group is absent but reports status {status}."
  else .ok ()

def sameBackupPauseTarget (expected actual : RuntimeContainerBinding) : Bool :=
  expected.id=actual.id && expected.name=actual.name && expected.imageId=actual.imageId &&
    expected.role=actual.role && expected.topologyVersion=actual.topologyVersion

def assertCoherentBackupPauseOutcome (computer : ComputerConfig) (observation : ManagedRuntimeGroupObservation) :
    Except String Unit :=
  let name:=computer.name
  let group:=groupText observation.group
  let status:=observation.status
  if observation.group≠.complete ∨ status ∉ ["running","exited","created"] then
    .error s!"Backup recovery could not verify a coherent running or stopped runtime for {name}; found {group}/{status} and preserved the journal."
  else .ok ()

def containerById (containers : List RuntimeContainerBinding) (id : String) : Option RuntimeContainerBinding :=
  containers.reverse.find? (·.id=id)

def changedPauseTarget (targets containers : List RuntimeContainerBinding) : Option RuntimeContainerBinding :=
  targets.find? fun target => !((containerById containers target.id).any (sameBackupPauseTarget target))

def assertPauseTargetsPresent (computer : ComputerConfig) (targets : List RuntimeContainerBinding)
    (observation : ManagedRuntimeGroupObservation) : Except String Unit :=
  let name:=computer.name
  let group:=groupText observation.group
  if observation.group=.absent ∨ observation.group=.partly ∨ observation.containers.length≠targets.length then
    .error s!"Backup recovery found {name} runtime group {group}; exact paused containers were not changed."
  else
    match changedPauseTarget targets observation.containers with
    | some target =>
      let id:=target.id
      .error s!"Backup recovery could not prove immutable container {id} still belongs to {name}; it was not changed."
    | none => .ok ()

def assertPauseTargetsResumed (computer : ComputerConfig) (targets : List RuntimeContainerBinding)
    (observation : ManagedRuntimeGroupObservation) : Except String Unit := do
  let name:=computer.name
  assertCoherentBackupPauseOutcome computer observation
  if observation.containers.length≠targets.length then
    .error s!"Backup recovery could not verify that {name} resumed; the journal was preserved."
  else if (changedPauseTarget targets observation.containers).isSome then
    .error s!"Backup recovery observed changed runtime identity for {name}; the journal was preserved."
  else .ok ()

def ownedBackupDirectory {α : Type} (uid : ℕ) (path : String) : Place α → Except String Bool
  | .absent => .ok false
  | .real owner mode _ =>
    if owner=uid ∧ mode=0o700 then .ok true
    else .error s!"Backup path {path} must be a real operator-owned directory with mode 0700."
  | _ => .error s!"Backup path {path} must be a real operator-owned directory with mode 0700."

/- `readFile`, through a link or not. -/
def readArchive (path : String) (place : Place A) : Except String A :=
  match place.content? with
  | some archive => .ok archive
  | none => .error s!"ENOENT: no such file or directory, open {path}"

def manifestValid (isDate : String → Bool) (id : String) (manifest : BackupManifest) : Bool :=
  manifest.id == id && manifest.name == manifest.source.name && isDate manifest.createdAt &&
    backupNamePattern manifest.archive && materialId manifest.sha256

section Programs
variable (z : Formats) (host : BackupHost A P) (state : LoadedState)

def locateBackup (id : String) (tree : BackupTree A) : Except String BackupManifest := do
  if !backupNamePattern id then .error "Invalid backup ID."
  else do
    let manifest ← readArchive (join (join state.paths.backups id) "manifest.json") tree.manifest
    match (computerConfigSchema z).parse manifest.source with
    | none => .error "invalid computer configuration"
    | some source =>
      let manifest:={ manifest with source }
      if manifestValid host.isDate id manifest then .ok manifest
      else .error s!"Backup {id} has an invalid manifest."

def archiveOf (manifest : BackupManifest) (tree : BackupTree A) : Place A :=
  if manifest.archive = "home.tar.gz" then tree.plain
  else if manifest.archive = "home.tar.gz.enc" then tree.encrypted
  else .absent

def verifyPublished (journal : BackupCreationJournal) (place : Place (BackupTree A)) : Except String Unit :=
  match place.content? with
  | none => .error "ENOENT: no such file or directory, open manifest.json"
  | some tree => do
    let manifest ← locateBackup z host state journal.backupId tree
    match archiveOf manifest tree with
    | .real owner mode archive =>
      if owner≠host.uid ∨ mode &&& 0o077≠0 then
        .error "Backup recovery found an unsafe published archive; it was preserved for manual review."
      else if manifest.source.id≠journal.computerId ∨ host.tools.sha256 archive≠manifest.sha256 then
        .error "Backup recovery found a published archive that does not match its manifest; it was preserved for manual review."
      else .ok ()
    | .absent => .error "ENOENT: no such file or directory, lstat archive"
    | _ => .error "Backup recovery found an unsafe published archive; it was preserved for manual review."

def writeBackupCreationJournal (journal : BackupCreationJournal) : Durable (BackupWorld A) String Unit :=
  zoom BackupWorld.journalLens (atomicWrite host.uid (backupCreationJournalPath state) journal 0o600)

def removeBackupCreationJournal : Durable (BackupWorld A) String Unit :=
  zoom BackupWorld.journalLens (durableRemove (backupCreationJournalPath state))

def observesBackup (computer : ComputerConfig) : Durable (BackupWorld A) String ManagedRuntimeGroupObservation :=
  reads fun w => .ok (managedComputerRuntimeObservation (host.names state computer) w.containers)

def pauseCommand (command : PauseCommand) (ids : List String) : Durable (BackupWorld A) String Unit := do
  write fun w => { w with calls := w.calls++[⟨command,ids,w.journal⟩] }
  zoom BackupWorld.containersLens (host.docker command ids)

def resumeComputer (computer : ComputerConfig) (targets : List RuntimeContainerBinding) :
    Durable (BackupWorld A) String Unit := do
  let observation ← observesBackup host state computer
  ofExcept (assertPauseTargetsPresent computer targets observation)
  let paused:=(targets.filter fun target =>
    (containerById observation.containers target.id).any (·.status = "paused")).map (·.id)
  if paused.isEmpty then ofExcept (assertCoherentBackupPauseOutcome computer observation)
  else do
    pauseCommand host .unpause paused
    let resumed ← observesBackup host state computer
    ofExcept (assertPauseTargetsResumed computer targets resumed)

def resumeBackupPauseTargets (journal : BackupCreationJournal) : Durable (BackupWorld A) String Unit :=
  let computerId:=journal.computerId
  if journal.pauseTargets.isEmpty then pure ()
  else
    match state.config.computers.find? (·.id=computerId) with
    | none => fail s!"Backup recovery cannot verify removed computer {computerId}; the journal was preserved."
    | some computer => resumeComputer host state computer journal.pauseTargets

def treeRemoval {α : Type} (remnants : α → List α) : Place α → List (Place α)
  | .absent => []
  | .real owner mode content => (remnants content).map (.real owner mode)++[.absent]
  | _ => [.absent]

def recoverDirectories (journal : BackupCreationJournal) : Durable (BackupWorld A) String Unit := do
  let staging:=join state.paths.backups journal.stagingName
  let target:=join state.paths.backups journal.backupId
  let stagingExists ← reads fun w => ownedBackupDirectory host.uid staging (w.backups journal.stagingName)
  let targetExists ← reads fun w => ownedBackupDirectory host.uid target (w.backups journal.backupId)
  if stagingExists && targetExists then
    fail "Backup recovery found both staged and published directories; both were preserved for manual review."
  else do
    reads fun w => if targetExists then verifyPublished z host state journal (w.backups journal.backupId) else .ok ()
    when stagingExists (zoom (BackupWorld.backupLens journal.stagingName) (writes (treeRemoval host.tools.remnants)))

def recoverPendingBackupCreation : Durable (BackupWorld A) String Bool := do
  let journal ← reads fun w => readBackupCreationJournal host state w.journal
  match journal with
  | none => pure false
  | some journal =>
    if journal.installationId≠state.config.installationId then
      fail "Backup creation journal belongs to another Qubicl installation and was preserved."
    else do
      resumeBackupPauseTargets host state journal
      recoverDirectories z host state journal
      removeBackupCreationJournal state
      pure true

structure BackupOptions where
  quiesce : Bool
  stopped : Bool
  checkpoint : Bool
  encrypt : Bool
  passphrase : Except String String

/- What `randomUUID` and the clock return, and the text of the ID up to the computer's name and after it. -/
structure BackupFresh where
  operationId : String
  stamp : String
  suffix : String
  createdAt : String
  manifestCreatedAt : String

def BackupOptions.consistency (options : BackupOptions) : BackupConsistency :=
  if options.checkpoint || options.quiesce then .quiesced else if options.stopped then .stopped else .live

def BackupOptions.pauseTargets (options : BackupOptions) (observation : ManagedRuntimeGroupObservation) :
    List RuntimeContainerBinding :=
  if observation.group=.complete ∧ observation.status = "running" ∧ options.consistency=.quiesced then
    observation.containers
  else []

def BackupOptions.assertConsistent (options : BackupOptions) (computer : ComputerConfig)
    (observation : ManagedRuntimeGroupObservation) : Except String Unit := do
  let name:=computer.name
  let status:=observation.status
  assertStableBackupObservation computer observation
  if options.stopped ∧ ¬ (observation.group=.absent ∨
      observation.group=.complete ∧ status ∈ ["exited","created"]) then
    .error "--stopped requires the complete computer runtime to already be stopped or absent."
  else if options.consistency=.quiesced ∧ observation.group=.complete ∧
      status ∉ ["running","paused","exited","created"] then
    .error s!"Computer {name} runtime status {status} cannot be quiesced safely."
  else .ok ()

def BackupOptions.password (options : BackupOptions) : Except String (Option String) :=
  if options.encrypt then options.passphrase.map some else .ok none

def BackupFresh.backupId (fresh : BackupFresh) (computer : ComputerConfig) : String :=
  fresh.stamp ++ "-" ++ computer.name ++ "-" ++ fresh.suffix

def BackupFresh.journal (fresh : BackupFresh) (state : LoadedState) (computer : ComputerConfig)
    (pauseTargets : List RuntimeContainerBinding) : BackupCreationJournal where
  operationId := fresh.operationId
  installationId := state.config.installationId
  computerId := computer.id
  backupId := fresh.backupId computer
  stagingName := ".creating-" ++ fresh.operationId
  createdAt := fresh.createdAt
  phase := .prepared
  pauseTargets := pauseTargets

def mkdirStaging (uid : ℕ) (path : String) : Durable (Place (BackupTree A)) String Unit
  | .absent => ⟨[.real uid 0o700 ∅],.ok ()⟩
  | _ => ⟨[],.error s!"EEXIST: file already exists, mkdir {path}"⟩

def encryptBackupFile (path : String) (source : A) (password : String) : Durable (Place A) String Unit
  | .absent =>
    let encrypted:=host.tools.cipher source password
    ⟨(host.tools.chunks encrypted).map (.real host.uid 0o600)++[.real host.uid 0o600 encrypted],.ok ()⟩
  | _ => ⟨[],.error s!"EEXIST: file already exists, open {path}"⟩

def captureHome (staging : String) (computerId : String) : Durable (BackupTree A) String Unit := do
  zoom BackupTree.plainLens (host.tools.archive computerId)
  reads fun tree => (readArchive (join staging "home.tar.gz") tree.plain).map fun _ => ()
  zoom BackupTree.plainLens (write (Place.chmod 0o600))

def finishStaging (staging : String) (fresh : BackupFresh) (options : BackupOptions) (computer : ComputerConfig)
    (password : Option String) : Durable (BackupTree A) String BackupManifest := do
  let plain ← reads fun tree => readArchive (join staging "home.tar.gz") tree.plain
  let _ ← ofExcept (host.tools.inspect plain)
  match password with
  | some password => do
    zoom BackupTree.encryptedLens (encryptBackupFile host (join staging "home.tar.gz.enc") plain password)
    zoom BackupTree.plainLens (durableRemove (join staging "home.tar.gz"))
  | none => pure ()
  let archive ← reads fun tree => if password.isSome then readArchive (join staging "home.tar.gz.enc") tree.encrypted
    else readArchive (join staging "home.tar.gz") tree.plain
  let manifest : BackupManifest := {
    id := fresh.backupId computer
    name := computer.name
    createdAt := fresh.manifestCreatedAt
    source := computer
    archive := if password.isSome then "home.tar.gz.enc" else "home.tar.gz"
    sha256 := host.tools.sha256 archive
    encrypted := password.isSome
    consistency := options.consistency }
  zoom BackupTree.manifestLens (atomicWrite host.uid (join staging "manifest.json") manifest 0o600)
  pure manifest

def renamedBackup (source target : String) (backups : String → Place (BackupTree A)) : String → Place (BackupTree A) :=
  Function.update (Function.update backups target (backups source)) source .absent

/- `durableRename(staging, directory)`; nothing is at a fresh ID. -/
def publishBackup (journal : BackupCreationJournal) : Durable (BackupWorld A) String Unit := fun w =>
  match w.backups journal.stagingName, w.backups journal.backupId with
  | .absent, _ => ⟨[],.error "ENOENT: no such file or directory, rename"⟩
  | _, .absent => ⟨[{ w with backups := renamedBackup journal.stagingName journal.backupId w.backups }],.ok ()⟩
  | _, _ => ⟨[],.error "ENOTEMPTY: directory not empty, rename"⟩

def captureBackup (fresh : BackupFresh) (options : BackupOptions) (computer : ComputerConfig)
    (password : Option String) (journal : BackupCreationJournal) : Durable (BackupWorld A) String BackupManifest := do
  let staging:=join state.paths.backups journal.stagingName
  let stagingLens:=BackupWorld.backupLens journal.stagingName
  zoom stagingLens (mkdirStaging host.uid staging)
  when (!journal.pauseTargets.isEmpty) do
    pauseCommand host .pause (journal.pauseTargets.map (·.id))
    writeBackupCreationJournal host state { journal with phase := .paused }
  zoom stagingLens (inside staging (captureHome host staging computer.id))
  writeBackupCreationJournal host state { journal with phase := .archiveReady }
  resumeBackupPauseTargets host state { journal with phase := .archiveReady }
  writeBackupCreationJournal host state { journal with phase := .resumed }
  let manifest ← zoom stagingLens (inside staging (finishStaging host staging fresh options computer password))
  publishBackup journal
  removeBackupCreationJournal state
  pure manifest

/- A step that fails may be any of those that are tried. -/
def createBackup (failure : Option (StepFailure String)) (fresh : BackupFresh) (options : BackupOptions)
    (computer : ComputerConfig) : Durable (BackupWorld A) String BackupManifest := do
  if options.quiesce && options.stopped then fail "--quiesce and --stopped are mutually exclusive."
  else do
    let _ ← recoverPendingBackupCreation z host state
    let observation ← observesBackup host state computer
    ofExcept (options.assertConsistent computer observation)
    let password ← ofExcept options.password
    let journal:=fresh.journal state computer (options.pauseTargets observation)
    writeBackupCreationJournal host state journal
    (failing failure (captureBackup host state fresh options computer password journal)).catching fun error => do
      let _ ← (recoverPendingBackupCreation z host state).catching fun recoveryError =>
        fail s!"Backup creation failed and exact recovery remains pending: {error} Recovery error: {recoveryError}"
      fail error

end Programs
end Qubicl.Cli.BackupCreation
