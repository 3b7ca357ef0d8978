import Qubicl.Cli.UpgradeBackup

/-!
# The state transaction engine (packages/cli/src/transactions.ts)

`prepareStateTransaction` writes the journal of a transaction, and
`recoverPendingTransaction` carries the journal out: first the directories of the
computers, the state files and the trash, then the work on the containers. The
calls that work on containers, and the rendering of their configuration, change a
part of the world of their own, of which nothing is assumed here; checkpoints,
which are for tests, are left out.
-/

namespace Qubicl.Cli
open Foundation Core Durable

structure Slot (F : Type) where
  active : Place (ComputerDirectory F)
  trash : Place (ComputerDirectory F)
  staged : Place (ComputerDirectory F)

structure Disk (F : Type) where
  journal : Place TransactionDocument
  files : StateFiles
  computers : Place Unit
  trash : Place Unit
  restoreStaging : Bool
  slots : String → Slot F
  backups : Place (List BackupDirectory)

structure World (F R : Type) where
  disk : Disk F
  runtime : R

/- `remnants` are the states a directory goes through while `rm` removes what is in
it; nothing appears in a directory by that. -/
structure Host (F R : Type) where
  uid : ℕ
  remnants : ComputerDirectory F → List (ComputerDirectory F)
  remnants_ready : ∀ c, c.restoreReady=.absent → ∀ r ∈ remnants c, r.restoreReady=.absent
  renderRuntime : LoadedState → Durable R String Unit
  digest : BackupDocument → FileDigest
  stamp : BackupStamp

structure TransactionRuntime (R : Type) where
  reconcileContracts : LoadedState → StateTransaction → Durable R String Unit
  validate : Durable R String Unit
  ensureImages : LoadedState → Durable R String Unit
  startGateway : LoadedState → List RuntimeContainerBinding → Bool → Durable R String Unit
  replaceStoppedGateway : LoadedState → List RuntimeContainerBinding → Durable R String Unit
  verifyGateway : LoadedState → List String → Durable R String Unit
  reconnect : LoadedState → Option ComputerConfig → Durable R String Unit
  waitForRemoval : LoadedState → String → Durable R String Unit
  remove : LoadedState → String → Durable R String Unit
  removeReplacement :
    LoadedState → Option ComputerConfig → List RuntimeContainerBinding → Durable R String Unit
  replaceStopped :
    LoadedState → Option ComputerConfig → List RuntimeContainerBinding → Durable R String Unit
  start : LoadedState → Option ComputerConfig → Durable R String Unit
  verifyToken : LoadedState → String → String → Durable R String Unit

structure TransactionOptions (R : Type) where
  includeRuntime : Option Bool
  runtime : TransactionRuntime R

variable {F R : Type} [EmptyCollection F]

namespace Slot

def activeLens : Lens (Slot F) (Place (ComputerDirectory F)) where
  get s := s.active
  set place s := { s with active := place }
  get_set _ _ := rfl
  set_get _ := rfl
  set_set _ _ _ := rfl

def trashLens : Lens (Slot F) (Place (ComputerDirectory F)) where
  get s := s.trash
  set place s := { s with trash := place }
  get_set _ _ := rfl
  set_get _ := rfl
  set_set _ _ _ := rfl

def stagedLens : Lens (Slot F) (Place (ComputerDirectory F)) where
  get s := s.staged
  set place s := { s with staged := place }
  get_set _ _ := rfl
  set_get _ := rfl
  set_set _ _ _ := rfl

end Slot

namespace Disk

def journalLens : Lens (Disk F) (Place TransactionDocument) where
  get d := d.journal
  set place d := { d with journal := place }
  get_set _ _ := rfl
  set_get _ := rfl
  set_set _ _ _ := rfl

def filesLens : Lens (Disk F) StateFiles where
  get d := d.files
  set files d := { d with files }
  get_set _ _ := rfl
  set_get _ := rfl
  set_set _ _ _ := rfl

def slotsLens : Lens (Disk F) (String → Slot F) where
  get d := d.slots
  set slots d := { d with slots }
  get_set _ _ := rfl
  set_get _ := rfl
  set_set _ _ _ := rfl

def stagedLens (id : String) : Lens (Disk F) (Place (ComputerDirectory F)) :=
  (slotsLens.comp (Lens.at id)).comp Slot.stagedLens

def backupsLens : Lens (Disk F) (Place (List BackupDirectory)) where
  get d := d.backups
  set backups d := { d with backups }
  get_set _ _ := rfl
  set_get _ := rfl
  set_set _ _ _ := rfl

end Disk

namespace World

def diskLens : Lens (World F R) (Disk F) where
  get w := w.disk
  set disk w := { w with disk }
  get_set _ _ := rfl
  set_get _ := rfl
  set_set _ _ _ := rfl

def runtimeLens : Lens (World F R) R where
  get w := w.runtime
  set runtime w := { w with runtime }
  get_set _ _ := rfl
  set_get _ := rfl
  set_set _ _ _ := rfl

end World

def StatePaths.active (paths : StatePaths) (id : String) : String := join paths.computers id
def StatePaths.trashed (paths : StatePaths) (id : String) : String := join paths.trash id

def restoreStage (paths : StatePaths) (id : String) : String :=
  join (join paths.runtime "restore-staging") id

def restoreReadyMarker (paths : StatePaths) (id : String) : String :=
  join (restoreStage paths id) ".qubicl-restore-ready"

/- The callers have seen that there is nothing at the destination. -/
def durableRename (source destination : Lens (Slot F) (Place (ComputerDirectory F))) (path : String) :
    Durable (Slot F) String Unit := fun s =>
  match destination.get s with
  | .absent => ⟨[source.set .absent (destination.set (source.get s) s)],.ok ()⟩
  | _ => ⟨[],.error s!"ENOTEMPTY: directory not empty, rename {path}"⟩

/- `realFileExists` at a path in the staging directory. -/
def restoreReadyExists (paths : StatePaths) (id : String) (s : Slot F) : Except String Bool :=
  match s.staged with
  | .absent | .link none => .ok false
  | .real _ _ c | .link (some c) => realFileExists (restoreReadyMarker paths id) c.restoreReady
  | .foreign _ => .error s!"ENOTDIR: not a directory, lstat {restoreReadyMarker paths id}"

def ensureStagedDirectory (paths : StatePaths) (id : String) : Durable (Slot F) String Unit := do
  let stagedExists ← reads fun s : Slot F => realDirectoryExists (restoreStage paths id) s.staged
  let ready ← reads fun s : Slot F =>
    if stagedExists then restoreReadyExists paths id s else .ok false
  if ready then durableRename Slot.stagedLens Slot.activeLens (restoreStage paths id)
  else fail s!"Backup restore staging for {id} is incomplete."

def ensureActiveDirectory (uid : ℕ) (paths : StatePaths) (source : ActiveTransactionSource)
    (metadata : ComputerConfig) : Durable (Slot F) String Unit := do
  let id:=metadata.id
  let active:=paths.active id
  let save:=zoom Slot.activeLens (saveMetadataInDirectory uid active { metadata with deletedAt := none })
  let activeExists ← reads fun s : Slot F => realDirectoryExists active s.active
  let trashExists ← reads fun s : Slot F => realDirectoryExists (paths.trashed id) s.trash
  if activeExists && trashExists then fail s!"Computer {id} exists in both active state and trash."
  else match source with
    | .create =>
      if trashExists then fail s!"Cannot create computer {id}; its ID already exists in trash."
      else save
    | .active =>
      if !activeExists || trashExists then
        fail s!"Active computer directory {active} is missing or conflicted."
      else save
    | .staged =>
      if trashExists then fail s!"Cannot restore backup {id}; its ID already exists in trash."
      else do
        when (!activeExists) (ensureStagedDirectory paths id)
        save
        zoom Slot.activeLens (inside active (zoom ComputerDirectory.restoreReadyLens
          (durableRemove (join active ".qubicl-restore-ready"))))
    | .trash =>
      if !activeExists && trashExists then do
        durableRename Slot.trashLens Slot.activeLens (paths.trashed id)
        save
      else if !activeExists || trashExists then
        fail s!"Trashed computer {id} cannot be restored safely."
      else save

def ensureTrashDirectory (uid : ℕ) (paths : StatePaths) (metadata : ComputerMetadata) :
    Durable (Slot F) String Unit := do
  let id:=metadata.id
  let active:=paths.active id
  let trash:=paths.trashed id
  let activeExists ← reads fun s : Slot F => realDirectoryExists active s.active
  let trashExists ← reads fun s : Slot F => realDirectoryExists trash s.trash
  if activeExists && trashExists then fail s!"Computer {id} exists in both active state and trash."
  else if !activeExists && !trashExists then
    fail s!"Computer directory {id} disappeared before it could be trashed."
  else if activeExists then do
    zoom Slot.activeLens (saveMetadataInDirectory uid active metadata)
    durableRename Slot.activeLens Slot.trashLens active
  else zoom Slot.trashLens (saveMetadataInDirectory uid trash metadata)

/- The states of a directory that `rm` removes, and of a link or a file. -/
def removal (remnants : ComputerDirectory F → List (ComputerDirectory F)) :
    Place (ComputerDirectory F) → List (Place (ComputerDirectory F))
  | .absent => []
  | .real uid mode c => (remnants c).map (.real uid mode)++[.absent]
  | _ => [.absent]

/- Neither an active directory nor the ready marker. -/
def stagingIncomplete (paths : StatePaths) (id : String) (s : Slot F) : Except String Bool := do
  if ← realDirectoryExists (paths.active id) s.active then .ok false
  else if ← restoreReadyExists paths id s then .ok false
  else .ok true

/- The parent is opened once the directory is gone, to bring the removal to the disk. -/
def removeStage (host : Host F R) (paths : StatePaths) (id : String) : Durable (Disk F) String Unit := do
  zoom (Disk.stagedLens id) (writes (removal host.remnants))
  let parent:=join paths.runtime "restore-staging"
  reads fun d : Disk F =>
    if d.restoreStaging then .ok () else .error s!"ENOENT: no such file or directory, open {parent}"

def rollbackIncompleteStaging (host : Host F R) (paths : StatePaths) :
    List (ActiveTransactionEntry ComputerConfig) → Durable (Disk F) String Bool
  | [] => pure false
  | entry::rest =>
    if entry.source≠.staged then rollbackIncompleteStaging host paths rest
    else do
      let incomplete ← reads fun d : Disk F =>
        stagingIncomplete paths entry.metadata.id (d.slots entry.metadata.id)
      if incomplete then do
        removeStage host paths entry.metadata.id
        zoom Disk.journalLens (durableRemove paths.journal)
        pure true
      else rollbackIncompleteStaging host paths rest

variable (z : Formats) (b : Build)

def readPendingTransactionDocument (paths : StatePaths) :
    Place TransactionDocument → Except String (Option (ParsedTransaction × TransactionDocument))
  | .absent => .ok none
  | .real _ mode contents =>
    if mode &&& 0o777≠0o600 then .error s!"Transaction journal {paths.journal} must have mode 0600."
    else match parseStateTransactionDocument z b contents with
      | none => .error "invalid state transaction document"
      | some parsed => .ok (some (parsed,contents))
  | _ => .error s!"Transaction journal {paths.journal} is not a regular file."

def writeTransaction (uid : ℕ) (paths : StatePaths) (transaction : StateTransaction) :
    Durable (Place TransactionDocument) String Unit :=
  match (stateTransactionSchema z transactionFormatVersion).parse transaction with
  | none => fail "invalid state transaction"
  | some parsed => atomicWrite uid paths.journal (.current parsed) 0o600

def readPendingTransaction (host : Host F R) (paths : StatePaths) :
    Durable (Disk F) String (Option StateTransaction) := do
  let pending ← reads fun d : Disk F => readPendingTransactionDocument z b paths d.journal
  match pending with
  | none => pure none
  | some (parsed,contents) =>
    if parsed.migrated then do
      let _ ← zoom Disk.backupsLens (writeUpgradeBackup host.digest host.stamp host.uid paths {
        reason := .lifecycleJournal
        sourceVersion := parsed.sourceVersion.getD 2
        targetVersion := transactionFormatVersion
        installationId := parsed.transaction.config.installationId
        files := [("transaction.yaml",.transaction contents)] })
      zoom Disk.journalLens (writeTransaction z host.uid paths parsed.transaction)
      pure (some parsed.transaction)
    else pure (some parsed.transaction)

def transactionHasRuntimeWork (transaction : StateTransaction) : Bool :=
  let plan:=transaction.runtime
  plan.ensureImages || plan.startGateway || plan.replaceGatewayStopped ||
    !plan.reconnectIds.isEmpty || !plan.replaceIds.isEmpty || !plan.replaceStoppedIds.isEmpty ||
    !plan.startIds.isEmpty || !plan.removeIds.isEmpty || !plan.verifyTokenIds.isEmpty

def legacyReconnectIds (transaction : StateTransaction) : List String :=
  if !transaction.runtime.reconnectIds.isEmpty then []
  else if transaction.operation=.config then transaction.runtime.startIds
  else if transaction.operation≠.setup then []
  else
    let created:=(transaction.active.filter fun entry => entry.source=.create).map (·.metadata.id)
    transaction.runtime.startIds.filter (· ∉ created)

/- `[...new Set(ids)]`, which keeps the first of equal IDs -/
def effectiveReconnectIds (transaction : StateTransaction) : List String :=
  distinct (transaction.runtime.reconnectIds++legacyReconnectIds transaction)

def gatewayWork (runtime : TransactionRuntime R) (state : LoadedState) (transaction : StateTransaction) :
    Durable R String Unit := do
  let plan:=transaction.runtime
  when (plan.startGateway || !(effectiveReconnectIds transaction).isEmpty || !plan.replaceIds.isEmpty ||
      !plan.startIds.isEmpty) do
    runtime.startGateway state plan.gatewayRuntimeBinding plan.replaceGatewayRunning
    runtime.verifyGateway state plan.replaceIds
  when plan.replaceGatewayStopped (runtime.replaceStoppedGateway state plan.gatewayRuntimeBinding)

def verifyTransactionToken (runtime : TransactionRuntime R) (state : LoadedState) (id : String) :
    Durable R String Unit :=
  match state.secrets.computers.get id with
  | none => fail s!"TypeError: the secrets have no computer {id}"
  | some secret => runtime.verifyToken state id secret.token

def completeRuntime (host : Host F R) (runtime : TransactionRuntime R) (state : LoadedState)
    (transaction : StateTransaction) : Durable R String Unit := do
  let plan:=transaction.runtime
  let find:=fun id => state.config.computers.find? fun candidate => candidate.id=id
  let binding:=fun id => (plan.computerRuntimeBindings.get id).getD []
  let needsDocker:=plan.ensureImages || plan.startGateway || plan.replaceGatewayStopped ||
    !(effectiveReconnectIds transaction).isEmpty || !plan.replaceIds.isEmpty ||
    !plan.replaceStoppedIds.isEmpty || !plan.startIds.isEmpty || !plan.removeIds.isEmpty
  when needsDocker runtime.validate
  when plan.ensureImages do
    runtime.ensureImages state
    host.renderRuntime state
  gatewayWork runtime state transaction
  forEach plan.removeIds fun id => do
    runtime.waitForRemoval state id
    runtime.remove state id
  forEach (effectiveReconnectIds transaction) fun id => runtime.reconnect state (find id)
  forEach plan.replaceIds fun id => do
    runtime.removeReplacement state (find id) (binding id)
    runtime.start state (find id)
  forEach plan.replaceStoppedIds fun id => runtime.replaceStopped state (find id) (binding id)
  forEach plan.startIds fun id =>
    when (id ∉ legacyReconnectIds transaction) (runtime.start state (find id))
  forEach plan.verifyTokenIds (verifyTransactionToken runtime state)

def assertStateDirectories (paths : StatePaths) (d : Disk F) : Except String Unit := do
  let missing:="Qubicl active or trash state directories are missing."
  if ← realDirectoryExists paths.computers d.computers then
    if ← realDirectoryExists paths.trash d.trash then .ok () else .error missing
  else .error missing

def ensureActiveDirectories (uid : ℕ) (paths : StatePaths)
    (entries : List (ActiveTransactionEntry ComputerConfig)) : Durable (String → Slot F) String Unit :=
  forEach entries fun entry =>
    zoom (Lens.at entry.metadata.id) (ensureActiveDirectory uid paths entry.source entry.metadata)

def ensureTrashDirectories (uid : ℕ) (paths : StatePaths)
    (entries : List (TrashTransactionEntry ComputerMetadata)) : Durable (String → Slot F) String Unit :=
  forEach entries fun entry =>
    zoom (Lens.at entry.metadata.id) (ensureTrashDirectory uid paths entry.metadata)

/- What the phase `prepared` does: the durable state, then the phase itself. -/
def realizeState (host : Host F R) (state : LoadedState) (transaction : StateTransaction) :
    Durable (World F R) String Unit := do
  zoom World.diskLens (reads (assertStateDirectories state.paths))
  zoom World.diskLens (zoom Disk.slotsLens
    (ensureActiveDirectories host.uid state.paths transaction.active))
  zoom World.diskLens (zoom Disk.filesLens (saveState z host.uid state))
  zoom World.runtimeLens (host.renderRuntime state)
  zoom World.diskLens (zoom Disk.slotsLens (ensureTrashDirectories host.uid state.paths transaction.trash))

def commitState (host : Host F R) (state : LoadedState) (transaction : StateTransaction) :
    Durable (World F R) String Unit := do
  realizeState z host state transaction
  zoom World.diskLens (zoom Disk.journalLens
    (writeTransaction z host.uid state.paths { transaction with phase := .stateCommitted }))

def finishTransaction (host : Host F R) (paths : StatePaths) (options : TransactionOptions R)
    (state : LoadedState) (transaction : StateTransaction) : Durable (World F R) String Unit :=
  if !options.includeRuntime.getD true && transactionHasRuntimeWork transaction then pure ()
  else do
    zoom World.runtimeLens (completeRuntime host options.runtime state transaction)
    zoom World.diskLens (zoom Disk.journalLens (durableRemove paths.journal))

def rollbackPrepared (host : Host F R) (paths : StatePaths) (transaction : StateTransaction) :
    Durable (Disk F) String Bool :=
  if transaction.phase=.prepared then rollbackIncompleteStaging host paths transaction.active
  else pure false

/- The rest of `recoverPendingTransaction`, once nothing is to be rolled back. -/
def carryOut (host : Host F R) (paths : StatePaths) (options : TransactionOptions R)
    (transaction : StateTransaction) : Durable (World F R) String Unit := do
  let state : LoadedState := ⟨paths,transaction.config,transaction.secrets⟩
  zoom World.runtimeLens (options.runtime.reconcileContracts state transaction)
  when (transaction.phase=.prepared) (commitState z host state transaction)
  finishTransaction host paths options state { transaction with phase := .stateCommitted }

def recoverPendingTransaction (host : Host F R) (paths : StatePaths) (options : TransactionOptions R) :
    Durable (World F R) String Bool := do
  let pending ← zoom World.diskLens (readPendingTransaction z b host paths)
  match pending with
  | none => pure false
  | some transaction => do
    let rolledBack ← zoom World.diskLens (rollbackPrepared host paths transaction)
    if rolledBack then pure true
    else do
      carryOut z host paths options transaction
      pure true

def prepareStateTransaction (host : Host F R) (paths : StatePaths) (transaction : StateTransaction) :
    Durable (World F R) String Unit := do
  let pending ← zoom World.diskLens (readPendingTransaction z b host paths)
  if pending.isSome then fail "A Qubicl transaction is already pending recovery."
  else zoom World.diskLens (zoom Disk.journalLens (writeTransaction z host.uid paths transaction))

def executeStateTransaction (host : Host F R) (paths : StatePaths) (transaction : StateTransaction)
    (options : TransactionOptions R) : Durable (World F R) String Unit := do
  prepareStateTransaction z b host paths transaction
  let _ ← recoverPendingTransaction z b host paths
    { options with includeRuntime := some (options.includeRuntime.getD true) }
  pure ()

end Qubicl.Cli
