import Qubicl.Cli.Transaction.Engine
import Qubicl.Foundation.StringMap

/-!
# Restoring a backup (packages/cli/src/backups.ts:697-770)

The new computer, the transaction that will bring it in, and the staging tree that
`restoreBackup` builds for it under the journal of that transaction. What an archive is,
how one is inspected and what extraction writes on the way are parameters.
-/

namespace Qubicl.Cli
open Foundation Core Durable

variable {A P F R : Type} [EmptyCollection F]

def baseToolNames : List ComputerToolName :=
  [.get_computer_status,.explain_capability,.acquire_lease,.renew_lease,.release_lease,.exec_command,
    .list_managed_processes,.process_output,.save_process_output,.terminal_open,.terminal_list,
    .terminal_read,.terminal_write,.terminal_resize,.terminal_signal,.terminal_close,.write_stdin,
    .stop_process,.list_ports,.publish_port,.list_previews,.unpublish_port,.share_preview,
    .revoke_preview_share,.broker_request,.skills_list,.skill_view,.skill_manage,.web_search,
    .web_extract,.list_files,.get_file_info,.read_file,.write_file,.edit_file,.copy_path,.move_path,
    .delete_path]

def desktopToolNames : List ComputerToolName :=
  [.take_screenshot,.control_computer,.list_desktop_windows,.desktop_snapshot,.desktop_element_action,
    .desktop_window_action]

def browserToolNames : List ComputerToolName :=
  [.browser_navigate,.browser_snapshot,.browser_read,.browser_screenshot,.browser_click,.browser_type,
    .browser_select,.browser_press,.browser_scroll,.browser_history,.browser_wait,.browser_tabs,
    .browser_use_tab,.browser_new_tab,.browser_close_tab,.browser_reset,.browser_upload,
    .browser_downloads,.browser_cancel_download,.browser_dialogs,.browser_respond_dialog,
    .browser_permissions,.browser_diagnostics,.browser_set_viewport,.browser_click_at,
    .browser_double_click_at,.browser_hover_at,.browser_drag,.browser_scroll_at,.browser_type_focused,
    .browser_inspect_at,.browser_computer]

def clipboardToolNames : List ComputerToolName := [.read_clipboard,.write_clipboard]

def desktopApplicationToolNames : List ComputerToolName :=
  [.open_desktop_application,.list_desktop_applications,.close_desktop_application]

def toolsForCapabilities (capabilities : List Capability) : List ComputerToolName :=
  baseToolNames ++
    (if capabilities.contains .desktop then desktopToolNames else []) ++
    (if capabilities.contains .browser then browserToolNames else []) ++
    (if capabilities.contains .desktop then clipboardToolNames else []) ++
    (if capabilities.contains .desktopApps then desktopApplicationToolNames else [])

def coreSkillIds : List String :=
  ["qubicl-core/plan","qubicl-core/pdf","qubicl-core/docx","qubicl-core/xlsx","qubicl-core/powerpoint",
    "qubicl-core/ocr-and-documents","qubicl-core/gimp","qubicl-core/inkscape","qubicl-core/blender",
    "qubicl-core/freecad","qubicl-core/kdenlive"]

def workstationSkillIds : List String :=
  ["qubicl-core/gimp","qubicl-core/inkscape","qubicl-core/blender","qubicl-core/freecad",
    "qubicl-core/kdenlive"]

def defaultCatalogSkillsForCompatibility : Preset → List String
  | .fileSystem => ["qubicl-core/plan"]
  | .browser => ["qubicl-core/plan","qubicl-core/pdf","qubicl-core/ocr-and-documents"]
  | .computer => coreSkillIds.filter (· ∉ workstationSkillIds)
  | .workstation => coreSkillIds

/- `id.replaceAll('-', '').toLowerCase()` -/
def compactId (id : String) : List Char := (id.toList.filter (· ≠ '-')).map Char.toLower

/- `/^[a-f0-9]{32}$/` -/
def isCompactId (id : List Char) : Bool :=
  id.length == 32 && id.all fun c => ('0' ≤ c && c ≤ '9') || ('a' ≤ c && c ≤ 'f')

def readableContainerName (installationId id computerName : String) : Except String String :=
  let installation:=compactId installationId
  let computer:=compactId id
  if !isCompactId installation then .error s!"Invalid Qubicl installation ID \"{installationId}\"."
  else if !isCompactId computer then .error s!"Invalid Qubicl computer ID \"{id}\"."
  else
    let suffix:=('-' :: computer.take 8)++('-' :: installation.take 8)
    let readable:=(computerName.toList.take (63 - 7 - suffix.length)).rdropWhile fun c => c == '.' || c == '-'
    .ok ("qubicl-" ++ String.ofList (readable++suffix))

structure FreshValues where
  computerId : String
  computerCreatedAt : String
  secret : ComputerSecret
  transactionId : String
  transactionCreatedAt : String
  workId : String

variable (z : Formats)

/- `record[key] = value` -/
def recordSet {α : Type} (key : String) (value : α) (r : Record α) : Record α :=
  ⟨mapSet key value r.entries,nodup_mapSet r.nodup⟩

def parseComputer (computer : ComputerConfig) : Except String ComputerConfig :=
  match (computerConfigSchema z).parse computer with
  | some parsed => .ok parsed
  | none => .error "invalid computer configuration"

/- With a name that was asked for, and without a policy. -/
def addConfiguredComputer (fresh : FreshValues) (name : String) (defaults : ComputerDefaults) (state : LoadedState) :
    Except String (ComputerConfig × LoadedState) := do
  if !namePattern name then .error s!"Invalid computer name \"{name}\"; use lowercase letters, numbers, and hyphens."
  else if state.config.computers.any (·.name=name) then .error s!"Computer name {name} is already in use."
  else do
    let runtimeName ← readableContainerName state.config.installationId fresh.computerId name
    let computer ← parseComputer z {
      toComputerDefaults := defaults
      id := fresh.computerId, name, runtimeName := some runtimeName, createdAt := fresh.computerCreatedAt
      controlProtocolVersion := some controlProtocolVersion
      browser := some ⟨24⟩
      devcontainer := none, software := none, network := none, ssh := none, environment := none
      toolPolicy := some (toolsForCapabilities defaults.capabilities)
      skillPolicy := some ⟨defaultCatalogSkillsForCompatibility defaults.compatibility⟩
      tasks := none, storage := none }
    .ok (computer,{ state with
      config := { state.config with computers := state.config.computers++[computer] }
      secrets := { state.secrets with
        computers := recordSet computer.id fresh.secret state.secrets.computers } })

/- The saved settings, with an identity and credentials of their own. -/
def createRestoredComputerConfig (fresh : FreshValues) (name : String) (source : ComputerConfig) (state : LoadedState) :
    Except String (ComputerConfig × LoadedState) := do
  let saved ← parseComputer z source
  let (allocated,added) ← addConfiguredComputer z fresh name saved.toComputerDefaults state
  let restored ← parseComputer z { saved with
    id := allocated.id, name := allocated.name, runtimeName := allocated.runtimeName
    createdAt := allocated.createdAt }
  let restored:={ restored with ssh := none }
  -- the allocated computer is the last one
  .ok (restored,{ added with
    config := { added.config with computers := state.config.computers++[restored] } })

def createRestoreTransaction (fresh : FreshValues) (computerId : String) (start : Bool) (state : LoadedState) :
    Except String StateTransaction :=
  match (stateTransactionSchema z transactionFormatVersion).parse {
    version := transactionFormatVersion
    id := fresh.transactionId
    operation := .backupRestore
    createdAt := fresh.transactionCreatedAt
    phase := .prepared
    config := state.config
    secrets := state.secrets
    active := state.config.computers.map fun metadata =>
      ⟨if metadata.id=computerId then .staged else .active,metadata⟩
    trash := []
    runtime := {
      ensureImages := true
      startGateway := false
      startIds := if start then [computerId] else []
      removeIds := []
      verifyTokenIds := [] } } with
  | some transaction => .ok transaction
  | none => .error "invalid state transaction"

structure RestoreWork (A F : Type) where
  home : Place (HomeDirectory F)
  copied : Place A
  decrypted : Place A

instance : EmptyCollection (RestoreWork A F) := ⟨⟨.absent,.absent,.absent⟩⟩

namespace RestoreWork

def homeLens : Lens (RestoreWork A F) (Place (HomeDirectory F)) where
  get w := w.home
  set place w := { w with home := place }
  get_set _ _ := rfl
  set_get _ := rfl
  set_set _ _ _ := rfl

def copiedLens : Lens (RestoreWork A F) (Place A) where
  get w := w.copied
  set place w := { w with copied := place }
  get_set _ _ := rfl
  set_get _ := rfl
  set_set _ _ _ := rfl

def decryptedLens : Lens (RestoreWork A F) (Place A) where
  get w := w.decrypted
  set place w := { w with decrypted := place }
  get_set _ _ := rfl
  set_get _ := rfl
  set_set _ _ _ := rfl

end RestoreWork

theorem ComputerDirectory.with_rest (c : ComputerDirectory F) : { c with rest := c.rest }=c := rfl

def ComputerDirectory.restLens : Lens (ComputerDirectory F) F where
  get c := c.rest
  set rest c := { c with rest }
  get_set _ _ := rfl
  set_get := ComputerDirectory.with_rest
  set_set _ _ _ := rfl

/- `chunks` are what a file holds while it is written. Extraction checks the tree that it
has written against the plan. `hostKeys` are the states of a user's home while
`.local/share/qubicl/ssh-host-keys` is removed, and `remnants` those of the work directory. -/
structure ArchiveTools (A P F : Type) [EmptyCollection F] where
  sha256 : A → String
  chunks : A → List A
  decrypt : A → String → Except String A
  inspect : A → Except String P
  tree : A → P → HomeDirectory F
  extract : A → P → Durable (HomeDirectory F) String Unit
  extract_tree : ∀ archive plan home, (extract archive plan).result home=.ok () →
    (extract archive plan).final home=tree archive plan
  hostKeys : F → List F
  work : Lens F (Place (RestoreWork A F))
  work_empty : work.get ∅ = .absent
  remnants : RestoreWork A F → List (RestoreWork A F)

/- What `locateBackup` finds: fields of the manifest, and the archive. -/
structure VerifiedBackup (A : Type) where
  source : ComputerConfig
  sha256 : String
  encrypted : Bool
  archive : A

/- `mkdir` without `recursive` -/
def mkdirNew {α : Type} [EmptyCollection α] (uid : ℕ) (path : String) : Durable (Place α) String Unit
  | .absent => ⟨[.real uid 0o700 ∅],.ok ()⟩
  | _ => ⟨[],.error s!"EEXIST: file already exists, mkdir {path}"⟩

section Building
variable (tools : ArchiveTools A P F) (uid : ℕ)

/- A new file, written in pieces; a copy that is not the archive of the manifest is removed. -/
def copyVerifiedBackupArchive (archive : A) (expectedSha256 : String) : Durable (Place A) String Unit := do
  writes fun _ => (tools.chunks archive).map (.real uid 0o600)
  write fun _ => .real uid 0o600 archive
  if tools.sha256 archive=expectedSha256 then pure ()
  else do
    write fun _ => .absent
    fail s!"Backup checksum mismatch: expected {expectedSha256}, got {tools.sha256 archive}."

def decryptBackupFile (archive : A) (password : String) : Durable (Place A) String A :=
  match tools.decrypt archive password with
  | .ok decrypted => do
    writes fun _ => (tools.chunks decrypted).map (.real uid 0o600)
    write fun _ => .real uid 0o600 decrypted
    pure decrypted
  | .error e => fail e

/- `rm` with `force` of the host keys; they are looked for through a link. -/
def removeHostKeys (path : String) : Durable (Place F) String Unit
  | .absent | .link none => ⟨[],.ok ()⟩
  | .foreign _ => ⟨[],.error s!"ENOTDIR: not a directory, lstat {path}"⟩
  | .real owner mode home => ⟨(tools.hostKeys home).map (.real owner mode),.ok ()⟩
  | .link (some home) => ⟨(tools.hostKeys home).map fun t => .link (some t),.ok ()⟩

def prepareArchive (verified : VerifiedBackup A) (passphrase : Except String String) :
    Durable (RestoreWork A F) String A := do
  zoom RestoreWork.copiedLens (copyVerifiedBackupArchive tools uid verified.archive verified.sha256)
  if verified.encrypted then do
    let password ← ofExcept passphrase
    zoom RestoreWork.decryptedLens (decryptBackupFile tools uid verified.archive password)
  else pure verified.archive

def extractHome (extracted : String) (verified : VerifiedBackup A) (passphrase : Except String String) :
    Durable (RestoreWork A F) String Unit := do
  zoom RestoreWork.homeLens (mkdirNew uid extracted)
  let archive ← prepareArchive tools uid verified passphrase
  let plan ← ofExcept (tools.inspect archive)
  zoom RestoreWork.homeLens (inside extracted do
    tools.extract archive plan
    zoom HomeDirectory.qubiclLens (removeHostKeys tools extracted))

def moveHome (home : String) : Durable (ComputerDirectory F) String Unit := fun c =>
  match tools.work.get c.rest, c.home with
  | .real owner mode w, .absent =>
    ⟨[{ c with home := w.home, rest := tools.work.set (.real owner mode { w with home := .absent }) c.rest }],.ok ()⟩
  | .real .., _ => ⟨[],.error s!"ENOTEMPTY: directory not empty, rename {home}"⟩
  | _, _ => ⟨[],.error s!"ENOENT: no such file or directory, rename {home}"⟩

/- The states of the work directory while `rm` removes it. -/
def workRemoval : Place (RestoreWork A F) → List (Place (RestoreWork A F))
  | .absent => []
  | .real owner mode w => (tools.remnants w).map (.real owner mode)++[.absent]
  | _ => [.absent]

def buildStaging (staged work : String) (verified : VerifiedBackup A) (passphrase : Except String String) :
    Durable (ComputerDirectory F) String Unit := do
  zoom (ComputerDirectory.restLens.comp tools.work) do
    mkdirNew uid work
    inside work (extractHome tools uid (join work "home") verified passphrase)
  moveHome tools (join staged "home")
  zoom (ComputerDirectory.restLens.comp tools.work) (writes (workRemoval tools))
  zoom ComputerDirectory.restoreReadyLens (atomicWrite uid (join staged ".qubicl-restore-ready") () 0o600)

end Building

theorem Disk.with_restoreStaging (d : Disk F) : { d with restoreStaging := d.restoreStaging }=d := rfl

def Disk.restoreStagingLens : Lens (Disk F) Bool where
  get d := d.restoreStaging
  set restoreStaging d := { d with restoreStaging }
  get_set _ _ := rfl
  set_get := Disk.with_restoreStaging
  set_set _ _ _ := rfl

/- The parts of `restoreBackup` that are tried. A step that fails anywhere else ends the run, as a cut does. -/
structure RestoreFailures where
  root : Option (StepFailure String)
  stage : Option (StepFailure String)
  build : Option (StepFailure String)

variable (b : Build)

/- With the computer allocated. A staging tree is removed as one that was not completed is. -/
def stageBackup (tools : ArchiveTools A P F) (host : Host F R) (paths : StatePaths) (failures : RestoreFailures)
    (fresh : FreshValues) (id : String) (verified : VerifiedBackup A) (passphrase : Except String String) :
    Durable (Disk F) String Unit := do
  let staged:=restoreStage paths id
  let removeJournal:=zoom Disk.journalLens (durableRemove paths.journal)
  rescued (do
    failing failures.root (zoom Disk.restoreStagingLens (write fun _ => true))
    failing failures.stage (zoom (Disk.stagedLens id) (mkdirNew host.uid staged))) removeJournal
  rescued (failing failures.build (zoom (Disk.stagedLens id) (inside staged
      (buildStaging tools host.uid staged (join staged (".restore-" ++ fresh.workId)) verified passphrase)))) do
    removeStage host paths id
    removeJournal

def restoreBackup (tools : ArchiveTools A P F) (host : Host F R) (failures : RestoreFailures) (fresh : FreshValues)
    (options : TransactionOptions R) (verified : VerifiedBackup A) (passphrase : Except String String)
    (name : String) (start : Bool) (state : LoadedState) : Durable (World F R) String ComputerConfig := do
  let (computer,restored) ← ofExcept (createRestoredComputerConfig z fresh name verified.source state)
  let transaction ← ofExcept (createRestoreTransaction z fresh computer.id start restored)
  prepareStateTransaction z b host state.paths transaction
  zoom World.diskLens (stageBackup tools host state.paths failures fresh computer.id verified passphrase)
  let _ ← recoverPendingTransaction z b host state.paths options
  pure computer

end Qubicl.Cli
