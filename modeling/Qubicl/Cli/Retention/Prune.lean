import Qubicl.Cli.BackupCreation.Program
import Qubicl.Cli.Dashboard.Metadata

/-!
# Pruning of backups (packages/cli/src/backups.ts:203-221, 560-694; dashboard/application.ts:596-608; commands.ts:2387)

What the host removes for a request to keep the newest backups of a computer, and what the dashboard shows before.
-/

namespace Qubicl.Cli.Retention
open Foundation Core Dashboard BackupCreation

structure BackupManifest where
  id : String
  name : String
  createdAt : String
  source : ComputerConfig
  archive : String
  sha256 : Field
  encrypted : Bool
  consistency : String
  deriving DecidableEq

variable {A D : Type} (z : Formats) (host : MetadataHost A) (path : String)

def MetadataFile.parsed (file : MetadataFile D) (path : String) : Except String D :=
  if !file.readable then .error s!"EACCES: permission denied, open {path}"
  else match file.document with
    | some document => .ok document
    | none => .error "Unexpected token in JSON"

/- `readFile` and `JSON.parse`; a link is followed. -/
def readDocument (path : String) : Place (MetadataFile D) → Except String D
  | .real _ _ file | .link (some file) => MetadataFile.parsed file path
  | .absent | .link none => .error s!"ENOENT: no such file or directory, open {path}"
  | .foreign _ => .error "EISDIR: illegal operation on a directory, read"

/- What the pattern accepts is its own `basename`. -/
def readManifest (id : String) (directory : Dashboard.BackupDirectory A) : Except String BackupManifest := do
  if !backupNamePattern id then .error "Invalid backup ID."
  else do
    let document ← readDocument (join (join path id) "manifest.json") directory.manifest
    match document.source.bind (computerConfigSchema z).parse with
    | none => .error "invalid computer configuration"
    | some source =>
      match document.name, document.createdAt, document.archive, document.encrypted, document.consistency.string? with
      | some name, some createdAt, some archive, some encrypted, some consistency =>
        if document.version=some 1 ∧ document.id=some id ∧ name=source.name ∧ (host.dateParse createdAt).isSome ∧
            backupNamePattern archive ∧ document.sha256.text.any materialId ∧
            consistency ∈ ["live","quiesced","stopped"] then
          .ok ⟨id,name,createdAt,source,archive,document.sha256,encrypted,consistency⟩
        else .error s!"Backup {id} has an invalid manifest."
      | _, _, _, _, _ => .error s!"Backup {id} has an invalid manifest."

structure ArchiveIdentity where
  inode : ℕ
  mode : ℕ
  uid : ℕ
  nlink : ℕ
  deriving DecidableEq

structure VerifiedPruneCandidate where
  manifest : BackupManifest
  id : String
  directoryInode : ℕ
  archive : ArchiveIdentity
  deriving DecidableEq

def archiveIdentity : Place (ArchiveFile A) → Option ArchiveIdentity
  | .real owner mode file => some ⟨file.inode,mode,owner,file.nlink⟩
  | _ => none

def privateArchive : String := "Archive must be a private operator-owned regular file with one link."

def verifiedArchive (manifest : BackupManifest) : Place (ArchiveFile A) → Except String ArchiveIdentity
  | .absent => .error s!"ENOENT: no such file or directory, open {path}"
  | .link _ => .error s!"ELOOP: too many symbolic links encountered, open {path}"
  | .foreign _ => .error privateArchive
  | .real owner mode file =>
    if !file.readable then .error s!"EACCES: permission denied, open {path}"
    else if file.nlink≠1 ∨ owner≠host.uid ∨ mode &&& 0o077≠0 then .error privateArchive
    else if manifest.sha256 ≠ .string (host.sha256 file.bytes) then
      .error "Archive checksum does not match its manifest."
    else .ok ⟨file.inode,mode,owner,file.nlink⟩

def verifiedPruneCandidate (id : String) (place : Place (Dashboard.BackupDirectory A)) (directory : Dashboard.BackupDirectory A)
    (manifest : BackupManifest) : Except String VerifiedPruneCandidate := do
  let found ← ownedBackupDirectory host.uid (join path id) place
  if !found then .error "Backup directory is missing."
  else do
    let archive ← verifiedArchive host (join (join path id) manifest.archive) manifest (directory.archives manifest.archive)
    .ok ⟨manifest,id,directory.inode,archive⟩

def assertPruneCandidateUnchanged (store : BackupStore A) (candidate : VerifiedPruneCandidate) : Except String Unit :=
  let changed:=s!"Backup {candidate.manifest.id} changed during retention planning; pruning stopped."
  match store.get candidate.id with
  | some (.real _ _ directory) =>
    if directory.inode=candidate.directoryInode ∧
        archiveIdentity (directory.archives candidate.manifest.archive)=some candidate.archive then .ok ()
    else .error changed
  | _ => .error changed

structure BackupPruneReport where
  removed : List BackupManifest
  retained : List BackupManifest
  preserved : List (String × String)

/- `attempted` are the directories that the run has begun to remove. -/
structure PruneOutcome where
  attempted : List String
  report : Except String BackupPruneReport

def examine (selects : BackupManifest → Bool) :
    String × Place (Dashboard.BackupDirectory A) → Option (Except String VerifiedPruneCandidate)
  | (id,.real owner mode directory) =>
    match readManifest z host path id directory with
    | .error reason => some (.error reason)
    | .ok manifest =>
      if selects manifest then some (verifiedPruneCandidate host path id (.real owner mode directory) directory manifest)
      else none
  | _ => none

def byName (store : BackupStore A) : List (String × Place (Dashboard.BackupDirectory A)) :=
  sorted (comparing Prod.fst host.localeCompare) store.entries

def candidates (selects : BackupManifest → Bool) (store : BackupStore A) : List VerifiedPruneCandidate :=
  (byName host store).filterMap fun entry => (examine z host path selects entry).bind Except.toOption

def preserved (selects : BackupManifest → Bool) (store : BackupStore A) : List (String × String) :=
  (byName host store).filterMap fun entry => match examine z host path selects entry with
    | some (.error reason) => some (entry.1,reason)
    | _ => none

def VerifiedPruneCandidate.time (candidate : VerifiedPruneCandidate) : ℤ :=
  (host.dateParse candidate.manifest.createdAt).getD 0

def newestFirst : VerifiedPruneCandidate → VerifiedPruneCandidate → Ordering :=
  compareLex (comparing (VerifiedPruneCandidate.time host) fun a b => compare b a)
    (comparing (fun candidate => candidate.manifest.id) host.localeCompare)

instance : Std.TransCmp (newestFirst host) := by
  unfold newestFirst
  infer_instance

def without (store : BackupStore A) (id : String) : BackupStore A where
  entries := store.entries.filter (·.1≠id)
  nodup := store.nodup.sublist (List.filter_sublist.map _)

def removeCandidates (refuses : String → Bool) :
    BackupStore A → List VerifiedPruneCandidate → List String × Except String (List BackupManifest)
  | _, [] => ([],.ok [])
  | store, candidate::rest =>
    match assertPruneCandidateUnchanged store candidate with
    | .error changed => ([],.error changed)
    | .ok () =>
      if refuses candidate.id then ([candidate.id],.error s!"EACCES: permission denied, rm {path}")
      else
        let later:=removeCandidates refuses (without store candidate.id) rest
        (candidate.id::later.1,later.2.map (candidate.manifest :: ·))

def pruneVerifiedBackups (selects : BackupManifest → Bool) (keep : ℕ) (refuses : String → Bool) (store : BackupStore A) :
    PruneOutcome :=
  let ordered:=sorted (newestFirst host) (candidates z host path selects store)
  match ordered.mapM (assertPruneCandidateUnchanged store) with
  | .error changed => ⟨[],.error changed⟩
  | .ok _ =>
    let run:=removeCandidates path refuses store (ordered.drop keep)
    ⟨run.1,run.2.map fun removed =>
      ⟨removed,(ordered.take keep).map (·.manifest),preserved z host path selects store⟩⟩

/- `UUID_PATTERN` is the pattern of lifecycle IDs. -/
def directId (computers : List ComputerConfig) (selector : String) : Option String :=
  match computers.find? fun computer => computer.id=selector ∨ computer.name=selector with
  | some computer => some computer.id
  | none => if lifecycleUuid selector then some selector else none

def sourceIds (store : BackupStore A) (selector : String) : List String :=
  distinct (store.entries.filterMap fun
    | (id,.real _ _ directory) => match readManifest z host path id directory with
      | .ok manifest => if manifest.name=selector then some manifest.source.id else none
      | .error _ => none
    | _ => none)

def ofSource (id : String) (manifest : BackupManifest) : Bool := manifest.source.id == id

def selection (computers : List ComputerConfig) (selector : Option String) (store : BackupStore A) :
    Except String (Option (BackupManifest → Bool)) :=
  match selector.filter (· ≠ "") with
  | none => .ok (some fun _ => true)
  | some selector =>
    match directId computers selector with
    | some id => .ok (some (ofSource id))
    | none => match sourceIds z host path store selector with
      | [] => .ok none
      | [id] => .ok (some (ofSource id))
      | _ => .error s!"Backup name {selector} belongs to multiple historical computer IDs; use an immutable source ID."

def pruneBackupsBySelectorDetailed (computers : List ComputerConfig) (selector : Option String) (keep : ℕ)
    (refuses : String → Bool) (store : BackupStore A) : PruneOutcome :=
  match selection z host path computers selector store with
  | .error ambiguous => ⟨[],.error ambiguous⟩
  | .ok none => ⟨[],.ok ⟨[],[],[]⟩⟩
  | .ok (some selects) => pruneVerifiedBackups z host path selects keep refuses store

/-- `executeHostManagementRequest` for `backup.prune`. -/
def executePrune (computers : List ComputerConfig) (target : String) (keep : ℕ) (refuses : String → Bool)
    (store : BackupStore A) : PruneOutcome :=
  match computers.find? fun computer => computer.id=target ∨ computer.name=target with
  | some computer => pruneBackupsBySelectorDetailed z host path computers (some computer.id) keep refuses store
  | none => ⟨[],.error "Cannot read properties of undefined (reading 'id')"⟩

structure PrunePreview where
  pruned : List String
  effects : List String
  warnings : List String

def ofComputer (id : String) (backup : DashboardBackup) : Bool :=
  backup.status == .available && backup.sourceId == some id

/-- `HostManagementBackend.preview` for `backup.prune`, where what it checks besides does not make it fail. -/
def previewPrune (computers : List ComputerConfig) (target : String) (keep : ℕ) (store : BackupStore A) :
    Except String PrunePreview :=
  match computers.find? fun computer => computer.id=target with
  | none => .error "Target computer was not found."
  | some computer => (dashboardBackups z host store).map fun backups =>
    let pruned:=((backups.filter (ofComputer computer.id)).drop keep).map (·.id)
    { pruned
      effects :=
        [s!"{computer.name}: Retain the newest {keep} backups for this computer and permanently remove older matching backups.",
          if pruned=[] then "No archives will be removed." else "Remove exactly: " ++ ", ".intercalate pruned ++ "."]
      warnings := ["Pruned backup archives cannot be restored from Qubicl trash."] }

end Qubicl.Cli.Retention
