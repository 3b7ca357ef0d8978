import Qubicl.Cli.State

/-!
# Backups before an upgrade (packages/cli/src/migrations.ts:248-289)

`writeUpgradeBackup` keeps the documents that an upgrade is about to replace.
-/

namespace Qubicl.Cli
open Foundation Core Durable

inductive UpgradeReason
  | stateFormat | lifecycleJournal
  deriving DecidableEq, Repr

inductive BackupDocument
  | config (document : ConfigDocument)
  | secrets (document : QubiclSecrets)
  | metadata (document : MetadataDocument)
  | transaction (document : TransactionDocument)
  deriving DecidableEq, Repr

structure FileDigest where
  sha256 : String
  bytes : ℕ
  deriving DecidableEq, Repr

structure BackupManifest where
  version : ℕ := 1
  reason : UpgradeReason
  createdAt : String
  sourceVersion : ℕ
  targetVersion : ℕ
  installationId : String
  files : List (String × FileDigest)
  deriving DecidableEq, Repr

structure BackupDirectory where
  name : String
  files : List (String × BackupDocument)
  manifest : Option BackupManifest
  deriving DecidableEq, Repr

structure UpgradeBackupOptions where
  reason : UpgradeReason
  sourceVersion : ℕ
  targetVersion : ℕ
  installationId : String
  files : List (String × BackupDocument)

structure BackupStamp where
  createdAt : String
  uuid : String

def backupName (stamp : BackupStamp) (options : UpgradeBackupOptions) : String :=
  let timestamp:=(stamp.createdAt.replace ":" "").replace "." "-"
  s!"{timestamp}-v{options.sourceVersion}-to-v{options.targetVersion}-{stamp.uuid}"

/- `/^[a-zA-Z0-9._-]+$/` -/
def safeFilename : String → Bool :=
  open Regex in (oneOrMore (choice [range 'a' 'z',range 'A' 'Z',range '0' '9',oneOf "._-"])).test

def updateBackup (name : String) (f : BackupDirectory → BackupDirectory)
    (directories : List BackupDirectory) : List BackupDirectory :=
  directories.map fun directory => if directory.name=name then f directory else directory

def openBackups (uid : ℕ) (path : String) : Durable (Place (List BackupDirectory)) String Unit
  | .absent => ⟨[.real uid 0o700 []],.ok ()⟩
  | .real owner _ _ =>
    if owner=uid then ⟨[],.ok ()⟩
    else ⟨[],.error s!"{path} is owned by UID {owner}, not current UID {uid}."⟩
  | _ => ⟨[],.error s!"{path} exists but is not a real directory."⟩

def writeBackupFile (name : String) (file : String × BackupDocument) :
    Durable (List BackupDirectory) String Unit :=
  if safeFilename file.1 then
    write (updateBackup name fun directory => { directory with files := directory.files++[file] })
  else fail s!"Unsafe backup filename {file.1}."

variable (digest : BackupDocument → FileDigest) (stamp : BackupStamp)

def writeBackupDirectory (options : UpgradeBackupOptions) : Durable (List BackupDirectory) String Unit := do
  let name:=backupName stamp options
  let directories ← reads fun directories : List BackupDirectory => .ok directories
  if name ∈ directories.map (·.name) then fail s!"EEXIST: file already exists, mkdir {name}" else
    write fun directories => directories++[{ name, files := [], manifest := none }]
    forEach options.files (writeBackupFile name)
    write (updateBackup name fun directory => { directory with manifest := some {
      reason := options.reason
      createdAt := stamp.createdAt
      sourceVersion := options.sourceVersion
      targetVersion := options.targetVersion
      installationId := options.installationId
      files := options.files.map fun file => (file.1,digest file.2) } })

def writeUpgradeBackup (uid : ℕ) (paths : StatePaths) (options : UpgradeBackupOptions) :
    Durable (Place (List BackupDirectory)) String String := do
  openBackups uid paths.backups
  write (Place.chmod 0o700)
  inside paths.backups (writeBackupDirectory digest stamp options)
  pure (backupName stamp options)

end Qubicl.Cli
