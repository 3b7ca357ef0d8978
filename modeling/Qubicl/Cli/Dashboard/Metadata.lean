import Qubicl.Cli.State
import Qubicl.Foundation.StableSort

/-!
# The backups on the dashboard (packages/cli/src/dashboard/metadata.ts:1-46)

The store of backups as two programs read it, and what the dashboard makes of it. A manifest is the object that its text
stands for, with each field as far as a reader looks at it.
-/

namespace Qubicl.Cli.Dashboard
open Foundation Core

/- A field that is to be a string: another value has the text that `String` makes of it, if it makes one. -/
inductive Field
  | string (value : String)
  | other (text : Option String)
  deriving DecidableEq, Repr

namespace Field

def text : Field → Option String
  | string value => some value
  | other text => text

def string? : Field → Option String
  | string value => some value
  | other _ => none

end Field

/- `version` is a number, `id`, `name`, `createdAt` and `archive` are strings, `encrypted` is a boolean, or they are
nothing that a reader accepts. -/
structure ManifestDocument where
  version : Option ℚ
  id : Option String
  name : Option String
  createdAt : Option String
  source : Option ComputerConfig
  archive : Option String
  sha256 : Field
  encrypted : Option Bool
  consistency : Field
  deriving DecidableEq

/- What `open` gives of a file; a document is missing where the text is not that of an object. -/
structure MetadataFile (D : Type) where
  readable : Bool
  size : ℕ
  document : Option D

/- `inode` stands for what identifies the file and changes with its bytes. -/
structure ArchiveFile (A : Type) where
  readable : Bool
  inode : ℕ
  nlink : ℕ
  bytes : A

structure BackupDirectory (A : Type) where
  inode : ℕ
  manifest : Place (MetadataFile ManifestDocument)
  archives : String → Place (ArchiveFile A)

/- The directory of the backups, in the order of `readdir`. Modes are permission bits. -/
abbrev BackupStore (A : Type) := Record (Place (BackupDirectory A))

/- `dateParse` is `Date.parse`, without a value for `NaN`. -/
structure MetadataHost (A : Type) where
  uid : ℕ
  dateParse : String → Option ℤ
  localeCompare : String → String → Ordering
  locale : Std.TransCmp localeCompare
  sha256 : A → String

variable {A D : Type} (z : Formats) (host : MetadataHost A)

instance : Std.TransCmp host.localeCompare := host.locale

def boundedFile (uid : ℕ) : Place (MetadataFile D) → Option D
  | .real owner mode file =>
    if file.readable ∧ file.size≤131072 ∧ owner=uid ∧ mode &&& 0o077=0 then file.document else none
  | _ => none

/- `/^[a-zA-Z0-9][a-zA-Z0-9._-]*$/u` -/
def directoryPattern : String → Bool :=
  open Regex in
  let letter:=choice [range 'a' 'z',range 'A' 'Z',range '0' '9']
  (seq letter (star (choice [letter,oneOf "._-"]))).test

/- The pattern `-v[1-3]-to-v[2-4]-[a-f0-9-]{36}$`. -/
def migrationEvidence : String → Bool :=
  open Regex in
  (sequence [star (char fun _ => true),text "-v",range '1' '3',text "-to-v",range '2' '4',text "-",
    times 36 (choice [range 'a' 'f',range '0' '9',oneOf "-"])]).test

def directories (store : Record (Place D)) : Except String (List (String × D)) :=
  if 10000<store.entries.length then
    .error "Metadata inventory exceeds the dashboard limit; use the host CLI."
  else .ok (store.entries.filterMap fun
    | (name,.real _ _ directory) => if directoryPattern name then some (name,directory) else none
    | _ => none)

inductive BackupStatus
  | available
  | quarantined
  deriving DecidableEq, Repr

structure DashboardBackup where
  id : String
  name : String
  status : BackupStatus
  sourceId : Option String
  createdAt : Option String
  encrypted : Option Bool
  consistency : Option Field
  sha256 : Option String
  diagnostic : Option String
  deriving DecidableEq

def availableBackup (id : String) (directory : BackupDirectory A) : Option DashboardBackup := do
  let document ← boundedFile host.uid directory.manifest
  let source ← (computerConfigSchema z).parse (← document.source)
  let name ← document.name
  let createdAt ← document.createdAt
  let encrypted ← document.encrypted
  let sha256 ← document.sha256.string?
  if document.version=some 1 ∧ document.id=some id ∧ utf16Length name≤256 ∧ (host.dateParse createdAt).isSome ∧
      document.consistency.text ∈ [some "live",some "quiesced",some "stopped"] ∧ materialId sha256 then
    some ⟨id,name,.available,some source.id,some createdAt,some encrypted,some document.consistency,some sha256,
      none⟩
  else none

def quarantinedBackup (id : String) : DashboardBackup where
  id := id
  name := "Unavailable backup"
  status := .quarantined
  sourceId := none
  createdAt := none
  encrypted := none
  consistency := none
  sha256 := none
  diagnostic := some "Metadata is missing, unsafe, or invalid. Inspect this exact backup with the host CLI; Qubicl will not modify it from the dashboard."

def dashboardBackup (entry : String × BackupDirectory A) : DashboardBackup :=
  (availableBackup z host entry.1 entry.2).getD (quarantinedBackup entry.1)

def writtenLater : DashboardBackup → DashboardBackup → Ordering :=
  compareLex (comparing (fun backup => backup.createdAt.getD "") fun a b => host.localeCompare b a)
    (comparing DashboardBackup.id host.localeCompare)

instance : Std.TransCmp (writtenLater host) := by
  unfold writtenLater
  infer_instance

def dashboardRows (store : BackupStore A) : Except String (List DashboardBackup) :=
  (directories store).map fun found =>
    (found.filter fun entry => !migrationEvidence entry.1).map (dashboardBackup z host)

def dashboardBackups (store : BackupStore A) : Except String (List DashboardBackup) :=
  (dashboardRows z host store).map (sorted (writtenLater host))

end Qubicl.Cli.Dashboard
