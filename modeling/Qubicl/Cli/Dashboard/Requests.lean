import Qubicl.Cli.BackupCreation.Program

/-!
# Management requests with a target (dashboard/application.ts:60-143, 411-660, commands.ts:2327-2421)

What `preview` looks up under the target of a request, the command that
`executeHostManagementRequest` makes of it, and what that command looks up under the
positional arguments it is given. Options are left out: none of them selects anything.
-/

namespace Qubicl.Cli.Dashboard
open Foundation Core

inductive ManagementOperation
  | computerStart | computerStop | computerRestart | computerRename | computerDelete | computerRestore
  | computerResources | computerUpgrade | controlRelease | processStop | previewRevoke | previewShare
  | previewUnshare | toolsSet | skillsSet | skillImport | skillUpdate | skillReset | skillRemove | skillRestore
  | networkSet | networkApprove | networkRevoke | credentialAdd | credentialReplace | credentialRemove
  | clientCreate | clientRotate | clientRevoke | tokenRotate | backupCreate | backupVerify | backupRestore
  | backupPrune | checkpointCreate | computerClone
  deriving DecidableEq, Repr

inductive InputValue
  | text (value : String)
  | number (value : ℤ)
  | list (items : List InputValue)

structure ManagementRequest where
  operation : ManagementOperation
  target : String
  input : String → Option InputValue

/- `/^[a-zA-Z0-9][a-zA-Z0-9._-]{0,127}$/u` -/
def targetPattern : String → Bool :=
  open Regex in
  (seq (choice [range 'a' 'z',range 'A' 'Z',range '0' '9'])
    (upTo 127 (choice [range 'a' 'z',range 'A' 'Z',range '0' '9',oneOf "._-"]))).test

/-- What `validateManagementRequest` demands of the target. -/
def validateTarget (request : ManagementRequest) : Except String Unit :=
  if targetPattern request.target then .ok () else .error "Select a computer or backup identifier."

structure TrashEntry where
  directory : String
  metadata : Option ComputerMetadata
  bounded : Bool

structure BackupEntry where
  directory : String
  manifest : Option BackupCreation.BackupManifest
  available : Bool

/- `tools` are the tools of the capabilities, as text. -/
structure Installation where
  computers : List ComputerConfig
  trash : List TrashEntry
  backups : List BackupEntry
  tools : List Capability → List String
  trash_named : (trash.map TrashEntry.directory).Nodup

inductive Identity
  | computer (id : String)
  | trashed (id : String)
  | backup (id : String)
  deriving DecidableEq, Repr

def findComputer (computers : List ComputerConfig) (name : String) : Except String ComputerConfig :=
  match computers.find? fun computer => decide (computer.name=name ∨ computer.id=name) with
  | some computer => .ok computer
  | none => .error s!"Computer {name} was not found."

def findTrash (trash : List TrashEntry) (name : String) : Except String ComputerMetadata :=
  match (trash.filterMap TrashEntry.metadata).filter fun metadata => decide (metadata.name=name ∨ metadata.id=name) with
  | [] => .error s!"No trashed computer named {name}."
  | [metadata] => .ok metadata
  | _ => .error s!"Multiple trashed computers are named {name}; use an immutable ID."

def pruneSource (host : Installation) (selector : String) : Except String (Option String) :=
  match host.computers.find? fun computer => decide (computer.id=selector ∨ computer.name=selector) with
  | some computer => .ok (some computer.id)
  | none =>
    if lifecycleUuid selector then .ok (some selector)
    else
      let manifests:=(host.backups.filterMap BackupEntry.manifest).filter (·.name == selector)
      match distinct (manifests.map (·.source.id)) with
      | [] => .ok none
      | [id] => .ok (some id)
      | _ => .error s!"Backup name {selector} belongs to multiple historical computer IDs; use an immutable source ID."

def reviewedComputer (host : Installation) (request : ManagementRequest) : Option ComputerConfig :=
  host.computers.find? (·.id=request.target)

def availableTrash (trash : List TrashEntry) : List ComputerMetadata :=
  trash.filterMap fun entry =>
    if entry.bounded then entry.metadata.filter (·.id=entry.directory) else none

/-- `preview`, as far as it depends on the target. -/
def preview (host : Installation) (request : ManagementRequest) : Except String Unit :=
  let target:=request.target
  match request.operation with
  | .computerRestore =>
    if (availableTrash host.trash).any (·.id=target) then .ok () else .error "Trashed computer was not found."
  | .backupVerify | .backupRestore =>
    if host.backups.any fun backup => backup.available && backup.directory == target then .ok ()
    else .error "Backup was not found."
  | _ => if (reviewedComputer host request).isSome then .ok () else .error "Target computer was not found."

inductive CredentialAction | add | replace | remove
  deriving DecidableEq, Repr

inductive ClientAction | create | rotate | revoke
  deriving DecidableEq, Repr

inductive CliCommand
  | start (name : String)
  | stop (name : String)
  | restart (name : String)
  | renameComputer (oldName newName : String)
  | deleteComputer (name : String)
  | restoreComputer (name : String)
  | upgradeComputer (positionals : List String)
  | releaseHumanControlThroughGateway (computer : ComputerConfig)
  | toolsCommand (positionals : List String)
  | skillsCommand (positionals : List String)
  | networkCommand (positionals : List String)
  | manageBrokerCredential (computer : ComputerConfig) (action : CredentialAction)
  | manageDashboardClientCredential (computer : ComputerConfig) (action : ClientAction)
  | token (positionals : List String)
  | checkpointCommand (positionals : List String)
  | backupCommand (positionals : List String)
  | cloneCommand (positionals : List String)
  | commitPolicyChange (computer : ComputerConfig)
  | operator (id suffix : String)
  deriving DecidableEq

def ManagementRequest.text (request : ManagementRequest) (key : String) : Except String String :=
  match request.input key with
  | some (.text value) => if value = "" then .error s!"{key} is required." else .ok value
  | _ => .error s!"{key} is required."

def InputValue.isText : InputValue → Bool
  | .text _ => true
  | _ => false

def ManagementRequest.ids (request : ManagementRequest) : Except String (List String) :=
  match request.input "ids" with
  | some (.list items) =>
    if items.all InputValue.isText then
      .ok (items.filterMap fun item => match item with | .text value => some value | _ => none)
    else .error "Select enabled IDs."
  | _ => .error "Select enabled IDs."

def requireManagementComputer : Option ComputerConfig → Except String ComputerConfig
  | some computer => .ok computer
  | none => .error "Computer was not found."

/-- `executeHostManagementRequest`, up to the command. -/
def executeHostManagementRequest (host : Installation) (request : ManagementRequest) : Except String CliCommand :=
  let target:=request.target
  let computer:=host.computers.find? fun computer => decide (computer.id=target ∨ computer.name=target)
  let name:=(computer.map (·.name)).getD target
  match request.operation with
  | .computerStart => .ok (.start name)
  | .computerStop => .ok (.stop name)
  | .computerRestart => .ok (.restart name)
  | .computerRename => do .ok (.renameComputer name (← request.text "name"))
  | .computerDelete => .ok (.deleteComputer name)
  | .computerRestore => .ok (.restoreComputer target)
  | .computerUpgrade => .ok (.upgradeComputer [name])
  | .controlRelease => do .ok (.releaseHumanControlThroughGateway (← requireManagementComputer computer))
  | .toolsSet => do
    let ids ← request.ids
    let maximum:=host.tools (← requireManagementComputer computer).capabilities
    if ids.any fun id => !maximum.contains id then .error "Tool selection exceeds computer capabilities."
    else .ok (.toolsCommand [name])
  | .skillsSet => do
    let _ ← request.ids
    .ok (.skillsCommand [name])
  | .skillImport => do .ok (.skillsCommand [name,"import",← request.text "url"])
  | .skillUpdate => do .ok (.skillsCommand [name,"update",← request.text "id",← request.text "url"])
  | .skillReset => do .ok (.skillsCommand [name,"reset",← request.text "id"])
  | .skillRemove => do .ok (.skillsCommand [name,"remove",← request.text "id"])
  | .skillRestore => do .ok (.skillsCommand [name,"restore",← request.text "id"])
  | .networkSet => do .ok (.networkCommand ["set",name,← request.text "profile"])
  | .networkApprove => do .ok (.networkCommand ["approve",name,← request.text "domain"])
  | .networkRevoke => do .ok (.networkCommand ["revoke",name,← request.text "domain"])
  | .credentialAdd => do .ok (.manageBrokerCredential (← requireManagementComputer computer) .add)
  | .credentialReplace => do .ok (.manageBrokerCredential (← requireManagementComputer computer) .replace)
  | .credentialRemove => do .ok (.manageBrokerCredential (← requireManagementComputer computer) .remove)
  | .clientCreate => do .ok (.manageDashboardClientCredential (← requireManagementComputer computer) .create)
  | .clientRotate => do .ok (.manageDashboardClientCredential (← requireManagementComputer computer) .rotate)
  | .clientRevoke => do .ok (.manageDashboardClientCredential (← requireManagementComputer computer) .revoke)
  | .tokenRotate => .ok (.token ["rotate",name])
  | .checkpointCreate => .ok (.checkpointCommand [name])
  | .backupCreate => .ok (.backupCommand ["create",name])
  | .backupVerify => .ok (.backupCommand ["verify",target])
  | .backupRestore => do .ok (.backupCommand ["restore",target,← request.text "name"])
  | .backupPrune =>
    match computer with
    | some computer => .ok (.backupCommand ["prune",computer.id])
    | none => .error "Cannot read properties of undefined (reading 'id')"
  | .computerClone => do .ok (.cloneCommand [name,← request.text "name"])
  | .computerResources => do .ok (.commitPolicyChange (← requireManagementComputer computer))
  | .processStop => do .ok (.operator (← requireManagementComputer computer).id "/processes/stop")
  | .previewRevoke => do .ok (.operator (← requireManagementComputer computer).id "/previews/revoke")
  | .previewShare => do .ok (.operator (← requireManagementComputer computer).id "/previews/share")
  | .previewUnshare => do .ok (.operator (← requireManagementComputer computer).id "/previews/unshare")

def required (value : Option String) (what : String) : Except String String :=
  match value with
  | some value => if value = "" then .error s!"Missing {what}." else .ok value
  | none => .error s!"Missing {what}."

def computerOf (host : Installation) (argument : Option String) (what : String) : Except String Identity := do
  let computer ← findComputer host.computers (← required argument what)
  .ok (.computer computer.id)

/- `readManifest` refuses an ID that its pattern refuses before it looks for the directory. -/
def backupOf (argument : Option String) : Except String Identity := do
  let id ← required argument "backup ID"
  if BackupCreation.backupNamePattern id then .ok (.backup id) else .error "Invalid backup ID."

def backupCommandSelects (host : Installation) (positionals : List String) : Except String (Option Identity) := do
  match ← required positionals[0]? "backup action" with
  | "create" => some <$> computerOf host positionals[1]? "computer name"
  | "verify" => some <$> backupOf positionals[1]?
  | "restore" => some <$> backupOf positionals[1]?
  | "prune" => (·.map Identity.computer) <$> pruneSource host (positionals[1]?.getD "")
  | _ => .error "Backup action must be create, list, verify, restore, or prune."

/-- The identity a command acts on, as the command finds it. -/
def CliCommand.selects (host : Installation) : CliCommand → Except String (Option Identity)
  | start name | stop name | restart name | renameComputer name _ | deleteComputer name => do
    let computer ← findComputer host.computers name
    .ok (some (.computer computer.id))
  | restoreComputer name => do
    let metadata ← findTrash host.trash name
    .ok (some (.trashed metadata.id))
  | upgradeComputer positionals | toolsCommand positionals | skillsCommand positionals =>
    some <$> computerOf host positionals[0]? "computer name"
  | networkCommand positionals | token positionals => some <$> computerOf host positionals[1]? "computer name"
  | cloneCommand positionals => some <$> computerOf host positionals[0]? "source computer"
  | checkpointCommand positionals => backupCommandSelects host ["create",positionals[0]?.getD ""]
  | backupCommand positionals => backupCommandSelects host positionals
  | releaseHumanControlThroughGateway computer | manageBrokerCredential computer _
  | manageDashboardClientCredential computer _ | commitPolicyChange computer => .ok (some (.computer computer.id))
  | operator id _ => .ok (some (.computer id))

end Qubicl.Cli.Dashboard
