import Qubicl.Cli.Skills.Digests
import Qubicl.Core.GatewayAccess
import Qubicl.Foundation.StringMap
import Qubicl.Foundation.Transition

/-!
# The skill store (packages/cli/src/skill-store.ts:107-403, 409-422, 511-525, 640-760, packages/core/src/skills.ts:69-112)

The working copies in the home of a computer, their baselines and the registry. A command runs alone, but the agent may
edit its files between any two of its moments: between the comparison of a working copy and its replacement lies the copy
of a packaged skill, or the checkout of a repository.
-/

namespace Qubicl.Cli.Skills
open Foundation

mutual
def Node.copied : Node → Option Node
  | .file bytes mode _ => some (.file bytes mode 1)
  | .directory children => (copiedChildren children).map .directory
  | .symlink => some .symlink
  | .other => none

def copiedChildren : List (FileName × Node) → Option (List (FileName × Node))
  | [] => some []
  | child::rest => (copiedChild child).bind fun child => (copiedChildren rest).map (child :: ·)

def copiedChild : FileName × Node → Option (FileName × Node)
  | (name,node) => node.copied.map (name,·)
end

def FileName.ofText? (text : String) : Option FileName :=
  if plain : ∀ c ∈ text.toList, c ≠ '/' ∧ c≠Char.ofNat 0 then some ⟨text,plain⟩ else none

/- The file is written with `wx`, in directories that are made where they are missing. -/
def place (entry : PackageEntry) : List FileName → List (FileName × Node) → Option (List (FileName × Node))
  | [], _ => none
  | [name], children =>
    if children.any (·.1=name) then none else some (children++[(name,.file entry.bytes (entry.mode &&& 0o755) 1)])
  | name::deeper, children =>
    match children.find? (·.1=name) with
    | none => (place entry deeper []).map fun inner => children++[(name,.directory inner)]
    | some (_,.directory inner) =>
      (place entry deeper inner).map fun inner =>
        children.map fun child => if child.1=name then (name,.directory inner) else child
    | some _ => none

def atomicCopySnapshot (entries : List PackageEntry) : Option Node :=
  (entries.foldlM (fun children entry => ((splitSlash entry.path).mapM FileName.ofText?).bind (place entry · children)) []).map
    .directory

mutual
def Node.filesBelow (pre : String) : Node → Except String (List PackageEntry)
  | .directory children => filesOfChildren pre children
  | _ => .ok []

def filesOfChildren (pre : String) : List (FileName × Node) → Except String (List PackageEntry)
  | [] => .ok []
  | child::rest => (filesOfChild pre child).bind fun files => (filesOfChildren pre rest).map (files ++ ·)

def filesOfChild (pre : String) : FileName × Node → Except String (List PackageEntry)
  | (name,.file bytes mode _) => .ok [⟨childPath pre name,bytes,mode % 512⟩]
  | (name,.symlink) => .error s!"Skill package contains unsupported symlink {childPath pre name}."
  | (_,.other) => .ok []
  | (name,.directory children) => filesOfChildren (childPath pre name) children
end

def inspectSkillDirectory (root : Node) (expectedFiles : List String) : Except String (List PackageEntry) :=
  (root.filesBelow "").bind fun found =>
    let actual:=sorted (comparing PackageEntry.path compareText) found
    if actual.map PackageEntry.path≠sorted compareText expectedFiles then
      .error "Skill package file list differs from its immutable catalog record."
    else .ok actual

/-- `/^[a-z0-9]+(?:-[a-z0-9]+)*$/` -/
def skillName : Regex :=
  let word:=Regex.oneOrMore (.char fun c => ('a' ≤ c && c ≤ 'z') || ('0' ≤ c && c ≤ '9'))
  .seq word (.star (.seq (.text "-") word))

def assertSkillName (name : String) : Bool := skillName.test name && decide (name.length≤64)

/- `expectedName.replace(/\.git$/i, '')` -/
def withoutGitSuffix (name : String) : String :=
  let cs:=name.toList
  if (cs.drop (cs.length - 4)).map Char.toLower = ".git".toList then String.ofList (cs.take (cs.length - 4)) else name

/- What follows the closing line of the frontmatter is a line break or the end. -/
def closes (cs : List Char) : Bool :=
  let after:=cs.drop 3
  cs.take 3 == "---".toList && (after.isEmpty || after.take 1 == ['\n'] || after.take 2 == ['\r','\n'])

/- The text before the first line break that the closing line follows. -/
def untilClosing : List Char → Option (List Char)
  | [] => none
  | '\n' :: rest => if closes rest then some [] else (untilClosing rest).map ('\n' :: ·)
  | '\r' :: '\n' :: rest => if closes rest then some [] else (untilClosing ('\n' :: rest)).map ('\r' :: ·)
  | c::rest => (untilClosing rest).map (c :: ·)

/-- `/^---\r?\n([\s\S]*?)\r?\n---(?:\r?\n|$)/` -/
def frontmatterText (raw : String) : Option String :=
  match raw.toList with
  | '-' :: '-' :: '-' :: '\n' :: rest => (untilClosing rest).map String.ofList
  | '-' :: '-' :: '-' :: '\r' :: '\n' :: rest => (untilClosing rest).map String.ofList
  | _ => none

inductive SkillKind
  | core | imported
  deriving DecidableEq

/- `baseline` is no field of the registry: it is the package of which `baselineSha256` was taken. -/
structure InstalledSkill (Digest : Type) where
  id : String
  name : String
  description : String
  kind : SkillKind
  baselineSha256 : Digest
  updateAvailableSha256 : Option Digest
  baseline : List PackageEntry

structure CoreSkill (Digest Finding : Type) where
  id : String
  name : String
  description : String
  files : List String
  sha256 : Digest
  scannerVersion : String
  findings : List Finding
  source : Node

structure Trashed (Digest : Type) where
  metadata : InstalledSkill Digest
  working : Option Node
  baseline : Option Node

/- A working copy that was replaced, as it was at that moment. -/
structure Replacement where
  kind : SkillKind
  working : Node
  baseline : List PackageEntry

/-- The command that is running, with the registry that it will write. -/
inductive Job (Digest Finding : Type)
  | materializing (registry : List (String × InstalledSkill Digest)) (todo : List (CoreSkill Digest Finding))
  | replacing (registry : List (String × InstalledSkill Digest)) (skill : CoreSkill Digest Finding) (verified : List PackageEntry)
      (existing : InstalledSkill Digest) (todo : List (CoreSkill Digest Finding))
  | updating (registry : List (String × InstalledSkill Digest)) (existing : InstalledSkill Digest)

structure SkillStore (Digest Finding : Type) where
  packages : List (String × InstalledSkill Digest)
  installed : List (String × Node)
  importedBaselines : List (String × Node)
  custom : List String
  trash : List (String × Trashed Digest)
  job : Option (Job Digest Finding)
  replaced : List Replacement

inductive Action (Digest Finding : Type)
  | editInstalled (name : String) (now : Option Node)
  | editBaseline (name : String) (now : Option Node)
  | editCustom (now : List String)
  | editTrash (now : List (String × Trashed Digest))
  | materializeSkills (catalog : List (CoreSkill Digest Finding)) (enabledCatalogSkills : List String)
  | nextCoreSkill
  | replaceCoreSkill
  | importSkill (source : Node) (expectedName : String) (catalog : List (CoreSkill Digest Finding))
  | updateImportedSkill (idOrName : String)
  | replaceImportedSkill (source : Node) (expectedName : String) (committed : Bool)
  | resetInstalledSkill (idOrName : String) (catalog : List (CoreSkill Digest Finding))
  | removeImportedSkill (idOrName : String) (trashName : String)
  | restoreImportedSkill (idOrName : String)
  | fail

def contentSecurityScannerVersion : String := "qubicl-content-security-v1"

def isRetiredCatalogSkillId (id : String) : Bool := id.startsWith "hermes-default/" || id.startsWith "hermes-optional/"

section Commands
variable {Digest Finding : Type} [DecidableEq Digest] [DecidableEq Finding]
variable (localeCompare : String → String → Ordering) (sha256 : List UInt8 → Digest)
/- The YAML parser is a package: it gives the name and the description where both are texts. -/
variable (yaml : String → Option (String × String))
variable (scanSkillFiles : List (String × List UInt8) → List Finding) (blockingForSkills : Finding → Bool)

def verifyCatalogSkillDirectory (skill : CoreSkill Digest Finding) : Except String (List PackageEntry) :=
  if skill.scannerVersion≠contentSecurityScannerVersion then
    .error s!"Catalog skill {skill.id} has no current mandatory security review."
  else (inspectSkillDirectory skill.source skill.files).bind fun entries =>
    if sha256 (flat entries)≠skill.sha256 then .error s!"Catalog skill {skill.id} differs from its immutable reviewed digest."
    else if scanSkillFiles ((contents entries).filter fun file => !file.2.contains 0)≠skill.findings then
      .error s!"Catalog skill {skill.id} security findings differ from its reviewed record."
    else .ok entries

def inspectEditableSkill (root : Node) : Except String (List PackageEntry) := enumeratePackage localeCompare root false

def inspectCoreWorkingCopy (root : Node) : Except String (List PackageEntry) :=
  (enumeratePackage localeCompare root true).map (sorted (comparing PackageEntry.path compareText))

def inspectImport (root : Node) (expectedName : String) : Except String (String × String × List PackageEntry) :=
  (inspectEditableSkill localeCompare root).bind fun entries =>
    match entries.find? (·.path = "SKILL.md") with
    | none => .error "Imported skill must contain SKILL.md at its package root."
    | some skillFile =>
      match frontmatterText (Utf8.decode skillFile.bytes) with
      | none => .error "Imported SKILL.md must start with YAML frontmatter."
      | some frontmatter =>
        match yaml frontmatter with
        | none => .error "Imported SKILL.md frontmatter is invalid."
        | some (name,description) =>
          if !assertSkillName name then .error "Skill name must be lowercase kebab-case and at most 64 characters."
          else if name≠withoutGitSuffix expectedName then
            .error s!"Imported skill name {name} must match its package directory {expectedName}."
          else if Core.trimText description = "" ∨ 1024<Core.utf16Length description then
            .error "Imported skill description must be 1-1024 characters."
          else if (scanSkillFiles ((contents entries).filter fun file => isTextResource file.2)).any blockingForSkills then
            .error "Imported skill contains blocked prompt-injection or concealment patterns."
          else .ok (name,Core.trimText description,entries)

def resolveInstalled (packages : List (String × InstalledSkill Digest)) (idOrName : String) : Option (InstalledSkill Digest) :=
  match (packages.map Prod.snd).filter fun skill => skill.id=idOrName || skill.name=idOrName with
  | [skill] => some skill
  | _ => none

namespace SkillStore
variable (s : SkillStore Digest Finding)

def failed : SkillStore Digest Finding := { s with job := none }

def coreRecord (skill : CoreSkill Digest Finding) (verified : List PackageEntry) : InstalledSkill Digest where
  id := skill.id
  name := skill.name
  description := skill.description
  kind := .core
  baselineSha256 := skill.sha256
  updateAvailableSha256 := none
  baseline := verified

/- The loop of `materializeSkills` up to a working copy that is to be replaced, or to its end. -/
def nextCoreSkill (registry : List (String × InstalledSkill Digest)) :
    List (CoreSkill Digest Finding) → SkillStore Digest Finding
  | [] => { s with packages := registry, job := none }
  | skill::todo =>
    match verifyCatalogSkillDirectory sha256 scanSkillFiles skill with
    | .error _ => s.failed
    | .ok verified =>
      match registry.lookup skill.id, s.installed.lookup skill.name with
      | none, some _ => s.failed
      | _, none =>
        match skill.source.copied with
        | none => s.failed
        | some copy => { s with
            installed := mapSet skill.name copy s.installed
            job := some (.materializing (mapSet skill.id (coreRecord skill verified) registry) todo) }
      | some existing, some working =>
        let available:=some (Job.materializing
          (mapSet skill.id { existing with updateAvailableSha256 := some skill.sha256 } registry) todo)
        if existing.kind≠.core ∨ existing.name≠skill.name then s.failed
        else
          match inspectCoreWorkingCopy localeCompare working with
          | .ok current =>
            if existing.baselineSha256=sha256 (flat current) ∧ existing.baselineSha256≠skill.sha256 then
              { s with job := some (.replacing registry skill verified existing todo) }
            else if existing.baselineSha256≠skill.sha256 then { s with job := available }
            else { s with job := some (.materializing registry todo) }
          | .error _ =>
            if existing.baselineSha256≠skill.sha256 then { s with job := available }
            else { s with job := some (.materializing registry todo) }

/- `atomicReplace`; where it fails, the update is only announced. -/
def replaceCoreSkill (registry : List (String × InstalledSkill Digest)) (skill : CoreSkill Digest Finding)
    (verified : List PackageEntry) (existing : InstalledSkill Digest) (todo : List (CoreSkill Digest Finding)) :
    SkillStore Digest Finding :=
  match skill.source.copied with
  | none => { s with job := some (.materializing
      (mapSet skill.id { existing with updateAvailableSha256 := some skill.sha256 } registry) todo) }
  | some copy => { s with
      installed := mapSet skill.name copy s.installed
      replaced := s.replaced++(s.installed.lookup skill.name).toList.map fun working => ⟨.core,working,existing.baseline⟩
      job := some (.materializing (mapSet skill.id { existing with
        description := skill.description, baselineSha256 := skill.sha256, updateAvailableSha256 := none,
        baseline := verified } registry) todo) }

def importSkill (source : Node) (expectedName : String) (catalog : List (CoreSkill Digest Finding)) :
    SkillStore Digest Finding :=
  match inspectImport localeCompare yaml scanSkillFiles blockingForSkills source expectedName with
  | .error _ => s
  | .ok (name,description,snapshot) =>
    let id:="imported/" ++ name
    if (s.packages.lookup id).isSome ∨ s.packages.any (·.2.name=name) ∨ catalog.any (·.name=name) ∨ name ∈ s.custom ∨
        (s.installed.lookup name).isSome ∨ (s.importedBaselines.lookup name).isSome then s
    else
      match atomicCopySnapshot snapshot with
      | none => s
      | some copy => { s with
          importedBaselines := mapSet name copy s.importedBaselines
          installed := mapSet name copy s.installed
          packages := mapSet id ⟨id,name,description,.imported,sha256 (flat snapshot),none,snapshot⟩ s.packages }

/- Up to the comparison. The checkout comes after it. -/
def updateImportedSkill (idOrName : String) : SkillStore Digest Finding :=
  match resolveInstalled s.packages idOrName with
  | none => s
  | some existing =>
    if existing.kind≠.imported then s
    else
      match (s.installed.lookup existing.name).map (inspectEditableSkill localeCompare) with
      | some (.ok current) =>
        if sha256 (flat current)≠existing.baselineSha256 then s else { s with job := some (.updating s.packages existing) }
      | _ => s

/- The process may end between the replacement and the writing of the registry. -/
def replaceImportedSkill (registry : List (String × InstalledSkill Digest)) (existing : InstalledSkill Digest) (source : Node)
    (expectedName : String) (committed : Bool) : SkillStore Digest Finding :=
  match inspectImport localeCompare yaml scanSkillFiles blockingForSkills source expectedName with
  | .error _ => s.failed
  | .ok (name,description,snapshot) =>
    if name≠existing.name then s.failed
    else
      match atomicCopySnapshot snapshot, s.importedBaselines.lookup existing.name, s.installed.lookup existing.name with
      | some copy, some _, some working => { s with
          importedBaselines := mapSet existing.name copy s.importedBaselines
          installed := mapSet existing.name copy s.installed
          replaced := s.replaced++[⟨.imported,working,existing.baseline⟩]
          packages := if committed then
              mapSet existing.id { existing with
                description := description, baselineSha256 := sha256 (flat snapshot), updateAvailableSha256 := none,
                baseline := snapshot } registry
            else s.packages
          job := none }
      | _, _, _ => s.failed

def resetInstalledSkill (idOrName : String) (catalog : List (CoreSkill Digest Finding)) : SkillStore Digest Finding :=
  match resolveInstalled s.packages idOrName with
  | none => s
  | some skill =>
    match skill.kind with
    | .core =>
      match catalog.find? (·.id=skill.id) with
      | none => s
      | some core =>
        match verifyCatalogSkillDirectory sha256 scanSkillFiles core, core.source.copied with
        | .ok verified, some copy => { s with
            installed := mapSet skill.name copy s.installed
            packages := mapSet skill.id { skill with
              description := core.description, baselineSha256 := core.sha256, updateAvailableSha256 := none,
              baseline := verified } s.packages }
        | _, _ => s
    | .imported =>
      match s.importedBaselines.lookup skill.name with
      | none => s
      | some source =>
        match inspectEditableSkill localeCompare source, source.copied with
        | .ok inspected, some copy =>
          if sha256 (flat inspected)≠skill.baselineSha256 then s
          else { s with installed := mapSet skill.name copy s.installed, packages := mapSet skill.id skill s.packages }
        | _, _ => s

def removeImportedSkill (idOrName trashName : String) : SkillStore Digest Finding :=
  match resolveInstalled s.packages idOrName with
  | none => s
  | some skill =>
    if skill.kind≠.imported then s
    else { s with
      trash := mapSet (trashName ++ "-" ++ skill.name)
        ⟨skill,s.installed.lookup skill.name,s.importedBaselines.lookup skill.name⟩ s.trash
      installed := mapDelete skill.name s.installed
      importedBaselines := mapDelete skill.name s.importedBaselines
      packages := mapDelete skill.id s.packages }

def restoreImportedSkill (idOrName : String) : SkillStore Digest Finding :=
  if s.packages.any fun (_,skill) => skill.id=idOrName || skill.name=idOrName then s
  else
    match sorted (fun left right => localeCompare right.1 left.1) (s.trash.filter fun (_,trashed) =>
        trashed.metadata.kind=.imported && (trashed.metadata.id=idOrName || trashed.metadata.name=idOrName)) with
    | [] => s
    | (directory,trashed)::_ =>
      let metadata:=trashed.metadata
      if (s.installed.lookup metadata.name).isSome ∨ (s.importedBaselines.lookup metadata.name).isSome ∨
          metadata.name ∈ s.custom then s
      else
        match trashed.baseline with
        | none => s
        | some baseline =>
          match inspectEditableSkill localeCompare baseline with
          | .error _ => s
          | .ok verifiedBaseline =>
            if sha256 (flat verifiedBaseline)≠metadata.baselineSha256 then s
            else if (trashed.working.map (inspectEditableSkill localeCompare)).any fun inspected => !inspected.toBool then s
            else
              match trashed.working.orElse fun _ => baseline.copied with
              | none => s
              | some working => { s with
                  importedBaselines := mapSet metadata.name baseline s.importedBaselines
                  installed := mapSet metadata.name working s.installed
                  packages := mapSet metadata.id { metadata with baseline := verifiedBaseline } s.packages
                  trash := mapDelete directory s.trash }

/- A command starts when no other runs; an edit may come at any moment. -/
def act : Action Digest Finding → Option (SkillStore Digest Finding)
  | .editInstalled name now =>
    some { s with installed := now.elim (mapDelete name s.installed) fun node => mapSet name node s.installed }
  | .editBaseline name now =>
    some { s with
      importedBaselines := now.elim (mapDelete name s.importedBaselines) fun node => mapSet name node s.importedBaselines }
  | .editCustom now => some { s with custom := now }
  | .editTrash now => some { s with trash := now }
  | .fail => some s.failed
  | .nextCoreSkill =>
    match s.job with
    | some (.materializing registry todo) => some (s.nextCoreSkill localeCompare sha256 scanSkillFiles registry todo)
    | _ => none
  | .replaceCoreSkill =>
    match s.job with
    | some (.replacing registry skill verified existing todo) => some (s.replaceCoreSkill registry skill verified existing todo)
    | _ => none
  | .replaceImportedSkill source expectedName committed =>
    match s.job with
    | some (.updating registry existing) =>
      some (s.replaceImportedSkill localeCompare sha256 yaml scanSkillFiles blockingForSkills registry existing source
        expectedName committed)
    | _ => none
  | .materializeSkills catalog enabledCatalogSkills =>
    if s.job.isSome then none
    else
      let known:=catalog.map CoreSkill.id++s.packages.map Prod.fst
      if enabledCatalogSkills.any fun id => id ∉ known && !isRetiredCatalogSkillId id then some s
      else some { s with job := some (.materializing s.packages catalog) }
  | .importSkill source expectedName catalog =>
    if s.job.isSome then none
    else some (s.importSkill localeCompare sha256 yaml scanSkillFiles blockingForSkills source expectedName catalog)
  | .updateImportedSkill idOrName =>
    if s.job.isSome then none else some (s.updateImportedSkill localeCompare sha256 idOrName)
  | .resetInstalledSkill idOrName catalog =>
    if s.job.isSome then none else some (s.resetInstalledSkill localeCompare sha256 scanSkillFiles idOrName catalog)
  | .removeImportedSkill idOrName trashName =>
    if s.job.isSome then none else some (s.removeImportedSkill idOrName trashName)
  | .restoreImportedSkill idOrName =>
    if s.job.isSome then none else some (s.restoreImportedSkill localeCompare sha256 idOrName)

end SkillStore

def skillSystem : TransitionSystem (SkillStore Digest Finding) (Action Digest Finding) where
  initial s := s.packages=[] ∧ s.job=none ∧ s.replaced=[]
  step s action := s.act localeCompare sha256 yaml scanSkillFiles blockingForSkills action

inductive Drift
  | unchanged | modified | missing | corrupt
  deriving DecidableEq

structure SkillStatus (Digest : Type) where
  skill : InstalledSkill Digest
  enabled : Bool
  currentSha256 : Option Digest
  drift : Drift
  resetAvailable : Bool

/-- What the code makes of a working copy, for each kind of skill. -/
def inspectWorkingCopy (kind : SkillKind) (root : Node) : Except String (List PackageEntry) :=
  match kind with
  | .core => inspectCoreWorkingCopy localeCompare root
  | .imported => inspectEditableSkill localeCompare root

def skillStatus (s : SkillStore Digest Finding) (enabled : List String) (skill : InstalledSkill Digest) : SkillStatus Digest :=
  let resetAvailable:=skill.kind=.core || (s.importedBaselines.lookup skill.name).isSome
  match s.installed.lookup skill.name with
  | none => ⟨skill,skill.id ∈ enabled,none,.missing,resetAvailable⟩
  | some working =>
    match inspectWorkingCopy localeCompare skill.kind working with
    | .error _ => ⟨skill,skill.id ∈ enabled,none,.corrupt,resetAvailable⟩
    | .ok inspected =>
      ⟨skill,skill.id ∈ enabled,some (sha256 (flat inspected)),
        if sha256 (flat inspected)=skill.baselineSha256 then .unchanged else .modified,resetAvailable⟩

def kindName : SkillKind → String
  | .core => "core"
  | .imported => "imported"

def skillStatuses (s : SkillStore Digest Finding) (enabled : List String) : List (SkillStatus Digest) :=
  sorted (fun left right => (localeCompare (kindName left.skill.kind) (kindName right.skill.kind)).then
    (localeCompare left.skill.name right.skill.name)) (s.packages.map fun (_,skill) => skillStatus localeCompare sha256 s enabled skill)

end Commands

end Qubicl.Cli.Skills
