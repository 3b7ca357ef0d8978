import Qubicl.Cli.BackupArchive.Entries
import Qubicl.Foundation.Metered
import Qubicl.Foundation.StringMap

/-!
# The metadata graph of a backup archive (safe-backup-archive.ts)

`validateMetadataGraph` with its two link loops, and `inspectBackupArchive`.
-/

namespace Qubicl.Cli.BackupArchive
open Qubicl.Foundation

section graph

variable (nfc : String → String) (limits : BackupArchiveLimits) (entries : List SafeArchiveEntry)

structure Graph where
  filesystemEntries : List (String × ArchiveEntryKind)
  filesystemCanonicalNames : List (String × String)
  pathTableBytes : ℕ
  deriving DecidableEq, Repr

/-- The name that `name` collides with: of an explicit entry first, else of the graph. -/
def collidingName (g : Graph) (name : String) : Option String :=
  let collisionKey:=unicodeCollisionKey nfc name
  ((entryByKey nfc entries collisionKey).map (·.name)).filter (· ≠ name) <|>
    (g.filesystemCanonicalNames.lookup collisionKey).filter (· ≠ name)

def nodeBytes (name : String) (implicit : Bool) : ℕ :=
  (if implicit then byteLength name else 0)+byteLength (unicodeCollisionKey nfc name)

/-- The bytes of the path table once `name` is in the graph. -/
def chargeNode (g : Graph) (name : String) (implicit : Bool) : Except String ℕ :=
  if (g.filesystemEntries.lookup name).isSome then return g.pathTableBytes
  else do
    rejectIf (limits.maxFilesystemEntries≤g.filesystemEntries.length)
      (archiveError ("filesystem graph contains more than " ++
        toLocaleString limits.maxFilesystemEntries ++ " explicit and implicit entries"))
    let pathTableBytes ← checkedSum g.pathTableBytes (nodeBytes nfc name implicit)
    rejectIf (limits.maxPathTableBytes<pathTableBytes)
      (archiveError ("path metadata exceeds " ++ formatBytes limits.maxPathTableBytes))
    return pathTableBytes

def addFilesystemEntry (g : Graph) (name : String) (kind : ArchiveEntryKind) (implicit : Bool) :
    Except String Graph := do
  rejectIf ((collidingName nfc entries g name).isSome)
    (archiveError ("contains canonically equivalent filesystem paths " ++
      quote ((collidingName nfc entries g name).getD "") ++ " and " ++ quote name))
  let pathTableBytes ← chargeNode nfc limits g name implicit
  return {
    filesystemEntries := mapSet name kind g.filesystemEntries
    filesystemCanonicalNames :=
      mapSet (unicodeCollisionKey nfc name) name g.filesystemCanonicalNames
    pathTableBytes }

/-- `components.slice(0, index).join('/')` for each index from 1 below their number. -/
def properAncestors (name : String) : List String :=
  (List.range' 1 ((nameComponents name).length - 1)).map fun index =>
    joinSlash ((nameComponents name).take index)

/-- A declared ancestor that is not a directory. -/
def beneathNonDirectory (ancestor : String) : Bool :=
  match entryByKey nfc entries (unicodeCollisionKey nfc ancestor) with
  | none => false
  | some declared => declared.kind≠.directory

def addAncestor (name : String) (g : Graph) (ancestor : String) : Except String Graph := do
  rejectIf (beneathNonDirectory nfc entries ancestor)
    (archiveError ("places " ++ quote name ++ " beneath non-directory " ++ quote ancestor))
  addFilesystemEntry nfc limits entries g ancestor .directory (!hasEntry entries ancestor)

/-- The entry itself, unless it is the root, and then its ancestors. -/
def addEntryNodes (g : Graph) (entry : SafeArchiveEntry) : Except String Graph := do
  let g ← if entry.name = "" then pure g
    else addFilesystemEntry nfc limits entries g entry.name entry.kind false
  (properAncestors entry.name).foldlM (addAncestor nfc limits entries entry.name) g

def linkBudgetExceeded : String :=
  archiveError ("link graph exceeds the " ++ toLocaleString limits.maxLinkResolutionSteps ++
    " step validation budget")

structure HardlinkSearch where
  target : String
  visited : List String
  deriving DecidableEq, Repr

/-- One turn of the `while (true)` of `resolveHardlink`, after its `linkStep()`. -/
def hardlinkTurn (entry : SafeArchiveEntry) (s : HardlinkSearch) :
    Except String (Turn HardlinkSearch String) := do
  rejectIf (limits.maxLinkChain<s.visited.length)
    (archiveError ("hardlink chain from " ++ quote entry.name ++ " is too deep"))
  let targetKey:=unicodeCollisionKey nfc s.target
  rejectIf (targetKey ∈ s.visited) (archiveError ("hardlink cycle includes " ++ quote s.target))
  match entryByKey nfc entries targetKey with
  | none => .error (archiveError ("hardlink " ++ quote entry.name ++ " targets missing member " ++
      quote s.target))
  | some candidate =>
    match candidate.kind with
    | .file => return .done candidate.name
    | .hardlink => return .again ⟨candidate.linkTarget.getD "",s.visited++[targetKey]⟩
    | _ => .error (archiveError ("hardlink " ++ quote entry.name ++
        " does not resolve to a regular file"))

def resolveHardlink (entry : SafeArchiveEntry) (steps : ℕ) : Except String (String × ℕ) :=
  meteredLoop limits.maxLinkResolutionSteps (linkBudgetExceeded limits) (fun _ => none)
    (hardlinkTurn nfc limits entries entry) steps
    ⟨entry.linkTarget.getD "",[unicodeCollisionKey nfc entry.name]⟩

/-- `pending` is what is left of the source's list from its `pendingIndex` on. -/
structure SymlinkWalk where
  resolved : List String
  resolvedBytes : ℤ
  pending : List String
  followed : List String
  deriving DecidableEq, Repr

def SymlinkWalk.finished (s : SymlinkWalk) : Option Unit :=
  if s.pending=[] then some () else none

/-- The target of the symlink that stands at this key. -/
def symlinkAt (key : String) : Option String :=
  match entryByKey nfc entries key with
  | none => none
  | some candidate => if candidate.kind=.symlink then some (candidate.linkpath.getD "") else none

/-- The component is a name: it is appended, and taken off again when a relative
symlink stands there, whose target is walked in its place. -/
def enterComponent (entry : SafeArchiveEntry) (s : SymlinkWalk) (component : String)
    (pending : List String) : Except String (Turn SymlinkWalk Unit) := do
  let added : ℤ := byteLength component+if s.resolved=[] then 0 else 1
  let resolved:=s.resolved++[component]
  rejectIf (limits.maxPathDepth<resolved.length)
    (archiveError ("symlink chain from " ++ quote entry.name ++ " is too deep"))
  rejectIf ((limits.maxPathBytes : ℤ)<s.resolvedBytes+added)
    (archiveError ("symlink chain from " ++ quote entry.name ++
      " resolves to a path longer than " ++ toString limits.maxPathBytes ++ " bytes"))
  let reachedKey:=unicodeCollisionKey nfc (joinSlash resolved)
  match symlinkAt nfc entries reachedKey with
  | none => return .again ⟨resolved,s.resolvedBytes+added,pending,s.followed⟩
  | some linkpath =>
    if isAbsolute linkpath then return .done ()
    else do
      rejectIf (reachedKey ∈ s.followed)
        (archiveError ("symlink cycle includes " ++ quote (joinSlash resolved)))
      rejectIf (limits.maxLinkChain ≤ s.followed.length)
        (archiveError ("symlink chain from " ++ quote entry.name ++ " is too deep"))
      return .again ⟨s.resolved,s.resolvedBytes+added - added,splitSlash linkpath++pending,
        s.followed++[reachedKey]⟩

/-- One turn of the `while` of `assertConfinedAcyclicSymlink`, after its `linkStep()`. -/
def symlinkTurn (entry : SafeArchiveEntry) (s : SymlinkWalk) :
    Except String (Turn SymlinkWalk Unit) :=
  match s.pending with
  | [] => return .done ()
  | component::pending =>
    if component = "" ∨ component = "." then return .again { s with pending }
    else if component = ".." then
      match s.resolved.getLast? with
      | none => .error (archiveError ("symlink " ++ quote entry.name ++ " escapes the archive root"))
      | some removed => return .again { s with
          resolved := s.resolved.dropLast
          resolvedBytes := s.resolvedBytes -
            (byteLength removed+if s.resolved.dropLast=[] then 0 else 1)
          pending }
    else enterComponent nfc limits entries entry s component pending

/-- Absolute symlinks are opaque data and are not followed. -/
def assertConfinedAcyclicSymlink (entry : SafeArchiveEntry) (steps : ℕ) :
    Except String (Unit × ℕ) :=
  let linkpath:=entry.linkpath.getD ""
  if isAbsolute linkpath then return ((),steps)
  else
    let resolved:=nameComponents (dirnameArchivePath entry.name)
    meteredLoop limits.maxLinkResolutionSteps (linkBudgetExceeded limits) SymlinkWalk.finished
      (symlinkTurn nfc limits entries entry) steps
      ⟨resolved,byteLength (joinSlash resolved),splitSlash linkpath,
        [unicodeCollisionKey nfc entry.name]⟩

/-- The loop body over the hardlinks: the target is recorded in the entry. -/
def resolveEntry (entry : SafeArchiveEntry) (steps : ℕ) : Except String (SafeArchiveEntry × ℕ) :=
  if entry.kind=.hardlink then do
    let (target,steps) ← resolveHardlink nfc limits entries entry steps
    return ({ entry with resolvedHardlinkTarget := some target },steps)
  else return (entry,steps)

/-- The loop body over the symlinks. -/
def confineEntry (entry : SafeArchiveEntry) (steps : ℕ) : Except String (Unit × ℕ) :=
  if entry.kind=.symlink then assertConfinedAcyclicSymlink nfc limits entries entry steps
  else return ((),steps)

def rootKind : Option ArchiveEntryKind := (entries.find? (·.name = "")).map (·.kind)

/-- The link loops look entries up by key and never read what the first pass records,
so the table they use is the one of the collected entries. -/
def validateMetadataGraph (initialPathTableBytes : ℕ) :
    Except String (List SafeArchiveEntry × List (String × ArchiveEntryKind)) := do
  rejectIf (rootKind entries≠none ∧ rootKind entries≠some .directory)
    (archiveError "uses the archive root for a non-directory entry")
  let g ← entries.foldlM (addEntryNodes nfc limits entries) ⟨[],[],initialPathTableBytes⟩
  let (resolved,steps) ← meteredPass (resolveEntry nfc limits entries) entries 0
  let _ ← meteredPass (confineEntry nfc limits entries) resolved steps
  return (resolved,g.filesystemEntries)

end graph

structure SafeBackupArchivePlan where
  entries : List SafeArchiveEntry
  filesystemEntries : List (String × ArchiveEntryKind)
  expandedBytes : ℕ
  deriving DecidableEq, Repr

/-- The plan for the entries of an archive, without the digest of its bytes. -/
def inspectBackupArchive (nfc : String → String) (limits : BackupArchiveLimits)
    (raws : List ReadEntry) : Except String SafeBackupArchivePlan := do
  let s ← collectEntries nfc limits raws
  let (entries,filesystemEntries) ←
    validateMetadataGraph nfc limits s.entries s.pathTableBytes
  return ⟨entries,filesystemEntries,s.expandedBytes⟩

end Qubicl.Cli.BackupArchive
