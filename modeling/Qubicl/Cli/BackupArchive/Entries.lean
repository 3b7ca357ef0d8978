import Mathlib.Algebra.GroupWithZero.Nat
import Qubicl.Foundation.Checked
import Qubicl.Foundation.Path

/-!
# Entries of a backup archive (safe-backup-archive.ts)

The checks that every tar entry passes before its name and link target are
recorded: `safeEntry`, and the part of `inspectBackupArchive` that collects the
entries.  The tar parser hands over the raw entries; reading, decompressing and
hashing the archive are not modelled.  `nfc` stands for
`String.prototype.normalize('NFC')` and is not restricted.
-/

namespace Qubicl.Cli.BackupArchive
open Qubicl.Foundation

structure BackupArchiveLimits where
  maxEntries : ℕ
  maxFilesystemEntries : ℕ
  maxExpandedBytes : ℕ
  maxFileBytes : ℕ
  maxPathBytes : ℕ
  maxPathDepth : ℕ
  maxPathTableBytes : ℕ
  maxLinkChain : ℕ
  maxLinkResolutionSteps : ℕ
  deriving Repr

def BACKUP_ARCHIVE_LIMITS : BackupArchiveLimits where
  maxEntries := 250000
  maxFilesystemEntries := 500000
  maxExpandedBytes := 128*1024*1024*1024
  maxFileBytes := 32*1024*1024*1024
  maxPathBytes := 4096
  maxPathDepth := 256
  maxPathTableBytes := 64*1024*1024
  maxLinkChain := 64
  maxLinkResolutionSteps := 2000000

def startsWith (text start : String) : Bool := start.toList.isPrefixOf text.toList

def endsWith (text ending : String) : Bool := ending.toList.isSuffixOf text.toList

def archiveError (message : String) : String :=
  if startsWith message "Backup archive " then message else "Backup archive " ++ message ++ "."

def quoteChar (c : Char) : String :=
  if c = '"' then "\\\""
  else if c = '\\' then "\\\\"
  else if c = '\n' then "\\n"
  else if c = '\r' then "\\r"
  else if c = '\t' then "\\t"
  else if c.toNat=8 then "\\b"
  else if c.toNat=12 then "\\f"
  else if c.toNat<16 then "\\u000" ++ String.ofList (Nat.toDigits 16 c.toNat)
  else if c.toNat<32 then "\\u00" ++ String.ofList (Nat.toDigits 16 c.toNat)
  else c.toString

/-- `JSON.stringify` of a string. -/
def quote (text : String) : String := "\"" ++ String.join (text.toList.map quoteChar) ++ "\""

def groupThousands : List Char → List Char
  | a::b::c::d::rest => a::b::c :: ',' :: groupThousands (d::rest)
  | digits => digits

/-- `toLocaleString('en-US')` of a whole number. -/
def toLocaleString (n : ℕ) : String :=
  String.ofList (groupThousands (Nat.toDigits 10 n).reverse).reverse

/-- `Number.isInteger(x) ? x : x.toFixed(1)` for `x = bytes / unit`, a tie rounded up. -/
def wholeOrTenths (bytes unit : ℕ) : String :=
  if unit ∣ bytes then toString (bytes / unit)
  else
    let tenths:=(20*bytes+unit) / (2*unit)
    toString (tenths / 10) ++ "." ++ toString (tenths % 10)

def formatBytes (bytes : ℕ) : String :=
  if bytes<1024*1024*1024 then wholeOrTenths bytes (1024*1024) ++ " MiB"
  else wholeOrTenths bytes (1024*1024*1024) ++ " GiB"

def MAX_SAFE_INTEGER : ℕ := 9007199254740991

def checkedSum (left right : ℕ) : Except String ℕ := do
  rejectIf (MAX_SAFE_INTEGER<left+right)
    (archiveError "declares an unsafe total expanded size")
  return left+right

def checkedSize (value : ℤ) (label : String) : Except String ℕ := do
  rejectIf (value<0 ∨ (MAX_SAFE_INTEGER : ℤ)<value)
    (archiveError (label ++ " has an invalid size"))
  return value.toNat

def byteLength (text : String) : ℕ := text.utf8ByteSize

/-- `posix.isAbsolute` -/
def isAbsolute (path : String) : Bool := startsWith path "/"

def windowsAbsolute (path : String) : Bool :=
  (match path.toList with
    | letter :: ':' :: separator::_ => letter.isAlpha && (separator = '\\' || separator = '/')
    | _ => false) ||
  startsWith path "//" || startsWith path "\\\\"

def unicodeCollisionKey (nfc : String → String) (path : String) : String :=
  joinSlash ((splitSlash path).map nfc)

/-- `posix.dirname`: without trailing slashes, up to the last slash that is left. -/
def posixDirname (path : String) : String :=
  match path.toList with
  | [] => "."
  | first::rest =>
    match (rest.reverse.dropWhile (· = '/')).dropWhile (· ≠ '/') with
    | [] => if first = '/' then "/" else "."
    | _::before =>
      if first = '/' ∧ before=[] then "//" else String.ofList (first::before.reverse)

def dirnameArchivePath (path : String) : String :=
  let directory:=posixDirname path
  if directory = "." then "" else directory

/-- `path.split('/').filter(Boolean)` -/
def nameComponents (path : String) : List String := (splitSlash path).filter (· ≠ "")

/-- The loop over the components of a raw path. -/
def canonicalComponents (raw : String) : List String → Except String (List String)
  | [] => return []
  | component::rest =>
    if component = "" ∨ component = "." then canonicalComponents raw rest
    else do
      rejectIf (component = "..") (archiveError ("contains traversal path " ++ quote raw))
      let components ← canonicalComponents raw rest
      return component::components

def canonicalArchivePath (limits : BackupArchiveLimits) (raw : String) (allowRoot : Bool) :
    Except String String := do
  rejectIf (raw = "" ∨ '\x00' ∈ raw.toList)
    (archiveError ("contains invalid empty or NUL path " ++ quote raw))
  rejectIf (limits.maxPathBytes<byteLength raw)
    (archiveError ("contains a path longer than " ++ toString limits.maxPathBytes ++ " bytes"))
  rejectIf ('\\' ∈ raw.toList) (archiveError ("contains ambiguous backslash path " ++ quote raw))
  rejectIf (isAbsolute raw ∨ windowsAbsolute raw)
    (archiveError ("contains absolute path " ++ quote raw))
  let components ← canonicalComponents raw (splitSlash raw)
  rejectIf (limits.maxPathDepth<components.length)
    (archiveError ("contains a path deeper than " ++ toString limits.maxPathDepth ++ " components"))
  rejectIf (joinSlash components = "" ∧ allowRoot=false)
    (archiveError ("link target " ++ quote raw ++ " resolves to the archive root"))
  return joinSlash components

inductive ArchiveEntryKind where
  | directory
  | file
  | hardlink
  | symlink
  deriving DecidableEq, Repr

def ArchiveEntryKind.text : ArchiveEntryKind → String
  | directory => "directory"
  | file => "file"
  | hardlink => "hardlink"
  | symlink => "symlink"

/-- What the parser reports of an entry.  Its types are the parser's own names. -/
structure ReadEntry where
  type : String
  path : String
  size : ℤ
  mode : Option ℤ
  linkpath : Option String
  deriving Repr

structure SafeArchiveEntry where
  name : String
  kind : ArchiveEntryKind
  size : ℕ
  mode : ℕ
  linkpath : Option String
  linkTarget : Option String
  resolvedHardlinkTarget : Option String
  deriving DecidableEq, Repr

def allowedTypes : List (String × ArchiveEntryKind) :=
  [("File",.file),("OldFile",.file),("Directory",.directory),("Link",.hardlink),
    ("SymbolicLink",.symlink)]

def checkedMode (name : String) (mode : ℤ) : Except String ℕ := do
  rejectIf (mode<0 ∨ 0o7777 < mode)
    (archiveError ("entry " ++ quote name ++ " has an invalid permission mode"))
  rejectIf (mode.toNat &&& 0o6000≠0)
    (archiveError ("entry " ++ quote name ++ " requests set-user-ID or set-group-ID permissions"))
  return mode.toNat

def requiredLinkpath (limits : BackupArchiveLimits) (entry : ReadEntry) (name : String) :
    Except String String := do
  let linkpath:=entry.linkpath.getD ""
  rejectIf (linkpath = "") (archiveError ("link " ++ quote name ++ " has no target"))
  rejectIf (limits.maxPathBytes<byteLength linkpath)
    (archiveError ("link target for " ++ quote name ++ " is longer than " ++
      toString limits.maxPathBytes ++ " bytes"))
  rejectIf ('\\' ∈ linkpath.toList)
    (archiveError ("link " ++ quote name ++ " uses an ambiguous backslash target"))
  rejectIf (windowsAbsolute linkpath ∨ (entry.type ≠ "SymbolicLink" ∧ isAbsolute linkpath))
    (archiveError ("link " ++ quote name ++ " targets an absolute path"))
  return linkpath

/-- The link fields of an entry of the given kind. -/
def linkFields (limits : BackupArchiveLimits) (entry : ReadEntry) (name : String) :
    ArchiveEntryKind → Except String (Option String × Option String)
  | .symlink => do
    let linkpath ← requiredLinkpath limits entry name
    return (some linkpath,none)
  | .hardlink => do
    let linkpath ← requiredLinkpath limits entry name
    let linkTarget ← canonicalArchivePath limits linkpath false
    return (some linkpath,some linkTarget)
  | _ => do
    rejectIf (entry.linkpath.getD "" ≠ "")
      (archiveError ("non-link entry " ++ quote name ++ " has a link target"))
    return (none,none)

def entryKind (entry : ReadEntry) : Except String ArchiveEntryKind :=
  match allowedTypes.lookup entry.type with
  | none => .error
      (archiveError ("contains unsupported entry type " ++ entry.type ++ " at " ++ quote entry.path))
  | some kind => .ok kind

def safeEntry (limits : BackupArchiveLimits) (entry : ReadEntry) :
    Except String SafeArchiveEntry := do
  let kind ← entryKind entry
  let name ← canonicalArchivePath limits entry.path true
  rejectIf (name = "" ∧ kind≠.directory)
    (archiveError "uses the archive root for a non-directory entry")
  let size ← checkedSize entry.size ("entry " ++ quote name)
  rejectIf (kind≠.file ∧ size≠0)
    (archiveError (kind.text ++ " " ++ quote name ++ " has unexpected body data"))
  rejectIf (kind=.file ∧ limits.maxFileBytes<size)
    (archiveError ("file " ++ quote name ++ " is larger than " ++ formatBytes limits.maxFileBytes))
  let mode ← checkedMode name (entry.mode.getD (if kind=.directory then 0o755 else 0o644))
  rejectIf (kind≠.directory ∧ endsWith entry.path "/")
    (archiveError ("non-directory entry " ++ quote name ++ " has a directory-style path"))
  let (linkpath,linkTarget) ← linkFields limits entry name kind
  return { name, kind, size, mode, linkpath, linkTarget, resolvedHardlinkTarget := none }

/-- The `Map` from names to entries is the list of its values in the order they were
set; each is under its own name. -/
structure Inspection where
  entries : List SafeArchiveEntry
  expandedBytes : ℕ
  pathTableBytes : ℕ
  deriving DecidableEq, Repr

def hasEntry (entries : List SafeArchiveEntry) (name : String) : Bool :=
  entries.any (·.name=name)

/-- `entriesByCanonicalName.get(key)`: that `Map` is set together with the first one,
and never twice at one key. -/
def entryByKey (nfc : String → String) (entries : List SafeArchiveEntry) (key : String) :
    Option SafeArchiveEntry :=
  entries.find? (unicodeCollisionKey nfc ·.name=key)

def pathBytes (nfc : String → String) (entry : SafeArchiveEntry) : ℕ :=
  byteLength entry.name+byteLength (unicodeCollisionKey nfc entry.name) +
    byteLength (entry.linkpath.getD "")

/-- `collidingEntry !== undefined && collidingEntry.name !== candidate.name` -/
def rejectCollision (colliding : Option SafeArchiveEntry) (name : String) : Except String Unit :=
  match colliding with
  | none => .ok ()
  | some entry => rejectIf (entry.name≠name)
      (archiveError ("contains canonically equivalent paths " ++ quote entry.name ++ " and " ++
        quote name))

/-- The handler of a tar entry in `inspectBackupArchive`. -/
def addEntry (nfc : String → String) (limits : BackupArchiveLimits) (s : Inspection)
    (raw : ReadEntry) : Except String Inspection := do
  let candidate ← safeEntry limits raw
  rejectIf (hasEntry s.entries candidate.name)
    (archiveError ("contains duplicate or aliased path " ++ quote candidate.name))
  rejectCollision (entryByKey nfc s.entries (unicodeCollisionKey nfc candidate.name)) candidate.name
  rejectIf (limits.maxEntries ≤ s.entries.length)
    (archiveError ("contains more than " ++ toLocaleString limits.maxEntries ++ " entries"))
  let expandedBytes ← checkedSum s.expandedBytes candidate.size
  rejectIf (limits.maxExpandedBytes<expandedBytes)
    (archiveError ("expands beyond " ++ formatBytes limits.maxExpandedBytes))
  let pathTableBytes ← checkedSum s.pathTableBytes (pathBytes nfc candidate)
  rejectIf (limits.maxPathTableBytes<pathTableBytes)
    (archiveError ("path metadata exceeds " ++ formatBytes limits.maxPathTableBytes))
  return ⟨s.entries++[candidate],expandedBytes,pathTableBytes⟩

def collectEntries (nfc : String → String) (limits : BackupArchiveLimits) (raws : List ReadEntry) :
    Except String Inspection :=
  raws.foldlM (addEntry nfc limits) ⟨[],0,0⟩

end Qubicl.Cli.BackupArchive
