import Qubicl.Foundation.CodeUnits
import Qubicl.Foundation.Path
import Qubicl.Foundation.Regex
import Qubicl.Foundation.Text
import Qubicl.Foundation.Utf8

/-!
# Skill packages (packages/cli/src/skill-store.ts:404-408, 424-494, packages/core/src/skills.ts:69-95)

The files of a package, in the order in which they are digested, and the bytes of which the digest is taken: each path and
each file is followed by a NUL byte. The digest itself and the comparison of the locale are parameters.
-/

namespace Qubicl.Cli.Skills
open Foundation

structure FileName where
  text : String
  plain : ∀ c ∈ text.toList, c ≠ '/' ∧ c≠Char.ofNat 0
  deriving DecidableEq

/- Along the text. -/
instance (priority := 2000) decidableFileName (text : String) : Decidable (∀ c ∈ text.toList, c ≠ '/' ∧ c≠Char.ofNat 0) :=
  List.decidableBAll _ _

/-- What `lstat` says of a path, and what is there. -/
inductive Node
  | file (bytes : List UInt8) (mode links : ℕ)
  | directory (children : List (FileName × Node))
  | symlink
  | other

structure PackageEntry where
  path : String
  bytes : List UInt8
  mode : ℕ
  deriving DecidableEq

def maxFiles : ℕ := 256
def maxEntries : ℕ := 512
def maxFileBytes : ℕ := 2*1024*1024
def maxTotalBytes : ℕ := 8*1024*1024
def maxPathBytes : ℕ := 240

/- `TextDecoder` with `fatal`. -/
def decodeFatal : ℕ → List UInt8 → Option (List Char)
  | 0, bytes => if bytes.isEmpty then some [] else none
  | _+1, [] => some []
  | fuel+1, byte::rest =>
    (Utf8.validChar (byte::rest)).bind fun c =>
      (decodeFatal fuel ((byte::rest).drop (String.utf8EncodeChar c).length)).map (c :: ·)

def isTextResource (bytes : List UInt8) : Bool :=
  match decodeFatal bytes.length bytes with
  | some text => text.all fun c =>
    !(c.toNat≤8 || c.toNat == 11 || c.toNat == 12 || (14≤c.toNat && c.toNat≤31) || c.toNat == 127)
  | none => false

/- `toString('ascii')` leaves out the highest bit of each byte. -/
def ascii (bytes : List UInt8) (text : String) : Bool := bytes.map (· % 128) == text.toList.map fun c => UInt8.ofNat c.toNat

def allowedBinaryResource (bytes : List UInt8) : Bool :=
  ascii (bytes.take 5) "%PDF-" ||
    bytes.take 8 == [0x89,0x50,0x4e,0x47,0x0d,0x0a,0x1a,0x0a] ||
    bytes.take 3 == [0xff,0xd8,0xff] ||
    (ascii (bytes.take 6) "GIF87a" || ascii (bytes.take 6) "GIF89a") ||
    (ascii (bytes.take 4) "RIFF" && ascii ((bytes.drop 8).take 4) "WEBP")

/- `/(?:^|\/)__pycache__\/[^/]+\.(?:cpython|pypy)-[0-9]+(?:\.opt-[0-9]+)?\.pyc$/` -/
def pythonCache : Regex :=
  .sequence [.maybe (.seq (.star (.char fun _ => true)) (.text "/")),.text "__pycache__/",
    .oneOrMore (.char fun c => c != '/'),.text ".",.choice [.text "cpython",.text "pypy"],.text "-",
    .oneOrMore (.range '0' '9'),.maybe (.seq (.text ".opt-") (.oneOrMore (.range '0' '9'))),.text ".pyc"]

structure Traversal where
  visited : ℕ
  total : ℕ
  entries : List PackageEntry
  pending : List (String × List (FileName × Node))

def gitPath (path : String) : Bool := path == ".git" || path.startsWith ".git/"

def childPath (pre : String) (name : FileName) : String := if pre.isEmpty then name.text else pre ++ "/" ++ name.text

/-- One pass of the inner loop. -/
def visit (ignorePythonCaches : Bool) (pre : String) (t : Traversal) (child : FileName × Node) : Except String Traversal :=
  let visited:=t.visited+1
  let path:=childPath pre child.1
  if maxEntries<visited then .error s!"Skill package exceeds the {maxEntries}-entry traversal limit."
  else if gitPath path then .ok { t with visited := visited }
  else if ".git" ∈ splitSlash path then .error s!"Skill package contains a nested repository at {path}."
  else if maxPathBytes<(Utf8.encode path).length then
    .error s!"Skill resource path exceeds {maxPathBytes} bytes: {path}."
  else
    match child.2 with
    | .symlink => .error s!"Skill package contains unsupported symlink {path}."
    | .directory children => .ok { t with visited := visited, pending := (path,children)::t.pending }
    | .other => .error s!"Skill resource {path} must be an ordinary, non-hard-linked file."
    | .file bytes mode links =>
      let total:=t.total+bytes.length
      if 1<links then .error s!"Skill resource {path} must be an ordinary, non-hard-linked file."
      else if ignorePythonCaches && pythonCache.test path then .ok { t with visited := visited }
      else if maxFileBytes<bytes.length then .error s!"Skill resource {path} exceeds the {maxFileBytes}-byte limit."
      else if !isTextResource bytes && !allowedBinaryResource bytes then
        .error s!"Skill resource {path} has an unsupported binary format."
      else if maxTotalBytes<total then .error s!"Skill package exceeds the {maxTotalBytes}-byte total limit."
      else if maxFiles<t.entries.length+1 then .error s!"Skill package exceeds the {maxFiles}-file limit."
      else .ok { t with visited := visited, total := total, entries := t.entries++[⟨path,bytes,mode % 512⟩] }

section Locale
variable (localeCompare : String → String → Ordering)

/- The outer loop. Every directory but the root is visited before, so that the limit ends it. -/
def walk (ignorePythonCaches : Bool) : ℕ → Traversal → Except String (List PackageEntry)
  | 0, t => .ok t.entries
  | fuel+1, t =>
    match t.pending with
    | [] => .ok t.entries
    | (pre,children)::rest =>
      match (sorted (comparing (fun child => child.1.text) localeCompare) children).foldlM (visit ignorePythonCaches pre)
          { t with pending := rest } with
      | .error error => .error error
      | .ok t => walk ignorePythonCaches fuel t

def enumeratePackage (root : Node) (ignorePythonCaches : Bool) : Except String (List PackageEntry) :=
  match root with
  | .directory children =>
    (walk localeCompare ignorePythonCaches (maxEntries+2) ⟨0,0,[],[("",children)]⟩).map
      (sorted (comparing PackageEntry.path localeCompare))
  | _ => .error "Skill package root must be a regular directory, not a symlink."

end Locale

/-- The bytes of which `digestEntries` takes the digest. -/
def flat (entries : List PackageEntry) : List UInt8 :=
  entries.flatMap fun entry => Utf8.encode entry.path++0::(entry.bytes++[0])

/-- The paths of a package, with the bytes at each. -/
def contents (entries : List PackageEntry) : List (String × List UInt8) := entries.map fun entry => (entry.path,entry.bytes)

end Qubicl.Cli.Skills
