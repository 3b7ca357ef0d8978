import Qubicl.Control.Previews.Manager
import Qubicl.Foundation.PosixPath
import Qubicl.Foundation.WebUrl

/-!
# Links to files (packages/control/src/previews.ts)

A file that is published is scoped to its directory, and its link carries its path below that. The headers of a response are
left out.
-/

namespace Qubicl.Control.Previews
open Foundation

/-- `encodePreviewPath` -/
def encodePreviewPath (path : String) : String := joinSlash ((splitSlash path).map Percent.encodeComponent)

/- A part that is no name throws, as an escape does that is none. -/
def decodePreviewPart (part : String) : Option String := do
  let decoded ← Percent.decodeComponent part
  if decoded = "" ∨ decoded = "." ∨ decoded = ".." ∨ '/' ∈ decoded.toList ∨ '\\' ∈ decoded.toList ∨ '\x00' ∈ decoded.toList then none
  else some decoded

/-- `decodePreviewPath`, unless it throws. -/
def decodePreviewPath (path : String) : Option (List String) :=
  match path.toList with
  | '/' :: rest => ((splitSlash (String.ofList rest)).filter (· ≠ "")).mapM decodePreviewPart
  | _ => none

def within (root path : String) : Bool :=
  let result:=Posix.relative root path
  decide (result = "") || !Posix.leaves result

/-- What a URL has before its path: the parser lets nothing into it that would end it. -/
structure BaseUrl where
  secure : Bool
  credentials : String
  hostname : String
  port : String
  plain : ∀ c ∈ (credentials++hostname++port).toList, 0x20<c.toNat ∧ WebUrl.isSlash c=false ∧ WebUrl.endsPath c=false

def externalPath (id : String) (base : BaseUrl) : String :=
  (if base.secure then "https" else "http") ++ "://" ++ base.credentials++id ++ "--" ++ base.hostname++base.port ++ "/"

structure PreviewBases where
  publicBaseUrl : BaseUrl
  remoteBaseUrl : Option BaseUrl

/-- `root` and `entryPath` of a file's publication. -/
structure FileScope where
  root : String
  entryPath : String
  deriving DecidableEq, Repr

/- The manager, with what its file publications have besides. -/
structure FilePreviews where
  manager : PreviewManager
  scopes : List (String × FileScope)

structure FileLink where
  id : String
  createdAt : ℤ
  expiresAt : ℤ
  url : String
  remoteUrl : Option String

def FileLink.urls (link : FileLink) : List String := link.url::link.remoteUrl.toList

/-- The file that a path names, with the directory it is scoped to. -/
structure SelectedFile where
  namedPath : Posix.CanonicalPath
  root : Posix.CanonicalPath
  relativePath : String

/-- `publishFile`, up to where it changes something; `canonicalPath` is the source's. -/
def selectFile (canonicalPath : String → Bool → Except String Posix.CanonicalPath) (path : String) : Except String SelectedFile := do
  let namedPath ← canonicalPath path false
  let followed ← canonicalPath namedPath.text true
  if followed.text≠namedPath.text then throw "file_preview_symlink"
  let root ← canonicalPath (Posix.dirname namedPath.text) true
  let relativePath:=Posix.relative root.text namedPath.text
  if relativePath = "" ∨ Posix.leaves relativePath ∨ Posix.resolve root.text [relativePath]≠namedPath.text then
    throw "invalid_preview_path"
  pure ⟨namedPath,root,relativePath⟩

namespace FilePreviews
variable (crypto : PreviewCrypto)

/- What is published stays so where `access` throws. -/
def publishSelected (access : Except String PreviewBases) (file : SelectedFile) (expiresInSeconds now later : ℤ)
    (s : FilePreviews) : Except String FileLink × FilePreviews :=
  let pruned:=(s.manager.prune now).pruneFilePublications
  let id:=crypto.randomId pruned.ids
  let token:=crypto.randomToken pruned.drawn
  let entryPath:=encodePreviewPath file.relativePath
  let published : FilePreviews :=
    { manager := s.manager.publishFile crypto expiresInSeconds now later
      scopes := mapSet id ⟨file.root.text,entryPath⟩ s.scopes }
  let link (base : BaseUrl) := externalPath id base++entryPath ++ "?token=" ++ Percent.encodeComponent token
  match access with
  | .error code => (.error code,published)
  | .ok bases =>
    (.ok ⟨id,later,later+expiresInSeconds*1000,link bases.publicBaseUrl,bases.remoteBaseUrl.map link⟩,published)

def publishFile (canonicalPath : String → Bool → Except String Posix.CanonicalPath) (access : Except String PreviewBases)
    (path : String) (expiresInSeconds now later : ℤ) (s : FilePreviews) : Except String FileLink × FilePreviews :=
  if expiresInSeconds<1 ∨ 3600<expiresInSeconds then (.error "invalid_arguments",s)
  else
    match selectFile canonicalPath path with
    | .error code => (.error code,s)
    | .ok file => publishSelected crypto access file expiresInSeconds now later s

end FilePreviews

def maxFilePreviewBytes : ℕ := 20000000

/-- What `readFile` of the source returns. -/
structure FileRead where
  data : List UInt8
  isFile : Bool
  size : ℕ
  resolvedPath : String

inductive FileResponse
  | failed (status : ℕ) (code message : String)
  | sent (filename : String) (body : Option (List UInt8))
  deriving DecidableEq, Repr

structure ServedFile where
  readPath : Option String
  response : FileResponse
  deriving DecidableEq, Repr

structure FileRequest where
  method : String
  surface : Option String
  cookie : Option String
  deriving DecidableEq, Repr

section Serving
variable (readFile : String → Option FileRead) (staticFilePreview : String → List UInt8 → List UInt8)

/-- `serveFile` from the file's data on. -/
def sendFile (method root filename : String) (read : Option FileRead) : FileResponse :=
  match read with
  | none => .failed 404 "file_preview_not_found" "The isolated file preview file was not found."
  | some read =>
    if !read.isFile then
      .failed 404 "file_preview_not_found" "The isolated file preview path is not a regular file."
    else if !within root read.resolvedPath then
      .failed 403 "file_preview_scope" "The isolated file preview cannot follow a link outside its selected directory."
    else if read.size > maxFilePreviewBytes ∨ read.data.length > maxFilePreviewBytes then
      .failed 413 "file_preview_too_large" "Isolated preview files are limited to 20000000 bytes."
    else
      let body:=staticFilePreview filename read.data
      if body.length > maxFilePreviewBytes then
        .failed 413 "file_preview_too_large" "The static preview output exceeds 20000000 bytes."
      else .sent filename (if method = "HEAD" then none else some body)

def serveFile (method root encodedPath : String) : ServedFile :=
  if method ≠ "GET" ∧ method ≠ "HEAD" then
    ⟨none,.failed 405 "method_not_allowed" "Isolated file previews support GET and HEAD only."⟩
  else
    match decodePreviewPath encodedPath with
    -- `handle` answers for what is thrown
    | none => ⟨none,.failed 404 "file_preview_unavailable" "The isolated file preview is unavailable."⟩
    | some parts =>
      if parts=[] then ⟨none,.failed 404 "file_preview_not_found" "The isolated file preview path is incomplete."⟩
      else
        let requestedPath:=Posix.resolve root parts
        if !within root requestedPath then
          ⟨none,.failed 403 "file_preview_scope" "The isolated file preview cannot leave its selected directory."⟩
        else
          ⟨some requestedPath,sendFile staticFilePreview method root (parts.getLast?.getD "file") (readFile requestedPath)⟩

end Serving

def previewsPath : List Char := "/_qubicl/previews/".toList

def isIdChar (c : Char) : Bool := c.isAlphanum || c == '_' || c == '-'

/- What `.` of a pattern does not match. -/
def isLineEnd (c : Char) : Bool := c == '\n' || c == '\r' || c == '\u2028' || c == '\u2029'

/-- `/^\/_qubicl\/previews\/([A-Za-z0-9_-]{16})(\/.*)?$/u` -/
def matchPreview (pathname : List Char) : Option (String × Option String) :=
  if previewsPath.isPrefixOf pathname then
    let id:=(pathname.drop previewsPath.length).take 16
    let rest:=(pathname.drop previewsPath.length).drop 16
    if id.length=16 ∧ id.all isIdChar=true then
      match rest with
      | [] => some (String.ofList id,none)
      | c::more =>
        if c = '/' ∧ more.all (!isLineEnd ·)=true then some (String.ofList id,some (String.ofList (c::more))) else none
    else none
  else none

/-- The answer to a request; what a port answers is left out. -/
inductive PreviewAnswer
  | unmatched
  | refused
  | proxied
  | file (served : ServedFile)
  deriving DecidableEq, Repr

namespace FilePreviews
variable (crypto : PreviewCrypto) (readFile : String → Option FileRead) (staticFilePreview : String → List UInt8 → List UInt8)

def handle (request : FileRequest) (url : WebUrl.Reference) (now later : ℤ) (s : FilePreviews) : PreviewAnswer × FilePreviews :=
  match matchPreview url.pathname with
  | none => (.unmatched,s)
  | some (id,path) =>
    let parameters:=WebUrl.searchParams url.search
    let presented : PreviewRequest := ⟨request.surface,request.cookie,parameters.lookup "token",parameters.lookup "ticket"⟩
    let (scope,manager) := s.manager.handle crypto id presented now later
    let s' : FilePreviews := { s with manager := manager }
    match scope, manager.publications.lookup id, s.scopes.lookup id with
    | none, _, _ => (.refused,s')
    | some _, some (.file _), some file =>
      (.file (serveFile readFile staticFilePreview request.method file.root (path.getD "/")),s')
    | some _, _, _ => (.proxied,s')

/-- The path at which the gateway passes on a request to the origin of a publication. -/
def gatewayTarget (id : String) (url : WebUrl.Reference) : List Char :=
  previewsPath++id.toList++url.pathname++url.search

/-- A link is opened: its path is read by the client, by the gateway and by the control server. -/
def openLink (id : String) (request : FileRequest) (url : String) (now later : ℤ) (s : FilePreviews) :
    Option (PreviewAnswer × FilePreviews) := do
  let link ← WebUrl.parseUrl url.toList
  let forwarded ← WebUrl.parseTarget (link.pathname++link.search)
  let reached ← WebUrl.parseTarget (gatewayTarget id forwarded)
  some (s.handle crypto readFile staticFilePreview request reached now later)

end FilePreviews

inductive FileAction
  | publishFile (canonicalPath : String → Bool → Except String Posix.CanonicalPath) (access : Except String PreviewBases)
      (path : String) (expiresInSeconds now later : ℤ)
  | other (action : PreviewAction)

/-- Files are published with their scope only. -/
def FilePreviews.step (crypto : PreviewCrypto) (s : FilePreviews) : FileAction → Option FilePreviews
  | .publishFile canonicalPath access path expiresInSeconds now later =>
    some (s.publishFile crypto canonicalPath access path expiresInSeconds now later).2
  | .other (.publishFile ..) => none
  | .other action => some { s with manager := s.manager.step crypto action }

def filePreviewSystem (crypto : PreviewCrypto) : TransitionSystem FilePreviews FileAction where
  initial s := s=⟨PreviewManager.create,[]⟩
  step s action := s.step crypto action

end Qubicl.Control.Previews
