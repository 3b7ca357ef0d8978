import Qubicl.Core.Upgrade
import Qubicl.Foundation.Durable

/-!
# Durable state (packages/cli/src/state.ts:35-119, 241-265, 474-481)

What the CLI keeps on disk for a computer, and the operations that change it one
durable step at a time. A file holds the document it was written from. What no
operation here looks at, such as the files of a user, has the type `F`.
-/

namespace Qubicl.Cli
open Foundation Core Durable

/- What `lstat` finds at a path where a directory, or a regular file, is
expected: `real` is one of the expected kind, with its owner and mode. -/
inductive Place (α : Type)
  | absent
  | real (uid mode : ℕ) (content : α)
  | link (target : Option α)
  | foreign (directory : Bool)
  deriving DecidableEq

/- `home` as the source calls it; the home of the user is `home/qubicl`. -/
structure HomeDirectory (F : Type) where
  qubicl : Place F
  rest : F
  deriving DecidableEq

structure ComputerDirectory (F : Type) where
  metadata : Place MetadataDocument
  home : Place (HomeDirectory F)
  restoreReady : Place Unit
  rest : F
  deriving DecidableEq

variable {F : Type} [EmptyCollection F] {α β : Type}

instance : EmptyCollection (HomeDirectory F) := ⟨⟨.absent,∅⟩⟩
instance : EmptyCollection (ComputerDirectory F) := ⟨⟨.absent,.absent,.absent,∅⟩⟩

def join (parent child : String) : String := parent ++ "/" ++ child

structure StatePaths where
  root : String

namespace StatePaths
variable (paths : StatePaths)

def config : String := join paths.root "config.yaml"
def secrets : String := join paths.root "secrets.yaml"
def computers : String := join paths.root "computers"
def trash : String := join paths.root "trash"
def runtime : String := join paths.root "runtime"
def journal : String := join paths.root "transaction.yaml"
def backups : String := join paths.root "backups"

end StatePaths

structure LoadedState where
  paths : StatePaths
  config : QubiclConfig
  secrets : QubiclSecrets

namespace Place

def isReal : Place α → Bool
  | .real .. => true
  | _ => false

def found : Place α → Option Bool
  | .absent => some false
  | .real .. => some true
  | _ => none

def chmod (mode : ℕ) : Place α → Place α
  | .real uid _ content => .real uid mode content
  | place => place

/- What a path leads to, through a symbolic link if there is one. -/
def content? : Place α → Option α
  | .real _ _ content => some content
  | .link target => target
  | _ => none

end Place

def existsAs (kind path : String) : Place α → Except String Bool
  | .absent => .ok false
  | .real .. => .ok true
  | _ => .error s!"{path} exists but is not a {kind}."

def realDirectoryExists (path : String) : Place α → Except String Bool :=
  existsAs "real directory" path

def realFileExists (path : String) : Place α → Except String Bool := existsAs "regular file" path

variable {path : String} {m : Durable α String β}

theorem realDirectoryExists_iff {place : Place α} : realDirectoryExists path place=.ok true ↔ place.isReal=true := by
  cases place <;> simp [realDirectoryExists,existsAs,Place.isReal]

theorem realDirectoryExists_false {place : Place α} : realDirectoryExists path place=.ok false ↔ place=.absent := by
  cases place <;> simp [realDirectoryExists,existsAs]

/-- Run a program on what is in a directory, or in a file. -/
def inside (path : String) (m : Durable α String β) : Durable (Place α) String β
  | .absent | .link none => ⟨[],.error s!"ENOENT: no such file or directory, {path}"⟩
  | .foreign _ => ⟨[],.error s!"ENOTDIR: not a directory, {path}"⟩
  | .real uid mode content => ⟨(m content).trace.map (.real uid mode),(m content).result⟩
  | .link (some content) => ⟨(m content).trace.map fun t => .link (some t),(m content).result⟩

/- `mkdir` with `recursive`, and the check and the `chmod` after it. -/
def mkdir [EmptyCollection α] (uid : ℕ) (path : String) : Durable (Place α) String Unit
  | .absent => ⟨[.real uid 0o700 ∅],.ok ()⟩
  | .real .. | .link (some _) => ⟨[],.ok ()⟩
  | _ => ⟨[],.error s!"EEXIST: file already exists, mkdir {path}"⟩

def assertOwnDirectory (uid : ℕ) (path : String) : Place α → Except String Unit
  | .absent => .error s!"ENOENT: no such file or directory, lstat {path}"
  | .real owner _ _ =>
    if owner=uid then .ok () else .error s!"{path} is owned by UID {owner}, not current UID {uid}."
  | _ => .error s!"{path} exists but is not a real directory."

def ensureSecureDirectory [EmptyCollection α] (uid : ℕ) (path : String) :
    Durable (Place α) String Unit := do
  mkdir uid path
  reads (assertOwnDirectory uid path)
  write (Place.chmod 0o700)

/- The renaming of the temporary file is the durable step; the temporary file has
the mode already. -/
def atomicWrite (uid : ℕ) (path : String) (contents : α) (mode : ℕ) : Durable (Place α) String Unit
  | .foreign true => ⟨[],.error s!"EISDIR: illegal operation on a directory, rename {path}"⟩
  | _ => ⟨[.real uid mode contents],.ok ()⟩

def durableRemove (path : String) : Durable (Place α) String Unit
  | .absent => ⟨[],.ok ()⟩
  | .foreign true => ⟨[],.error s!"ERR_FS_EISDIR: Path is a directory: rm returned EISDIR {path}"⟩
  | _ => ⟨[.absent],.ok ()⟩

def secured [EmptyCollection α] (uid : ℕ) : Place α → Option α
  | .absent => some ∅
  | .real owner _ content => if owner=uid then some content else none
  | _ => none

def securedDirectory [EmptyCollection α] (uid : ℕ) (place : Place α) : Option (Place α) :=
  (secured uid place).map (.real uid 0o700)

theorem ensureSecureDirectory_headsFor [EmptyCollection α] (uid : ℕ) (path : String) :
    HeadsFor (ensureSecureDirectory uid path : Durable (Place α) String Unit) (securedDirectory uid) := by
  intro place
  unfold ensureSecureDirectory
  rw [wp_bind]
  have hrea : ∀ (owner mode : ℕ) (content : α),
      wp (reads (assertOwnDirectory uid path) >>= fun _ => write (Place.chmod 0o700))
        ⟨fun t => securedDirectory uid t=securedDirectory uid (.real owner mode content),
          fun _ t => securedDirectory uid (.real owner mode content)=some t,
          fun _ _ => securedDirectory uid (.real owner mode content)=none⟩
        (.real owner mode content) := by
    intro owner mode content
    rw [wp_bind,wp_reads,assertOwnDirectory]
    by_cases h : owner=uid
    · simp [h,securedDirectory,secured,Place.chmod]
    · simp [h,securedDirectory,secured]
  cases place with
  | absent =>
    have hfre : securedDirectory uid (.absent : Place α) =
        securedDirectory uid (.real uid 0o700 ∅) := by
      simp [securedDirectory,secured]
    rw [hfre]
    refine wp_of_ok rfl ?_ (hrea uid 0o700 ∅)
    intro t ht
    rw [List.mem_singleton.1 ht]
  | real owner mode content => exact wp_of_ok rfl (by simp) (hrea owner mode content)
  | link target =>
    cases target with
    | none => exact wp_of_error rfl (by simp) rfl
    | some content =>
      refine wp_of_ok rfl (by simp) ?_
      simp [wp_reads,assertOwnDirectory,securedDirectory,secured]
  | foreign directory => exact wp_of_error rfl (by simp) rfl

def written (uid mode : ℕ) (contents : α) : Place α → Option (Place α)
  | .foreign true => none
  | _ => some (.real uid mode contents)

theorem atomicWrite_headsFor (uid : ℕ) (path : String) (contents : α) (mode : ℕ) :
    HeadsFor (atomicWrite uid path contents mode) (written uid mode contents) := by
  apply headsFor_of_step
  · intro place t h
    unfold written at h
    split at h
    · simp at h
    · rename_i hpla
      cases h
      exact ⟨rfl,.inl (by simp [atomicWrite])⟩
  · intro place h
    unfold written at h
    split at h
    · exact ⟨_,rfl⟩
    · simp at h

def removedPlace : Place α → Option (Place α)
  | .foreign true => none
  | _ => some .absent

theorem durableRemove_headsFor (path : String) :
    HeadsFor (durableRemove path : Durable (Place α) String Unit) removedPlace := by
  apply headsFor_of_step
  · intro place t h
    unfold removedPlace at h
    split at h
    · simp at h
    · rename_i hpla
      cases h
      refine ⟨rfl,?_⟩
      cases place with
      | absent => exact .inr ⟨rfl,rfl⟩
      | real uid mode content => exact .inl rfl
      | link target => exact .inl rfl
      | foreign directory =>
        left
        cases directory
        · rfl
        · exact absurd rfl hpla
  · intro place h
    unfold removedPlace at h
    split at h
    · exact ⟨_,rfl⟩
    · simp at h

def insideTarget (target : α → Option α) : Place α → Option (Place α)
  | .real uid mode content => (target content).map (.real uid mode)
  | .link (some content) => (target content).map fun t => .link (some t)
  | _ => none

theorem wp_inside {Q : Condition (Place α) String β} {uid mode : ℕ} {content : α} :
    wp (inside path m) Q (.real uid mode content) ↔
      wp m ⟨fun t => Q.cut (.real uid mode t),fun a t => Q.returns a (.real uid mode t),
        fun e t => Q.throws e (.real uid mode t)⟩ content := wp_lift rfl

theorem inside_headsFor {m : Durable α String Unit} {target : α → Option α} (path : String)
    (h : HeadsFor m target) : HeadsFor (inside path m) (insideTarget target) := by
  intro place
  -- the same at a real place and at a link, whose constructor is `g`
  have hlif : ∀ (g : α → Place α) (content : α),
      (∀ t, insideTarget target (g t)=(target t).map g) →
      inside path m (g content)=⟨(m content).trace.map g,(m content).result⟩ →
      wp (inside path m) ⟨fun t => insideTarget target t=insideTarget target (g content),
        fun _ t => insideTarget target (g content)=some t,
        fun _ _ => insideTarget target (g content)=none⟩ (g content) := by
    intro g content htar hins
    rw [wp_lift hins]
    apply (h content).mono
    · intro t ht
      show insideTarget target (g t)=insideTarget target (g content)
      rw [htar,htar,ht]
    · intro _ t ht
      show insideTarget target (g content)=some (g t)
      rw [htar,ht]
      rfl
    · intro _ _ hnon
      show insideTarget target (g content)=none
      rw [htar,hnon]
      rfl
  cases place with
  | absent => exact wp_of_error rfl (by simp) rfl
  | real uid mode content => exact hlif (.real uid mode) content (fun _ => rfl) rfl
  | link target =>
    cases target with
    | none => exact wp_of_error rfl (by simp) rfl
    | some content => exact hlif (fun t => .link (some t)) content (fun _ => rfl) rfl
  | foreign directory => exact wp_of_error rfl (by simp) rfl

theorem keeps_secured_inside [EmptyCollection α] (uid : ℕ) :
    Keeps (fun place => securedDirectory uid place=some place) (inside path m) := by
  intro place h
  obtain ⟨content,-,rfl⟩ := Option.map_eq_some_iff.1 h
  rw [wp_inside]
  have hrea : ∀ t : α, securedDirectory uid (.real uid 0o700 t)=some (.real uid 0o700 t) := by
    intro t
    simp [securedDirectory,secured]
  exact wp_of_forall hrea (fun _ t => hrea t) (fun _ t => hrea t)

def HomeDirectory.qubiclLens : Lens (HomeDirectory F) (Place F) where
  get h := h.qubicl
  set place h := { h with qubicl := place }
  get_set _ _ := rfl
  set_get _ := rfl
  set_set _ _ _ := rfl

namespace ComputerDirectory

def metadataLens : Lens (ComputerDirectory F) (Place MetadataDocument) where
  get c := c.metadata
  set place c := { c with metadata := place }
  get_set _ _ := rfl
  set_get _ := rfl
  set_set _ _ _ := rfl

def homeLens : Lens (ComputerDirectory F) (Place (HomeDirectory F)) where
  get c := c.home
  set place c := { c with home := place }
  get_set _ _ := rfl
  set_get _ := rfl
  set_set _ _ _ := rfl

def restoreReadyLens : Lens (ComputerDirectory F) (Place Unit) where
  get c := c.restoreReady
  set place c := { c with restoreReady := place }
  get_set _ _ := rfl
  set_get _ := rfl
  set_set _ _ _ := rfl

end ComputerDirectory

def saveMetadataInDirectory (uid : ℕ) (directory : String) (metadata : ComputerMetadata) :
    Durable (Place (ComputerDirectory F)) String Unit := do
  ensureSecureDirectory uid directory
  inside directory do
    zoom ComputerDirectory.homeLens do
      ensureSecureDirectory uid (join directory "home")
      inside (join directory "home") (zoom HomeDirectory.qubiclLens
        (ensureSecureDirectory uid (join (join directory "home") "qubicl")))
    zoom ComputerDirectory.metadataLens
      (atomicWrite uid (join directory "metadata.yaml") (.current metadata) 0o600)

def savedHome (uid : ℕ) (home : Place (HomeDirectory F)) : Option (Place (HomeDirectory F)) :=
  (securedDirectory uid home).bind <| insideTarget fun h =>
    (securedDirectory uid h.qubicl).map fun qubicl => { h with qubicl }

def savedContent (uid : ℕ) (metadata : ComputerMetadata) (c : ComputerDirectory F) :
    Option (ComputerDirectory F) :=
  (savedHome uid c.home).bind fun home =>
    (written uid 0o600 (.current metadata) c.metadata).map fun metadata => { c with home, metadata }

def savedDirectory (uid : ℕ) (metadata : ComputerMetadata) (place : Place (ComputerDirectory F)) :
    Option (Place (ComputerDirectory F)) :=
  (securedDirectory uid place).bind (insideTarget (savedContent uid metadata))

theorem savedHome_headsFor (uid : ℕ) (home qubicl : String) :
    HeadsFor (ensureSecureDirectory uid home >>= fun _ => inside home
      (zoom HomeDirectory.qubiclLens (ensureSecureDirectory uid qubicl)))
      (savedHome uid : Place (HomeDirectory F) → _) :=
  (ensureSecureDirectory_headsFor uid home).seq
    (inside_headsFor home ((ensureSecureDirectory_headsFor uid qubicl).zoom HomeDirectory.qubiclLens))
    (keeps_secured_inside uid)

theorem saveMetadataInDirectory_headsFor (uid : ℕ) (directory : String) (metadata : ComputerMetadata) :
    HeadsFor (saveMetadataInDirectory uid directory metadata : Durable (Place (ComputerDirectory F)) _ _)
      (savedDirectory uid metadata) := by
  have hhom:=(savedHome_headsFor (F := F) uid (join directory "home")
    (join (join directory "home") "qubicl")).zoom ComputerDirectory.homeLens
  have hmet:=(atomicWrite_headsFor uid (join directory "metadata.yaml")
    (MetadataDocument.current metadata) 0o600).zoom (ComputerDirectory.metadataLens (F := F))
  -- the metadata file is not in `home`
  have hseq:=hhom.seq hmet (by
    apply keeps_zoom_of_frame
    intro c place hc
    obtain ⟨home,hsav,heq⟩ := Option.map_eq_some_iff.1 hc
    have : home=c.home := congrArg ComputerDirectory.home heq
    exact Option.map_eq_some_iff.2 ⟨home,hsav,by rw [this]; rfl⟩)
  have hcon:=hseq.congr (g := savedContent uid metadata) (by
    intro c
    cases h : savedHome uid c.home <;>
      simp [savedContent,ComputerDirectory.homeLens,ComputerDirectory.metadataLens,h])
  exact (ensureSecureDirectory_headsFor uid directory).seq (inside_headsFor directory hcon)
    (keeps_secured_inside uid)

inductive ConfigDocument
  | current (config : QubiclConfig)
  | legacy (config : LegacyQubiclConfig)
  deriving DecidableEq, Repr

structure StateFiles where
  config : Place ConfigDocument
  secrets : Place QubiclSecrets

namespace StateFiles

def configLens : Lens StateFiles (Place ConfigDocument) where
  get files := files.config
  set place files := { files with config := place }
  get_set _ _ := rfl
  set_get _ := rfl
  set_set _ _ _ := rfl

def secretsLens : Lens StateFiles (Place QubiclSecrets) where
  get files := files.secrets
  set place files := { files with secrets := place }
  get_set _ _ := rfl
  set_get _ := rfl
  set_set _ _ _ := rfl

end StateFiles

variable (z : Formats)

def assertGatewayExposureTlsSecretMatches (exposure : Option GatewayExposureConfig)
    (secret : Option GatewayExposureTlsSecret) : Except String Unit :=
  if gatewayExposureTlsSecretMatches z exposure secret then .ok ()
  else .error
    "Gateway exposure TLS secret material does not match the configured immutable digests."

def saveState (uid : ℕ) (state : LoadedState) : Durable StateFiles String Unit := do
  ofExcept (assertStateComputerIdsMatch (state.config.computers.map (·.id)) state.secrets.computers.keys)
  ofExcept (assertGatewayExposureTlsSecretMatches z state.config.gateway.exposure
    (state.secrets.gateway.map (·.tls)))
  zoom StateFiles.configLens (atomicWrite uid state.paths.config (.current state.config) 0o600)
  zoom StateFiles.secretsLens do
    atomicWrite uid state.paths.secrets state.secrets 0o600
    write (Place.chmod 0o600)

end Qubicl.Cli
