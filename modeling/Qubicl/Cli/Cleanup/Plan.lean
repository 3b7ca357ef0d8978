import Qubicl.Foundation.JsonText
import Qubicl.Foundation.Number
import Qubicl.Foundation.Regex
import Qubicl.Foundation.Schema

/-!
# What a cleanup may remove (packages/cli/src/cleanup-plan.ts:1-310, 394-463)

A plan is made of an inventory. It lists what belongs to this installation beyond doubt and is not in use, and why everything
else stays.
-/

namespace Qubicl.Cli.Cleanup
open Foundation

inductive CleanupItemKind
  | container | network | volume | image | cacheRecord | evidenceRecord
deriving DecidableEq

def CleanupItemKind.text : CleanupItemKind → String
  | .container => "container"
  | .network => "network"
  | .volume => "volume"
  | .image => "image"
  | .cacheRecord => "cache-record"
  | .evidenceRecord => "evidence-record"

def KIND_ORDER : CleanupItemKind → ℕ
  | .container => 0
  | .network => 1
  | .volume => 2
  | .image => 3
  | .cacheRecord => 4
  | .evidenceRecord => 5

structure CleanupSelection where
  orphans : Bool
  images : Bool
  records : Bool
deriving DecidableEq

structure CleanupAttachment where
  containerId : String
  running : Bool
deriving DecidableEq

structure NamedDockerResource where
  id : String
  name : String
  labels : Record String
deriving DecidableEq

structure CleanupContainer extends NamedDockerResource where
  status : String
deriving DecidableEq

structure CleanupNetwork extends NamedDockerResource where
  attachedContainers : List CleanupAttachment
deriving DecidableEq

structure CleanupVolume extends NamedDockerResource where
  attachedContainers : List CleanupAttachment
  durableHome : Bool
deriving DecidableEq

structure CleanupImage extends NamedDockerResource where
  references : List String
  referencedByContainers : List CleanupAttachment
deriving DecidableEq

structure CleanupRecord where
  evidence : Bool
  id : String
  name : String
  «namespace» : String
  schemaVersion : ℚ
  obsolete : Bool
  referenced : Bool
deriving DecidableEq

inductive CleanupInventoryItem
  | container (item : CleanupContainer)
  | network (item : CleanupNetwork)
  | volume (item : CleanupVolume)
  | image (item : CleanupImage)
  | record (item : CleanupRecord)
deriving DecidableEq

namespace CleanupInventoryItem

def kind : CleanupInventoryItem → CleanupItemKind
  | .container _ => .container
  | .network _ => .network
  | .volume _ => .volume
  | .image _ => .image
  | .record item => if item.evidence then .evidenceRecord else .cacheRecord

def id : CleanupInventoryItem → String
  | .container item => item.id
  | .network item => item.id
  | .volume item => item.id
  | .image item => item.id
  | .record item => item.id

def name : CleanupInventoryItem → String
  | .container item => item.name
  | .network item => item.name
  | .volume item => item.name
  | .image item => item.name
  | .record item => item.name

end CleanupInventoryItem

structure CleanupSnapshot where
  installationId : String
  projectName : String
  expectedContainers : List String
  expectedNetworks : List String
  expectedVolumes : List String
  protectedImageReferences : List String
  retainedManagedImageReferences : List String
  items : List CleanupInventoryItem

inductive CleanupPreservationReason
  | notSelected | ownershipUnverified | currentManagedRuntime | runningResource | attachedResource | durableHome
  | mutableIdentity | sharedGlobalImage | currentOrRetainedImage | containerReferencedImage | notObsolete | recordReferenced
deriving DecidableEq

def CleanupPreservationReason.text : CleanupPreservationReason → String
  | .notSelected => "not-selected"
  | .ownershipUnverified => "ownership-unverified"
  | .currentManagedRuntime => "current-managed-runtime"
  | .runningResource => "running-resource"
  | .attachedResource => "attached-resource"
  | .durableHome => "durable-home"
  | .mutableIdentity => "mutable-identity"
  | .sharedGlobalImage => "shared-global-image"
  | .currentOrRetainedImage => "current-or-retained-image"
  | .containerReferencedImage => "container-referenced-image"
  | .notObsolete => "not-obsolete"
  | .recordReferenced => "record-referenced"

structure CleanupCandidate where
  kind : CleanupItemKind
  id : String
  name : String
  validationDigest : String
deriving DecidableEq

structure PreservedCleanupItem where
  kind : CleanupItemKind
  id : String
  name : String
  reason : CleanupPreservationReason
  detail : String
deriving DecidableEq

structure CleanupPlan where
  schemaVersion : ℕ
  reviewDigest : String
  selection : CleanupSelection
  candidates : List CleanupCandidate
  preserved : List PreservedCleanupItem
deriving DecidableEq

def compareAttachments : CleanupAttachment → CleanupAttachment → Ordering :=
  compareLex (comparing CleanupAttachment.containerId compareText)
    (comparing (fun attachment => if attachment.running then 1 else 0) (compare : ℕ → ℕ → Ordering))

def compareKeyed {α : Type} (kind : α → CleanupItemKind) (name id : α → String) : α → α → Ordering :=
  compareLex (comparing (fun item => KIND_ORDER (kind item)) (compare : ℕ → ℕ → Ordering))
    (compareLex (comparing name compareText) (comparing id compareText))

def compareInventoryItems : CleanupInventoryItem → CleanupInventoryItem → Ordering :=
  compareKeyed CleanupInventoryItem.kind CleanupInventoryItem.name CleanupInventoryItem.id

def compareCandidates : CleanupCandidate → CleanupCandidate → Ordering :=
  compareKeyed CleanupCandidate.kind CleanupCandidate.name CleanupCandidate.id

def comparePreserved : PreservedCleanupItem → PreservedCleanupItem → Ordering :=
  compareKeyed PreservedCleanupItem.kind PreservedCleanupItem.name PreservedCleanupItem.id

/-- `JSON.stringify` of a number; only the version 1 is ever written. -/
def numberText (value : ℚ) : List Char := if 0≤value then Number.toText value else '-' :: Number.toText (-value)

mutual

def stableJson : Json → List Char
  | .null => ['n','u','l','l']
  | .boolean true => ['t','r','u','e']
  | .boolean false => ['f','a','l','s','e']
  | .number value => numberText value
  | .string text => Json.quoted text
  | .array items => '[' :: List.intercalate [','] (stableItems items)++[']']
  | .object fields =>
    '{' :: List.intercalate [',']
      ((sorted (comparing Prod.fst compareText) (stableFields fields)).map fun field =>
        Json.quoted field.1 ++ ':' :: field.2)++['}']

def stableItems : List Json → List (List Char)
  | [] => []
  | item::items => stableJson item::stableItems items

def stableFields : List (String × Json) → List (String × List Char)
  | [] => []
  | (key,value)::fields => (key,stableJson value)::stableFields fields

end

def digest (sha256 : List Char → String) (value : Json) : String := sha256 (stableJson value)

def sortedRecord (value : Record String) : List (String × String) := sorted (comparing Prod.fst compareText) value.entries

def labelsJson (labels : Record String) : Json := .object ((sortedRecord labels).map fun label => (label.1,.string label.2))

def attachmentsJson (attachments : List CleanupAttachment) : Json :=
  .array ((sorted compareAttachments attachments).map fun attachment =>
    .object [("containerId",.string attachment.containerId),("running",.boolean attachment.running)])

def cleanupEvidence : CleanupInventoryItem → Json
  | .container item =>
    .object [("kind",.string "container"),("id",.string item.id),("name",.string item.name),
      ("labels",labelsJson item.labels),("status",.string item.status)]
  | .network item =>
    .object [("kind",.string "network"),("id",.string item.id),("name",.string item.name),
      ("labels",labelsJson item.labels),("attachedContainers",attachmentsJson item.attachedContainers)]
  | .volume item =>
    .object [("kind",.string "volume"),("id",.string item.id),("name",.string item.name),
      ("labels",labelsJson item.labels),("attachedContainers",attachmentsJson item.attachedContainers),
      ("durableHome",.boolean item.durableHome)]
  | .image item =>
    .object [("kind",.string "image"),("id",.string item.id),("name",.string item.name),
      ("labels",labelsJson item.labels),("references",.array ((sorted compareText item.references).map .string)),
      ("referencedByContainers",attachmentsJson item.referencedByContainers)]
  | .record item =>
    .object [("kind",.string (CleanupInventoryItem.record item).kind.text),("id",.string item.id),
      ("name",.string item.name),("namespace",.string item.namespace),("schemaVersion",.number item.schemaVersion),
      ("obsolete",.boolean item.obsolete),("referenced",.boolean item.referenced)]

section
open Regex

def hexDigits : Regex := choice [range '0' '9',range 'a' 'f',range 'A' 'F']

/-- `/^[0-9a-f]{8}-[0-9a-f]{4}-[1-8][0-9a-f]{3}-[89ab][0-9a-f]{3}-[0-9a-f]{12}$/i` -/
def uuidPattern : Regex :=
  sequence [times 8 hexDigits,text "-",times 4 hexDigits,text "-",range '1' '8',times 3 hexDigits,text "-",
    oneOf "89abAB",times 3 hexDigits,text "-",times 12 hexDigits]

def lowerHex : Regex := choice [range 'a' 'f',range '0' '9']

def imageId : String → Bool := (seq (text "sha256:") (times 64 lowerHex)).test
def manifestDigest : String → Bool := (times 64 lowerHex).test
def protocolVersion : String → Bool := (oneOrMore (range '0' '9')).test

end

def uuid (value : Option String) : Bool := value.any uuidPattern.test

def startsWith (text start : String) : Bool := start.toList.isPrefixOf text.toList

def endsWith (text ending : String) : Bool := ending.toList.isSuffixOf text.toList

def verifiedContainerOwnership (installationId : String) (labels : Record String) : Bool :=
  if labels.get "dev.qubicl.installation" ≠ some installationId then false
  else
    let role:=labels.get "dev.qubicl.role"
    if role=some "gateway" then true
    else if role=some "computer" then uuid (labels.get "dev.qubicl.id")
    else if role.getD "" ∈ ["computer-executor","computer-egress","computer-web","computer-session","computer-ssh"] then
      uuid (labels.get "dev.qubicl.computer-id")
    else false

def verifiedComposeOwnership (projectName : String) (item : NamedDockerResource) (kind : String) : Bool :=
  if item.labels.get "com.docker.compose.project" ≠ some projectName then false
  else if item.labels.get ("com.docker.compose." ++ kind)=none then false
  else if !(item.name=projectName || startsWith item.name (projectName ++ "-") || startsWith item.name (projectName ++ "_")) then
    false
  else if kind = "volume" && !endsWith item.name "-x11" then false
  else true

def verifiedImageOwnership (item : CleanupImage) : Bool :=
  if !imageId item.id then false
  else if item.labels.get "org.opencontainers.image.source" ≠ some "https://github.com/EldanRing/qubicl" then false
  else if item.labels.get "org.opencontainers.image.licenses" ≠ some "Apache-2.0" then false
  else
    let title:=item.labels.get "org.opencontainers.image.title"
    if title=some "Qubicl gateway" then
      protocolVersion ((item.labels.get "dev.qubicl.gateway-protocol-version").getD "")
    else if title≠some "Qubicl computer" ∨ item.labels.get "dev.qubicl.contract-version" ≠ some "1" then false
    else
      (item.labels.get "dev.qubicl.preset").getD "" ≠ "" && (item.labels.get "dev.qubicl.compatibility").getD "" ≠ "" &&
        manifestDigest ((item.labels.get "dev.qubicl.manifest-sha256").getD "")

def removableContainerStatus (status : String) : Bool := status = "exited" || status = "created" || status = "dead"

inductive CleanupDecision
  | candidate (candidate : CleanupCandidate)
  | preserved (reason : CleanupPreservationReason) (detail : String)
deriving DecidableEq

section
variable (sha256 : List Char → String) (snapshot : CleanupSnapshot)

def candidate (item : CleanupInventoryItem) : CleanupDecision :=
  .candidate
    { kind := item.kind, id := item.id, name := item.name, validationDigest := digest sha256 (cleanupEvidence item) }

def containerDecision (item : CleanupContainer) : CleanupDecision :=
  if !verifiedContainerOwnership snapshot.installationId item.labels then
    .preserved .ownershipUnverified "Container does not have a complete Qubicl installation/role identity."
  else if item.name ∈ snapshot.expectedContainers then
    .preserved .currentManagedRuntime "Container belongs to the current managed runtime."
  else if !removableContainerStatus item.status then
    .preserved .runningResource ("Container status " ++ item.status ++ " is not safe for orphan removal.")
  else candidate sha256 (.container item)

def networkDecision (item : CleanupNetwork) : CleanupDecision :=
  if !verifiedComposeOwnership snapshot.projectName item.toNamedDockerResource "network" then
    .preserved .ownershipUnverified "Network does not have the exact Qubicl Compose project/name identity."
  else if item.name ∈ snapshot.expectedNetworks then
    .preserved .currentManagedRuntime "Network belongs to the current managed runtime."
  else if item.attachedContainers.any CleanupAttachment.running then
    .preserved .runningResource "Network is attached to a running container."
  else if item.attachedContainers.length > 0 then .preserved .attachedResource "Network remains attached to a container."
  else candidate sha256 (.network item)

def volumeDecision (item : CleanupVolume) : CleanupDecision :=
  if item.durableHome then .preserved .durableHome "Durable computer homes are outside cleanup scope."
  else if !verifiedComposeOwnership snapshot.projectName item.toNamedDockerResource "volume" then
    .preserved .ownershipUnverified "Volume is not a verified Qubicl ephemeral X11 volume."
  else if item.name ∈ snapshot.expectedVolumes then
    .preserved .currentManagedRuntime "Volume belongs to the current managed runtime."
  else if item.attachedContainers.any CleanupAttachment.running then
    .preserved .runningResource "Volume is attached to a running container."
  else if item.attachedContainers.length > 0 then .preserved .attachedResource "Volume remains attached to a container."
  else
    .preserved .mutableIdentity
      "Docker volumes have no immutable ID; preserve this orphan for explicit manual review because its name can be reused."

def imageDecision (item : CleanupImage) : CleanupDecision :=
  if !verifiedImageOwnership item then
    .preserved .ownershipUnverified "Image lacks the exact official Qubicl image contract labels."
  else if (item.id::item.references).any fun identity =>
      identity ∈ snapshot.protectedImageReferences || identity ∈ snapshot.retainedManagedImageReferences then
    .preserved .currentOrRetainedImage "Image is a current exact target or is retained by managed runtime evidence."
  else if item.referencedByContainers.any CleanupAttachment.running then
    .preserved .runningResource "Image is referenced by a running container."
  else if item.referencedByContainers.length > 0 then
    .preserved .containerReferencedImage "Image is referenced by a retained container."
  else
    .preserved .sharedGlobalImage
      "Docker images are daemon-global and may be pinned by another Qubicl installation; OCI labels and this installation's cache do not prove exclusive ownership. Preserve for explicit manual review."

def recordDecision (item : CleanupRecord) : CleanupDecision :=
  if item.namespace ≠ "qubicl-runtime" ∨ item.schemaVersion≠1 then
    .preserved .ownershipUnverified "Record is outside the recognized versioned Qubicl runtime namespace."
  else if item.referenced then .preserved .recordReferenced "Record still supports current or retained runtime evidence."
  else if !item.obsolete then .preserved .notObsolete "Record is not obsolete."
  else candidate sha256 (.record item)

def cleanupDecision (selection : CleanupSelection) (item : CleanupInventoryItem) : CleanupDecision :=
  if item.kind ∈ [.container,.network,.volume] ∧ !selection.orphans then
    .preserved .notSelected "Orphan runtime cleanup was not selected."
  else if item.kind=.image ∧ !selection.images then .preserved .notSelected "Image cleanup was not selected."
  else if item.kind ∈ [.cacheRecord,.evidenceRecord] ∧ !selection.records then
    .preserved .notSelected "Cache/evidence cleanup was not selected."
  else
    match item with
    | .container item => containerDecision sha256 snapshot item
    | .network item => networkDecision sha256 snapshot item
    | .volume item => volumeDecision snapshot item
    | .image item => imageDecision snapshot item
    | .record item => recordDecision sha256 item

def itemKey (item : CleanupInventoryItem) : String := item.kind.text ++ "\x00" ++ item.id

/-- The loop of `validateSnapshot`, with the keys that it has met. -/
def validateItems : List String → List CleanupInventoryItem → Except String Unit
  | _, [] => .ok ()
  | keys, item::items =>
    if item.id = "" ∨ item.name = "" then .error "Cleanup inventory IDs and names must be non-empty."
    else if itemKey item ∈ keys then
      .error ("Cleanup inventory contains duplicate " ++ item.kind.text ++ " ID " ++ item.id ++ ".")
    else validateItems (itemKey item::keys) items

def validateSnapshot : Except String Unit :=
  if !uuid (some snapshot.installationId) then .error "Cleanup snapshot installation ID must be a UUID."
  else if snapshot.projectName = "" then .error "Cleanup snapshot project name must be non-empty."
  else validateItems [] snapshot.items

def candidateOf : CleanupDecision → Option CleanupCandidate
  | .candidate candidate => some candidate
  | .preserved _ _ => none

def preservedOf (item : CleanupInventoryItem) : CleanupDecision → Option PreservedCleanupItem
  | .candidate _ => none
  | .preserved reason detail => some { kind := item.kind, id := item.id, name := item.name, reason, detail }

def candidateJson (candidate : CleanupCandidate) : Json :=
  .object [("kind",.string candidate.kind.text),("id",.string candidate.id),("name",.string candidate.name),
    ("validationDigest",.string candidate.validationDigest)]

def preservedJson (item : PreservedCleanupItem) : Json :=
  .object [("kind",.string item.kind.text),("id",.string item.id),("name",.string item.name),
    ("reason",.string item.reason.text),("detail",.string item.detail)]

def digestInput (selection : CleanupSelection) (candidates : List CleanupCandidate) (preserved : List PreservedCleanupItem) :
    Json :=
  .object [("schemaVersion",.number 1),
    ("selection",.object [("orphans",.boolean selection.orphans),("images",.boolean selection.images),
      ("records",.boolean selection.records)]),
    ("candidates",.array (candidates.map candidateJson)),("preserved",.array (preserved.map preservedJson))]

def buildCleanupPlan (selection : CleanupSelection) : Except String CleanupPlan := do
  validateSnapshot snapshot
  let ordered:=sorted compareInventoryItems snapshot.items
  let candidates:=sorted compareCandidates
    (ordered.filterMap fun item => candidateOf (cleanupDecision sha256 snapshot selection item))
  let preserved:=sorted comparePreserved
    (ordered.filterMap fun item => preservedOf item (cleanupDecision sha256 snapshot selection item))
  return {
    schemaVersion := 1
    reviewDigest := digest sha256 (digestInput selection candidates preserved)
    selection
    candidates
    preserved }

end
end Qubicl.Cli.Cleanup
