import Qubicl.Foundation.Number
import Qubicl.Foundation.StringMap
import Qubicl.Foundation.Transition

/-!
# Previews of a computer (packages/control/src/previews.ts)

The publications, and the secrets that open them. A method that waits for something before
it changes anything is taken from there on. Where a method reads the clock more than once
it has more than one time.
-/

namespace Qubicl.Control.Previews
open Foundation

structure PortShare where
  tokenHash : String
  expiresAt : ℤ
  deriving DecidableEq, Repr

structure PortPublication where
  id : String
  createdAt : ℤ
  port : ℕ
  ownerTokenHash : String
  share : Option PortShare
  deriving DecidableEq, Repr

structure FilePublication where
  id : String
  createdAt : ℤ
  tokenHash : String
  expiresAt : ℤ
  deriving DecidableEq, Repr

inductive Publication
  | port (publication : PortPublication)
  | file (publication : FilePublication)
  deriving DecidableEq, Repr

inductive PreviewSurface
  | localSurface
  | remoteSurface
  deriving DecidableEq, Repr

inductive PreviewConnectionScope
  | owner
  | share
  | management
  deriving DecidableEq, Repr

/- What is kept for the hash of a management ticket, and of a management session. -/
structure ManagementGrant where
  publicationId : String
  access : PreviewSurface
  expiresAt : ℤ
  deriving DecidableEq, Repr

structure PreviewAccess where
  publicBaseUrl : String
  remoteBaseUrl : Option String
  deriving DecidableEq, Repr

/- SHA-256, and what `randomBytes` returns at its n-th call, for a token and for an ID. -/
structure PreviewCrypto where
  digest : String → String
  randomToken : ℕ → String
  randomId : ℕ → String

inductive PreviewSecret
  | owner
  | share
  | file
  | ticket (access : PreviewSurface)
  | session (access : PreviewSurface)
  deriving DecidableEq, Repr

structure Mint where
  token : String
  publication : String
  secret : PreviewSecret
  expiresAt : Option ℤ
  deriving DecidableEq, Repr

/- `drawn` and `ids` say how much of the randomness is used. The code has no `minted`, `revoked`
and `redeemed`: the tokens ever made, those that were taken back,
and the tickets with the sessions they were given for; nor `created`, the IDs given so far. -/
structure PreviewManager where
  publications : List (String × Publication)
  managementTickets : List (String × ManagementGrant)
  managementSessions : List (String × ManagementGrant)
  expiryTimers : List String
  shareExpiryTimers : List String
  drawn : ℕ
  ids : ℕ
  minted : List Mint
  revoked : List String
  redeemed : List (String × String)
  created : List String
  deriving DecidableEq, Repr

def maxFilePublications : ℕ := 64
def maxManagementTickets : ℕ := 128
def maxManagementSessions : ℕ := 256
def managementTicketTtlMs : ℤ := 60000

def publicationDeadline : Publication → ℤ
  | .file publication => publication.expiresAt
  | .port _ => 9007199254740991

namespace PreviewManager

def mint (crypto : PreviewCrypto) (publication : String) (secret : PreviewSecret) (expiresAt : Option ℤ)
    (m : PreviewManager) : PreviewManager :=
  { m with
    drawn := m.drawn+1
    minted := ⟨crypto.randomToken m.drawn,publication,secret,expiresAt⟩::m.minted }

def revokes (p : Mint → Bool) (m : PreviewManager) : PreviewManager :=
  { m with revoked := (m.minted.filter p).map Mint.token++m.revoked }

def clearManagementAccess (publicationId : String) (m : PreviewManager) : PreviewManager :=
  { m with
    managementTickets := m.managementTickets.filter (·.2.publicationId≠publicationId)
    managementSessions := m.managementSessions.filter (·.2.publicationId≠publicationId) }

def clearExpiry (id : String) (m : PreviewManager) : PreviewManager :=
  { m with expiryTimers := m.expiryTimers.filter (· ≠ id) }

def clearShareExpiry (id : String) (m : PreviewManager) : PreviewManager :=
  { m with shareExpiryTimers := m.shareExpiryTimers.filter (· ≠ id) }

def unpublish (id : String) (m : PreviewManager) : PreviewManager :=
  let m:=m.revokes (·.publication=id)
  match m.publications.lookup id with
  | none => m
  | some _ =>
    (({ m with publications := mapDelete id m.publications }.clearManagementAccess id).clearExpiry id).clearShareExpiry id

def revokeShare (id : String) (m : PreviewManager) : PreviewManager :=
  let m:=m.revokes fun mint => mint.publication=id && mint.secret=.share
  match m.publications.lookup id with
  | some (.port publication) =>
    if publication.share.isSome then
      { m with publications := mapSet id (.port { publication with share := none }) m.publications }.clearShareExpiry id
    else m
  | _ => m

def clear (m : PreviewManager) : PreviewManager :=
  let m:=((m.publications.map Prod.fst).foldl (fun m id => m.unpublish id) m).revokes fun _ => true
  { m with managementTickets := [], managementSessions := [] }

def pruneEntry (now : ℤ) (m : PreviewManager) (entry : String × Publication) : PreviewManager :=
  match entry.2 with
  | .file publication => if publication.expiresAt≤now then m.unpublish entry.1 else m
  | .port publication =>
    match publication.share with
    | some share => if share.expiresAt≤now then m.revokeShare entry.1 else m
    | none => m

def liveGrant (now : ℤ) (m : PreviewManager) (entry : String × ManagementGrant) : Bool :=
  decide (now<entry.2.expiresAt) && (m.publications.lookup entry.2.publicationId).isSome

def prune (now : ℤ) (m : PreviewManager) : PreviewManager :=
  let m:=m.publications.foldl (pruneEntry now) m
  { m with
    managementTickets := m.managementTickets.filter (m.liveGrant now)
    managementSessions := m.managementSessions.filter (m.liveGrant now) }

def filePublications (m : PreviewManager) : List FilePublication :=
  m.publications.filterMap fun entry =>
    match entry.2 with
    | .file publication => some publication
    | .port _ => none

/- The oldest go until there is room for one more. -/
def pruneFilePublications (m : PreviewManager) : PreviewManager :=
  let files:=m.filePublications.mergeSort fun left right => decide (left.createdAt≤right.createdAt)
  (files.take (files.length+1 - maxFilePublications)).foldl (fun m oldest => m.unpublish oldest.id) m

def revokeForManagement (id : String) (now : ℤ) (m : PreviewManager) : PreviewManager := (m.prune now).unpublish id

/- `removeStoppedPortPublications`, for one of the ports that do not listen any more. -/
def removeStoppedPort (id : String) (m : PreviewManager) : PreviewManager :=
  match m.publications.lookup id with
  | some (.port _) => m.unpublish id
  | _ => m

def expiryTimer (id : String) (m : PreviewManager) : PreviewManager :=
  if id ∈ m.expiryTimers then m.unpublish id else m

def shareExpiryTimer (id : String) (m : PreviewManager) : PreviewManager :=
  if id ∈ m.shareExpiryTimers then m.revokeShare id else m

variable (crypto : PreviewCrypto)

def evict (maximum : ℕ) (grants : List (String × ManagementGrant)) : List (String × ManagementGrant) :=
  match grants with
  | (oldest,_)::_ => if maximum≤grants.length then mapDelete oldest grants else grants
  | [] => grants

/- `access` is what `previewAccess()` returns, unless it throws; an empty base is none. -/
def openForManagement (id : String) (surface : PreviewSurface) (access : Except String PreviewAccess) (now later : ℤ)
    (m : PreviewManager) : PreviewManager :=
  let m:=m.prune now
  match m.publications.lookup id, access with
  | none, _ => m
  | some _, .error _ => m
  | some publication, .ok access =>
    let base:=if surface=.localSurface then some access.publicBaseUrl else access.remoteBaseUrl
    if (base.getD "") = "" then m
    else
      let expiresAt:=min (publicationDeadline publication) (later+managementTicketTtlMs)
      { m with
        managementTickets := mapSet (crypto.digest (crypto.randomToken m.drawn)) ⟨id,surface,expiresAt⟩
          (evict maxManagementTickets m.managementTickets) }.mint crypto id (.ticket surface) (some expiresAt)

def share (id : String) (expiresInSeconds : ℤ) (access : Except String PreviewAccess) (now later : ℤ)
    (m : PreviewManager) : PreviewManager :=
  let m:=m.prune now
  match m.publications.lookup id, access with
  | some (.port _), .ok access =>
    if expiresInSeconds<60 ∨ 86400<expiresInSeconds then m
    else if access.remoteBaseUrl.getD "" = "" then m
    else
      let m:=m.revokeShare id
      match m.publications.lookup id with
      | some (.port publication) =>
        let expiresAt:=later+expiresInSeconds*1000
        let shared : PortPublication :=
          { publication with share := some ⟨crypto.digest (crypto.randomToken m.drawn),expiresAt⟩ }
        { m with
          publications := mapSet id (.port shared) m.publications
          shareExpiryTimers := id::m.shareExpiryTimers.filter (· ≠ id) }.mint crypto id .share (some expiresAt)
      | _ => m
  | _, _ => m

/- With the listener found; `legacy` is the lifetime of a share, made where there is remote access. -/
def publish (port : ℕ) (legacy : Option ℤ) (access : Except String PreviewAccess) (now shareNow shareLater : ℤ)
    (m : PreviewManager) : PreviewManager :=
  let id:=crypto.randomId m.ids
  let publication : PortPublication := ⟨id,now,port,crypto.digest (crypto.randomToken m.drawn),none⟩
  let m:={ m with
    publications := mapSet id (.port publication) m.publications
    ids := m.ids+1
    created := id::m.created }.mint crypto id .owner none
  match legacy, access with
  | some seconds, .ok granted =>
    if granted.remoteBaseUrl.getD "" = "" then m else m.share crypto id seconds access shareNow shareLater
  | _, _ => m

/- With the path accepted, from `prune` on. -/
def publishFile (expiresInSeconds : ℤ) (now later : ℤ) (m : PreviewManager) : PreviewManager :=
  let m:=(m.prune now).pruneFilePublications
  let id:=crypto.randomId m.ids
  let expiresAt:=later+expiresInSeconds*1000
  let publication : FilePublication := ⟨id,later,crypto.digest (crypto.randomToken m.drawn),expiresAt⟩
  { m with
    publications := mapSet id (.file publication) m.publications
    ids := m.ids+1
    created := id::m.created
    expiryTimers := id::m.expiryTimers.filter (· ≠ id) }.mint crypto id .file (some expiresAt)

end PreviewManager

structure PreviewRequest where
  surface : Option String
  cookie : Option String
  token : Option String
  ticket : Option String
  deriving DecidableEq, Repr

def previewCookie (request : PreviewRequest) (id : String) : Option String :=
  let name:=("qubicl_preview_" ++ id ++ "=").toList
  request.cookie.bind fun cookie =>
    (((cookie.toList.splitOn ';').map Number.trim).find? name.isPrefixOf).map fun value => String.ofList (value.drop name.length)

def PreviewRequest.presented (request : PreviewRequest) (id : String) : Option String :=
  request.token.or (previewCookie request id)

def PreviewRequest.access (request : PreviewRequest) : PreviewSurface :=
  if request.surface=some "external" then .remoteSurface else .localSurface

/- A ticket is taken only where the gateway has named the surface. -/
def PreviewRequest.namedAccess (request : PreviewRequest) : Option PreviewSurface :=
  if request.surface=some "external" then some .remoteSurface
  else if request.surface=some "local" then some .localSurface
  else none

/- `/^[A-Za-z0-9_-]{43}$/u` -/
def ticketPattern (token : String) : Bool :=
  token.length == 43 && token.toList.all fun c => c.isAlphanum || c == '_' || c == '-'

namespace PreviewManager
variable (crypto : PreviewCrypto)

def validPreviewToken (request : PreviewRequest) (id : String) (publication : Publication) (token : String) (later : ℤ)
    (m : PreviewManager) : Option PreviewConnectionScope :=
  let access:=request.access
  let session : Option PreviewConnectionScope :=
    match m.managementSessions.lookup (crypto.digest token) with
    | some session =>
      if session.publicationId=id ∧ session.access=access ∧ later<session.expiresAt then some .management else none
    | none => none
  match publication with
  | .file publication =>
    if crypto.digest token=publication.tokenHash then some (if access=.remoteSurface then .share else .owner)
    else session
  | .port publication =>
    if access=.localSurface ∧ crypto.digest token=publication.ownerTokenHash then some .owner
    else
      match publication.share with
      | some share =>
        if access=.remoteSurface ∧ later<share.expiresAt ∧ crypto.digest token=share.tokenHash then some .share
        else session
      | none => session

/-- A session of the publication that lets a token in. -/
theorem session_of_some {sessions : List (String × ManagementGrant)} {digest id : String} {access : PreviewSurface} {later : ℤ}
    {granted : Option PreviewConnectionScope} {scope : PreviewConnectionScope} (heq : granted =
      match sessions.lookup digest with
      | some session =>
        if session.publicationId=id ∧ session.access=access ∧ later<session.expiresAt then some .management else none
      | none => none) (hgra : granted=some scope) :
    ∃ session, sessions.lookup digest=some session ∧ session.publicationId=id ∧ session.access=access := by
  rw [heq] at hgra
  split at hgra
  next session hfou =>
    split at hgra
    next hfit => exact ⟨session,hfou,hfit.1,hfit.2.1⟩
    next => cases hgra
  next => cases hgra

/- Whether the ticket is taken; with the session that is made for it. -/
def redeemManagementTicket (request : PreviewRequest) (id : String) (publication : Publication) (later : ℤ)
    (m : PreviewManager) : Bool × PreviewManager :=
  match request.ticket with
  | none => (false,m)
  | some token =>
    match m.managementTickets.lookup (crypto.digest token) with
    | none => (false,m)
    | some ticket =>
      if !ticketPattern token ∨ ticket.publicationId≠id ∨ ticket.expiresAt≤later ∨
          request.namedAccess≠some ticket.access then (false,m)
      else
        let session : ManagementGrant := ⟨id,ticket.access,publicationDeadline publication⟩
        (true,
          { m with
            managementTickets := mapDelete (crypto.digest token) m.managementTickets
            managementSessions := mapSet (crypto.digest (crypto.randomToken m.drawn)) session
              (evict maxManagementSessions m.managementSessions)
            redeemed := (token,crypto.randomToken m.drawn)::m.redeemed }.mint crypto id (.session ticket.access)
              (some (publicationDeadline publication)))

/-- `handle`, for a path with the ID: the scope in which the publication is served, if it is. -/
def handle (id : String) (request : PreviewRequest) (now later : ℤ) (m : PreviewManager) :
    Option PreviewConnectionScope × PreviewManager :=
  let m:=m.prune now
  match m.publications.lookup id with
  | none => (none,m)
  | some publication =>
    match m.redeemManagementTicket crypto request id publication later with
    | (true,m) => (some .management,m)
    | (false,m) =>
      match request.presented id with
      | none => (none,m)
      | some token => (if token = "" then none else m.validPreviewToken crypto request id publication token later,m)

def handleUpgrade (id : String) (request : PreviewRequest) (now later : ℤ) (m : PreviewManager) :
    Option PreviewConnectionScope × PreviewManager :=
  let m:=m.prune now
  match m.publications.lookup id, request.presented id with
  | some (.port publication), some token =>
    (if token = "" then none else m.validPreviewToken crypto request id (.port publication) token later,m)
  | _, _ => (none,m)

def create : PreviewManager := ⟨[],[],[],[],[],0,0,[],[],[],[]⟩

end PreviewManager

inductive PreviewAction
  | publish (port : ℕ) (legacy : Option ℤ) (access : Except String PreviewAccess) (now shareNow shareLater : ℤ)
  | publishFile (expiresInSeconds now later : ℤ)
  | share (id : String) (expiresInSeconds : ℤ) (access : Except String PreviewAccess) (now later : ℤ)
  | revokeShare (id : String)
  | openForManagement (id : String) (surface : PreviewSurface) (access : Except String PreviewAccess) (now later : ℤ)
  | revokeForManagement (id : String) (now : ℤ)
  | unpublish (id : String)
  | clear
  | list (now : ℤ)
  | removeStoppedPort (id : String)
  | expiryTimer (id : String)
  | shareExpiryTimer (id : String)
  | handle (id : String) (request : PreviewRequest) (now later : ℤ)
  | handleUpgrade (id : String) (request : PreviewRequest) (now later : ℤ)

namespace PreviewManager

def step (crypto : PreviewCrypto) (m : PreviewManager) : PreviewAction → PreviewManager
  | .publish port legacy access now shareNow shareLater => m.publish crypto port legacy access now shareNow shareLater
  | .publishFile expiresInSeconds now later => m.publishFile crypto expiresInSeconds now later
  | .share id expiresInSeconds access now later => m.share crypto id expiresInSeconds access now later
  | .revokeShare id => m.revokeShare id
  | .openForManagement id surface access now later => m.openForManagement crypto id surface access now later
  | .revokeForManagement id now => m.revokeForManagement id now
  | .unpublish id => m.unpublish id
  | .clear => m.clear
  | .list now => m.prune now
  | .removeStoppedPort id => m.removeStoppedPort id
  | .expiryTimer id => m.expiryTimer id
  | .shareExpiryTimer id => m.shareExpiryTimer id
  | .handle id request now later => (m.handle crypto id request now later).2
  | .handleUpgrade id request now later => (m.handleUpgrade crypto id request now later).2

end PreviewManager

def previewSystem (crypto : PreviewCrypto) : TransitionSystem PreviewManager PreviewAction where
  initial m := m=PreviewManager.create
  step m action := some (m.step crypto action)

end Qubicl.Control.Previews
