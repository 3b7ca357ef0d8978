import Mathlib.Data.Int.Notation
import Qubicl.Foundation.StringMap
import Qubicl.Foundation.Transition

/-!
# Dashboard sessions (packages/cli/src/dashboard/auth.ts)

`login` and `reauthenticate` stop in the middle for a key derivation. The model leaves to
the environment when a derivation completes and whether it fails, which covers the order
and the refusals of `SingleKdfQueue`; what `now()` returns is left open too.
-/

namespace Qubicl.Cli.Dashboard
open Foundation

structure DashboardPasswordVerifier where
  algorithm : String
  N : ℕ
  r : ℕ
  p : ℕ
  keyLength : ℕ
  salt : String
  hash : String
  deriving DecidableEq, Repr

inductive DashboardAuthErrorCode
  | invalidCredentials
  | rateLimited
  | serverBusy
  | passwordUnavailable
  deriving DecidableEq, Repr

structure DashboardAuthError where
  code : DashboardAuthErrorCode
  message : String
  status : ℕ
  retryAfterSeconds : Option ℤ
  deriving DecidableEq, Repr

/- `ref` is the identity of the object. -/
structure SessionRecord where
  ref : ℕ
  id : String
  tokenHash : String
  csrfToken : String
  createdAt : ℤ
  lastActivityAt : ℤ
  absoluteExpiresAt : ℤ
  reauthenticatedUntil : Option ℤ
  deriving DecidableEq, Repr

structure DashboardSessionView where
  id : String
  createdAt : ℤ
  lastActivityAt : ℤ
  idleExpiresAt : ℤ
  absoluteExpiresAt : ℤ
  reauthenticatedUntil : Option ℤ
  deriving DecidableEq, Repr

structure DashboardAuthenticatedSession where
  actorId : String
  csrfToken : String
  reauthenticated : Bool
  view : DashboardSessionView
  deriving DecidableEq, Repr

structure RateBucket where
  failures : ℕ
  resetsAt : ℤ
  deriving DecidableEq, Repr

structure HeldVerifier where
  ref : ℕ
  value : DashboardPasswordVerifier
  deriving DecidableEq, Repr

structure SessionLimits where
  idleMs : ℤ
  absoluteMs : ℤ
  reauthenticationMs : ℤ
  positive : 0 < idleMs ∧ 0<absoluteMs ∧ 0<reauthenticationMs

/- scrypt and SHA-256, and what `randomBytes` and `randomUUID` return at their n-th call. -/
structure DashboardCrypto where
  scrypt : String → List ℕ → List ℕ
  tokenHash : String → String
  randomToken : ℕ → String
  randomId : ℕ → String

structure DashboardAuthManager where
  sessionsByHash : List (String × SessionRecord)
  peerFailures : List (String × RateBucket)
  globalFailures : RateBucket
  verifier : Option HeldVerifier
  authorizationGeneration : ℕ
  deriving DecidableEq, Repr

def maxSessions : ℕ := 128
def maxRateBuckets : ℕ := 1024
def rateWindowMs : ℤ := 300000
def peerFailureLimit : ℕ := 5
def globalFailureLimit : ℕ := 20
def passwordMaxCodePoints : ℕ := 128

def base64UrlDigit (c : Char) : Option ℕ :=
  if 'A' ≤ c ∧ c ≤ 'Z' then some (c.toNat - 65)
  else if 'a' ≤ c ∧ c ≤ 'z' then some (c.toNat - 71)
  else if '0' ≤ c ∧ c ≤ '9' then some (c.toNat+4)
  else if c = '-' then some 62
  else if c = '_' then some 63
  else none

/- `Buffer.from(value, 'base64url')`: bits that make no byte are dropped. -/
def bytesOfDigits : List ℕ → List ℕ
  | a::b::c::d::rest =>
    (a*4+b / 16)::(b % 16*16+c / 4)::(c % 4*64+d)::bytesOfDigits rest
  | [a,b,c] => [a*4+b / 16,b % 16*16+c / 4]
  | [a,b] => [a*4+b / 16]
  | _ => []

def digitsOfBytes : List ℕ → List ℕ
  | a::b::c::rest => (a / 4)::(a % 4*16+b / 16)::(b % 16*4+c / 64)::(c % 64)::digitsOfBytes rest
  | [a,b] => [a / 4,a % 4*16+b / 16,b % 16*4]
  | [a] => [a / 4,a % 4*16]
  | [] => []

def decodeBase64Url (value : String) : Except String (List ℕ) :=
  match value.toList.mapM base64UrlDigit with
  | none => .error "Dashboard password verifier encoding is invalid."
  | some digits =>
    if digits=[] ∨ digitsOfBytes (bytesOfDigits digits)≠digits then
      .error "Dashboard password verifier encoding is invalid."
    else .ok (bytesOfDigits digits)

def assertDashboardPasswordVerifier (verifier : DashboardPasswordVerifier) : Except String Unit := do
  if verifier.algorithm ≠ "scrypt" ∨ verifier.N≠131072 ∨ verifier.r≠8 ∨ verifier.p≠1 ∨ verifier.keyLength≠32 then
    .error "Dashboard password verifier parameters are unsupported."
  else
    let salt ← decodeBase64Url verifier.salt
    let hash ← decodeBase64Url verifier.hash
    if salt.length≠16 ∨ hash.length≠32 then .error "Dashboard password verifier is malformed."
    else .ok ()

def passwordMatches (crypto : DashboardCrypto) (password : String) (verifier : DashboardPasswordVerifier) : Bool :=
  match decodeBase64Url verifier.salt, decodeBase64Url verifier.hash with
  | .ok salt, .ok hash => crypto.scrypt password salt=hash
  | _, _ => false

namespace DashboardAuthManager
variable (limits : SessionLimits)

def expired (record : SessionRecord) (now : ℤ) : Bool :=
  decide (record.absoluteExpiresAt≤now) || decide (limits.idleMs≤now - record.lastActivityAt)

def prune (now : ℤ) (m : DashboardAuthManager) : DashboardAuthManager :=
  { m with
    sessionsByHash := m.sessionsByHash.filter fun entry => !expired limits entry.2 now
    peerFailures := m.peerFailures.filter fun entry => !decide (entry.2.resetsAt≤now)
    globalFailures := if m.globalFailures.resetsAt≤now then ⟨0,now+rateWindowMs⟩ else m.globalFailures }

def sessionView (record : SessionRecord) : DashboardSessionView where
  id := record.id
  createdAt := record.createdAt
  lastActivityAt := record.lastActivityAt
  idleExpiresAt := min (record.lastActivityAt+limits.idleMs) record.absoluteExpiresAt
  absoluteExpiresAt := record.absoluteExpiresAt
  reauthenticatedUntil := record.reauthenticatedUntil.filter (· ≠ 0)

def toAuthenticated (record : SessionRecord) (now : ℤ) : DashboardAuthenticatedSession where
  actorId := record.id
  csrfToken := record.csrfToken
  reauthenticated := decide (now<record.reauthenticatedUntil.getD 0)
  view := sessionView limits record

def activeBucket (bucket : Option RateBucket) (now : ℤ) : RateBucket :=
  match bucket with
  | some bucket => if bucket.resetsAt≤now then ⟨0,now+rateWindowMs⟩ else bucket
  | none => ⟨0,now+rateWindowMs⟩

/- `if (oldest)`: an empty name is not dropped. -/
def evictOldest (buckets : List (String × RateBucket)) : List (String × RateBucket) :=
  match buckets with
  | (oldest,_)::_ => if oldest = "" then buckets else mapDelete oldest buckets
  | [] => buckets

def recordFailure (peer : String) (now : ℤ) (m : DashboardAuthManager) : DashboardAuthManager :=
  let buckets:=if (m.peerFailures.lookup peer).isNone ∧ maxRateBuckets ≤ m.peerFailures.length then
    evictOldest m.peerFailures else m.peerFailures
  let peerBucket:=activeBucket (buckets.lookup peer) now
  let globalBucket:=activeBucket (some m.globalFailures) now
  { m with
    peerFailures := mapSet peer ⟨peerBucket.failures+1,peerBucket.resetsAt⟩ buckets
    globalFailures := ⟨globalBucket.failures+1,globalBucket.resetsAt⟩ }

def clearPeerFailures (peer : String) (m : DashboardAuthManager) : DashboardAuthManager :=
  { m with peerFailures := mapDelete peer m.peerFailures }

def attemptAllowed (peer : String) (now : ℤ) (m : DashboardAuthManager) : Except DashboardAuthError Unit :=
  let peerBucket:=m.peerFailures.lookup peer
  if peerFailureLimit≤(peerBucket.map (·.failures)).getD 0 ∨ globalFailureLimit ≤ m.globalFailures.failures then
    let resetsAt:=max ((peerBucket.map (·.resetsAt)).getD now) m.globalFailures.resetsAt
    .error ⟨.rateLimited,"Too many failed password attempts. Try again later.",429,
      some (max 1 (-((now - resetsAt) / 1000)))⟩
  else .ok ()

def revokeAll (m : DashboardAuthManager) : DashboardAuthManager :=
  { m with authorizationGeneration := m.authorizationGeneration+1, sessionsByHash := [] }

def activeRecord (hash : String) (now : ℤ) (m : DashboardAuthManager) : Option SessionRecord × DashboardAuthManager :=
  match m.sessionsByHash.lookup hash with
  | none => (none,m)
  | some record =>
    if expired limits record now then (none,{ m with sessionsByHash := mapDelete hash m.sessionsByHash })
    else (some record,m)

variable (crypto : DashboardCrypto)

/- An empty token is `undefined` to it. -/
def authenticate (token : String) (now : ℤ) (m : DashboardAuthManager) :
    Option DashboardAuthenticatedSession × DashboardAuthManager :=
  if token = "" then (none,m)
  else
    let found:=m.activeRecord limits (crypto.tokenHash token) now
    (found.1.map fun record => toAuthenticated limits record now,found.2)

def hasValidCsrf (token supplied : String) (now : ℤ) (m : DashboardAuthManager) : Bool × DashboardAuthManager :=
  if supplied = "" then (false,m)
  else
    let found:=m.activeRecord limits (crypto.tokenHash token) now
    ((found.1.map fun record => decide (record.csrfToken=supplied)).getD false,found.2)

/- `now()` is called once more for the activity. -/
def recordActivity (token : String) (now again : ℤ) (m : DashboardAuthManager) :
    Option DashboardAuthenticatedSession × DashboardAuthManager :=
  match m.activeRecord limits (crypto.tokenHash token) now with
  | (none,m) => (none,m)
  | (some record,m) =>
    let record:={ record with lastActivityAt := again }
    (some (toAuthenticated limits record again),
      { m with sessionsByHash := mapSet (crypto.tokenHash token) record m.sessionsByHash })

def logout (token : String) (m : DashboardAuthManager) : Bool × DashboardAuthManager :=
  ((m.sessionsByHash.lookup (crypto.tokenHash token)).isSome,
    { m with sessionsByHash := mapDelete (crypto.tokenHash token) m.sessionsByHash })

def revoke (sessionId : String) (now : ℤ) (m : DashboardAuthManager) : Bool × DashboardAuthManager :=
  let m:=m.prune limits now
  match m.sessionsByHash.find? (·.2.id=sessionId) with
  | some (hash,_) => (true,{ m with sessionsByHash := mapDelete hash m.sessionsByHash })
  | none => (false,m)

def setVerifier (verifier : Option HeldVerifier) (m : DashboardAuthManager) : DashboardAuthManager :=
  { m with verifier }.revokeAll

end DashboardAuthManager
end Qubicl.Cli.Dashboard
