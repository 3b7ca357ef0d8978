import Qubicl.Cli.Dashboard.Auth

/-!
# Interleavings of the dashboard's authentication

Everything a caller of `DashboardAuthManager` does is an action, and so is each of the two
moments at which an attempt that waits for its key goes on.
-/

namespace Qubicl.Cli.Dashboard
open Foundation DashboardAuthManager

/- A `login`, or the `reauthenticate` of a session, that waits; `session` is the object of
the session with its hash at the beginning. `began` is the number of actions before it. -/
structure Attempt where
  began : ℕ
  peer : String
  now : ℤ
  password : String
  verifier : HeldVerifier
  generation : ℕ
  session : Option (ℕ × String)
  derived : Bool
  deriving DecidableEq, Repr

/- A token that was handed out, and the attempt it was for. -/
structure Issue where
  token : String
  session : String
  password : String
  verifier : HeldVerifier
  began : ℕ
  deriving DecidableEq, Repr

/- The counters say how much of the randomness is used and how many objects were made. From
`steps` on nothing is read by the code: the actions so far, how many of them there were when
all sessions were last revoked, what was issued, opened, done and ended, the newest first. -/
structure AuthWorld where
  manager : DashboardAuthManager
  attempts : List Attempt
  drawn : ℕ
  ids : ℕ
  objects : ℕ
  steps : ℕ
  lastChange : ℕ
  issued : List Issue
  opened : List (String × ℤ)
  activity : List (String × ℤ)
  ended : List String
  deriving DecidableEq, Repr

inductive AuthAction
  | beginLogin (password : Option String) (peer : String) (now : ℤ)
  | beginReauthenticate (token : String) (password : Option String) (peer : String) (now again : ℤ)
  | derive (attempt : ℕ) (now : ℤ)
  | fail (attempt : ℕ)
  | resume (attempt : ℕ)
  | authenticate (token : String) (now : ℤ)
  | hasValidCsrf (token supplied : String) (now : ℤ)
  | recordActivity (token : String) (now again : ℤ)
  | logout (token : String)
  | revoke (sessionId : String) (now : ℤ)
  | revokeAll
  | replacePasswordVerifier (verifier : DashboardPasswordVerifier)
  | refreshPasswordVerifier (verifier : DashboardPasswordVerifier)
  | removePasswordVerifier
  | list (now : ℤ)

namespace AuthWorld
variable (limits : SessionLimits) (crypto : DashboardCrypto)

def onManager (f : DashboardAuthManager → DashboardAuthManager) (w : AuthWorld) : AuthWorld :=
  { w with manager := f w.manager }

def attempt (session : Option (ℕ × String)) (password : Option String) (peer : String) (now : ℤ)
    (w : AuthWorld) : AuthWorld :=
  let w:=w.onManager (prune limits now)
  match w.manager.attemptAllowed peer now, w.manager.verifier with
  | .error _, _ => w
  | _, none => w
  | .ok _, some verifier =>
    match password with
    | none => w.onManager (recordFailure peer now)
    | some password =>
      if passwordMaxCodePoints<password.length then w.onManager (recordFailure peer now)
      else
        { w with
          attempts := w.attempts ++
            [⟨w.steps,peer,now,password,verifier,w.manager.authorizationGeneration,session,false⟩] }

def beginReauthenticate (token : String) (password : Option String) (peer : String) (now again : ℤ)
    (w : AuthWorld) : AuthWorld :=
  match w.manager.activeRecord limits (crypto.tokenHash token) now with
  | (none,m) => { w with manager := m }
  | (some record,m) => { w with manager := m }.attempt limits (some (record.ref,record.tokenHash)) password peer again

def drop (a : Attempt) (w : AuthWorld) : AuthWorld := { w with attempts := w.attempts.filter (·.began≠a.began) }

def derive (a : Attempt) (now : ℤ) (w : AuthWorld) : AuthWorld :=
  if passwordMatches crypto a.password a.verifier.value then
    { w with attempts := w.attempts.map fun b => if b=a then { b with derived := true } else b }
  else (w.drop a).onManager (recordFailure a.peer now)

/- Whether `login` and `reauthenticate` find the authorization they began with. -/
def unchanged (a : Attempt) (w : AuthWorld) : Bool :=
  decide (a.generation=w.manager.authorizationGeneration) &&
    decide (w.manager.verifier.map (·.ref)=some a.verifier.ref)

/-- `login` after its key is derived. -/
def resumeLogin (a : Attempt) (w : AuthWorld) : AuthWorld :=
  if !w.unchanged a then w
  else
    let w:=(w.onManager (clearPeerFailures a.peer)).onManager (prune limits a.now)
    if maxSessions≤w.manager.sessionsByHash.length then w
    else
      let token:=crypto.randomToken w.drawn
      let record : SessionRecord :=
        ⟨w.objects,crypto.randomId w.ids,crypto.tokenHash token,crypto.randomToken (w.drawn+1),a.now,a.now,
          a.now+limits.absoluteMs,none⟩
      { w with
        manager := { w.manager with sessionsByHash := mapSet record.tokenHash record w.manager.sessionsByHash }
        drawn := w.drawn+2
        ids := w.ids+1
        objects := w.objects+1
        issued := ⟨token,record.id,a.password,a.verifier,a.began⟩::w.issued
        opened := (record.id,a.now)::w.opened
        activity := (record.id,a.now)::w.activity }

/-- `reauthenticate` after its key is derived, for the session it began with. -/
def resumeReauthenticate (a : Attempt) (ref : ℕ) (originalHash : String) (w : AuthWorld) : AuthWorld :=
  if !w.unchanged a then w
  else
    match w.manager.sessionsByHash.lookup originalHash with
    | none => w
    | some record =>
      if record.ref≠ref ∨ record.tokenHash≠originalHash then w
      else
        let w:=w.onManager (clearPeerFailures a.peer)
        let token:=crypto.randomToken w.drawn
        let record : SessionRecord :=
          { record with
            tokenHash := crypto.tokenHash token
            csrfToken := crypto.randomToken (w.drawn+1)
            lastActivityAt := a.now
            reauthenticatedUntil := some (min (a.now+limits.reauthenticationMs) record.absoluteExpiresAt) }
        { w with
          manager := { w.manager with
            sessionsByHash := mapSet record.tokenHash record (mapDelete originalHash w.manager.sessionsByHash) }
          drawn := w.drawn+2
          issued := ⟨token,record.id,a.password,a.verifier,a.began⟩::w.issued
          activity := (record.id,a.now)::w.activity }

def resume (a : Attempt) (w : AuthWorld) : AuthWorld :=
  match a.session with
  | none => (w.resumeLogin limits crypto a).drop a
  | some (ref,originalHash) => (w.resumeReauthenticate limits crypto a ref originalHash).drop a

def recordActivity (token : String) (now again : ℤ) (w : AuthWorld) : AuthWorld :=
  match w.manager.recordActivity limits crypto token now again with
  | (none,m) => { w with manager := m }
  | (some session,m) => { w with manager := m, activity := (session.actorId,again)::w.activity }

def logout (token : String) (w : AuthWorld) : AuthWorld :=
  { w with
    manager := (w.manager.logout crypto token).2
    ended := ((w.manager.sessionsByHash.lookup (crypto.tokenHash token)).map (·.id)).toList++w.ended }

def revoke (sessionId : String) (now : ℤ) (w : AuthWorld) : AuthWorld :=
  match w.manager.revoke limits sessionId now with
  | (true,m) => { w with manager := m, ended := sessionId::w.ended }
  | (false,m) => { w with manager := m }

def revokeAll (w : AuthWorld) : AuthWorld :=
  { w.onManager DashboardAuthManager.revokeAll with lastChange := w.steps+1 }

/- `structuredClone` makes a new object. -/
def setVerifier (verifier : DashboardPasswordVerifier) (w : AuthWorld) : AuthWorld :=
  { w with
    manager := w.manager.setVerifier (some ⟨w.objects,verifier⟩)
    objects := w.objects+1
    lastChange := w.steps+1 }

def replacePasswordVerifier (verifier : DashboardPasswordVerifier) (w : AuthWorld) : AuthWorld :=
  match assertDashboardPasswordVerifier verifier with
  | .error _ => w
  | .ok _ => w.setVerifier verifier

/- `passwordVerifierEqual` compares the fields. -/
def refreshPasswordVerifier (verifier : DashboardPasswordVerifier) (w : AuthWorld) : AuthWorld :=
  match assertDashboardPasswordVerifier verifier with
  | .error _ => w
  | .ok _ => if w.manager.verifier.map (·.value)=some verifier then w else w.setVerifier verifier

def removePasswordVerifier (w : AuthWorld) : AuthWorld :=
  { w with manager := w.manager.setVerifier none, lastChange := w.steps+1 }

def waiting (number : ℕ) (derived : Bool) (w : AuthWorld) : Option Attempt :=
  w.attempts.find? fun a => a.began=number && a.derived == derived

def run (w : AuthWorld) : AuthAction → Option AuthWorld
  | .beginLogin password peer now => some (w.attempt limits none password peer now)
  | .beginReauthenticate token password peer now again =>
    some (w.beginReauthenticate limits crypto token password peer now again)
  | .derive number now => (w.waiting number false).map fun a => w.derive crypto a now
  | .fail number => (w.waiting number false).map fun a => w.drop a
  | .resume number => (w.waiting number true).map fun a => w.resume limits crypto a
  | .authenticate token now => some (w.onManager fun m => (m.authenticate limits crypto token now).2)
  | .hasValidCsrf token supplied now => some (w.onManager fun m => (m.hasValidCsrf limits crypto token supplied now).2)
  | .recordActivity token now again => some (w.recordActivity limits crypto token now again)
  | .logout token => some (w.logout crypto token)
  | .revoke sessionId now => some (w.revoke limits sessionId now)
  | .revokeAll => some w.revokeAll
  | .replacePasswordVerifier verifier => some (w.replacePasswordVerifier verifier)
  | .refreshPasswordVerifier verifier => some (w.refreshPasswordVerifier verifier)
  | .removePasswordVerifier => some w.removePasswordVerifier
  | .list now => some (w.onManager (prune limits now))

def step (w : AuthWorld) (action : AuthAction) : Option AuthWorld :=
  (w.run limits crypto action).map fun w => { w with steps := w.steps+1 }

/- A new manager, with a verifier that the constructor has checked or without. -/
def create (verifier : Option DashboardPasswordVerifier) : AuthWorld where
  manager := ⟨[],[],⟨0,0⟩,verifier.map fun value => ⟨0,value⟩,0⟩
  attempts := []
  drawn := 0
  ids := 0
  objects := 1
  steps := 0
  lastChange := 0
  issued := []
  opened := []
  activity := []
  ended := []

end AuthWorld

def authSystem (limits : SessionLimits) (crypto : DashboardCrypto) : TransitionSystem AuthWorld AuthAction where
  initial w := ∃ verifier : Option DashboardPasswordVerifier,
    (∀ v ∈ verifier, assertDashboardPasswordVerifier v=.ok ()) ∧ w=AuthWorld.create verifier
  step w action := w.step limits crypto action

end Qubicl.Cli.Dashboard
