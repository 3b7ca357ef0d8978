import Qubicl.Core.GatewayAccess
import Qubicl.Gateway.Ownership

/-!
# View tickets and the authority of a session (packages/gateway/src/server.ts:84-93, 368-410, 568-646)

A bearer credential with the interactive scope gets a ticket, the ticket a session.
-/

namespace Qubicl.Viewing
open Foundation Gateway

structure RuntimeClientCredential where
  id : String
  label : String
  tokenHash : String
  scopes : List Core.ClientCredentialScope
  deriving DecidableEq, Repr

/- A route with its credentials, of which the rest of the gateway reads the hashes. -/
structure CredentialRoute where
  route : RuntimeRoute
  credentials : List RuntimeClientCredential
  hashes : route.clientCredentials=credentials.map RuntimeClientCredential.tokenHash

def allClientCredentialScopes : List Core.ClientCredentialScope :=
  [.observe,.files,.tasks,.interactive,.publish]

def routeClientCredentials (route : CredentialRoute) : List RuntimeClientCredential :=
  if route.credentials.any (·.tokenHash=route.route.tokenHash) then route.credentials
  else ⟨"default","Default client",route.route.tokenHash,allClientCredentialScopes⟩::route.credentials

structure ViewTicket where
  key : ℕ
  id : ℕ
  tokenHash : String
  expired : Bool
  deriving DecidableEq, Repr

structure TicketIssue where
  ticket : ℕ
  id : ℕ
  token : String
  route : CredentialRoute

/- The gateway with its tickets and the credentials of its routes. What was issued and
exchanged is kept for the statements; no step reads it. -/
structure Desk where
  gateway : Gateway
  routes : ℕ → Option CredentialRoute
  tickets : List ViewTicket
  nextTicket : ℕ
  issued : List TicketIssue
  exchanged : List (ℕ × ℕ)

def maxTickets : ℕ := 4096
def maxSessions : ℕ := 4096
def maxRouteTickets : ℕ := 128
def maxRouteSessions : ℕ := 128

namespace Desk

/- `tokenMatches` compares `hashToken(token)`, which the model takes as given. -/
def requireBearer (hashToken : String → String) (token : String) (route : CredentialRoute) :
    Option RuntimeClientCredential :=
  (routeClientCredentials route).find? fun credential => hashToken token=credential.tokenHash

def accepts (d : Desk) (t : ViewTicket) : Bool :=
  match d.gateway.routes t.id with
  | some route => routeAcceptsTokenHash route t.tokenHash
  | none => false

/-- The loop of `pruneExpired` over the tickets. -/
def pruneTickets (d : Desk) : Desk := { d with tickets := d.tickets.filter fun t => !t.expired && d.accepts t }

def ticketsFull (id : ℕ) (d : Desk) : Bool :=
  decide (maxTickets≤d.tickets.length) || decide (maxRouteTickets≤d.tickets.countP (·.id=id))

def sessionsFull (id : ℕ) (d : Desk) : Bool :=
  decide (maxSessions≤d.gateway.sessions.length) || decide (maxRouteSessions≤d.gateway.sessions.countP (·.id=id))

/-- `POST /view-ticket`; `limited` says that an external client has spent its rate. -/
def issueTicket (hashToken : String → String) (id : ℕ) (token : String) (limited : Bool) (d : Desk) : Desk :=
  match d.routes id with
  | none => d
  | some route =>
    if hasViewer route.route then
      match requireBearer hashToken token route with
      | none => d
      | some client =>
        if client.scopes.contains .interactive then
          let d:={ d with gateway := d.gateway.pruneExpired }.pruneTickets
          if limited || d.ticketsFull id then d
          else
            { d with
              tickets := d.tickets++[⟨d.nextTicket,id,client.tokenHash,false⟩]
              nextTicket := d.nextTicket+1
              issued := d.issued++[⟨d.nextTicket,id,token,route⟩] }
        else d
    else d

/-- The ticket that `GET /view` accepts. -/
def validTicket (id ticket : ℕ) (d : Desk) : Option ViewTicket :=
  (d.tickets.find? (·.key=ticket)).filter fun found => found.id=id && d.accepts found && !found.expired

/-- `GET /view`: the ticket is gone also where there is no room for a session. -/
def exchange (id ticket : ℕ) (d : Desk) : Desk :=
  match d.validTicket id ticket with
  | none => d
  | some found =>
    let d:={ d with tickets := d.tickets.filter (·.key≠ticket) }
    if d.sessionsFull id then d
    else
      match d.gateway.openSession id found.tokenHash with
      | some g => { d with gateway := g, exchanged := d.exchanged++[(ticket,d.gateway.nextKey)] }
      | none => d

/-- `RouteStore.reload`: the last route of an id counts. -/
def reload (routes : List (ℕ × CredentialRoute)) (d : Desk) : Desk :=
  let found id := (routes.reverse.find? fun entry => entry.1=id).map Prod.snd
  { d with
    routes := found
    gateway := { d.gateway with routes := fun id => (found id).map CredentialRoute.route } }

def expireTicket (ticket : ℕ) (d : Desk) : Desk :=
  { d with tickets := d.tickets.map fun t => if t.key=ticket then { t with expired := true } else t }

def proceed (action : GatewayAction) (d : Desk) : Option Desk :=
  match action with
  | .openSession _ _ => none
  | .setRoute _ _ => none
  | action =>
    (gatewayStep d.gateway action).map fun g =>
      { (if prunes d.gateway action then d.pruneTickets else d) with gateway := g }

def start (routes : ℕ → Option CredentialRoute) : Desk where
  gateway := Gateway.start fun id => (routes id).map CredentialRoute.route
  routes := routes
  tickets := []
  nextTicket := 0
  issued := []
  exchanged := []

end Desk

inductive DeskAction
  | reload (routes : List (ℕ × CredentialRoute))
  | issueTicket (id : ℕ) (token : String) (limited : Bool)
  | exchange (id ticket : ℕ)
  | expireTicket (ticket : ℕ)
  | proceed (action : GatewayAction)

def deskStep (hashToken : String → String) (d : Desk) : DeskAction → Option Desk
  | .reload routes => some (d.reload routes)
  | .issueTicket id token limited => some (d.issueTicket hashToken id token limited)
  | .exchange id ticket => some (d.exchange id ticket)
  | .expireTicket ticket => some (d.expireTicket ticket)
  | .proceed action => d.proceed action

def deskSystem (hashToken : String → String) : TransitionSystem Desk DeskAction where
  initial d := ∃ routes, d=Desk.start routes
  step := deskStep hashToken

structure Descends (g g' : Gateway) : Prop where
  routes : g'.routes=g.routes
  sessions : ∀ s ∈ g'.sessions, ∃ old ∈ g.sessions,
    s.key=old.key ∧ s.id=old.id ∧ s.tokenHash=old.tokenHash

namespace Descends
variable {g g' g'' : Gateway}

theorem same (hrou : g'.routes=g.routes) (hses : g'.sessions=g.sessions) : Descends g g' where
  routes := hrou
  sessions := fun s hs => ⟨s,hses ▸ hs,rfl,rfl,rfl⟩

theorem trans (h : Descends g g') (h' : Descends g' g'') : Descends g g'' where
  routes := h'.routes.trans h.routes
  sessions := fun s hs => by
    obtain ⟨mid,hmid,hkey,hid,hhas⟩ := h'.sessions s hs
    obtain ⟨old,hold,hkey',hid',hhas'⟩ := h.sessions mid hmid
    exact ⟨old,hold,hkey.trans hkey',hid.trans hid',hhas.trans hhas'⟩

theorem prune (g : Gateway) : Descends g g.pruneExpired where
  routes := rfl
  sessions := fun s hs => ⟨s,(List.mem_filter.1 hs).1,rfl,rfl,rfl⟩

theorem control (g : Gateway) (id : ℕ) (controller : Option ℕ) : Descends g (g.setControllingSession id controller) where
  routes := rfl
  sessions := fun s hs => by
    obtain ⟨old,hold,rfl⟩ := List.mem_map.1 hs
    refine ⟨old,hold,?_⟩
    split <;> exact ⟨rfl,rfl,rfl⟩

theorem expire (g : Gateway) (key : ℕ) : Descends g (g.expire key) where
  routes := rfl
  sessions := fun s hs => by
    obtain ⟨old,hold,rfl⟩ := List.mem_map.1 hs
    refine ⟨old,hold,?_⟩
    split <;> exact ⟨rfl,rfl,rfl⟩

theorem arm (g : Gateway) (key id : ℕ) : Descends g (g.armAbandonedControlRelease key id) := by
  obtain ⟨timers,heq,_⟩ := armAbandonedControlRelease_cases key id g
  rw [heq]
  exact same rfl rfl

theorem giveUp (g : Gateway) (id : ℕ) (action : HumanAction) (executed late : Bool) :
    Descends g (g.giveUp id action executed late) := by
  obtain ⟨requests,heq⟩ := giveUp_same id action executed late g
  rw [heq]
  exact same rfl rfl

theorem finish (h : Descends g g') (id : ℕ) : Descends g (g'.finish id) := h.trans (same rfl rfl)

theorem operate (g : Gateway) (id : ℕ) (refused : Bool) (operation : Operation) :
    Descends g (g.operate id refused operation) := by
  unfold Gateway.operate
  split
  next =>
    split
    next => exact same rfl rfl
    next =>
      dsimp only
      split
      next => exact (prune g).finish id
      next =>
        split
        next => exact (prune g).finish id
        next =>
          split
          next => exact (prune g).finish id
          next => exact (prune g).trans (same rfl rfl)
  next =>
    split
    next => exact same rfl rfl
    next => exact same rfl rfl
  next =>
    split
    next => exact same rfl rfl
    next =>
      split
      next => exact same rfl rfl
      next =>
        split
        next => exact (control g id none).finish id
        next => exact same rfl rfl

theorem afterRelease (g : Gateway) (id key : ℕ) (released : Bool) : Descends g (g.afterRelease id key released) := by
  unfold Gateway.afterRelease
  split
  next => exact same rfl rfl
  next =>
    split
    next => exact same rfl rfl
    next =>
      split
      next =>
        split
        next => exact same rfl rfl
        next => exact (control g id none).finish id
      next =>
        split
        next => exact (control g id none).finish id
        next => exact (arm g key id).finish id

theorem afterRestore (g : Gateway) (id key : ℕ) (restored : Bool) : Descends g (g.afterRestore id key restored) := by
  unfold Gateway.afterRestore
  split
  next =>
    split
    next => exact same rfl rfl
    next => exact (arm g key id).finish id
  next => exact (control g id none).finish id

theorem resolve {id : ℕ} {ok late : Bool} (hste : g.resolve id ok late=some g') : Descends g g' := by
  unfold Gateway.resolve at hste
  split at hste
  next =>
    split at hste
    next => cases hste
    next =>
      cases hste
      exact (giveUp g id .release _ late).trans (afterRelease _ id _ ok)
  next =>
    split at hste
    next => cases hste
    next =>
      cases hste
      exact (giveUp g id .take _ late).trans (afterRestore _ id _ ok)
  next => cases hste

variable {socket : ℕ}

theorem connect (hste : g.connect socket=some g') : Descends g g' := by
  unfold Gateway.connect at hste
  split at hste
  next =>
    split at hste
    next =>
      split at hste
      next =>
        cases hste
        exact same rfl rfl
      next =>
        dsimp only at hste
        split at hste
        next =>
          cases hste
          exact (prune g).trans (same rfl rfl)
        next =>
          split at hste
          next =>
            cases hste
            exact (prune g).trans (same rfl rfl)
          next =>
            cases hste
            exact (prune g).trans (same rfl rfl)
    next => cases hste
  next => cases hste

theorem connected (hste : g.connected socket=some g') : Descends g g' := by
  unfold Gateway.connected at hste
  split at hste
  next =>
    split at hste
    next =>
      split at hste
      next =>
        split at hste
        next =>
          cases hste
          exact same rfl rfl
        next =>
          dsimp only at hste
          split at hste
          next =>
            cases hste
            exact (prune g).trans (same rfl rfl)
          next =>
            split at hste
            next =>
              cases hste
              exact (prune g).trans (same rfl rfl)
            next =>
              cases hste
              exact (prune g).trans (same rfl rfl)
      next => cases hste
    next => cases hste
  next => cases hste

theorem closed (hste : g.closed socket=some g') : Descends g g' := by
  unfold Gateway.closed at hste
  split at hste
  next =>
    split at hste
    next =>
      cases hste
      split
      next s _ =>
        split
        next =>
          have hres : Descends g { g with viewerSockets := g.viewerSockets.filter (·.socket≠socket) } := same rfl rfl
          exact hres.trans (arm _ s.key s.id)
        next => exact same rfl rfl
      next => exact same rfl rfl
    next => cases hste
  next => cases hste

theorem step {action : GatewayAction} (hope : ∀ id tokenHash, action≠.openSession id tokenHash)
    (hrou : ∀ id route, action≠.setRoute id route) (hste : gatewayStep g action=some g') : Descends g g' := by
  cases action with
  | setRoute id route => exact absurd rfl (hrou id route)
  | openSession id tokenHash => exact absurd rfl (hope id tokenHash)
  | expire key =>
    cases hste
    exact expire g key
  | pruneExpired =>
    cases hste
    exact prune g
  | requestControl id key action =>
    cases hste
    unfold Gateway.requestControl
    split
    next =>
      dsimp only
      split
      next => exact (prune g).trans (same rfl rfl)
      next => exact prune g
    next => exact same rfl rfl
  | operatorRelease id =>
    simp only [gatewayStep] at hste
    split at hste
    · cases hste
      exact same rfl rfl
    · cases hste
  | beginTransition id refused =>
    simp only [gatewayStep,Gateway.beginTransition] at hste
    split at hste
    next operation rest _ _ =>
      cases hste
      have hpau : Descends g ({ g with queue := Function.update g.queue id rest }.pauseControlling id) := same rfl rfl
      exact hpau.trans (operate _ id refused operation)
    next => cases hste
  | execute id =>
    simp only [gatewayStep,Gateway.execute] at hste
    split at hste
    next =>
      cases hste
      exact same rfl rfl
    next =>
      cases hste
      exact same rfl rfl
    next =>
      cases hste
      exact same rfl rfl
    next => cases hste
  | succeed id =>
    simp only [gatewayStep,Gateway.succeed] at hste
    split at hste
    next =>
      cases hste
      exact (control g id _).trans (same rfl rfl)
    next => cases hste
  | settle id late =>
    simp only [gatewayStep,Gateway.settle] at hste
    split at hste
    next =>
      cases hste
      exact same rfl rfl
    next =>
      cases hste
      exact (giveUp g id _ _ late).finish id
    next => cases hste
  | resolve id ok late => exact resolve hste
  | executeLate index =>
    obtain ⟨request,_,rfl⟩ := Option.map_eq_some_iff.1 hste
    exact same rfl rfl
  | upgrade id key =>
    cases hste
    unfold Gateway.upgrade
    split
    next =>
      dsimp only
      split
      next => exact prune g
      next =>
        split
        next => exact (prune g).trans (same rfl rfl)
        next => exact (prune g).trans (same rfl rfl)
    next => exact same rfl rfl
  | connect socket => exact connect hste
  | connected socket => exact connected hste
  | disconnect socket =>
    cases hste
    exact same rfl rfl
  | closed socket => exact closed hste
  | abandonedTimerFires timer =>
    simp only [gatewayStep,Gateway.abandonedTimerFires] at hste
    split at hste
    next =>
      cases hste
      exact same rfl rfl
    next => cases hste

end Descends
end Qubicl.Viewing
