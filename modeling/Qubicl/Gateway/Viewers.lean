import Qubicl.Core.Presets
import Qubicl.Foundation.Transition

/-!
# Human control in the gateway (packages/gateway/src/server.ts:439-463, 497-507, 614-646, 889-1073)

The viewer sessions of the gateway, their sockets, the transitions of human control and
the computers that carry them out. A session and a socket are known by the number they
got; their keys are random and taken as distinct. What a request has to show besides its
session cookie (origin, operator key, rate) is decided before it is an action here.
-/

namespace Qubicl.Viewing
open Foundation

structure RuntimeRoute where
  host : String
  viewHost : Option String
  viewPort : Option ℕ
  controlViewPort : Option ℕ
  internalKey : String
  viewerAuthentication : Option String
  capabilities : List Core.Capability
  tokenHash : String
  clientCredentials : List String
  deriving DecidableEq, Repr

def hasViewPorts (route : RuntimeRoute) : Bool := route.viewPort.isSome && route.controlViewPort.isSome

def hasViewer (route : RuntimeRoute) : Bool := hasViewPorts route && route.capabilities.contains .viewer

def routeAcceptsTokenHash (route : RuntimeRoute) (tokenHash : String) : Bool :=
  route.tokenHash=tokenHash || route.clientCredentials.any (· = tokenHash)

/- `expired` stands for `expiresAt <= now`. -/
structure ViewSession where
  key : ℕ
  id : ℕ
  tokenHash : String
  expired : Bool
  controlling : Bool
  deriving DecidableEq, Repr

structure ViewTarget where
  host : String
  port : ℕ
  internalKey : String
  viewerAuthentication : Option String
  deriving DecidableEq, Repr

/- Of `connectViewerAfterTransitions`: before its first `connect`, at the `connect` to the
target, piped to it (`ready`), ended by the gateway before or after the `connect`. -/
inductive ViewerPhase
  | waiting
  | connecting (target : ViewTarget)
  | ready
  | refused
  | rejected
  deriving DecidableEq, Repr

/- A socket is in `viewerSockets` until its `close` event. -/
structure ViewerSocket where
  socket : ℕ
  key : ℕ
  id : ℕ
  controlling : Bool
  phase : ViewerPhase
  paused : Bool
  destroyed : Bool
  deriving DecidableEq, Repr

inductive HumanAction
  | take
  | release
  deriving DecidableEq, Repr

/- What `serializeControlTransition` is given. -/
inductive Operation
  | viewer (key : ℕ) (action : HumanAction)
  | operator
  | abandoned (key : ℕ)
  deriving DecidableEq, Repr

/- A transition at one of its `await`s: the request of a viewer (`some key`) or of the
operator, the same after its success was reported, the release of an abandoned control,
and the take that restores it (with what the release had answered). `executed` says
whether the computer has carried the request out. -/
inductive Running
  | proxying (key : Option ℕ) (action : HumanAction) (executed : Bool)
  | answered
  | releasing (key : ℕ) (executed : Bool)
  | restoring (key : ℕ) (released executed : Bool)
  deriving DecidableEq, Repr

/- A timer of `abandonedControlTimers`, with the computer of its session. -/
structure AbandonedTimer where
  key : ℕ
  id : ℕ
  deriving DecidableEq, Repr

/- `running` and `queue` are `controlTransitions`, for each computer. `human` is the state
of the computers, and `late` are requests that the gateway gave up on and that may still
be carried out. -/
structure Gateway where
  routes : ℕ → Option RuntimeRoute
  sessions : List ViewSession
  viewerSockets : List ViewerSocket
  abandonedControlTimers : List AbandonedTimer
  running : ℕ → Option Running
  queue : ℕ → List Operation
  nextKey : ℕ
  nextSocket : ℕ
  human : ℕ → Bool
  late : List (ℕ × HumanAction)

namespace Gateway

def accepts (g : Gateway) (s : ViewSession) : Bool :=
  match g.routes s.id with
  | some route => routeAcceptsTokenHash route s.tokenHash
  | none => false

def session (g : Gateway) (key : ℕ) : Option ViewSession := g.sessions.find? (·.key=key)

def hasControllingViewerSocket (key : ℕ) (g : Gateway) : Bool :=
  g.viewerSockets.any fun t => t.key=key && t.controlling && !t.destroyed

def clearAbandonedControlRelease (key : ℕ) (g : Gateway) : Gateway :=
  { g with abandonedControlTimers := g.abandonedControlTimers.filter (·.key≠key) }

def armAbandonedControlRelease (key id : ℕ) (g : Gateway) : Gateway :=
  let g:=g.clearAbandonedControlRelease key
  if g.hasControllingViewerSocket key then g
  else { g with abandonedControlTimers := g.abandonedControlTimers++[⟨key,id⟩] }

def destroySockets (p : ViewerSocket → Bool) (g : Gateway) : Gateway :=
  { g with viewerSockets := g.viewerSockets.map fun t => if p t then { t with destroyed := true } else t }

def stale (g : Gateway) (s : ViewSession) : Bool := s.expired || !g.accepts s

def dropped (g : Gateway) (s : ViewSession) : Bool := g.stale s && !(s.controlling && g.accepts s)

/-- The loop of `pruneExpired` over the sessions; each turn is about the key of its session. -/
def pruneExpired (g : Gateway) : Gateway :=
  let closed:=g.destroySockets fun t => g.sessions.any fun s => s.key=t.key && g.stale s
  let kept:=g.abandonedControlTimers.filter fun timer =>
    !g.sessions.any fun s => s.key=timer.key && g.dropped s
  let armed:=g.sessions.filter fun s =>
    g.stale s && !g.dropped s && !g.abandonedControlTimers.any (·.key=s.key)
  { closed with
    abandonedControlTimers := kept++armed.map fun s => ⟨s.key,s.id⟩
    sessions := g.sessions.filter fun s => !g.dropped s }

/-- `validViewSession` and `requireViewSession`; a valid session is not expired, so that
refreshing it changes nothing here. -/
def validViewSession (key id : ℕ) (g : Gateway) : Gateway × Option ViewSession :=
  let g:=g.pruneExpired
  (g,(g.session key).filter fun s => s.id=id && g.accepts s && !s.expired)

/-- `setControllingSession`; each turn of its loop is about the key of its session. -/
def setControllingSession (id : ℕ) (controller : Option ℕ) (g : Gateway) : Gateway :=
  let closed:=g.destroySockets fun t => t.controlling && g.sessions.any fun s =>
    s.key=t.key && s.id=id && s.controlling && !(controller=some s.key)
  let others:=g.abandonedControlTimers.filter fun timer =>
    !g.sessions.any fun s => s.key=timer.key && s.id=id
  let armed:=g.sessions.filter fun s =>
    s.id=id && controller=some s.key && !g.hasControllingViewerSocket s.key
  { closed with
    sessions := g.sessions.map fun s =>
      if s.id=id then { s with controlling := controller=some s.key } else s
    abandonedControlTimers := others++armed.map fun s => ⟨s.key,s.id⟩ }

def transitioning (id : ℕ) (g : Gateway) : Bool := (g.running id).isSome || !(g.queue id).isEmpty

def serializeControlTransition (id : ℕ) (operation : Operation) (g : Gateway) : Gateway :=
  { g with queue := Function.update g.queue id (g.queue id++[operation]) }

def setRunning (id : ℕ) (running : Option Running) (g : Gateway) : Gateway :=
  { g with running := Function.update g.running id running }

def pauseControlling (id : ℕ) (g : Gateway) : Gateway :=
  { g with viewerSockets := g.viewerSockets.map fun t =>
      if t.controlling && g.sessions.any (fun s => s.key=t.key && s.id=id) then
        { t with paused := true }
      else t }

def resumeControlling (id : ℕ) (g : Gateway) : Gateway :=
  { g with viewerSockets := g.viewerSockets.map fun t =>
      if t.controlling && t.phase=.ready &&
        g.sessions.any (fun s => s.key=t.key && s.id=id && s.controlling) then
        { t with paused := false }
      else t }

/-- The `finally` of a transition, and its end. -/
def finish (id : ℕ) (g : Gateway) : Gateway := (g.resumeControlling id).setRunning id none

/- The synchronous beginning of an operation; `refused` says that its client is gone or
has no operator's authority any more. -/
def operate (id : ℕ) (refused : Bool) (operation : Operation) (g : Gateway) : Gateway :=
  match operation with
  | .viewer key action =>
    if refused || (g.routes id).isNone then g.finish id
    else
      let valid:=g.validViewSession key id
      match valid.2 with
      | none => valid.1.finish id
      | some s =>
        let owned:=valid.1.sessions.any fun other => other.id=id && other.controlling && other.key≠key
        if action=.take && owned then valid.1.finish id
        else if action=.release && !s.controlling then valid.1.finish id
        else valid.1.setRunning id (some (.proxying (some key) action false))
  | .operator =>
    if refused || (g.routes id).isNone then g.finish id
    else g.setRunning id (some (.proxying none .release false))
  | .abandoned key =>
    match g.session key with
    | none => g.finish id
    | some s =>
      if !s.controlling || g.hasControllingViewerSocket key then g.finish id
      else if !g.accepts s then (g.setControllingSession id none).finish id
      else g.setRunning id (some (.releasing key false))

/-- The next transition of a computer begins: its viewers are paused first. -/
def beginTransition (id : ℕ) (refused : Bool) (g : Gateway) : Option Gateway :=
  match g.running id, g.queue id with
  | none, operation::rest =>
    some (({ g with queue := Function.update g.queue id rest }.pauseControlling id).operate id refused operation)
  | _, _ => none

def setHuman (id : ℕ) (action : HumanAction) (g : Gateway) : Gateway :=
  { g with human := Function.update g.human id (action=.take) }

/-- The computer carries out the request of the running transition. -/
def execute (id : ℕ) (g : Gateway) : Option Gateway :=
  match g.running id with
  | some (.proxying key action false) =>
    some ((g.setHuman id action).setRunning id (some (.proxying key action true)))
  | some (.releasing key false) =>
    some ((g.setHuman id .release).setRunning id (some (.releasing key true)))
  | some (.restoring key released false) =>
    some ((g.setHuman id .take).setRunning id (some (.restoring key released true)))
  | _ => none

/- A request that fails may still be on its way to the computer. -/
def giveUp (id : ℕ) (action : HumanAction) (executed late : Bool) (g : Gateway) : Gateway :=
  if !executed && late then { g with late := g.late++[(id,action)] } else g

/-- `onSuccess`: the response of a viewer's or the operator's request reports success. -/
def succeed (id : ℕ) (g : Gateway) : Option Gateway :=
  match g.running id with
  | some (.proxying key action true) =>
    some ((g.setControllingSession id (if action=.take then key else none)).setRunning id (some .answered))
  | _ => none

/-- `onSettled`: the request is over, after its success or without one. -/
def settle (id : ℕ) (late : Bool) (g : Gateway) : Option Gateway :=
  match g.running id with
  | some .answered => some (g.finish id)
  | some (.proxying _ action executed) => some ((g.giveUp id action executed late).finish id)
  | _ => none

def afterRelease (id key : ℕ) (released : Bool) (g : Gateway) : Gateway :=
  match g.session key with
  | none => g.finish id
  | some s =>
    if !s.controlling then g.finish id
    else if g.hasControllingViewerSocket key then
      if g.accepts s then g.setRunning id (some (.restoring key released false))
      else (g.setControllingSession id none).finish id
    else if released then (g.setControllingSession id none).finish id
    else (g.armAbandonedControlRelease key id).finish id

def afterRestore (id key : ℕ) (restored : Bool) (g : Gateway) : Gateway :=
  if restored && ((g.session key).map ViewSession.controlling).getD false then
    if g.hasControllingViewerSocket key then g.finish id
    else (g.armAbandonedControlRelease key id).finish id
  else (g.setControllingSession id none).finish id

/-- `requestHumanTransition` resolves; it only does so with `true` for what was executed. -/
def resolve (id : ℕ) (ok late : Bool) (g : Gateway) : Option Gateway :=
  match g.running id with
  | some (.releasing key executed) =>
    if ok && !executed then none
    else some ((g.giveUp id .release executed late).afterRelease id key ok)
  | some (.restoring key _ executed) =>
    if ok && !executed then none
    else some ((g.giveUp id .take executed late).afterRestore id key ok)
  | _ => none

/-- The computer carries out a request that the gateway has given up on. -/
def executeLate (index : ℕ) (g : Gateway) : Option Gateway :=
  (g.late[index]?).map fun request => { g.setHuman request.1 request.2 with late := g.late.eraseIdx index }

/-- The exchange of a ticket for a session. -/
def openSession (id : ℕ) (tokenHash : String) (g : Gateway) : Option Gateway :=
  match g.routes id with
  | some route =>
    if hasViewer route && routeAcceptsTokenHash route tokenHash then
      some { g with
        sessions := g.sessions++[⟨g.nextKey,id,tokenHash,false,false⟩]
        nextKey := g.nextKey+1 }
    else none
  | none => none

/-- A request to take or release human control, up to its transition. -/
def requestControl (id key : ℕ) (action : HumanAction) (g : Gateway) : Gateway :=
  if (g.routes id).any hasViewer then
    let valid:=g.validViewSession key id
    if valid.2.isSome then valid.1.serializeControlTransition id (.viewer key action) else valid.1
  else g

/-- `upgrade`: the socket is registered at once, and paused. -/
def upgrade (id key : ℕ) (g : Gateway) : Gateway :=
  if (g.routes id).any hasViewer then
    let valid:=g.validViewSession key id
    match valid.2 with
    | none => valid.1
    | some s =>
      let tracked : ViewerSocket := ⟨valid.1.nextSocket,key,id,s.controlling,.waiting,true,false⟩
      let g:={ valid.1 with
        viewerSockets := valid.1.viewerSockets++[tracked]
        nextSocket := valid.1.nextSocket+1 }
      if s.controlling then g.clearAbandonedControlRelease key else g
  else g

def setSocket (socket : ℕ) (f : ViewerSocket → ViewerSocket) (g : Gateway) : Gateway :=
  { g with viewerSockets := g.viewerSockets.map fun t => if t.socket=socket then f t else t }

def viewTarget (route : RuntimeRoute) (controlling : Bool) : Option ViewTarget :=
  (if controlling then route.controlViewPort else route.viewPort).map fun port =>
    ⟨route.viewHost.getD route.host,port,route.internalKey,route.viewerAuthentication⟩

def findSocket (socket : ℕ) (g : Gateway) : Option ViewerSocket := g.viewerSockets.find? (·.socket=socket)

/-- `connectViewerAfterTransitions` up to its `connect`. -/
def connect (socket : ℕ) (g : Gateway) : Option Gateway :=
  match g.findSocket socket with
  | some t =>
    if t.phase=.waiting ∧ t.destroyed=false ∧ g.transitioning t.id=false then
      match g.routes t.id with
      | none => some (g.setSocket socket fun t => { t with phase := .refused })
      | some route =>
        let valid:=g.validViewSession t.key t.id
        match valid.2 with
        | none => some (valid.1.setSocket socket fun t => { t with phase := .refused })
        | some s =>
          match hasViewPorts route, viewTarget route s.controlling with
          | true, some target => some (valid.1.setSocket socket fun t =>
              { t with controlling := s.controlling, phase := .connecting target })
          | _, _ => some (valid.1.setSocket socket fun t => { t with phase := .refused })
    else none
  | none => none

/-- The `connect` event: the session and the route are looked at again. -/
def connected (socket : ℕ) (g : Gateway) : Option Gateway :=
  match g.findSocket socket with
  | some t =>
    match t.phase with
    | .connecting target =>
      if t.destroyed=false ∧ g.transitioning t.id=false then
        match g.routes t.id with
        | none => some (g.setSocket socket fun t => { t with phase := .rejected })
        | some route =>
          let valid:=g.validViewSession t.key t.id
          match valid.2 with
          | none => some (valid.1.setSocket socket fun t => { t with phase := .rejected })
          | some s =>
            if s.controlling=t.controlling ∧ viewTarget route s.controlling=some target then
              some (valid.1.setSocket socket fun t => { t with phase := .ready, paused := false })
            else some (valid.1.setSocket socket fun t => { t with phase := .rejected })
      else none
    | _ => none
  | none => none

/-- The viewer or its computer hangs up. -/
def disconnect (socket : ℕ) (g : Gateway) : Gateway := g.destroySockets fun t => t.socket=socket

/-- The `close` event of a socket. -/
def closed (socket : ℕ) (g : Gateway) : Option Gateway :=
  match g.findSocket socket with
  | some t =>
    if t.destroyed then
      let g:={ g with viewerSockets := g.viewerSockets.filter (·.socket≠socket) }
      some (match g.session t.key with
        | some s => if t.controlling && s.controlling then g.armAbandonedControlRelease s.key s.id else g
        | none => g)
    else none
  | none => none

/-- A timer of an abandoned control fires. -/
def abandonedTimerFires (timer : AbandonedTimer) (g : Gateway) : Option Gateway :=
  if timer ∈ g.abandonedControlTimers then
    some ({ g with abandonedControlTimers := g.abandonedControlTimers.erase timer
      }.serializeControlTransition timer.id (.abandoned timer.key))
  else none

def expire (key : ℕ) (g : Gateway) : Gateway :=
  { g with sessions := g.sessions.map fun s => if s.key=key then { s with expired := true } else s }

def start (routes : ℕ → Option RuntimeRoute) : Gateway where
  routes := routes
  sessions := []
  viewerSockets := []
  abandonedControlTimers := []
  running := fun _ => none
  queue := fun _ => []
  nextKey := 0
  nextSocket := 0
  human := fun _ => false
  late := []

end Gateway

inductive GatewayAction
  | setRoute (id : ℕ) (route : Option RuntimeRoute)
  | openSession (id : ℕ) (tokenHash : String)
  | expire (key : ℕ)
  | pruneExpired
  | requestControl (id key : ℕ) (action : HumanAction)
  | operatorRelease (id : ℕ)
  | beginTransition (id : ℕ) (refused : Bool)
  | execute (id : ℕ)
  | succeed (id : ℕ)
  | settle (id : ℕ) (late : Bool)
  | resolve (id : ℕ) (ok late : Bool)
  | executeLate (index : ℕ)
  | upgrade (id key : ℕ)
  | connect (socket : ℕ)
  | connected (socket : ℕ)
  | disconnect (socket : ℕ)
  | closed (socket : ℕ)
  | abandonedTimerFires (timer : AbandonedTimer)
  deriving DecidableEq, Repr

def gatewayStep (g : Gateway) : GatewayAction → Option Gateway
  | .setRoute id route => some { g with routes := Function.update g.routes id route }
  | .openSession id tokenHash => g.openSession id tokenHash
  | .expire key => some (g.expire key)
  | .pruneExpired => some g.pruneExpired
  | .requestControl id key action => some (g.requestControl id key action)
  | .operatorRelease id =>
    if (g.routes id).isSome then some (g.serializeControlTransition id .operator) else none
  | .beginTransition id refused => g.beginTransition id refused
  | .execute id => g.execute id
  | .succeed id => g.succeed id
  | .settle id late => g.settle id late
  | .resolve id ok late => g.resolve id ok late
  | .executeLate index => g.executeLate index
  | .upgrade id key => some (g.upgrade id key)
  | .connect socket => g.connect socket
  | .connected socket => g.connected socket
  | .disconnect socket => some (g.disconnect socket)
  | .closed socket => g.closed socket
  | .abandonedTimerFires timer => g.abandonedTimerFires timer

def prunes (g : Gateway) : GatewayAction → Bool
  | .pruneExpired => true
  | .requestControl id _ _ => (g.routes id).any hasViewer
  | .upgrade id _ => (g.routes id).any hasViewer
  | .connect socket => (g.findSocket socket).any fun t => (g.routes t.id).isSome
  | .connected socket => (g.findSocket socket).any fun t => (g.routes t.id).isSome
  | .beginTransition id refused =>
    match g.queue id with
    | .viewer _ _::_ => !refused && (g.routes id).isSome
    | _ => false
  | _ => false

def gatewaySystem : TransitionSystem Gateway GatewayAction where
  initial g := ∃ routes, g=Gateway.start routes
  step := gatewayStep

end Qubicl.Viewing
