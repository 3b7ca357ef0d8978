import Qubicl.Control.Lease.System
import Qubicl.Foundation.StringMap

/-!
# Leases of compatibility requests (packages/control/src/open-terminal.ts:547-576, 680-734)

What a request does with the lease of its credential: `withLease`, `callTool`, `ensureLease` and the retries, over the lease
manager, and the checks that `executor.call` makes of a proof (packages/control/src/executor.ts:266-272, 922-955, 1739-1747). Each
moment at which a request goes on is an action; whatever else happens to the lease is one of the manager's.
-/

namespace Qubicl.Control.OpenTerminal
open Foundation LeaseManager

/- The definitions with `lease: false`. -/
def leaseFreeTools : List String :=
  ["get_computer_status","explain_capability","acquire_lease","renew_lease","release_lease","list_managed_processes",
    "list_ports","list_previews","skills_list","skill_view","list_files","get_file_info","read_file","take_screenshot",
    "list_desktop_windows","desktop_snapshot","desktop_element_action","desktop_window_action","browser_snapshot",
    "browser_read","browser_screenshot","browser_tabs","browser_downloads","browser_dialogs","browser_diagnostics",
    "browser_inspect_at","read_clipboard","list_desktop_applications"]

def interactiveInputTools : List String :=
  ["control_computer","desktop_element_action","desktop_window_action","browser_navigate","browser_click","browser_type",
    "browser_select","browser_press","browser_scroll","browser_history","browser_wait","browser_use_tab","browser_new_tab",
    "browser_close_tab","browser_reset","browser_upload","browser_cancel_download","browser_respond_dialog",
    "browser_permissions","browser_set_viewport","browser_click_at","browser_double_click_at","browser_hover_at",
    "browser_drag","browser_scroll_at","browser_type_focused","browser_computer","write_clipboard","open_desktop_application",
    "close_desktop_application"]

/- The tools with a lease that are run by `runBrowser` and by `runDesktop` only. -/
def browserTools : List String :=
  ["browser_navigate","browser_click","browser_type","browser_select","browser_press","browser_scroll","browser_history",
    "browser_wait","browser_use_tab","browser_new_tab","browser_close_tab","browser_reset","browser_upload",
    "browser_cancel_download","browser_permissions","browser_set_viewport","browser_click_at","browser_double_click_at",
    "browser_hover_at","browser_drag","browser_scroll_at","browser_type_focused","browser_computer"]

def desktopTools : List String := ["control_computer","close_desktop_application"]

/-- A tool, with the fields of its input that decide how it runs. -/
structure ToolCall where
  name : String
  openInBrowser : Bool
  render : String
  deriving DecidableEq, Repr

/-- Work that begins at once, or in its turn with the browser or the desktop, where the proof is checked again. -/
inductive Stage
  | direct | browser | desktop
  deriving DecidableEq, Repr

namespace ToolCall

def needsLease (call : ToolCall) : Bool := !leaseFreeTools.contains call.name

def interactive (call : ToolCall) : Bool :=
  interactiveInputTools.contains call.name || (call.name == "publish_port" && call.openInBrowser)

/-- What a tool does, one stage after another; it may end after each of them. -/
def stages (browserCapable : Bool) (call : ToolCall) : List Stage :=
  if browserTools.contains call.name then [.browser]
  else if desktopTools.contains call.name then [.desktop]
  else if call.name = "publish_port" ∧ call.openInBrowser=true then [.direct,.browser]
  else if call.name = "web_extract" ∧ call.render = "browser" then (if browserCapable then [.browser] else [.direct])
  else if call.name = "web_extract" ∧ call.render = "auto" ∧ browserCapable=true then [.direct,.browser]
  else [.direct]

end ToolCall

/- `key` says whose state it is; the code has the keys in its map only. -/
structure CompatibilityLeaseState where
  key : String
  proof : Option LeaseProof
  acquiring : Option ℕ
  touchedAt : ℤ
  deriving DecidableEq, Repr

inductive AcquisitionStage
  | requested | stored | finished
  deriving DecidableEq, Repr

/- A promise of `ensureLease`. The lease is granted when it is made, its callbacks run later; `key` is read by no code. -/
structure Acquisition where
  state : ℕ
  key : String
  result : Except QubiclError LeaseProof
  stage : AcquisitionStage

inductive Outcome
  | finished
  | failed (error : QubiclError)
  | threw
  deriving DecidableEq, Repr

/-- Where a request goes on. -/
inductive Phase
  | plain
  | acquiring (attempt a : ℕ)
  | holding (attempt : ℕ) (proof : LeaseProof)
  | queued (attempt : ℕ) (proof : LeaseProof) (stage : Stage) (rest : List Stage)
  | working (attempt : ℕ) (proof : LeaseProof) (rest : List Stage)
  | rejected (attempt : ℕ) (proof : LeaseProof) (error : QubiclError)
  | releasing (result : Except QubiclError ℕ)
  | ended (outcome : Outcome)

/-- `openTerminalLeaseActor` makes an actor that the manager accepts. -/
structure CompatibilityActor where
  actor : LeaseActor
  valid : validateLeaseActor actor=.ok actor

/- A call of a tool, or an action of `withLease`. Read by no code: how often the action was invoked, and for each dispatch of
the tool, the last first, whether its work has begun. -/
structure Request where
  key : String
  call : Option ToolCall
  actor : CompatibilityActor
  state : ℕ
  phase : Phase
  invoked : ℕ
  dispatches : List Bool

/- `uses` says which proofs requests have used, and is read by no code. -/
structure Compatibility where
  manager : LeaseManager
  browserCapable : Bool
  leases : List (String × ℕ)
  states : List CompatibilityLeaseState
  acquisitions : List Acquisition
  requests : List Request
  uses : List (String × LeaseProof)

/- What an acquisition meets: the next random ID, or an error before it comes to the manager. -/
structure Draw where
  id : Base64Url
  refusal : Option QubiclError
  plain : ∀ error ∈ refusal, error.code ≠ "stale_lease"

def leaseSeconds : ℤ := 600
def maxSessionCwds : ℕ := 256

def sessionLimit : QubiclError :=
  ⟨"session_limit","Open Terminal supports at most 256 active client sessions. Release an idle connection and retry.",429,[]⟩

/-- `beforeDispatch` -/
def beforeDispatch (error : QubiclError) : QubiclError :=
  if error.code = "stale_lease" ∨ error.code = "background_lease" then
    { error with details := mapSet "dispatch" (.text "not-started") error.details }
  else error

/-- The errors after which `callTool` may dispatch again. -/
def refusesProof (error : QubiclError) : Bool :=
  decide (error.details.lookup "dispatch" = some (.text "not-started")) &&
    (decide (error.code = "stale_lease") || decide (error.code = "background_lease"))

namespace Compatibility

def modifyRequest (c : ℕ) (f : Request → Request) (w : Compatibility) : Compatibility :=
  { w with requests := w.requests.modify c f }

def setPhase (c : ℕ) (phase : Phase) (w : Compatibility) : Compatibility :=
  w.modifyRequest c fun r => { r with phase := phase }

def modifyState (i : ℕ) (f : CompatibilityLeaseState → CompatibilityLeaseState) (w : Compatibility) : Compatibility :=
  { w with states := w.states.modify i f }

def touchedAt (w : Compatibility) (i : ℕ) : ℤ := ((w.states[i]?).map (·.touchedAt)).getD 0

def idle (w : Compatibility) (i : ℕ) : Bool := (w.states[i]?).any fun state => state.acquiring.isNone && state.proof.isNone

def oldestIdle (w : Compatibility) : Option (String × ℕ) :=
  ((w.leases.filter fun entry => w.idle entry.2).mergeSort fun left right =>
    decide (w.touchedAt left.2≤w.touchedAt right.2)).head?

def addState (key : String) (w : Compatibility) : ℕ × Compatibility :=
  (w.states.length,
    { w with
      states := w.states++[⟨key,none,none,w.manager.now⟩]
      leases := w.leases++[(key,w.states.length)] })

/-- `currentLeaseState`, unless it throws. -/
def currentLeaseState (key : String) (w : Compatibility) : Option (ℕ × Compatibility) :=
  match w.leases.lookup key with
  | some i => some (i,w)
  | none =>
    if w.leases.length < maxSessionCwds then some (w.addState key)
    else
      w.oldestIdle.map fun oldest =>
        let evicted : Compatibility := { w with leases := mapDelete oldest.1 w.leases }
        evicted.addState key

/- `executor.call('acquire_lease', …)` -/
def acquireLease (actor : CompatibilityActor) (draw : Draw) (w : Compatibility) : Compatibility × Except QubiclError LeaseProof :=
  match draw.refusal with
  | some error => (w,.error error)
  | none =>
    let (manager,result) := acquire leaseSeconds (some actor.actor) draw.id w.manager
    ({ w with manager := manager },result.map PublicLease.toLeaseProof)

/-- `ensureLease`, up to its suspension. -/
def ensureLease (c attempt : ℕ) (key : String) (actor : CompatibilityActor) (draw : Draw) (w : Compatibility) : Compatibility :=
  match w.currentLeaseState key with
  | none => w.setPhase c (.ended (.failed sessionLimit))
  | some (i,w) =>
    let w:=w.modifyState i fun state => { state with touchedAt := w.manager.now }
    match w.states[i]? with
    | none => w
    | some state =>
      match state.proof, state.acquiring with
      | some proof, _ => w.setPhase c (.holding attempt proof)
      | none, some a => w.setPhase c (.acquiring attempt a)
      | none, none =>
        let a:=w.acquisitions.length
        let (w,result) := w.acquireLease actor draw
        let made : Compatibility := { w with acquisitions := w.acquisitions++[⟨i,key,result,.requested⟩] }
        (made.modifyState i fun state => { state with acquiring := some a }).setPhase c (.acquiring attempt a)

/-- The callback of `then`. -/
def storeProof (a : ℕ) (w : Compatibility) : Option Compatibility :=
  match w.acquisitions[a]? with
  | some acquisition =>
    match acquisition.stage with
    | .requested =>
      let stored:={ w with acquisitions := w.acquisitions.modify a fun acquisition => { acquisition with stage := .stored } }
      match acquisition.result with
      | .ok proof => some (stored.modifyState acquisition.state fun state => { state with proof := some proof })
      | .error _ => some stored
    | _ => none
  | none => none

/-- The callback of `finally`. -/
def finishAcquiring (a : ℕ) (w : Compatibility) : Option Compatibility :=
  match w.acquisitions[a]? with
  | some acquisition =>
    match acquisition.stage with
    | .stored =>
      some ({ w with acquisitions := w.acquisitions.modify a fun acquisition => { acquisition with stage := .finished } }.modifyState
        acquisition.state fun state => { state with acquiring := none })
    | _ => none
  | none => none

/-- A request that waited for the promise. -/
def joined (c : ℕ) (w : Compatibility) : Option Compatibility :=
  match (w.requests[c]?).map Request.phase with
  | some (.acquiring attempt a) =>
    match w.acquisitions[a]? with
    | some acquisition =>
      match acquisition.stage, acquisition.result with
      | .finished, .ok proof => some (w.setPhase c (.holding attempt proof))
      | .finished, .error error => some (w.setPhase c (.ended (.failed error)))
      | _, _ => none
    | none => none
  | _ => none

/- `if (sameProof(state.proof, proof)) state.proof = undefined`, and whether it was the same. -/
def remembers (i : ℕ) (proof : LeaseProof) (w : Compatibility) : Bool :=
  (w.states[i]?).any fun state => state.proof.any fun kept => sameProof kept proof

def forget (i : ℕ) (w : Compatibility) : Compatibility := w.modifyState i fun state => { state with proof := none }

/-- `callTool` or `withLease`, up to its first suspension. -/
def start (key : String) (call : Option ToolCall) (actor : CompatibilityActor) (draw : Draw) (w : Compatibility) : Compatibility :=
  let c:=w.requests.length
  if call.any (!·.needsLease) then { w with requests := w.requests++[⟨key,call,actor,0,.plain,0,[true]⟩] }
  else
    match w.currentLeaseState key with
    | none => { w with requests := w.requests++[⟨key,call,actor,0,.ended (.failed sessionLimit),0,[]⟩] }
    | some (i,w) =>
      let asked : Compatibility := { w with requests := w.requests++[⟨key,call,actor,i,.acquiring 0 0,0,[]⟩] }
      asked.ensureLease c 0 key actor draw

/-- The next stage of a tool. -/
def enter (c attempt : ℕ) (proof : LeaseProof) (stages : List Stage) (w : Compatibility) : Compatibility :=
  match stages with
  | [] => w.setPhase c (.working attempt proof [])
  | .direct::rest =>
    w.modifyRequest c fun r => { r with phase := .working attempt proof rest, dispatches := true::r.dispatches.drop 1 }
  | stage::rest => w.setPhase c (.queued attempt proof stage rest)

/-- `executor.call` of a tool, up to its first suspension; `refusal` is an error before the lease is checked. -/
def dispatch (c attempt : ℕ) (proof : LeaseProof) (call : ToolCall) (refusal : Option QubiclError) (w : Compatibility) :
    Compatibility :=
  let w:=w.modifyRequest c fun r => { r with dispatches := false::r.dispatches }
  match refusal with
  | some error => w.setPhase c (.rejected attempt proof error)
  | none =>
    match verify proof true w.manager with
    | (manager,.error error) => { w with manager := manager }.setPhase c (.rejected attempt proof (beforeDispatch error))
    | (manager,.ok owner) =>
      if call.interactive then
        match verifyInteractive owner manager with
        | (manager,.error error) => { w with manager := manager }.setPhase c (.rejected attempt proof (beforeDispatch error))
        | (manager,.ok _) => { w with manager := manager }.enter c attempt proof (call.stages w.browserCapable)
      else { w with manager := manager }.enter c attempt proof (call.stages w.browserCapable)

/-- `withLease` with a proof. -/
def invoke (c attempt : ℕ) (proof : LeaseProof) (r : Request) (draw : Draw) (w : Compatibility) : Compatibility :=
  match verify proof true w.manager with
  | (manager,.ok _) =>
    { w with manager := manager }.modifyRequest c fun r =>
      { r with phase := .working attempt proof [], invoked := r.invoked+1 }
  | (manager,.error error) =>
    let w:={ w with manager := manager }
    if error.code ≠ "stale_lease" ∨ 0<attempt then w.setPhase c (.ended (.failed error))
    else (if w.remembers r.state proof then w.forget r.state else w).ensureLease c 1 r.key r.actor draw

/-- A request goes on with its proof. -/
def go (c : ℕ) (refusal : Option QubiclError) (draw : Draw) (w : Compatibility) : Option Compatibility :=
  match w.requests[c]? with
  | some r =>
    match r.phase with
    | .holding attempt proof =>
      let w:={ w with uses := (r.key,proof)::w.uses }
      match r.call with
      | none => some (w.invoke c attempt proof r draw)
      | some call => if refusal.any refusesProof then none else some (w.dispatch c attempt proof call refusal)
    | _ => none
  | none => none

/-- A tool has its turn with the browser or the desktop. -/
def turn (c : ℕ) (w : Compatibility) : Option Compatibility :=
  match (w.requests[c]?).map Request.phase with
  | some (.queued attempt proof stage rest) =>
    match if stage=.desktop then verifyInteractive proof w.manager else verify proof false w.manager with
    | (manager,.error error) => some ({ w with manager := manager }.setPhase c (.rejected attempt proof (beforeDispatch error)))
    | (manager,.ok _) =>
      some ({ w with manager := manager }.modifyRequest c fun r =>
        { r with phase := .working attempt proof rest, dispatches := true::r.dispatches.drop 1 })
  | _ => none

/-- The work of a stage is done, and another is to come. -/
def advance (c : ℕ) (w : Compatibility) : Option Compatibility :=
  match (w.requests[c]?).map Request.phase with
  | some (.working attempt proof (stage::rest)) => some (w.enter c attempt proof (stage::rest))
  | _ => none

/-- The tool or the action ends. Work that has begun does not say that it was not started: `afterDispatch`. -/
def finish (c : ℕ) (outcome : Outcome) (w : Compatibility) : Option Compatibility :=
  match w.requests[c]? with
  | some r =>
    match r.phase, outcome with
    | .plain, _ => some (w.setPhase c (.ended outcome))
    | .working .., .failed error =>
      if r.call.isSome && refusesProof error then none else some (w.setPhase c (.ended outcome))
    | .working .., _ => some (w.setPhase c (.ended outcome))
    | _, _ => none
  | none => none

/-- The `catch` of `callTool`. -/
def caught (c : ℕ) (draw : Draw) (w : Compatibility) : Option Compatibility :=
  match w.requests[c]? with
  | some r =>
    match r.phase with
    | .rejected attempt proof error =>
      if refusesProof error=false ∨ 0<attempt then some (w.setPhase c (.ended (.failed error)))
      else if w.remembers r.state proof then
        let w:=w.forget r.state
        if error.code = "background_lease" then
          let (manager,result) := release proof w.manager
          some ({ w with manager := manager }.setPhase c (.releasing result))
        else some (w.ensureLease c 1 r.key r.actor draw)
      else some (w.ensureLease c 1 r.key r.actor draw)
    | _ => none
  | none => none

/-- `release_lease` has ended for `callTool`. -/
def released (c : ℕ) (draw : Draw) (w : Compatibility) : Option Compatibility :=
  match w.requests[c]? with
  | some r =>
    match r.phase with
    | .releasing (.error error) =>
      if error.code = "stale_lease" then some (w.ensureLease c 1 r.key r.actor draw) else some (w.setPhase c (.ended (.failed error)))
    | .releasing (.ok p) =>
      match (w.manager.jobs p).map RevocationJob.phase with
      | some (.fulfilled _) => some (w.ensureLease c 1 r.key r.actor draw)
      | some (.rejected _) => some (w.setPhase c (.ended .threw))
      | _ => none
    | _ => none
  | none => none

end Compatibility

inductive CompatibilityAction
  | lease (action : LeaseAction)
  | start (key : String) (call : Option ToolCall) (actor : CompatibilityActor) (draw : Draw)
  | storeProof (a : ℕ)
  | finishAcquiring (a : ℕ)
  | joined (c : ℕ)
  | go (c : ℕ) (refusal : Option QubiclError) (draw : Draw)
  | turn (c : ℕ)
  | advance (c : ℕ)
  | finish (c : ℕ) (outcome : Outcome)
  | caught (c : ℕ) (draw : Draw)
  | released (c : ℕ) (draw : Draw)
  | shutdown

/-- The map is emptied when the service ends; what it releases then is an action of the manager. -/
def Compatibility.step (w : Compatibility) : CompatibilityAction → Option Compatibility
  | .lease action => (leaseStep w.manager action).map fun manager => { w with manager := manager }
  | .start key call actor draw => some (w.start key call actor draw)
  | .storeProof a => w.storeProof a
  | .finishAcquiring a => w.finishAcquiring a
  | .joined c => w.joined c
  | .go c refusal draw => w.go c refusal draw
  | .turn c => w.turn c
  | .advance c => w.advance c
  | .finish c outcome => w.finish c outcome
  | .caught c draw => w.caught c draw
  | .released c draw => w.released c draw
  | .shutdown => some { w with leases := [] }

def compatibilitySystem : TransitionSystem Compatibility CompatibilityAction where
  initial w := ∃ now epoch browserCapable, w=⟨create now epoch,browserCapable,[],[],[],[],[]⟩
  step := Compatibility.step

end Qubicl.Control.OpenTerminal
