import Qubicl.Cli.Restore.Command
import Qubicl.Foundation.Checked
import Qubicl.Foundation.Transition

/-!
# Commands that change ports or membership (packages/cli/src/ssh-access.ts:134-260, commands.ts:383-440,
478-560, 1180-1262, 1463-1526, gateway-command.ts:130-303, docker.ts:1885-1919, runtime.ts:422-605)

A command is accepted or changes nothing. Its transaction removes the containers that it replaces;
its starts, and the replacement of the gateway, are steps that follow.
-/

namespace Qubicl.Cli.Ports
open Foundation Core

structure Socket where
  address : String
  port : ℕ
  deriving DecidableEq, Repr

def Socket.wildcard (s : Socket) : Bool := s.address == "0.0.0.0" || s.address == "::"

/- One of the two cannot listen while the other does. -/
def Socket.overlaps (s other : Socket) : Bool :=
  s.port == other.port && (s.address == other.address || s.wildcard || other.wildcard)

def loopback (port : ℕ) : Socket := ⟨"127.0.0.1",port⟩

inductive Owner
  | gatewayLocal
  | gatewayExternal
  | computer (id : String)
  | process (pid : ℕ)
  deriving DecidableEq, Repr

inductive Container
  | absent
  | stopped
  | running
  deriving DecidableEq, Repr

structure Host where
  state : LoadedState
  trash : List ComputerMetadata
  gateway : Container
  running : List String
  sockets : List (Owner × Socket)

def portAvailable (host : Host) (s : Socket) : Bool := host.sockets.all fun bound => !bound.2.overlaps s

/- A gateway that publishes the port already is the one that will use it. -/
def assertGatewayPort (host : Host) (port : ℕ) : Except String Unit :=
  if portAvailable host (loopback port) || host.sockets.contains (.gatewayLocal,loopback port) then .ok ()
  else .error s!"Gateway port 127.0.0.1:{port} is already in use. Choose another with --gateway-port."

def exposureSocket (exposure : GatewayExposureConfig) : Socket := ⟨exposure.bindAddress,exposure.port⟩

def assertGatewayPorts (host : Host) : Except String Unit := do
  assertGatewayPort host host.state.config.gateway.port
  match host.state.config.gateway.exposure with
  | none => .ok ()
  | some exposure =>
    if exposure.port=host.state.config.gateway.port then
      .error s!"External TLS port {exposure.port} must differ from the local gateway port."
    else if portAvailable host (exposureSocket exposure) ||
        host.sockets.contains (.gatewayExternal,exposureSocket exposure) then .ok ()
    else .error s!"Gateway TLS port {exposure.bindAddress}:{exposure.port} is already in use."

def sshPort (computer : ComputerConfig) : Option ℕ := (computer.ssh.filter (·.enabled)).map (·.port)

def sshPorts (computers : List ComputerConfig) : List ℕ := computers.filterMap sshPort

def composePorts (config : QubiclConfig) : List Socket :=
  loopback config.gateway.port::(config.gateway.exposure.map exposureSocket).toList ++
    (sshPorts config.computers).map loopback

def hostPorts (config : QubiclConfig) : List ℕ := (composePorts config).map (·.port)

variable (z : Formats)

def executeStateTransaction (state : LoadedState) : Except String LoadedState :=
  match (configSchema z stateFormatVersion).parse state.config with
  | some config => .ok { state with config }
  | none => .error "invalid state transaction"

def findComputer (host : Host) (name : String) : Except String ComputerConfig :=
  match host.state.config.computers.find? (·.name == name) with
  | some computer => .ok computer
  | none => .error s!"No computer named {name}."

def LoadedState.withComputers (state : LoadedState) (computers : List ComputerConfig) : LoadedState :=
  { state with config := { state.config with computers } }

def LoadedState.withGateway (state : LoadedState) (gateway : GatewayConfig) : LoadedState :=
  { state with config := { state.config with gateway } }

def replaceComputer (computers : List ComputerConfig) (computer : ComputerConfig) : List ComputerConfig :=
  computers.map fun old => if old.id=computer.id then computer else old

def Host.released (host : Host) (owners : List Owner) : List (Owner × Socket) :=
  host.sockets.filter fun bound => bound.1 ∉ owners

/- A container that is removed, or will be replaced. -/
def Host.stopComputers (host : Host) (ids : List String) : Host :=
  { host with
    running := host.running.filter (· ∉ ids)
    sockets := host.released (ids.map Owner.computer) }

def Host.stopGateway (host : Host) : Host :=
  { host with
    gateway := if host.gateway=.running then .stopped else host.gateway
    sockets := host.released [.gatewayLocal,.gatewayExternal] }

inductive SshAction
  | enable
  | rotate
  | disable
  deriving DecidableEq, Repr

structure SshKey where
  publicKey : String
  fingerprint : String
  deriving DecidableEq, Repr

def managedSshForCompatibility (compatibility : Preset) : Bool :=
  compatibility == .computer || compatibility == .workstation

def sshPortRange : List ℕ := (List.range 780).map (22220 + ·)

/- A `--port` that is no natural number is refused like one out of range. -/
def nextPort (host : Host) (requested : Option ℕ) : Except String ℕ :=
  match requested with
  | some port =>
    if !within 1024 65535 port then .error "--port must be an integer from 1024 through 65535."
    else if !portAvailable host (loopback port) then .error s!"127.0.0.1:{port} is already in use."
    else .ok port
  | none =>
    match sshPortRange.find? fun port => portAvailable host (loopback port) with
    | some port => .ok port
    | none => .error "No available loopback SSH port was found in 22220-22999; provide --port."

def sshEnabled (computer : ComputerConfig) : Bool := computer.ssh.any (·.enabled)

/- The port of an access that is there stays. -/
def chosenPort (host : Host) (computer : ComputerConfig) (action : SshAction) (requestedPort : Option ℕ) :
    Except String ℕ :=
  match action, computer.ssh with
  | .enable, _ => nextPort host requestedPort
  | _, some ssh => .ok ssh.port
  | _, none => .error s!"SSH access is not enabled for {computer.name}."

def changedSsh (action : SshAction) (port : ℕ) (key : SshKey) : Except String (Option SshAccess) :=
  match action with
  | .disable => .ok none
  | _ =>
    let ssh : SshAccess := ⟨true,port,key.publicKey,key.fingerprint⟩
    if sshAccessSchema ssh then .ok (some ssh) else .error "invalid SSH access"

def assertSshAction (computer : ComputerConfig) (action : SshAction) : Except String Unit :=
  match action with
  | .enable =>
    if !managedSshForCompatibility computer.compatibility then
      .error "SSH access requires a computer- or workstation-compatible computer."
    else if sshEnabled computer then .error s!"SSH access is already enabled for {computer.name}."
    else .ok ()
  | _ => if sshEnabled computer then .ok () else .error s!"SSH access is not enabled for {computer.name}."

def changeSshAccess (host : Host) (name : String) (action : SshAction) (requestedPort : Option ℕ) (key : SshKey) :
    Except String Host := do
  let computer ← findComputer host name
  assertSshAction computer action
  if computer.id ∈ host.running ∧ host.gateway≠.running then
    .error "Changing SSH on a running computer requires its managed gateway to be running; no keys or state were changed."
  else do
    let port ← chosenPort host computer action requestedPort
    let ssh ← changedSsh action port key
    let computers:=replaceComputer host.state.config.computers { computer with ssh }
    let state ← executeStateTransaction z (LoadedState.withComputers host.state computers)
    .ok { host.stopComputers [computer.id] with state }

structure ConfigRequest where
  gatewayPort : Option ℕ
  viewerReconnectGraceSeconds : Option ℕ
  defaults : Option ComputerDefaults

def setConfig (host : Host) (requested : ConfigRequest) : Except String Host := do
  let prior:=host.state.config
  let gateway:={ prior.gateway with
    port := requested.gatewayPort.getD prior.gateway.port
    viewerReconnectGraceSeconds :=
      requested.viewerReconnectGraceSeconds <|> prior.gateway.viewerReconnectGraceSeconds }
  let config:={ prior with gateway, defaults := requested.defaults.getD prior.defaults }
  let state ← executeStateTransaction z { host.state with config }
  (if gateway.port≠prior.gateway.port then assertGatewayPort host gateway.port else .ok ())
  .ok { host with state }

def currentlyManaged (host : Host) (exposure : GatewayExposureConfig) : Bool :=
  (host.state.config.gateway.exposure.map exposureSocket) == some (exposureSocket exposure) &&
    host.gateway != .absent

def exposeGateway (host : Host) (exposure : GatewayExposureConfig) (tls : GatewayExposureTlsSecret) :
    Except String Host := do
  let gateway:=host.state.config.gateway
  if gateway.port=exposure.port then
    .error s!"External TLS port {exposure.port} must differ from the local gateway port."
  else if !currentlyManaged host exposure && !portAvailable host (exposureSocket exposure) then
    .error s!"{exposure.bindAddress}:{exposure.port} is already in use."
  else do
    let exposed:=LoadedState.withGateway host.state { gateway with exposure := some exposure }
    let state ← executeStateTransaction z
      { exposed with secrets := { exposed.secrets with gateway := some ⟨tls⟩ } }
    .ok { host with state }

def revokeGateway (host : Host) : Except String Host := do
  let revoked:=LoadedState.withGateway host.state { host.state.config.gateway with exposure := none }
  let state ← executeStateTransaction z { revoked with secrets := { revoked.secrets with gateway := none } }
  .ok { host with state }

/- `while (used.has(name)) nextName += 1`: one more candidate than there are names. -/
def allocateName (config : QubiclConfig) : String × ℕ :=
  let candidates:=(List.range (config.computers.length+1)).map (config.nextName + ·)
  let free:=candidates.find? fun n => !config.computers.any (·.name == s!"qubicl-{n}")
  let n:=free.getD config.nextName
  (s!"qubicl-{n}",n+1)

/- What `creationPolicySelection` returns. -/
structure CreationPolicy where
  toolPolicy : Option (List ComputerToolName)
  skillPolicy : Option SkillPolicy

def CreationPolicy.apply (policy : CreationPolicy) (computer : ComputerConfig) : ComputerConfig :=
  { computer with
    toolPolicy := policy.toolPolicy <|> computer.toolPolicy
    skillPolicy := policy.skillPolicy <|> computer.skillPolicy }

def createComputer (host : Host) (fresh : FreshValues) (requestedName : Option String) (defaults : ComputerDefaults)
    (policy : CreationPolicy) : Except String Host := do
  let (name,nextName) := match requestedName with
    | some name => (name,host.state.config.nextName)
    | none => allocateName host.state.config
  let named:={ host.state with config := { host.state.config with nextName } }
  let (computer,added) ← addConfiguredComputer z fresh name defaults named
  let created:=LoadedState.withComputers added (replaceComputer added.config.computers (policy.apply computer))
  let state ← executeStateTransaction z created
  .ok { host with state }

theorem createComputer_ok {host after : Host} {fresh : FreshValues} {requestedName : Option String} {defaults : ComputerDefaults}
    {policy : CreationPolicy} (h : createComputer z host fresh requestedName defaults policy=.ok after) :
    ∃ name nextName computer added state, addConfiguredComputer z fresh name defaults
        { host.state with config := { host.state.config with nextName } }=.ok (computer,added) ∧
      executeStateTransaction z (LoadedState.withComputers added (replaceComputer added.config.computers (policy.apply computer))) =
        .ok state ∧ { host with state }=after := by
  unfold createComputer at h
  generalize (match requestedName with
    | some name => (name,host.state.config.nextName)
    | none => allocateName host.state.config)=named at h
  obtain ⟨name,nextName⟩ := named
  simp only [bind_ok,Except.ok.injEq] at h
  obtain ⟨⟨computer,added⟩,hadd,state,hexe,haft⟩ := h
  exact ⟨name,nextName,computer,added,state,hadd,hexe,haft⟩

/- `delete state.secrets.computers[id]` for each. -/
def forgetSecrets (secrets : QubiclSecrets) (ids : List String) : QubiclSecrets :=
  { secrets with computers :=
      ⟨secrets.computers.entries.filter (·.1 ∉ ids),secrets.computers.nodup.sublist (List.filter_sublist.map _)⟩ }

def moveToTrash (state : LoadedState) (deleted : List ComputerConfig) : LoadedState :=
  { LoadedState.withComputers state (state.config.computers.filter (·.id ∉ deleted.map (·.id))) with
    secrets := forgetSecrets state.secrets (deleted.map (·.id)) }

def trashed (deletedAt : String) (computer : ComputerConfig) : ComputerMetadata :=
  { computer with deletedAt := some deletedAt }

def deleteComputer (host : Host) (name deletedAt : String) : Except String Host := do
  let computer ← findComputer host name
  let state ← executeStateTransaction z (moveToTrash host.state [computer])
  .ok { host.stopComputers [computer.id] with state, trash := host.trash++[trashed deletedAt computer] }

def findTrash (trash : List ComputerMetadata) (name : String) : Except String ComputerMetadata :=
  match trash.filter fun metadata => decide (metadata.name=name ∨ metadata.id=name) with
  | [] => .error s!"No trashed computer named {name}."
  | [metadata] => .ok metadata
  | _ => .error s!"Multiple trashed computers are named {name}; use an immutable ID."

def restoreComputer (host : Host) (fresh : FreshValues) (name : String) : Except String Host := do
  let found ← findTrash host.trash name
  if host.state.config.computers.any (·.name == found.name) then
    .error s!"Active computer name {found.name} is already in use."
  else do
    let restored:=LoadedState.withComputers host.state (host.state.config.computers++[found.toComputerConfig])
    let state ← executeStateTransaction z { restored with
      secrets := { restored.secrets with
        computers := recordSet found.id fresh.secret restored.secrets.computers } }
    .ok { host with state, trash := host.trash.erase found }

def purge (host : Host) (name : String) : Except String Host := do
  let found ← findTrash host.trash name
  .ok { host with trash := host.trash.erase found }

structure ManifestComputer extends ComputerDefaults where
  name : String
  software : Option SoftwareRecipe

structure Manifest where
  port : ℕ
  image : ImageIdentity
  viewerReconnectGraceSeconds : Option ℕ
  defaults : ComputerDefaults
  computers : List ManifestComputer

structure ApplyServices where
  prepareManifestSoftware : ManifestComputer → SoftwareRecipe → String → ComputerDefaults × SoftwareRecipe
  fresh : String → FreshValues

def assignDeclared (services : ApplyServices) (declared : ManifestComputer) (target : ComputerConfig) : ComputerConfig :=
  match declared.software with
  | some software =>
    let prepared:=services.prepareManifestSoftware declared software target.id
    { target with name := declared.name, toComputerDefaults := prepared.1, software := some prepared.2 }
  | none => { target with name := declared.name, toComputerDefaults := declared.toComputerDefaults, software := none }

def applyDeclared (services : ApplyServices) (state : LoadedState) (declared : ManifestComputer) :
    Except String LoadedState :=
  match state.config.computers.find? (·.name == declared.name) with
  | some current =>
    .ok (LoadedState.withComputers state
      (replaceComputer state.config.computers (assignDeclared services declared current)))
  | none => do
    let (computer,added) ← addConfiguredComputer z (services.fresh declared.name) declared.name
      declared.toComputerDefaults state
    .ok (LoadedState.withComputers added
      (replaceComputer added.config.computers (assignDeclared services declared computer)))

def reconcileManifest (config : QubiclConfig) (manifest : Manifest) (prune : Bool) :
    Except String (List ComputerConfig) :=
  if !(manifest.computers.map (·.name)).Nodup then .error "Manifest declares a computer more than once."
  else .ok (if prune then config.computers.filter fun computer => computer.name ∉ manifest.computers.map (·.name)
    else [])

def targetGateway (gateway : GatewayConfig) (manifest : Manifest) : GatewayConfig where
  port := manifest.port
  image := manifest.image
  viewerReconnectGraceSeconds := manifest.viewerReconnectGraceSeconds <|> gateway.viewerReconnectGraceSeconds
  exposure := gateway.exposure

def applyManifest (host : Host) (services : ApplyServices) (manifest : Manifest) (prune : Bool) (deletedAt : String) :
    Except String Host := do
  let prior:=host.state.config
  let deletes ← reconcileManifest prior manifest prune
  (if prior.gateway.port≠manifest.port then assertGatewayPort host manifest.port else .ok ())
  let config:={ prior with gateway := targetGateway prior.gateway manifest, defaults := manifest.defaults }
  let declared ← manifest.computers.foldlM (applyDeclared z services) { host.state with config }
  let parsed ← executeStateTransaction z declared
  let state ← executeStateTransaction z (moveToTrash parsed deletes)
  .ok { host.stopComputers (deletes.map (·.id)) with
    state, trash := host.trash++deletes.map (trashed deletedAt) }

def startGateway (host : Host) : Except String Host := do
  assertGatewayPorts host
  let gateway:=host.state.config.gateway
  .ok { host with
    gateway := .running
    sockets := host.released [.gatewayLocal,.gatewayExternal]++[(.gatewayLocal,loopback gateway.port)] ++
      (gateway.exposure.map fun exposure => (Owner.gatewayExternal,exposureSocket exposure)).toList }

/- Docker publishes the port, or the container does not start. -/
def startComputer (host : Host) (name : String) : Except String Host := do
  let computer ← findComputer host name
  if computer.id ∈ host.running then .ok host
  else
    match sshPort computer with
    | none => .ok { host with running := host.running++[computer.id] }
    | some port =>
      if portAvailable host (loopback port) then
        .ok { host with
          running := host.running++[computer.id]
          sockets := host.sockets++[(.computer computer.id,loopback port)] }
      else .error s!"Bind for 127.0.0.1:{port} failed: port is already allocated"

def stopComputer (host : Host) (name : String) : Except String Host := do
  let computer ← findComputer host name
  .ok (host.stopComputers [computer.id])

inductive Action
  | ssh (name : String) (action : SshAction) (requestedPort : Option ℕ) (key : SshKey)
  | config (requested : ConfigRequest)
  | expose (exposure : GatewayExposureConfig) (tls : GatewayExposureTlsSecret)
  | revoke
  | apply (services : ApplyServices) (manifest : Manifest) (prune : Bool) (deletedAt : String)
  | create (fresh : FreshValues) (requestedName : Option String) (defaults : ComputerDefaults) (policy : CreationPolicy)
  | delete (name deletedAt : String)
  | restore (fresh : FreshValues) (name : String)
  | purge (name : String)
  | start (name : String)
  | stop (name : String)
  | startGateway
  | stopGateway
  | bind (pid : ℕ) (socket : Socket)
  | release (pid : ℕ)

def bindSocket (host : Host) (pid : ℕ) (s : Socket) : Except String Host :=
  if portAvailable host s then .ok { host with sockets := host.sockets++[(.process pid,s)] }
  else .error "EADDRINUSE"

def run (host : Host) : Action → Except String Host
  | .ssh name action requestedPort key => changeSshAccess z host name action requestedPort key
  | .config requested => setConfig z host requested
  | .expose exposure tls => exposeGateway z host exposure tls
  | .revoke => revokeGateway z host
  | .apply services manifest prune deletedAt => applyManifest z host services manifest prune deletedAt
  | .create fresh requestedName defaults policy => createComputer z host fresh requestedName defaults policy
  | .delete name deletedAt => deleteComputer z host name deletedAt
  | .restore fresh name => restoreComputer z host fresh name
  | .purge name => purge host name
  | .start name => startComputer host name
  | .stop name => stopComputer host name
  | .startGateway => startGateway host
  | .stopGateway => .ok host.stopGateway
  | .bind pid s => bindSocket host pid s
  | .release pid => .ok { host with sockets := host.released [.process pid] }

/-- From a new installation; what is refused is no step. -/
def system : TransitionSystem Host Action where
  initial host := host.state.config.computers=[] ∧ host.state.config.gateway.exposure=none ∧ host.trash=[] ∧
    host.gateway=.absent ∧ host.running=[] ∧ ∀ bound ∈ host.sockets, ∃ pid, bound.1 = .process pid
  step host action := (run z host action).toOption

end Qubicl.Cli.Ports
