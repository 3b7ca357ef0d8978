import Qubicl.Core.Computer

/-!
# Configuration and secrets (packages/core/src/config.ts:242-434, 477-480)

The documents of state formats 1 to 5.
-/

namespace Qubicl.Core
open Foundation List

def stateFormatVersion : ℕ := 5
def transactionFormatVersion : ℕ := 5

variable (z : Formats)

structure GatewayConfig where
  port : ℕ
  image : ImageIdentity
  viewerReconnectGraceSeconds : Option ℕ
  exposure : Option GatewayExposureConfig
  deriving DecidableEq, Repr

def validateGateway (value : GatewayConfig) : List Issue :=
  if (value.exposure.map (·.port))=some value.port then
    [⟨["exposure","port"],"external TLS port must differ from the local loopback gateway port"⟩]
  else []

/- The image is an `ImageIdentitySchema` without `manifestSha256`. -/
def gatewayFields (value : GatewayConfig) : Bool :=
  within 1 65535 value.port && imageIdentitySchema value.image && value.image.manifestSha256.isNone &&
    value.viewerReconnectGraceSeconds.all (within 5 300) &&
    value.exposure.all (gatewayExposureConfigSchema z) && (validateGateway value).isEmpty

def gatewayConfigSchema : Schema GatewayConfig where
  parse value :=
    if gatewayFields z value then
      some { value with
        viewerReconnectGraceSeconds := some (value.viewerReconnectGraceSeconds.getD 10) }
    else none
  stable {x y} h := by
    obtain ⟨hfields,hy⟩ := Option.ite_none_right_eq_some.1 h
    cases hy
    apply if_pos
    simp only [gatewayFields,validateGateway,Bool.and_eq_true] at hfields ⊢
    refine ⟨⟨⟨⟨hfields.1.1.1.1,hfields.1.1.1.2⟩,?_⟩,hfields.1.2⟩,hfields.2⟩
    cases hg : x.viewerReconnectGraceSeconds with
    | none => decide
    | some seconds => simpa [hg] using hfields.1.1.2

structure QubiclConfig where
  version : ℕ
  installationId : String
  gateway : GatewayConfig
  defaults : ComputerDefaults
  nextName : ℕ
  computers : List ComputerConfig
  deriving DecidableEq, Repr

/- The loop of `validateConfigComputers` over the IDs and names of the computers. -/
def configComputerIssues (ids names : List String) (index : ℕ) : List (String × String) → List Issue
  | [] => []
  | (id,name)::rest =>
    (if id ∈ ids then
      [⟨["computers",toString index,"id"],"computer IDs must be unique"⟩] else []) ++
    (if name ∈ names then
      [⟨["computers",toString index,"name"],"computer names must be unique"⟩] else []) ++
    configComputerIssues (id::ids) (name::names) (index+1) rest

def validateConfigComputers (computers : List (String × String)) : List Issue :=
  configComputerIssues [] [] 0 computers

variable {computers : List (String × String)}

variable {ids names : List String}

theorem configComputerIssues_nodup {index : ℕ} (h : configComputerIssues ids names index computers=[]) :
    (computers.map Prod.fst).Nodup ∧ ∀ computer ∈ computers, computer.1 ∉ ids := by
  induction computers generalizing ids names index with
  | nil => simp
  | cons computer rest ih =>
    simp only [configComputerIssues,append_eq_nil_iff] at h
    obtain ⟨⟨hid,-⟩,hres⟩ := h
    obtain ⟨hnod,hfre⟩ := ih hres
    have hnot : computer.1 ∉ ids := by
      intro hmem
      simp [hmem] at hid
    simp only [map_cons,nodup_cons,mem_map,mem_cons]
    refine ⟨⟨?_,hnod⟩,?_⟩
    · rintro ⟨other,hother,heq⟩
      exact hfre other hother (heq ▸ mem_cons_self)
    · rintro other (rfl | hother)
      · exact hnot
      · exact fun hmem => hfre other hother (mem_cons_of_mem _ hmem)

theorem validateConfigComputers_nodup
    (h : validateConfigComputers computers=[]) : (computers.map Prod.fst).Nodup :=
  (configComputerIssues_nodup h).1

theorem configComputerIssues_names {index : ℕ} (h : configComputerIssues ids names index computers=[]) :
    (computers.map Prod.snd).Nodup ∧ ∀ computer ∈ computers, computer.2 ∉ names := by
  induction computers generalizing ids names index with
  | nil => simp
  | cons computer rest ih =>
    simp only [configComputerIssues,append_eq_nil_iff] at h
    obtain ⟨⟨-,hnam⟩,hres⟩ := h
    obtain ⟨hnod,hfre⟩ := ih hres
    have hnot : computer.2 ∉ names := by
      intro hmem
      simp [hmem] at hnam
    simp only [map_cons,nodup_cons,mem_map,mem_cons]
    refine ⟨⟨?_,hnod⟩,?_⟩
    · rintro ⟨other,hother,heq⟩
      exact hfre other hother (heq ▸ mem_cons_self)
    · rintro other (rfl | hother)
      · exact hnot
      · exact fun hmem => hfre other hother (mem_cons_of_mem _ hmem)

theorem validateConfigComputers_names
    (h : validateConfigComputers computers=[]) : (computers.map Prod.snd).Nodup :=
  (configComputerIssues_names h).1

def ComputerConfig.identity (value : ComputerConfig) : String × String := (value.id,value.name)

/- `ConfigSchema` is the schema of version 5, `LegacyConfigV4Schema` that of
version 4 and `LegacyConfigV3Schema` that of version 3. -/
def configSchema (version : ℕ) : Schema QubiclConfig where
  parse value :=
    if value.version≠version ∨ !z.uuid value.installationId ∨ !within 1 maxSafeInteger value.nextName
    then none
    else do
      let gateway ← (gatewayConfigSchema z).parse value.gateway
      let defaults ← computerDefaultsSchema.parse value.defaults
      let computers ← (computerConfigSchema z).array.parse value.computers
      if (validateConfigComputers (computers.map ComputerConfig.identity)).isEmpty then
        some { value with gateway, defaults, computers }
      else none
  stable {x y} h := by
    simp only [Option.bind_eq_bind,Option.bind_eq_some_iff,Option.ite_none_left_eq_some,
      Option.ite_none_right_eq_some,Option.some.injEq] at h
    obtain ⟨hfields,gateway,hgateway,defaults,hdefaults,computers,hcomputers,hvalid,rfl⟩ := h
    rw [if_neg hfields]
    simp only [Schema.stable _ hgateway,Schema.stable _ hdefaults,Schema.stable _ hcomputers,
      Option.bind_eq_bind,Option.bind_some,hvalid,if_true]

theorem configSchema_named {version : ℕ} {x y : QubiclConfig} (h : (configSchema z version).parse x=some y) :
    (y.computers.map (·.name)).Nodup ∧ ∀ computer ∈ y.computers, computer.name ≠ "" := by
  simp only [configSchema,Option.bind_eq_bind,Option.bind_eq_some_iff,Option.ite_none_left_eq_some,
    Option.ite_none_right_eq_some,Option.some.injEq] at h
  obtain ⟨-,gateway,-,defaults,-,computers,hcom,hval,rfl⟩ := h
  constructor
  · have hnam:=validateConfigComputers_names (List.isEmpty_iff.1 hval)
    rw [map_map] at hnam
    exact hnam
  · intro computer hmem hemp
    have hfor:=Schema.parse_array_forall₂.1 hcom
    obtain ⟨raw,-,hpar⟩ := forall₂_mem_right hfor hmem
    have hsta:=(computerConfigSchema z).stable hpar
    have hfie : computerFields z computer=true := by
      simp only [computerConfigSchema,Option.ite_none_left_eq_some] at hsta
      simpa using hsta.1
    have hnae : namePattern computer.name=true := by
      simp only [computerFields,plainFields,Bool.and_eq_true] at hfie
      tauto
    rw [hemp] at hnae
    exact absurd hnae (by decide)

structure LegacyComputerConfig where
  id : String
  name : String
  image : String
  cpus : ℚ
  memory : String
  createdAt : String
  deriving DecidableEq, Repr

structure LegacyDefaults where
  image : String
  cpus : ℚ
  memory : String
  deriving DecidableEq, Repr

structure LegacyQubiclConfig where
  version : ℕ
  installationId : Option String
  gatewayPort : ℕ
  nextName : ℕ
  defaults : LegacyDefaults
  computers : List LegacyComputerConfig
  deriving DecidableEq, Repr

/- `/^\d+(?:\.\d+)?[kmg]$/i` -/
def legacyMemory (value : String) : Bool :=
  ((memoryMatch value.toList).bind fun groups => memoryFactor groups.2.2).isSome

def legacyDefaults (value : LegacyDefaults) : Bool :=
  value.image != "" && decide (0<value.cpus) && legacyMemory value.memory

def legacyComputer (value : LegacyComputerConfig) : Bool :=
  z.uuid value.id && namePattern value.name && value.image != "" && decide (0<value.cpus) &&
    legacyMemory value.memory && z.datetime value.createdAt

def LegacyComputerConfig.identity (value : LegacyComputerConfig) : String × String :=
  (value.id,value.name)

def legacyConfigFields (value : LegacyQubiclConfig) : Bool :=
  within 1 65535 value.gatewayPort && within 1 maxSafeInteger value.nextName &&
    legacyDefaults value.defaults && value.computers.all (legacyComputer z) &&
    (validateConfigComputers (value.computers.map LegacyComputerConfig.identity)).isEmpty

def legacyConfigV1Schema : Schema LegacyQubiclConfig where
  parse value :=
    if value.version=1 ∧ legacyConfigFields z value then some { value with installationId := none }
    else none
  stable {x y} h := by
    obtain ⟨hfields,hy⟩ := Option.ite_none_right_eq_some.1 h
    cases hy
    exact if_pos hfields

def legacyConfigV2Schema : Schema LegacyQubiclConfig :=
  .check fun value => decide (value.version=2) && value.installationId.any z.uuid &&
    legacyConfigFields z value

structure ComputerMetadata extends ComputerConfig where
  deletedAt : Option String
  deriving DecidableEq, Repr

structure LegacyMetadata extends LegacyComputerConfig where
  deletedAt : Option String
  deriving DecidableEq, Repr

/- `extend` keeps the refinements of `ComputerConfigSchema`. -/
def metadataSchema : Schema ComputerMetadata where
  parse value :=
    if value.deletedAt.all z.datetime then
      ((computerConfigSchema z).parse value.toComputerConfig).map fun computer =>
        { value with toComputerConfig := computer }
    else none
  stable {x y} h := by
    obtain ⟨hdate,hmap⟩ := Option.ite_none_right_eq_some.1 h
    obtain ⟨computer,hcomputer,rfl⟩ := Option.map_eq_some_iff.1 hmap
    rw [if_pos hdate,Schema.stable _ hcomputer]
    rfl

theorem metadataSchema_deletedAt {x y : ComputerMetadata} (h : (metadataSchema z).parse x=some y) :
    y.deletedAt=x.deletedAt := by
  obtain ⟨-,hmap⟩ := Option.ite_none_right_eq_some.1 h
  obtain ⟨computer,-,rfl⟩ := Option.map_eq_some_iff.1 hmap
  rfl

def legacyMetadataV2Schema (value : LegacyMetadata) : Bool :=
  legacyComputer z value.toLegacyComputerConfig && value.deletedAt.all z.datetime

inductive HttpMethod
  | get | post | put | patch | delete
  deriving DecidableEq, Repr

inductive CredentialProvider
  | direct (value : String)
  | environment (name : String)
  | file (path : String)
  | secretTool (service account : String)
  | macosKeychain (service account : String)
  deriving DecidableEq, Repr

structure BrokerCredential where
  id : String
  baseUrl : String
  pathPrefix : String
  methods : List HttpMethod
  header : String
  provider : CredentialProvider
  expiresAt : Option String
  deriving DecidableEq, Repr

/- `/^[A-Za-z0-9-]{1,80}$/` -/
def headerPattern : String → Bool :=
  open Regex in
  let part:=choice [upper,lower,digit,oneOf "-"]
  (seq part (upTo 79 part)).test

def credentialProviderSchema : CredentialProvider → Bool
  | .direct value => lengthWithin 1 32768 value
  | .environment name => environmentName name
  | .file path => path.startsWith "/" && lengthWithin 0 4096 path
  | .secretTool service account | .macosKeychain service account =>
    lengthWithin 1 256 service && lengthWithin 1 256 account

def brokerCredentialSchema (value : BrokerCredential) : Bool :=
  clientCredentialId value.id && z.httpsUrl value.baseUrl && lengthWithin 0 2048 value.baseUrl &&
    value.pathPrefix.startsWith "/" && lengthWithin 0 2048 value.pathPrefix &&
    sizeWithin 1 5 value.methods && headerPattern value.header &&
    credentialProviderSchema value.provider && value.expiresAt.all z.datetime

structure ComputerSecret where
  token : String
  internalKey : String
  clients : Option (List ClientCredential)
  brokerCredentials : Option (List BrokerCredential)
  deriving DecidableEq, Repr

def clientsValid (clients : List ClientCredential) : Bool :=
  sizeWithin 0 64 clients && allUnique (clients.map (·.id)) && !(clients.any fun client => client.id == "default")

def clientsSchema : Schema (List ClientCredential) :=
  (clientCredentialSchema z).array.refine clientsValid

def computerSecretSchema : Schema ComputerSecret where
  parse value :=
    if 32≤utf16Length value.token ∧ 32≤utf16Length value.internalKey ∧
        value.brokerCredentials.all fun credentials =>
          sizeWithin 0 64 credentials && credentials.all (brokerCredentialSchema z) then
      ((clientsSchema z).optional.parse value.clients).map fun clients => { value with clients }
    else none
  stable {x y} h := by
    obtain ⟨hfields,hmap⟩ := Option.ite_none_right_eq_some.1 h
    obtain ⟨clients,hclients,rfl⟩ := Option.map_eq_some_iff.1 hmap
    rw [if_pos hfields,Schema.stable _ hclients]
    rfl

structure GatewaySecrets where
  tls : GatewayExposureTlsSecret
  deriving DecidableEq, Repr

structure QubiclSecrets where
  version : ℕ
  computers : Record ComputerSecret
  gateway : Option GatewaySecrets
  deriving DecidableEq, Repr

def secretsSchema (version : ℕ) : Schema QubiclSecrets where
  parse value :=
    if value.version=version ∧
        value.gateway.all fun gateway => gatewayExposureTlsSecretSchema gateway.tls then
      ((Schema.record z.uuid (computerSecretSchema z)).parse value.computers).map fun computers =>
        { value with computers }
    else none
  stable {x y} h := by
    obtain ⟨hfields,hmap⟩ := Option.ite_none_right_eq_some.1 h
    obtain ⟨computers,hcomputers,rfl⟩ := Option.map_eq_some_iff.1 hmap
    rw [if_pos hfields,Schema.stable _ hcomputers]
    rfl

/- `LegacySecretsV1Schema` and `LegacySecretsV2Schema` know no gateway. -/
def legacySecretsSchema (version : ℕ) : Schema QubiclSecrets where
  parse value :=
    if value.version=version then
      ((Schema.record z.uuid (computerSecretSchema z)).parse value.computers).map fun computers =>
        { value with computers, gateway := none }
    else none
  stable {x y} h := by
    obtain ⟨hfields,hmap⟩ := Option.ite_none_right_eq_some.1 h
    obtain ⟨computers,hcomputers,rfl⟩ := Option.map_eq_some_iff.1 hmap
    rw [if_pos hfields,Schema.stable _ hcomputers]
    rfl

structure StateComputerIdMismatch where
  missingSecrets : List String
  orphanSecrets : List String
  deriving DecidableEq, Repr

def stateComputerIdMismatch (configIds secretIds : List String) : StateComputerIdMismatch where
  missingSecrets := ((distinct configIds).filter (· ∉ secretIds)).mergeSort
  orphanSecrets := ((distinct secretIds).filter (· ∉ configIds)).mergeSort

def assertStateComputerIdsMatch (configIds secretIds : List String) : Except String Unit :=
  let mismatch:=stateComputerIdMismatch configIds secretIds
  let shown:=fun ids : List String => if ids.isEmpty then "none" else ", ".intercalate ids
  if mismatch.missingSecrets.isEmpty ∧ mismatch.orphanSecrets.isEmpty then .ok ()
  else .error ("Config/secrets computer IDs do not match: missing secrets for IDs: " ++
    shown mismatch.missingSecrets ++ "; orphan secrets for IDs: " ++ shown mismatch.orphanSecrets ++ ".")

end Qubicl.Core
