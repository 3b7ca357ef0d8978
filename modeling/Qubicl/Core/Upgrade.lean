import Qubicl.Core.Transaction

/-!
# Upgrades to the current format (packages/core/src/config.ts:697-916)

The migrations of computers, metadata, configuration and secrets from formats 1 to 4, and `parseStateTransactionDocument`. A
migration throws where a schema rejects its result; `none` stands for that.
-/

namespace Qubicl.Core
open Foundation

/- `presetDefaults('workstation')` is the result of `ComputerDefaultsSchema`, and
`catalogImageIdentity(IMAGE_CATALOG.gateway)` that of `ImageIdentitySchema`. -/
structure Build where
  packagedDefaultComputerImage : String
  workstation : ComputerDefaults
  gatewayImage : ImageIdentity
  workstation_normal : computerDefaultsSchema.Normal workstation
  gateway_valid : imageIdentitySchema gatewayImage=true ∧ gatewayImage.manifestSha256=none

def imageIdentity (requested resolved : String) (manifestSha256 : Option String) :
    Option ImageIdentity :=
  let identity : ImageIdentity :=
    { requested, resolved, contentId := none, manifestSha256 := manifestSha256.filter (· != "") }
  if imageIdentitySchema identity then some identity else none

variable (z : Formats) (b : Build)

def knownFullImages : List String :=
  ["qubicl/computer:dev","qubicl/workstation:dev",b.packagedDefaultComputerImage,
    b.workstation.image.requested,b.workstation.image.resolved]

/- With the CPUs and the memory that the callers add. -/
def legacyContract (image : String) (cpus : ℚ) (memory : String) : Option ComputerDefaults := do
  let identity ← imageIdentity image image b.workstation.image.manifestSha256
  some {
    preset := if image ∈ knownFullImages b then .curated .workstation else .custom
    compatibility := .workstation
    image := identity
    capabilityContractVersion := capabilityContractVersion
    capabilities := capabilitiesForCompatibility .workstation
    cpus
    memory }

def ComputerConfig.bare (contract : ComputerDefaults) (id name createdAt : String) : ComputerConfig where
  toComputerDefaults := contract
  id := id
  name := name
  createdAt := createdAt
  runtimeName := none
  controlProtocolVersion := none
  browser := none
  devcontainer := none
  software := none
  network := none
  ssh := none
  environment := none
  toolPolicy := none
  skillPolicy := none
  tasks := none
  storage := none

def migrateComputerV2 (computer : LegacyComputerConfig) : Option ComputerConfig := do
  let contract ← legacyContract b computer.image computer.cpus computer.memory
  (computerConfigSchema z).parse (.bare contract computer.id computer.name computer.createdAt)

def migrateMetadataV2 (metadata : LegacyMetadata) : Option ComputerMetadata := do
  let computer ← migrateComputerV2 z b metadata.toLegacyComputerConfig
  (metadataSchema z).parse
    { toComputerConfig := computer, deletedAt := metadata.deletedAt.filter (· != "") }

inductive MetadataDocument
  | current (metadata : ComputerMetadata)
  | legacy (metadata : LegacyMetadata)
  deriving DecidableEq, Repr

def migrateConfigV2 (config : LegacyQubiclConfig) : Option QubiclConfig := do
  let defaults ← legacyContract b config.defaults.image config.defaults.cpus config.defaults.memory
  let computers ← config.computers.mapM (migrateComputerV2 z b)
  (configSchema z stateFormatVersion).parse {
    version := stateFormatVersion
    installationId := config.installationId.getD ""
    gateway := {
      port := config.gatewayPort
      image := b.gatewayImage
      viewerReconnectGraceSeconds := none
      exposure := none }
    defaults
    nextName := config.nextName
    computers }

def migrateConfigV1 (config : LegacyQubiclConfig) (installationId : String) : Option QubiclConfig := do
  let fields ← (legacyConfigV1Schema z).parse config
  let config ← (legacyConfigV2Schema z).parse
    { fields with version := 2, installationId := some installationId }
  migrateConfigV2 z b config

/- `migrateSecretsV1` and `migrateSecretsV2` -/
def migrateLegacySecrets (secrets : QubiclSecrets) : Option QubiclSecrets :=
  (secretsSchema z stateFormatVersion).parse
    { version := stateFormatVersion, computers := secrets.computers, gateway := none }

def migrateComputerV3 (computer : ComputerConfig) : Option ComputerConfig := do
  let fields ← (computerConfigSchema z).parse computer
  (computerConfigSchema z).parse { fields with runtimeName := none }

def migrateConfigV3 (config : QubiclConfig) : Option QubiclConfig := do
  let fields ← (configSchema z 3).parse config
  let computers ← fields.computers.mapM (migrateComputerV3 z)
  (configSchema z stateFormatVersion).parse
    { fields with version := stateFormatVersion, computers }

/- `migrateSecretsV3` and `migrateSecretsV4` -/
def migrateSecrets (version : ℕ) (secrets : QubiclSecrets) : Option QubiclSecrets := do
  let fields ← (secretsSchema z version).parse secrets
  (secretsSchema z stateFormatVersion).parse { fields with version := stateFormatVersion }

def developerNetwork : NetworkPolicy where
  profile := .developer
  allowDomains := some []
  denyDomains := some []
  allowCidrs := some []
  allowTcpPorts := some []
  temporaryApprovals := some []

def migrateComputerV4 (computer : ComputerConfig) : Option ComputerConfig := do
  let fields ← (computerConfigSchema z).parse computer
  (computerConfigSchema z).parse { fields with
    runtimeName := none
    controlProtocolVersion := some controlProtocolVersion
    network := some (fields.network.getD developerNetwork)
    browser := some (fields.browser.getD { maxTabs := 24 }) }

def migrateConfigV4 (config : QubiclConfig) : Option QubiclConfig := do
  let fields ← (configSchema z 4).parse config
  let computers ← fields.computers.mapM (migrateComputerV4 z)
  (configSchema z stateFormatVersion).parse
    { fields with version := stateFormatVersion, computers }

inductive TransactionDocument
  | current (transaction : StateTransaction)
  | legacy (transaction : LegacyStateTransaction)
  deriving DecidableEq, Repr

structure ParsedTransaction where
  transaction : StateTransaction
  migrated : Bool
  sourceVersion : Option ℕ
  deriving DecidableEq, Repr

def currentOperation : LegacyTransactionOperation → TransactionOperation
  | .init => .setup
  | .config => .config
  | .create => .create
  | .rename => .rename
  | .delete => .delete
  | .restore => .restore
  | .tokenRotate => .tokenRotate
  | .apply => .apply

def migrateActiveEntry (migrate : LegacyComputerConfig → Option ComputerConfig)
    (entry : ActiveTransactionEntry LegacyComputerConfig) :
    Option (ActiveTransactionEntry ComputerConfig) :=
  (migrate entry.metadata).map fun metadata => { source := entry.source, metadata }

def migrateTrashEntry (entry : TrashTransactionEntry LegacyMetadata) :
    Option (TrashTransactionEntry ComputerMetadata) :=
  (migrateMetadataV2 z b entry.metadata).map fun metadata => { metadata }

/- A version 1 transaction has no installation ID and takes its own ID for it. -/
def migrateLegacyTransactionConfig (legacy : LegacyStateTransaction) (version : ℕ) : Option QubiclConfig :=
  if version=1 then migrateConfigV1 z b legacy.config legacy.id
  else migrateConfigV2 z b legacy.config

def migrateLegacyTransaction (legacy : LegacyStateTransaction) (version : ℕ) :
    Option StateTransaction := do
  let config ← migrateLegacyTransactionConfig z b legacy version
  let secrets ← migrateLegacySecrets z legacy.secrets
  let active ← legacy.active.mapM (migrateActiveEntry (migrateComputerV2 z b))
  let trash ← legacy.trash.mapM (migrateTrashEntry z b)
  (stateTransactionSchema z transactionFormatVersion).parse {
    version := transactionFormatVersion
    id := legacy.id
    operation := currentOperation legacy.operation
    createdAt := legacy.createdAt
    phase := legacy.phase
    config
    secrets
    active
    trash
    runtime := legacy.runtime }

/- The branches for versions 4 and 3: the configuration and the secrets are
migrated, `active` and `trash` are taken as they are. -/
def upgradeTransaction (version : ℕ) (migrateConfig : QubiclConfig → Option QubiclConfig)
    (t : StateTransaction) : Option ParsedTransaction := do
  let config ← migrateConfig t.config
  let secrets ← migrateSecrets z version t.secrets
  let transaction ← (stateTransactionSchema z transactionFormatVersion).parse
    { t with version := transactionFormatVersion, config, secrets }
  some { transaction, migrated := true, sourceVersion := some version }

def parseStateTransactionDocument : TransactionDocument → Option ParsedTransaction
  | .current value =>
    match (stateTransactionSchema z transactionFormatVersion).parse value with
    | some transaction => some { transaction, migrated := false, sourceVersion := none }
    | none =>
      match (stateTransactionSchema z 4).parse value with
      | some v4 => upgradeTransaction z 4 (migrateConfigV4 z) v4
      | none =>
        match (stateTransactionSchema z 3).parse value with
        | some v3 => upgradeTransaction z 3 (migrateConfigV3 z) v3
        | none => none
  | .legacy value =>
    match (legacyStateTransactionV2Schema z).parse value with
    | some v2 => (migrateLegacyTransaction z b v2 2).map fun transaction =>
        { transaction, migrated := true, sourceVersion := some 2 }
    | none =>
      match (legacyStateTransactionV1Schema z).parse value with
      | some v1 => (migrateLegacyTransaction z b v1 1).map fun transaction =>
          { transaction, migrated := true, sourceVersion := some 1 }
      | none => none

end Qubicl.Core
