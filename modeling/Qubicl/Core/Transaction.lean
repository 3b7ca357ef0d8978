import Qubicl.Core.Config

/-!
# State transactions (packages/core/src/config.ts:482-743, 918-931)

The journal of a lifecycle operation: its target configuration and secrets, for each computer where its directory comes from,
the computers that go to the trash, and the work on the running containers.
-/

namespace Qubicl.Core
open Foundation List

inductive TransactionOperation
  | setup | config | create | upgrade | rename | delete | restore | backupRestore | tokenRotate
  | clientCredential | apply
  deriving DecidableEq, Repr

inductive LegacyTransactionOperation
  | init | config | create | rename | delete | restore | tokenRotate | apply
  deriving DecidableEq, Repr

inductive TransactionPhase
  | prepared | stateCommitted
  deriving DecidableEq, Repr

inductive ActiveTransactionSource
  | active | create | trash | staged
  deriving DecidableEq, Repr

structure ActiveTransactionEntry (α : Type) where
  source : ActiveTransactionSource
  metadata : α
  deriving DecidableEq, Repr

structure TrashTransactionEntry (α : Type) where
  metadata : α
  deriving DecidableEq, Repr

inductive RuntimeRole
  | gateway | computer | computerExecutor | computerEgress | computerWeb | computerSession
  | computerSsh
  deriving DecidableEq, Repr

structure RuntimeContainerBinding where
  name : String
  id : String
  status : String
  imageId : String
  role : RuntimeRole
  topologyVersion : Option String
  deriving DecidableEq, Repr

/- The defaults are those of `runtimeFields`: a document without the field is
read as one that has the default. -/
structure RuntimePlan where
  ensureImages : Bool
  startGateway : Bool
  replaceGatewayRunning : Bool := false
  replaceGatewayStopped : Bool := false
  gatewayRuntimeBinding : List RuntimeContainerBinding := []
  reconnectIds : List String := []
  replaceIds : List String := []
  replaceStoppedIds : List String := []
  computerRuntimeBindings : Record (List RuntimeContainerBinding) := .empty
  startIds : List String
  removeIds : List String
  verifyTokenIds : List String
  deriving DecidableEq, Repr

variable (z : Formats)

/- `/^[a-zA-Z0-9][a-zA-Z0-9_.-]{0,127}$/` -/
def containerNamePattern : String → Bool :=
  open Regex in
  (seq (choice [lower,upper,digit]) (upTo 127 (choice [lower,upper,digit,oneOf "_.-"]))).test

def runtimeContainerBindingSchema (value : RuntimeContainerBinding) : Bool :=
  containerNamePattern value.name && materialId value.id && value.status != "" &&
    sha256 value.imageId && value.topologyVersion.all (· != "")

def runtimeFields (value : RuntimePlan) : Bool :=
  value.gatewayRuntimeBinding.all runtimeContainerBindingSchema &&
    [value.reconnectIds,value.replaceIds,value.replaceStoppedIds,
      value.computerRuntimeBindings.keys,value.startIds,value.removeIds,
      value.verifyTokenIds].all (fun ids => ids.all z.uuid) &&
    value.computerRuntimeBindings.entries.all fun entry => entry.2.all runtimeContainerBindingSchema

/- What the check reads; `computers` and the metadata of `active` are compared. -/
structure TransactionValidationValue (α : Type) where
  backupRestore : Bool
  exposure : Option GatewayExposureConfig
  tls : Option GatewayExposureTlsSecret
  computers : List α
  secretIds : List String
  active : List (ActiveTransactionEntry α)
  trashIds : List String
  runtime : RuntimePlan

def loopIssues {α : Type} (key : α → String) (issues : Bool → ℕ → α → List Issue) :
    List String → ℕ → List α → List Issue
  | _, _, [] => []
  | seen, index, x::rest =>
    issues (key x ∈ seen) index x++loopIssues key issues (key x::seen) (index+1) rest

theorem loopIssues_eq_nil {α : Type} {key : α → String} {issues : Bool → ℕ → α → List Issue}
    {P : α → Prop} (hsee : ∀ i x, issues true i x≠[]) (hnew : ∀ i x, issues false i x=[] ↔ P x)
    {xs : List α} {seen : List String} {index : ℕ} :
    loopIssues key issues seen index xs=[] ↔
      (xs.map key).Nodup ∧ ∀ x ∈ xs, key x ∉ seen ∧ P x := by
  induction xs generalizing seen index with
  | nil => simp [loopIssues]
  | cons x rest ih =>
    rw [loopIssues,append_eq_nil_iff,ih]
    rw [forall_mem_cons,map_cons,nodup_cons]
    simp only [mem_map,mem_cons,not_or]
    constructor
    · rintro ⟨hx,hnod,hres⟩
      by_cases hmem : key x ∈ seen
      · simp only [hmem,decide_true] at hx
        exact absurd hx (hsee index x)
      · simp only [hmem,decide_false,hnew] at hx
        refine ⟨⟨?_,hnod⟩,⟨hmem,hx⟩,fun y hy => ⟨(hres y hy).1.2,(hres y hy).2⟩⟩
        rintro ⟨y,hy,heq⟩
        exact (hres y hy).1.1 heq
    · rintro ⟨⟨hfre,hnod⟩,⟨hmem,hx⟩,hres⟩
      refine ⟨?_,hnod,fun y hy => ⟨⟨?_,(hres y hy).1⟩,(hres y hy).2⟩⟩
      · simp only [hmem,decide_false]
        exact (hnew index x).2 hx
      · exact fun heq => hfre ⟨y,hy,heq⟩

def issueIf (condition : Bool) (path : List String) (message : String) : List Issue :=
  if condition then [⟨path,message⟩] else []

@[simp] theorem issueIf_eq_nil {condition : Bool} {path : List String} {message : String} :
    issueIf condition path message=[] ↔ condition=false := by
  cases condition <;> simp [issueIf]

def sameSet (left right : List String) : Bool :=
  left.all right.contains && right.all left.contains

theorem sameSet_iff {left right : List String} :
    sameSet left right=true ↔ ∀ id, id ∈ left ↔ id ∈ right := by
  simp only [sameSet,Bool.and_eq_true,all_eq_true,contains_iff_mem]
  exact ⟨fun h id => ⟨h.1 id,h.2 id⟩,fun h => ⟨fun id => (h id).1,fun id => (h id).2⟩⟩

def validateRuntimeIds (values allowed : List String) (path : List String) : List Issue :=
  loopIssues (fun value => value) (fun seen index value =>
    issueIf seen (path++[toString index]) "runtime IDs must be unique" ++
    issueIf (value ∉ allowed) (path++[toString index])
      "runtime ID is not part of the corresponding transaction set") [] 0 values

theorem validateRuntimeIds_eq_nil {values allowed path : List String} :
    validateRuntimeIds values allowed path=[] ↔ values.Nodup ∧ ∀ id ∈ values, id ∈ allowed := by
  unfold validateRuntimeIds
  rw [loopIssues_eq_nil (P := fun value => value ∈ allowed)]
  · simp
  · simp [issueIf]
  · simp

section Validation
variable {α : Type} [DecidableEq α] (id : α → String)

def activeIssues (t : TransactionValidationValue α) : List Issue :=
  loopIssues (fun entry => id entry.metadata) (fun seen index entry =>
    issueIf seen ["active",toString index,"metadata","id"] "active transaction IDs must be unique" ++
    issueIf (t.computers.find? (fun computer => id computer=id entry.metadata)≠some entry.metadata)
      ["active",toString index,"metadata"] "active metadata must exactly match the target config")
    [] 0 t.active

def stagedIssues (t : TransactionValidationValue α) : List Issue :=
  let staged:=t.active.filter fun entry => entry.source=.staged
  issueIf (!staged.isEmpty && (!t.backupRestore || staged.length != 1)) ["active"]
    "staged sources are reserved for one-computer backup restores"

def trashIssues (t : TransactionValidationValue α) : List Issue :=
  loopIssues (fun trashId => trashId) (fun seen index trashId =>
    issueIf seen ["trash",toString index,"metadata","id"] "trash transaction IDs must be unique" ++
    issueIf (trashId ∈ t.computers.map id) ["trash",toString index,"metadata","id"]
      "trashed IDs cannot remain in the target config") [] 0 t.trashIds

def gatewayPlanIssues (runtime : RuntimePlan) : List Issue :=
  issueIf (!allUnique (runtime.reconnectIds++runtime.replaceIds++runtime.replaceStoppedIds ++
      runtime.startIds)) ["runtime"] "reconnectIds, replaceIds, and startIds must not overlap" ++
  issueIf (runtime.replaceGatewayRunning && !runtime.startGateway)
    ["runtime","replaceGatewayRunning"] "running gateway replacement requires startGateway" ++
  issueIf (runtime.replaceGatewayRunning && runtime.replaceGatewayStopped)
    ["runtime"] "running and stopped gateway replacement are mutually exclusive" ++
  issueIf (runtime.startGateway && runtime.replaceGatewayStopped)
    ["runtime"] "startGateway and stopped gateway replacement are mutually exclusive" ++
  issueIf (runtime.gatewayRuntimeBinding.length > 1)
    ["runtime","gatewayRuntimeBinding"] "gateway runtime binding may contain at most one container" ++
  issueIf (!runtime.gatewayRuntimeBinding.isEmpty && !runtime.startGateway &&
      !runtime.replaceGatewayStopped && runtime.replaceIds.isEmpty)
    ["runtime","gatewayRuntimeBinding"]
    "gateway runtime binding requires gateway or running-computer lifecycle work"

def bindingIssues (runtime : RuntimePlan) : List Issue :=
  runtime.computerRuntimeBindings.entries.flatMap fun (computerId,bindings) =>
    issueIf (computerId ∉ runtime.replaceIds++runtime.replaceStoppedIds)
      ["runtime","computerRuntimeBindings",computerId]
      "computer runtime binding requires a matching replacement ID" ++
    issueIf (!allUnique (bindings.map (·.name)) || !allUnique (bindings.map (·.id)))
      ["runtime","computerRuntimeBindings",computerId]
      "computer runtime binding names and IDs must be unique"

def validateStateTransaction (t : TransactionValidationValue α) : List Issue :=
  let configIds:=t.computers.map id
  activeIssues id t++stagedIssues t++trashIssues id t ++
  issueIf (!sameSet configIds t.secretIds) ["secrets","computers"]
    "target secrets must exactly match target computer IDs" ++
  issueIf (!gatewayExposureTlsSecretMatches z t.exposure t.tls) ["secrets","gateway","tls"]
    "must exactly match the configured gateway exposure TLS material and digests" ++
  issueIf (!sameSet configIds (t.active.map fun entry => id entry.metadata)) ["active"]
    "active transaction entries must exactly match target computer IDs" ++
  validateRuntimeIds t.runtime.reconnectIds configIds ["runtime","reconnectIds"] ++
  validateRuntimeIds t.runtime.replaceIds configIds ["runtime","replaceIds"] ++
  validateRuntimeIds t.runtime.replaceStoppedIds configIds ["runtime","replaceStoppedIds"] ++
  validateRuntimeIds t.runtime.computerRuntimeBindings.keys configIds
    ["runtime","computerRuntimeBindings"] ++
  validateRuntimeIds t.runtime.startIds configIds ["runtime","startIds"] ++
  gatewayPlanIssues t.runtime++bindingIssues t.runtime ++
  validateRuntimeIds t.runtime.verifyTokenIds configIds ["runtime","verifyTokenIds"] ++
  validateRuntimeIds t.runtime.removeIds t.trashIds ["runtime","removeIds"]

def ActiveMatches (t : TransactionValidationValue α) : Prop :=
  ∀ entry ∈ t.active,
    t.computers.find? (fun computer => id computer=id entry.metadata)=some entry.metadata

structure TransactionShape where
  backupRestore : Bool
  exposure : Option GatewayExposureConfig
  tls : Option GatewayExposureTlsSecret
  configIds : List String
  secretIds : List String
  activeIds : List String
  sources : List ActiveTransactionSource
  trashIds : List String
  runtime : RuntimePlan

def TransactionValidationValue.shape (t : TransactionValidationValue α) : TransactionShape where
  backupRestore := t.backupRestore
  exposure := t.exposure
  tls := t.tls
  configIds := t.computers.map id
  secretIds := t.secretIds
  activeIds := t.active.map fun entry => id entry.metadata
  sources := t.active.map fun entry => entry.source
  trashIds := t.trashIds
  runtime := t.runtime

structure TransactionShape.Valid (s : TransactionShape) : Prop where
  activeNodup : s.activeIds.Nodup
  staged : .staged ∈ s.sources → s.backupRestore=true ∧ s.sources.count .staged=1
  trashNodup : s.trashIds.Nodup
  trashFresh : ∀ trashId ∈ s.trashIds, trashId ∉ s.configIds
  secretsMatch : ∀ computerId, computerId ∈ s.configIds ↔ computerId ∈ s.secretIds
  tlsMatch : gatewayExposureTlsSecretMatches z s.exposure s.tls=true
  activeMatch : ∀ computerId, computerId ∈ s.configIds ↔ computerId ∈ s.activeIds
  plan : ∀ ids ∈ [s.runtime.reconnectIds,s.runtime.replaceIds,s.runtime.replaceStoppedIds,
    s.runtime.computerRuntimeBindings.keys,s.runtime.startIds,s.runtime.verifyTokenIds],
    ids.Nodup ∧ ∀ computerId ∈ ids, computerId ∈ s.configIds
  gatewayPlan : gatewayPlanIssues s.runtime=[]
  bindings : bindingIssues s.runtime=[]
  removals : s.runtime.removeIds.Nodup ∧ ∀ trashId ∈ s.runtime.removeIds, trashId ∈ s.trashIds

variable {t : TransactionValidationValue α}

theorem activeIssues_eq_nil :
    activeIssues id t=[] ↔ (t.active.map fun entry => id entry.metadata).Nodup ∧ ActiveMatches id t := by
  unfold activeIssues
  rw [loopIssues_eq_nil (P := fun entry =>
    t.computers.find? (fun computer => id computer=id entry.metadata)=some entry.metadata)]
  · simp [ActiveMatches]
  · simp [issueIf]
  · simp

omit [DecidableEq α] in
theorem trashIssues_eq_nil :
    trashIssues id t=[] ↔ t.trashIds.Nodup ∧ ∀ trashId ∈ t.trashIds, trashId ∉ t.computers.map id := by
  unfold trashIssues
  rw [loopIssues_eq_nil (P := fun trashId => trashId ∉ t.computers.map id)]
  · simp
  · simp [issueIf]
  · simp

omit [DecidableEq α] in
theorem stagedIssues_eq_nil :
    stagedIssues t=[] ↔ (.staged ∈ t.active.map (·.source) →
      t.backupRestore=true ∧ (t.active.map (·.source)).count .staged=1) := by
  have hcou : (t.active.map (·.source)).count .staged =
      (t.active.filter fun entry => entry.source=.staged).length := by
    rw [List.count,countP_map,countP_eq_length_filter]
    congr 1
  have hmem : .staged ∈ t.active.map (·.source) ↔
      (t.active.filter fun entry => entry.source=.staged)≠[] := by
    rw [← count_pos_iff,hcou,length_pos_iff]
  rw [hcou,hmem,stagedIssues]
  simp only [issueIf_eq_nil]
  cases (t.active.filter fun entry => entry.source=.staged) <;> cases t.backupRestore <;> simp

theorem validateStateTransaction_eq_nil :
    validateStateTransaction z id t=[] ↔ (t.shape id).Valid z ∧ ActiveMatches id t := by
  simp only [validateStateTransaction,append_eq_nil_iff,activeIssues_eq_nil,
    stagedIssues_eq_nil,trashIssues_eq_nil,issueIf_eq_nil,validateRuntimeIds_eq_nil,
    Bool.not_eq_false',sameSet_iff]
  constructor
  · rintro ⟨⟨⟨⟨⟨⟨⟨⟨⟨⟨⟨⟨⟨⟨⟨hact,hmat⟩,hstd⟩,htra⟩,hsec⟩,htls⟩,hset⟩,hrec⟩,
      hrep⟩,hsto⟩,hbindingIds⟩,hsta⟩,hgat⟩,hbin⟩,hver⟩,hrem⟩
    refine ⟨⟨hact,hstd,htra.1,htra.2,hsec,htls,hset,?_,hgat,hbin,
      hrem⟩,hmat⟩
    intro ids hids
    simp only [mem_cons,not_mem_nil,or_false] at hids
    rcases hids with rfl | rfl | rfl | rfl | rfl | rfl
    exacts [hrec,hrep,hsto,hbindingIds,hsta,hver]
  · rintro ⟨h,hmat⟩
    have hpla:=h.plan
    simp only [forall_mem_cons] at hpla
    obtain ⟨hrec,hrep,hsto,hbindingIds,hsta,hver,-⟩ := hpla
    exact ⟨⟨⟨⟨⟨⟨⟨⟨⟨⟨⟨⟨⟨⟨⟨h.activeNodup,hmat⟩,h.staged⟩,h.trashNodup,h.trashFresh⟩,
      h.secretsMatch⟩,h.tlsMatch⟩,h.activeMatch⟩,hrec⟩,hrep⟩,hsto⟩,hbindingIds⟩,
      hsta⟩,h.gatewayPlan⟩,h.bindings⟩,hver⟩,h.removals⟩

end Validation

structure StateTransaction where
  version : ℕ
  id : String
  operation : TransactionOperation
  createdAt : String
  phase : TransactionPhase
  config : QubiclConfig
  secrets : QubiclSecrets
  active : List (ActiveTransactionEntry ComputerConfig)
  trash : List (TrashTransactionEntry ComputerMetadata)
  runtime : RuntimePlan
  deriving DecidableEq, Repr

structure LegacyStateTransaction where
  version : ℕ
  id : String
  operation : LegacyTransactionOperation
  createdAt : String
  phase : TransactionPhase
  config : LegacyQubiclConfig
  secrets : QubiclSecrets
  active : List (ActiveTransactionEntry LegacyComputerConfig)
  trash : List (TrashTransactionEntry LegacyMetadata)
  runtime : RuntimePlan
  deriving DecidableEq, Repr

def StateTransaction.validation (t : StateTransaction) : TransactionValidationValue ComputerConfig where
  backupRestore := t.operation=.backupRestore
  exposure := t.config.gateway.exposure
  tls := t.secrets.gateway.map (·.tls)
  computers := t.config.computers
  secretIds := t.secrets.computers.keys
  active := t.active
  trashIds := t.trash.map (·.metadata.id)
  runtime := t.runtime

def LegacyStateTransaction.validation (t : LegacyStateTransaction) :
    TransactionValidationValue LegacyComputerConfig where
  backupRestore := false
  exposure := none
  tls := t.secrets.gateway.map (·.tls)
  computers := t.config.computers
  secretIds := t.secrets.computers.keys
  active := t.active
  trashIds := t.trash.map (·.metadata.id)
  runtime := t.runtime

def activeTransactionEntrySchema : Schema (ActiveTransactionEntry ComputerConfig) where
  parse entry := ((computerConfigSchema z).parse entry.metadata).map fun metadata =>
    { entry with metadata }
  stable {x y} h := by
    obtain ⟨metadata,hmetadata,rfl⟩ := Option.map_eq_some_iff.1 h
    rw [Schema.stable _ hmetadata]
    rfl

/- `MetadataSchema.required({ deletedAt: true })` -/
def trashTransactionEntrySchema : Schema (TrashTransactionEntry ComputerMetadata) where
  parse entry := if entry.metadata.deletedAt.isSome then
      ((metadataSchema z).parse entry.metadata).map fun metadata => { entry with metadata }
    else none
  stable {x y} h := by
    obtain ⟨hdeleted,hmap⟩ := Option.ite_none_right_eq_some.1 h
    obtain ⟨metadata,hmetadata,rfl⟩ := Option.map_eq_some_iff.1 hmap
    have : metadata.deletedAt=x.metadata.deletedAt := metadataSchema_deletedAt z hmetadata
    rw [this,if_pos hdeleted,Schema.stable _ hmetadata]
    rfl

/- `StateTransactionSchema` is the schema of version 5; versions 4 and 3 are
`LegacyStateTransactionV4Schema` and `LegacyStateTransactionV3Schema`. -/
def stateTransactionSchema (version : ℕ) : Schema StateTransaction where
  parse value :=
    if value.version≠version ∨ !z.uuid value.id ∨ !z.datetime value.createdAt ∨
        !runtimeFields z value.runtime then none
    else do
      let config ← (configSchema z version).parse value.config
      let secrets ← (secretsSchema z version).parse value.secrets
      let active ← (activeTransactionEntrySchema z).array.parse value.active
      let trash ← (trashTransactionEntrySchema z).array.parse value.trash
      let parsed:={ value with config, secrets, active, trash }
      if (validateStateTransaction z ComputerConfig.id parsed.validation).isEmpty then some parsed
      else none
  stable {x y} h := by
    simp only [Option.bind_eq_bind,Option.bind_eq_some_iff,Option.ite_none_left_eq_some,
      Option.ite_none_right_eq_some,Option.some.injEq] at h
    obtain ⟨hfields,config,hconfig,secrets,hsecrets,active,hactive,trash,htrash,hvalid,rfl⟩ := h
    rw [if_neg hfields]
    simp only [Schema.stable _ hconfig,Schema.stable _ hsecrets,Schema.stable _ hactive,
      Schema.stable _ htrash,Option.bind_eq_bind,Option.bind_some,hvalid,if_true]

def legacyActiveEntry (entry : ActiveTransactionEntry LegacyComputerConfig) : Bool :=
  entry.source != .staged && legacyComputer z entry.metadata

def legacyTrashEntry (entry : TrashTransactionEntry LegacyMetadata) : Bool :=
  entry.metadata.deletedAt.isSome && legacyMetadataV2Schema z entry.metadata

def legacyStateTransactionSchema (version : ℕ) (config : Schema LegacyQubiclConfig) :
    Schema LegacyStateTransaction where
  parse value :=
    if value.version≠version ∨ !z.uuid value.id ∨ !z.datetime value.createdAt ∨
        !runtimeFields z value.runtime ∨ !value.active.all (legacyActiveEntry z) ∨
        !value.trash.all (legacyTrashEntry z) then none
    else do
      let config ← config.parse value.config
      let secrets ← (legacySecretsSchema z version).parse value.secrets
      let parsed:={ value with config, secrets }
      if (validateStateTransaction z LegacyComputerConfig.id parsed.validation).isEmpty then some parsed
      else none
  stable {x y} h := by
    simp only [Option.bind_eq_bind,Option.bind_eq_some_iff,Option.ite_none_left_eq_some,
      Option.ite_none_right_eq_some,Option.some.injEq] at h
    obtain ⟨hfields,config',hconfig,secrets,hsecrets,hvalid,rfl⟩ := h
    rw [if_neg hfields]
    simp only [Schema.stable _ hconfig,Schema.stable _ hsecrets,Option.bind_eq_bind,
      Option.bind_some,hvalid,if_true]

def legacyStateTransactionV1Schema : Schema LegacyStateTransaction :=
  legacyStateTransactionSchema z 1 (legacyConfigV1Schema z)

def legacyStateTransactionV2Schema : Schema LegacyStateTransaction :=
  legacyStateTransactionSchema z 2 (legacyConfigV2Schema z)

end Qubicl.Core
